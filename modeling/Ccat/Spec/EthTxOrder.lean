import Ccat.Spec.EthLinkCorrect

/-!
# Frames on the wire

What `EthTxCorrect` proves of the transmit ring and `EthLinkCorrect` of the frames queued
since the last reset, put together for every run: no frame in flight is overwritten, every
skb that `ccat_eth_start_xmit()` accepts is queued once, and the frames queued go on the wire
in their order.

## Key results

- `TxJ.startXmit_queued`, `TxJ.timer_queued`: what a callback queues
- `dma_tx_in_order`: no frame in flight is overwritten, and every frame is sent once, in order
-/

namespace Ccat.Native.Eth

open Interleave Memory

/-! ## What is queued -/

/-- What a call of `ccat_eth_start_xmit()` has to queue: the frame, if it is linear and not too
    long. -/
def Skb.accepted (skb : Skb) : List (List UInt8) :=
  if skb.nonlinear = false ∧ skb.len ≤ MAX_PAYLOAD_SIZE then [skb.data] else []

/-- How many frames each callback queues, whatever the hardware does meanwhile. A call of
    `ccat_eth_start_xmit()` with the queue awake queues its frame once, unless it drops it. A
    timer callback queues nothing; or the link came up, and after the reset the forward frame is
    queued once. -/
structure QueuesOnce (priv : Priv) (s : DmaMachine) : Prop where
  xmit : s.net.awake = true → ∀ skb r t,
    RunsTo Hw (ccatEthStartXmit dma priv.txFifo skb) s r t →
      r.1 = .ok ∧
      queuedFrames (txSince t.txLog) = queuedFrames (txSince s.txLog) ++ skb.accepted
  timer : ∀ priv' t, RunsTo Hw (pollTimerCallback dma priv) s priv' t →
    t.txLog.countP TxEvent.isReset = s.txLog.countP TxEvent.isReset ∧
      queuedFrames (txSince t.txLog) = queuedFrames (txSince s.txLog) ∨
    t.txLog.countP TxEvent.isReset = s.txLog.countP TxEvent.isReset + 1 ∧
      queuedFrames (txSince t.txLog) = [frameForwardEthernetFrames]

section Queued

variable {reg start : Nat} {priv : Priv} {s : DmaMachine}

/-- The queue is awake, so the slot at `next` is flagged. -/
theorem TxIdleAt.flagged {k : Nat} (h : TxIdleAt reg start k s) (hawake : s.net.awake = true) :
    TxInv reg start (fun o => o = slotOff k) s := by
  rcases h with h | h
  · exact h
  · rw [hawake] at h
    exact absurd h.2 (by decide)

/-- A call of the stack with the queue awake queues the frame that it accepts. -/
theorem TxJ.startXmit_queued (h : TxJ reg start priv s) (hawake : s.net.awake = true) {skb : Skb}
    {r : NetdevTx × Fifo} {t : DmaMachine}
    (hrun : RunsTo Hw (ccatEthStartXmit dma priv.txFifo skb) s r t) :
    r.1 = .ok ∧
      queuedFrames (txSince t.txLog) = queuedFrames (txSince s.txLog) ++ skb.accepted := by
  obtain ⟨⟨k, hf, hidle⟩, -⟩ := h
  have hinv := hidle.flagged hawake
  -- the ring is not found full
  obtain ⟨k', -, hend⟩ := wp_runsTo (fun _ _ _ ⟨k, hf, hat⟩ hR => ⟨k, hf, txIdleAt_stable hat hR⟩)
    (wp_startXmit hf skb hinv) hrun
  have hbusy : (linkView t).busy = 0 := by
    refine List.countP_eq_zero.mpr fun e he hisBusy => ?_
    cases e with
    | busy => exact hend.inv.ring.no_busy he
    | reset | queued | wire => exact absurd hisBusy Bool.false_ne_true
  have hring : RingFifo (linkView s).reg (linkView s).base k priv.txFifo := by
    show RingFifo s.dev.txReg s.dev.tx.base k priv.txFifo
    rw [hinv.reg_eq, hinv.base_eq]
    exact hf
  -- the account of the link state says what a transmission logs
  have hlink : wp Hw (FirstQueued (linkView s).txResets 0) (ccatEthStartXmit dma priv.txFifo skb)
      (fun r t => (∃ k, RingFifo (linkView s).reg (linkView s).base k r.2) ∧
        linkView t = (linkView s).xmit skb r.1) s :=
    wp_startXmit_link hring (fun hlt => absurd hlt (Nat.lt_irrefl _)) rfl
  obtain ⟨-, hview⟩ := wp_runsTo (fun _ _ _ ⟨hk, hv⟩ hR => ⟨hk, linkView_stable hv hR⟩) hlink hrun
  obtain ⟨res, f'⟩ := r
  cases res with
  | busy =>
    rw [hview] at hbusy
    exact absurd hbusy (Nat.succ_ne_zero _)
  | ok =>
    refine ⟨rfl, (congrArg LinkView.queued hview).trans ?_⟩
    -- a frame that is refused is neither logged nor kept
    by_cases haccept : skb.nonlinear = false ∧ skb.len ≤ MAX_PAYLOAD_SIZE
    · simp [LinkView.xmit, Skb.accepted, LinkEvent.frame?, haccept, linkView]
    · simp [LinkView.xmit, Skb.accepted, LinkEvent.frame?, haccept, linkView]

/-- A timer callback queues the forward frame, and only after a reset. -/
theorem TxJ.timer_queued (hne : reg ≠ 0) (h : TxJ reg start priv s) {priv' : Priv} {t : DmaMachine}
    (hrun : RunsTo Hw (pollTimerCallback dma priv) s priv' t) :
    t.txLog.countP TxEvent.isReset = s.txLog.countP TxEvent.isReset ∧
      queuedFrames (txSince t.txLog) = queuedFrames (txSince s.txLog) ∨
    t.txLog.countP TxEvent.isReset = s.txLog.countP TxEvent.isReset + 1 ∧
      queuedFrames (txSince t.txLog) = [frameForwardEthernetFrames] := by
  obtain ⟨⟨k, hf, hidle⟩, hrx⟩ := h
  have hreg : (linkView s).reg = reg := hidle.inv.reg_eq
  have hbase : (linkView s).base = start := hidle.inv.base_eq
  have hfifos : LinkFifos (linkView s) priv :=
    ⟨by rw [hreg]; exact hrx, k, by rw [hreg, hbase]; exact hf⟩
  -- the callback that also records the link bit logs the same events
  have hwp : wp Hw (FirstQueued 0 (linkView s).base) (pollTimerCallback dma priv)
      (fun _ t => ∃ link, linkView t = (linkView s).polled link) s := by
    rw [← pollTimerObserved_priv dma ⟨priv, []⟩, map_eq_pure_bind]
    refine wp_seq (wp_pollTimer_link (o := ⟨priv, []⟩) (by rw [hreg]; exact hne) hfifos rfl)
      fun o t ht => ?_
    obtain ⟨link, -, -, ht⟩ := ht
    exact wp_pure ⟨link, ht⟩
  obtain ⟨link, hview⟩ := wp_runsTo (fun _ _ _ ⟨link, hv⟩ hR => ⟨link, linkView_stable hv hR⟩) hwp
    hrun
  -- the FIFO is reset iff the link is found up where it was down
  unfold LinkView.polled at hview
  split at hview
  · exact .inr ⟨congrArg LinkView.txResets hview, congrArg LinkView.queued hview⟩
  · exact .inl ⟨congrArg LinkView.txResets hview, congrArg LinkView.queued hview⟩

/-- What holds between callbacks makes the next one queue each frame once. -/
theorem TxJ.queuesOnce (hne : reg ≠ 0) (h : TxJ reg start priv s) : QueuesOnce priv s where
  xmit hawake _ _ _ hrun := h.startXmit_queued hawake hrun
  timer _ _ hrun := h.timer_queued hne hrun

end Queued

/-! ## Every run -/

/-- What holds of the transmit side at every moment: the queued slots are different slots of the
    ring, the wire has seen the frames queued since the last reset in their order, and the ring
    was never found full with the queue awake. -/
structure TxAlways (s : DmaMachine) : Prop where
  nodup : s.dev.tx.queue.Nodup
  length_le : s.dev.tx.queue.length ≤ FIFO_LENGTH
  inOrder : InOrder s.txLog
  no_busy : TxEvent.busy ∉ s.txLog

/-- What one step does to a queued slot: it stays queued with all its bytes, or the hardware
    flags it and changes nothing else, or the FIFO is reset. -/
def SlotSafe (s t : DmaMachine) : Prop :=
  ∀ off ∈ s.dev.tx.queue,
    (off ∈ t.dev.tx.queue ∧
      t.dev.tx.mem (s.dev.tx.base + off) = s.dev.tx.mem (s.dev.tx.base + off)) ∨
    t.dev.tx.mem (s.dev.tx.base + off) = (s.dev.tx.mem (s.dev.tx.base + off)).complete ∨
    t.txLog = s.txLog ++ [.reset]

/-- The part of the invariant that the result states. -/
private theorem TxInv.always {reg start : Nat} {S : Nat → Prop} {s : DmaMachine}
    (h : TxInv reg start S s) : TxAlways s := by
  refine ⟨h.ring.nodup, ?_, h.ring.inOrder, h.ring.no_busy⟩
  -- the queue is part of the 64 slots
  have hsub : s.dev.tx.queue ⊆ slots 0 FIFO_LENGTH := by
    intro off hoff
    obtain ⟨k, rfl⟩ := h.ring.slots off hoff
    refine mem_slots.mpr ⟨k % FIFO_LENGTH, Nat.mod_lt _ (by decide), ?_⟩
    unfold slotOff
    rw [Nat.zero_add, Nat.mod_mod]
  exact (List.subperm_of_subset h.ring.nodup hsub).length_le

/-- **The DMA transmit path.** In every run from the set-up of the FIFOs, with the hardware
    stepping anywhere, the transmit side is as `TxAlways` says at every moment and no step changes
    a slot in flight. Between callbacks an awake queue means that the slot at `next` is free, and
    the next callback queues each frame it accepts once, as `QueuesOnce` says. -/
theorem dma_tx_in_order (rx tx : Fifo) (s₀ : DmaMachine) (h : Fresh rx tx s₀)
    (c : Config DmaMachine Priv)
    (hreach : dmaSystem.Reach ⟨.running (setUpFifos rx tx), s₀⟩ c) :
    TxAlways c.state ∧
      (∀ c', dmaSystem.Step c c' → SlotSafe c.state c'.state) ∧
      ∀ priv, c.control = .idle priv →
        (c.state.net.awake = true → (c.state.dev.tx.mem priv.txFifo.next).Sent) ∧
          QueuesOnce priv c.state := by
  have hcorrect : dmaSystem.Correct (TxJ s₀.dev.txReg s₀.dev.tx.base)
      (TxGuar s₀.dev.txReg s₀.dev.tx.base) := dmaSystem_correct_tx h.txReg_ne
  have hok : dmaSystem.Ok (TxJ s₀.dev.txReg s₀.dev.tx.base) (TxGuar s₀.dev.txReg s₀.dev.tx.base)
      ⟨.running (setUpFifos rx tx), s₀⟩ := wp_setUpFifos_tx h
  have hinv := System.reach_always hcorrect
    (A := TxInv s₀.dev.txReg s₀.dev.tx.base fun _ => False)
    (fun s t hs hR => txInv_stable hs hR) (fun s t _ hG => hG.1) hok h.txInv hreach
  have hend := System.reach_ok hcorrect hok hreach
  refine ⟨hinv.always, fun c' hstep => ?_, fun priv hidle => ?_⟩
  · intro off hoff
    -- the step is one of the hardware, of the driver, or changes no state
    rcases System.step_rel hend hstep with ⟨a, ha⟩ | ⟨-, hkeep | hreset⟩ | heq
    · obtain ⟨-, hhw⟩ := txInv_hw hinv a
      rw [← ha] at hhw
      by_cases hin : off ∈ c'.state.dev.tx.queue
      · exact .inl ⟨hin, hhw.keep off (.inl hin)⟩
      · exact .inr (.inl (hhw.done off hoff hin))
    · exact .inl (hkeep off hoff)
    · exact .inr (.inr hreset)
    · rw [heq]
      exact .inl ⟨hoff, rfl⟩
  · unfold System.Ok at hend
    rw [hidle] at hend
    refine ⟨fun hawake => ?_, TxJ.queuesOnce h.txReg_ne hend⟩
    obtain ⟨⟨k, hf, hat⟩, -⟩ := hend
    rw [hf.next_eq]
    -- the ring is known to be free at `next`, or the queue is stopped
    rcases hat with hat | hat
    · exact hat.ring.sent _ rfl
    · rw [hawake] at hat
      exact nomatch hat.2

/-- The link comes up after the set-up, and a timer callback sees it. -/
def dmaLinkedUp : Priv × DmaMachine :=
  (pollTimerCallback dma dmaAfterSetUp.1).exec (fun _ => true) 0
    (hwStep (.link (2 ^ 24)) dmaAfterSetUp.2)

/-- This is a state of a run. -/
theorem dmaLinkedUp_reach : dmaSystem.Reach
    ⟨.running (setUpFifos ⟨0x110, 0x20000, 0, 0⟩ ⟨0x100, 0x40000, 0, 0⟩),
      .zeroed 0x100 0x20000 0x40000⟩ ⟨.idle dmaLinkedUp.1, dmaLinkedUp.2⟩ := by
  have hsetUp : dmaSystem.Reach
      ⟨.running (setUpFifos ⟨0x110, 0x20000, 0, 0⟩ ⟨0x100, 0x40000, 0, 0⟩),
        .zeroed 0x100 0x20000 0x40000⟩ ⟨.idle dmaAfterSetUp.1, dmaAfterSetUp.2⟩ :=
    System.reach_exec (fun _ => true) _ 0 _
  have hlink : dmaSystem.Reach ⟨.idle dmaAfterSetUp.1, dmaAfterSetUp.2⟩
      ⟨.idle dmaLinkedUp.1, dmaLinkedUp.2⟩ :=
    .head (.env ⟨.link (2 ^ 24), rfl⟩)
      (.head (.start .timer) (System.reach_exec (fun _ => true) _ 0 _))
  exact hsetUp.trans hlink

/-- The stack sends a frame. -/
def dmaXmit (skb : Skb) (priv : Priv) (s : DmaMachine) : Priv × DmaMachine :=
  (ccatEthStartXmit dma priv.txFifo skb >>= fun r =>
    pure { priv with txFifo := r.2 }).exec (fun _ => true) 0 s

/-- It does so while the queue is awake. -/
theorem dmaXmit_reach {priv : Priv} {s : DmaMachine} (skb : Skb) (hawake : s.net.awake = true) :
    dmaSystem.Reach ⟨.idle priv, s⟩ ⟨.idle (dmaXmit skb priv s).1, (dmaXmit skb priv s).2⟩ :=
  .head (.start (.startXmit skb hawake)) (System.reach_exec (fun _ => true) _ 0 _)

/-- A frame of the stack behind the forward frame. -/
def dmaAfterXmit : Priv × DmaMachine := dmaXmit ⟨false, [7, 8]⟩ dmaLinkedUp.1 dmaLinkedUp.2

/-- The hardware sends the forward frame and that of the stack. -/
def dmaAfterWire : DmaMachine :=
  hwStep .txTransmit (hwStep .txComplete (hwStep .txTransmit dmaAfterXmit.2))

/-- The run goes on to here. -/
theorem dmaAfterWire_reach : dmaSystem.Reach
    ⟨.running (setUpFifos ⟨0x110, 0x20000, 0, 0⟩ ⟨0x100, 0x40000, 0, 0⟩),
      .zeroed 0x100 0x20000 0x40000⟩ ⟨.idle dmaAfterXmit.1, dmaAfterWire⟩ := by
  have hxmit : dmaSystem.Reach ⟨.idle dmaLinkedUp.1, dmaLinkedUp.2⟩
      ⟨.idle dmaAfterXmit.1, dmaAfterXmit.2⟩ := dmaXmit_reach _ (by decide +kernel)
  have hwire : dmaSystem.Reach ⟨.idle dmaAfterXmit.1, dmaAfterXmit.2⟩
      ⟨.idle dmaAfterXmit.1, dmaAfterWire⟩ :=
    .head (.env ⟨.txTransmit, rfl⟩) (.head (.env ⟨.txComplete, rfl⟩)
      (.single (.env ⟨.txTransmit, rfl⟩)))
  exact dmaLinkedUp_reach.trans (hxmit.trans hwire)

/-- Both frames were queued once and went on the wire in their order; the next callback finds the
    transmit side in order. -/
theorem dma_tx_in_order_sent :
    queuedFrames (txSince dmaAfterWire.txLog) = [frameForwardEthernetFrames, [7, 8]] ∧
      wireFrames (txSince dmaAfterWire.txLog) = [frameForwardEthernetFrames, [7, 8]] ∧
      TxAlways dmaAfterWire ∧ (dmaAfterWire.dev.tx.mem dmaAfterXmit.1.txFifo.next).Sent ∧
      QueuesOnce dmaAfterXmit.1 dmaAfterWire := by
  obtain ⟨halways, -, hidle⟩ := dma_tx_in_order ⟨0x110, 0x20000, 0, 0⟩ ⟨0x100, 0x40000, 0, 0⟩
    (.zeroed 0x100 0x20000 0x40000) fresh_zeroed _ dmaAfterWire_reach
  obtain ⟨hsent, honce⟩ := hidle _ rfl
  exact ⟨by decide +kernel, by decide +kernel, halways, hsent (by decide +kernel), honce⟩

end Ccat.Native.Eth
