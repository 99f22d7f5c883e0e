import Ccat.Native.EthLink
import Ccat.Spec.EthRxRing
import Ccat.Spec.EthTxCorrect

/-!
# The link state machine

`poll_link()` compares the link bit with the carrier flag, so the carrier flag is the
driver's memory of the last link bit. A change from down to up resets both FIFOs, from
whatever state they are in, and the reset leaves every slot of the TX ring flagged: the
frame that enables forwarding finds slot 0 free.

## Key results

- `pollTimerObserved_priv`, `startXmitObserved_priv`: the record does not change the callbacks
- `linkView_hw`: the hardware changes nothing that this module is about
- `wp_linkUp`: both resets and the forward frame, from any state of the rings
- `link_state_machine`: carrier, resets and forward frames in every run
-/

namespace Ccat.Native.Eth

open Interleave Memory

/-! ## The record -/

/-- Without its record the observed callback is `poll_timer_callback()`. -/
theorem pollTimerObserved_priv {δ : Type} (v : Variant δ) (o : Observed) :
    Observed.priv <$> pollTimerObserved v o = pollTimerCallback v o.priv := by
  simp [pollTimerObserved, pollTimerCallback, pollLinkObserved, pollLink, pollLinkOn]

/-- Without the record it is `ccat_eth_start_xmit()`. -/
theorem startXmitObserved_priv {δ : Type} (v : Variant δ) (o : Observed) (skb : Skb) :
    Observed.priv <$> startXmitObserved v o skb = (do
      let (_, txFifo) ← ccatEthStartXmit v o.priv.txFifo skb
      return { o.priv with txFifo := txFifo }) := by
  simp [startXmitObserved]

section Record

variable (up : Bool) (es : List LinkEvent)

/-- The link bit read last. -/
theorem linkSeen_polled (link : Bool) : linkSeen up (es ++ [.polled link]) = link := by
  induction es generalizing up with
  | nil => rfl
  | cons e es ih => cases e <;> exact ih _

/-- A transmission does not read it. -/
theorem linkSeen_xmit (skb : Skb) (res : NetdevTx) :
    linkSeen up (es ++ [.xmit skb res]) = linkSeen up es := by
  induction es generalizing up with
  | nil => rfl
  | cons e es ih => cases e <;> exact ih _

/-- A poll counts if it finds the link up where it was down. -/
theorem linkUps_polled (link : Bool) : linkUps up (es ++ [.polled link]) =
    linkUps up es + if link && !linkSeen up es then 1 else 0 := by
  induction es generalizing up with
  | nil => simp [linkUps, linkSeen]
  | cons e es ih =>
    cases e with
    | polled l => simp [linkUps, linkSeen, ih, Nat.add_assoc]
    | xmit skb res => exact ih _

/-- A transmission does not count. -/
theorem linkUps_xmit (skb : Skb) (res : NetdevTx) :
    linkUps up (es ++ [.xmit skb res]) = linkUps up es := by
  induction es generalizing up with
  | nil => rfl
  | cons e es ih =>
    cases e with
    | polled l => simp [linkUps, ih]
    | xmit skb res => exact ih _

/-- What came since the last change to up begins anew with every change. -/
theorem sinceLinkUp_polled (link : Bool) : sinceLinkUp up (es ++ [.polled link]) =
    if link && !linkSeen up es then some []
    else (sinceLinkUp up es).map (· ++ [.polled link]) := by
  induction es generalizing up with
  | nil => rfl
  | cons e es ih =>
    cases e with
    | polled l =>
      have hseen : linkSeen up (.polled l :: es) = linkSeen l es := rfl
      rw [List.cons_append, sinceLinkUp, ih, sinceLinkUp, hseen]
      cases hup : link && !linkSeen l es with
      | true => rfl
      | false =>
        cases sinceLinkUp l es with
        | some later => rfl
        | none => cases hl : l && !up <;> rfl
    | xmit skb res => exact ih _

/-- A transmission is one more event. -/
theorem sinceLinkUp_xmit (skb : Skb) (res : NetdevTx) :
    sinceLinkUp up (es ++ [.xmit skb res]) =
      (sinceLinkUp up es).map (· ++ [.xmit skb res]) := by
  induction es generalizing up with
  | nil => rfl
  | cons e es ih =>
    cases e with
    | polled l =>
      simp only [List.cons_append, sinceLinkUp, ih]
      cases hs : sinceLinkUp l es with
      | some later => rfl
      | none => cases hl : l && !up <;> rfl
    | xmit skb res => exact ih _

/-- There is a last change iff there is one. -/
theorem sinceLinkUp_isSome : (sinceLinkUp up es).isSome ↔ 0 < linkUps up es := by
  induction es generalizing up with
  | nil => simp [sinceLinkUp, linkUps]
  | cons e es ih =>
    cases e with
    | polled l =>
      simp only [sinceLinkUp, linkUps]
      cases hs : sinceLinkUp l es with
      | some later =>
        have hpos := (ih l).mp (by simp [hs])
        simp
        omega
      | none =>
        have hzero : linkUps l es = 0 := by
          have hnot := mt (ih l).mpr (by simp [hs])
          omega
        rw [hzero]
        cases hl : l && !up <;> simp
    | xmit skb res => exact ih up

end Record

/-! ## What the hardware leaves alone -/

/-- The part of the machine that the link state machine is about. -/
structure LinkView where
  reg : Nat
  base : Nat
  carrier : Bool
  rxResets : Nat
  txResets : Nat
  /-- How often the ring was found full. -/
  busy : Nat
  /-- What was queued since the last reset. -/
  queued : List (List UInt8)

def linkView (s : DmaMachine) : LinkView where
  reg := s.dev.txReg
  base := s.dev.tx.base
  carrier := s.net.carrier
  rxResets := s.rxLog.countP RxEvent.isReset
  txResets := s.txLog.countP TxEvent.isReset
  busy := s.txLog.countP TxEvent.isBusy
  queued := queuedFrames (txSince s.txLog)

/-- The hardware does not change the view. -/
theorem linkView_hw (a : HwStep) (s : DmaMachine) : linkView (hwStep a s) = linkView s := by
  have heffect := hwStep_effect a s
  generalize hwStep a s = t at heffect ⊢
  cases heffect with
  | lost p _ => simp [linkView, RxEvent.isReset]
  | stored p off queue _ _ => simp [linkView, RxEvent.isReset]
  | wire off queue _ _ =>
    simp only [linkView, queuedFrames_concat _ (rfl : (TxEvent.wire _).isReset = false)]
    simp [TxEvent.isReset, TxEvent.isBusy, queuedFrames]
  | done off queue _ _ => rfl
  | link w => rfl
  | nothing => rfl

/-- The first frame queued after a reset: it is the forward frame, in slot 0, and the slot holds
    its bytes when the descriptor is written. -/
def FirstQueued (txResets₀ base : Nat) (s t : DmaMachine) : Prop :=
  ∀ p, t.txLog = s.txLog ++ [.queued p] → txResets₀ < s.txLog.countP TxEvent.isReset →
    queuedFrames (txSince s.txLog) = [] →
      p = frameForwardEthernetFrames ∧ t.dev.tx.queue = s.dev.tx.queue ++ [slotOff 0] ∧
        (t.dev.tx.mem (base + slotOff 0)).payload = frameForwardEthernetFrames

section Run

variable {n base : Nat} {x : LinkView} {s t : DmaMachine}

/-- The hardware does not change what the account is about. -/
theorem linkView_stable : Stable Hw (linkView · = x) := by
  rintro s _ hs ⟨a, rfl⟩
  rw [linkView_hw, hs]

theorem firstQueued_of_ne (h : ∀ p, t.txLog ≠ s.txLog ++ [.queued p]) : FirstQueued n base s t :=
  fun p hp => absurd hp (h p)

theorem firstQueued_of_eq (h : t.txLog = s.txLog) : FirstQueued n base s t :=
  firstQueued_of_ne fun p hp => by simp [h] at hp

/-! ## Updates that do not matter -/

/-- The update does not change the view or the TX log. -/
def KeepsLink (reg : Nat) (upd : DmaMachine → DmaMachine) : Prop :=
  ∀ t, t.dev.txReg = reg → linkView (upd t) = linkView t ∧ (upd t).txLog = t.txLog

theorem read_keepsLink {α : Type} {reg : Nat} (g : DmaMachine → α) :
    (Prog.read g).All (KeepsLink reg) fun _ => True :=
  Prog.all_read (fun _ _ => ⟨rfl, rfl⟩) fun _ => trivial

/-- Arming a descriptor keeps the view. -/
theorem rxAdd_keepsLink {reg : Nat} {f : Fifo} (hf : f.reg = reg + 0x10) :
    (ccatEthRxFifoDmaAdd f).All (KeepsLink reg) fun _ => True := by
  unfold ccatEthRxFifoDmaAdd
  refine Prog.all_modify_bind (fun _ _ => ⟨rfl, rfl⟩) (Prog.all_modify fun t ht => ?_)
  rw [hf, iowrite32_rx ht]
  simp [linkView, RxEvent.isReset]

/-- `poll_rx()` keeps the view. -/
theorem pollRx_keepsLink {reg : Nat} {f : Fifo} (hf : f.reg = reg + 0x10) :
    (pollRx dma f).All (KeepsLink reg) fun f' => f'.reg = reg + 0x10 := by
  apply pollRx_all (I := fun f => f.reg = reg + 0x10)
  case hinc => exact fun f hf => (ccatEthFifoInc_reg f).trans hf
  case hready =>
    intro f
    refine Prog.all_bind (read_keepsLink _) fun _ _ => Prog.all_ite ?_ trivial
    exact Prog.all_bind (read_keepsLink _) fun _ _ => trivial
  case hadd => exact fun f hf => rxAdd_keepsLink hf
  case hcopy => exact fun f len => read_keepsLink _
  case hbytes => exact fun _ _ _ => ⟨rfl, rfl⟩
  case hnetif => exact fun _ _ _ => by simp [linkView, RxEvent.isReset]
  case hnoMem => exact fun _ _ => by simp [linkView, RxEvent.isReset]
  case hf => exact hf

/-- A program of such updates. -/
theorem wp_of_keepsLink {α : Type} {ψ : α → Prop} {prog : Prog DmaMachine α}
    (hall : prog.All (KeepsLink x.reg) ψ) (hs : linkView s = x) :
    wp Hw (FirstQueued n base) prog (fun a t => ψ a ∧ linkView t = x) s := by
  refine wp_of_all linkView_stable hs (Prog.all_mono hall fun upd hkeeps t ht => ?_)
  obtain ⟨hview, hlog⟩ := hkeeps t (congrArg LinkView.reg ht)
  exact ⟨firstQueued_of_eq hlog, hview.trans ht⟩

theorem wp_modify_keepsLink {upd : DmaMachine → DmaMachine} (hupd : KeepsLink x.reg upd)
    (hs : linkView s = x) :
    wp Hw (FirstQueued n base) (.modify upd) (fun _ t => linkView t = x) s :=
  wp_mono (wp_of_keepsLink (Prog.all_modify hupd) hs) fun _ _ h => h.2

/-! ## Transmitting -/

/-- What queueing a frame does to the view. -/
theorem linkView_queued {f : Fifo} (skb : Skb) (hreg : f.reg = x.reg) (ht : linkView t = x) :
    linkView (dmaIowrite32 (addrAndLength f skb.len) f.reg
      { t with txLog := t.txLog ++ [.queued skb.data] }) =
        { x with queued := x.queued ++ [skb.data] } := by
  subst ht
  have htreg : DmaDev.txReg (Machine.dev { t with txLog := t.txLog ++ [.queued skb.data] }) =
      (linkView t).reg := rfl
  rw [hreg, iowrite32_tx htreg]
  simp only [linkView, queuedFrames_concat _ (rfl : (TxEvent.queued _).isReset = false)]
  simp [TxEvent.isReset, TxEvent.isBusy, queuedFrames]

/-- `fifo_dma_queue_skb()` into any slot, when it is not the first since a link change. -/
theorem wp_queueSkb_link {f : Fifo} {skb : Skb} (hreg : f.reg = x.reg)
    (hfirst : n < x.txResets → x.queued ≠ []) (hs : linkView s = x) :
    wp Hw (FirstQueued n base) (fifoDmaQueueSkb f skb)
      (fun _ t => linkView t = { x with queued := x.queued ++ [skb.data] }) s := by
  unfold fifoDmaQueueSkb
  refine wp_seq (wp_modify_keepsLink (fun _ _ => ⟨rfl, rfl⟩) hs) fun _ s hs => ?_
  refine wp_seq (wp_modify_keepsLink (fun _ _ => ⟨rfl, rfl⟩) hs) fun _ s hs => ?_
  refine wp_seq (wp_modify_keepsLink (fun _ _ => ⟨rfl, rfl⟩) hs) fun _ s hs => ?_
  refine wp_modify linkView_stable hs fun t ht => ⟨fun p _ hn hnil => ?_, linkView_queued _ hreg ht⟩
  subst ht
  exact absurd hnil (hfirst hn)

/-- What a call of the stack does to the view. -/
def LinkView.xmit (x : LinkView) (skb : Skb) (res : NetdevTx) : LinkView :=
  { x with
    busy := x.busy + [LinkEvent.xmit skb res].countP LinkEvent.isBusy
    queued := x.queued ++ [LinkEvent.xmit skb res].filterMap LinkEvent.frame? }

/-- `ccat_eth_start_xmit()` of any skb on any state of the ring. -/
theorem wp_startXmit_link {k : Nat} {f : Fifo} {skb : Skb} (hf : RingFifo x.reg x.base k f)
    (hfirst : n < x.txResets → x.queued ≠ []) (hs : linkView s = x) :
    wp Hw (FirstQueued n base) (ccatEthStartXmit dma f skb)
      (fun r t => (∃ k, RingFifo x.reg x.base k r.2) ∧ linkView t = x.xmit skb r.1) s := by
  -- a frame that is dropped is not queued
  have hdrop : ¬(skb.nonlinear = false ∧ skb.len ≤ MAX_PAYLOAD_SIZE) →
      wp Hw (FirstQueued n base) (do Prog.modify txDrop; return (NetdevTx.ok, f))
        (fun r t => (∃ k, RingFifo x.reg x.base k r.2) ∧ linkView t = x.xmit skb r.1) s := by
    intro hnot
    refine wp_seq (wp_modify_keepsLink (fun _ _ => ⟨rfl, rfl⟩) hs) fun _ t ht => ?_
    refine wp_pure ⟨⟨k, hf⟩, ?_⟩
    simp [LinkView.xmit, LinkEvent.isBusy, LinkEvent.frame?, hnot, ht]
  unfold ccatEthStartXmit
  by_cases hlin : skb.nonlinear = true
  · rw [if_pos hlin]
    exact hdrop (by simp [hlin])
  rw [if_neg hlin]
  by_cases hlen : skb.len > MAX_PAYLOAD_SIZE
  · rw [if_pos hlen]
    exact hdrop fun h => absurd h.2 (Nat.not_le.mpr hlen)
  rw [if_neg hlen]
  refine wp_seq (wp_of_keepsLink (read_keepsLink _) hs) fun ready s hs₁ => ?_
  obtain ⟨-, hs₁⟩ := hs₁
  by_cases hready : ready = 0
  · -- the ring is full
    rw [if_pos hready]
    refine wp_seq (M := fun _ t => linkView t = { x with busy := x.busy + 1 }) ?_ fun _ t ht => ?_
    · refine wp_modify linkView_stable hs₁ fun t ht => ⟨firstQueued_of_ne fun p hp => ?_, ?_⟩
      · simp [txRingFull, netifStopQueue] at hp
      · subst ht
        simp only [txRingFull, netifStopQueue, linkView,
          queuedFrames_concat _ (rfl : TxEvent.busy.isReset = false)]
        simp [TxEvent.isReset, TxEvent.isBusy, queuedFrames]
    · exact wp_pure ⟨⟨k, hf⟩, by simp [LinkView.xmit, LinkEvent.isBusy, LinkEvent.frame?, ht]⟩
  · rw [if_neg hready]
    refine wp_seq (wp_queueSkb_link hf.reg_eq hfirst hs₁) fun _ s hs₂ => ?_
    refine wp_seq (wp_modify_keepsLink (fun _ _ => ⟨rfl, rfl⟩) hs₂) fun _ s hs₂ => ?_
    -- the frame is queued behind the others
    have hqueued : { x with queued := x.queued ++ [skb.data] } = x.xmit skb .ok := by
      have hok : skb.nonlinear = false ∧ skb.len ≤ MAX_PAYLOAD_SIZE :=
        ⟨by simpa using hlin, Nat.not_lt.mp hlen⟩
      simp [LinkView.xmit, LinkEvent.isBusy, LinkEvent.frame?, hok]
    rw [hqueued] at hs₂
    refine wp_seq (wp_of_keepsLink (read_keepsLink _) hs₂) fun ready s hs₃ => ?_
    by_cases hready : ready = 0
    · rw [if_pos hready]
      refine wp_seq (wp_modify_keepsLink (fun _ _ => ⟨rfl, rfl⟩) hs₃.2) fun _ s hs₄ => ?_
      exact wp_pure ⟨⟨k + 1, ringFifo_inc hf⟩, hs₄⟩
    · rw [if_neg hready]
      exact wp_pure ⟨⟨k + 1, ringFifo_inc hf⟩, hs₃.2⟩

/-! ## Resets -/

/-- `ccat_eth_fifo_reset()` of the RX FIFO. -/
theorem wp_rxFifoReset_link {f : Fifo} (hreg : f.reg = x.reg + 0x10) (hs : linkView s = x) :
    wp Hw (FirstQueued n base) (ccatEthFifoReset dma ccatEthRxFifoDmaAdd f)
      (fun f' t => f'.reg = x.reg + 0x10 ∧ linkView t = { x with rxResets := x.rxResets + 1 })
      s := by
  unfold ccatEthFifoReset ccatEthFifoHwReset
  rw [if_pos (by rw [hreg]; exact Nat.succ_ne_zero _)]
  refine wp_seq (M := fun _ t => linkView t = { x with rxResets := x.rxResets + 1 }) ?_
    fun _ t ht => ?_
  · refine wp_modify linkView_stable hs fun t ht => ?_
    show FirstQueued n base t (dmaIowrite32 0 (f.reg + 0x8) t) ∧
      linkView (dmaIowrite32 0 (f.reg + 0x8) t) = _
    rw [hreg, iowrite32_rxReset (congrArg LinkView.reg ht)]
    refine ⟨firstQueued_of_eq rfl, ?_⟩
    subst ht
    simp [linkView, RxEvent.isReset]
  · exact wp_of_keepsLink (addSlots_all (fun f hf => (ccatEthFifoInc_reg f).trans hf)
      (fun _ hf => rxAdd_keepsLink hf) _ hreg) ht

/-- Nothing is queued for transmission, and the ring is as `P` says. -/
def Quiet (x : LinkView) (P : (Nat → DmaFrame) → Prop) (s : DmaMachine) : Prop :=
  linkView s = x ∧ s.dev.tx.queue = [] ∧ P s.dev.tx.mem

/-- The hardware does not touch the ring then. -/
theorem quiet_stable {P : (Nat → DmaFrame) → Prop} : Stable Hw (Quiet x P) := by
  rintro s t ⟨hview, hqueue, hmem⟩ hR
  have htx : t.dev.tx = s.dev.tx := by
    cases hR.effect with
    | done off queue hcons _ =>
      rw [hqueue] at hcons
      cases hcons
    | _ => rfl
  obtain ⟨a, rfl⟩ := hR
  refine ⟨(linkView_hw a s).trans hview, ?_, ?_⟩
  · rw [htx]
    exact hqueue
  · rw [htx]
    exact hmem

/-- The first `k` slots are flagged. -/
def FlaggedTo (base k : Nat) (mem : Nat → DmaFrame) : Prop :=
  ∀ j, j < k → (mem (base + slotOff j)).Sent

/-- `ccat_eth_fifo_reset()` of the TX FIFO, from any state of the ring. -/
theorem wp_txFifoReset_link {k : Nat} {f : Fifo} (hne : x.reg ≠ 0)
    (hf : RingFifo x.reg x.base k f) (hs : linkView s = x) :
    wp Hw (FirstQueued n base) (ccatEthFifoReset dma ccatEthTxFifoDmaAddFree f)
      (fun f' t => RingFifo x.reg x.base 0 f' ∧
        Quiet { x with txResets := x.txResets + 1, queued := [] }
          (FlaggedTo x.base FIFO_LENGTH) t) s := by
  unfold ccatEthFifoReset ccatEthFifoHwReset
  rw [if_pos (by rw [hf.reg_eq]; exact hne)]
  refine wp_seq (M := fun _ => Quiet { x with txResets := x.txResets + 1, queued := [] }
    (FlaggedTo x.base 0)) ?_ fun _ t ht => ?_
  · refine wp_modify linkView_stable hs fun t ht => ?_
    -- the reset empties the queue of the hardware
    show FirstQueued n base t (dmaIowrite32 0 (f.reg + 0x8) t) ∧
      Quiet _ _ (dmaIowrite32 0 (f.reg + 0x8) t)
    rw [hf.reg_eq, iowrite32_txReset (congrArg LinkView.reg ht)]
    refine ⟨firstQueued_of_ne fun p hp => by simp at hp, ?_, rfl,
      fun j hj => absurd hj (Nat.not_lt_zero j)⟩
    subst ht
    -- the log since the last reset begins anew
    have hsince : txSince (t.txLog ++ [.reset]) = [] := List.since_concat_of_pos t.txLog rfl
    simp [linkView, TxEvent.isReset, TxEvent.isBusy, hsince, queuedFrames]
  · -- with the queue empty the loop flags the slots from the start of the ring on
    have hf' : RingFifo x.reg x.base 0 { f with next := f.start } :=
      ringFifo_start hf.reg_eq hf.start_eq hf.end_eq
    refine wp_addSlots (fun k => Quiet { x with txResets := x.txResets + 1, queued := [] }
      (FlaggedTo x.base k)) (fun k hk f s hf hs => ?_) (by decide) hf' ht
    unfold ccatEthTxFifoDmaAddFree
    rw [hf.next_eq]
    refine wp_modify quiet_stable hs fun t ht => ⟨firstQueued_of_eq rfl, ht.1, ht.2.1, ?_⟩
    -- one more slot is flagged, and the others stay so
    intro j hj
    show (setFrame t.dev.tx.mem (x.base + slotOff k) _ (x.base + slotOff j)).Sent
    by_cases hjk : j = k
    · subst hjk
      rw [setFrame_self]
      show CCAT_FRAME_SENT &&& CCAT_FRAME_SENT ≠ 0
      decide
    · rw [setFrame_ne _ _ _ (slotOff_inj (by omega) (by omega))]
      exact ht.2.2 j (by omega)

/-! ## Link changes -/

/-- An assignment to a slot of a quiet ring. -/
theorem wp_setFrame_quiet {addr : Nat} {P Q : DmaFrame → Prop} {g : DmaFrame → DmaFrame}
    (hg : ∀ fr, P fr → Q (g fr)) (hs : Quiet x (fun mem => P (mem addr)) s) :
    wp Hw (FirstQueued n base)
      (.modify fun s => { s with dev.tx.mem := setFrame s.dev.tx.mem addr g })
      (fun _ => Quiet x fun mem => Q (mem addr)) s := by
  refine wp_modify quiet_stable hs ?_
  rintro t ⟨hview, hqueue, hmem⟩
  refine ⟨firstQueued_of_eq rfl, hview, hqueue, ?_⟩
  show Q (setFrame t.dev.tx.mem addr g addr)
  rw [setFrame_self]
  exact hg _ hmem

/-- The forward frame is filled into slot 0 and handed over. -/
theorem wp_queueForward {f : Fifo} (hf : RingFifo x.reg x.base 0 f) (hnil : x.queued = [])
    (hs : Quiet x (fun _ => True) s) :
    wp Hw (FirstQueued n x.base) (fifoDmaQueueSkb f ⟨false, frameForwardEthernetFrames⟩)
      (fun _ t => linkView t = { x with queued := [frameForwardEthernetFrames] }) s := by
  have hnext := hf.next_eq
  unfold fifoDmaQueueSkb
  rw [hnext]
  -- flags, length and data, with nothing queued in between
  refine wp_seq (wp_setFrame_quiet (P := fun _ => True) (Q := fun _ => True)
    (fun _ _ => trivial) hs) fun _ t ht => ?_
  refine wp_seq (wp_setFrame_quiet (P := fun _ => True)
    (Q := fun fr => fr.length = frameForwardEthernetFrames.length) (fun _ _ => rfl) ht)
    fun _ t ht => ?_
  refine wp_seq (wp_setFrame_quiet
    (P := fun fr => fr.length = frameForwardEthernetFrames.length)
    (Q := fun fr => fr.payload = frameForwardEthernetFrames) (fun fr hlen => ?_) ht)
    fun _ t ht => ?_
  · show slice (blit fr.data 0 frameForwardEthernetFrames) 0 fr.length = _
    rw [hlen]
    exact slice_blit ..
  · refine wp_modify quiet_stable ht ?_
    rintro t ⟨hview, hqueue, hdata⟩
    refine ⟨?_, (linkView_queued ⟨false, frameForwardEthernetFrames⟩ hf.reg_eq hview).trans
      (by rw [hnil]; rfl)⟩
    have htreg : DmaDev.txReg (Machine.dev { t with
        txLog := t.txLog ++ [.queued frameForwardEthernetFrames] }) = x.reg :=
      congrArg LinkView.reg hview
    show FirstQueued n x.base t (dmaIowrite32 (addrAndLength f frameForwardEthernetFrames.length)
      f.reg { t with txLog := t.txLog ++ [.queued frameForwardEthernetFrames] })
    -- the descriptor is that of slot 0
    rw [hf.reg_eq, iowrite32_tx htreg, decode_addrAndLength hf]
    -- the frame in the log is the one in slot 0
    intro p hp _ _
    have hframe : frameForwardEthernetFrames = p := by simpa using hp
    exact ⟨hframe.symm, rfl, hdata⟩

/-- `ccat_eth_xmit_raw()` of the forward frame after a reset: the ring is not full. -/
theorem wp_xmitRaw_link {f : Fifo} (hf : RingFifo x.reg x.base 0 f) (hnil : x.queued = [])
    (hs : Quiet x (FlaggedTo x.base FIFO_LENGTH) s) :
    wp Hw (FirstQueued n x.base) (ccatEthXmitRaw dma f frameForwardEthernetFrames)
      (fun f' t => RingFifo x.reg x.base 1 f' ∧
        linkView t = { x with queued := [frameForwardEthernetFrames] }) s := by
  have hf' := ringFifo_inc hf
  unfold ccatEthXmitRaw ccatEthStartXmit
  rw [if_neg (by decide), if_neg (by decide)]
  refine wp_seq (M := fun r t => RingFifo x.reg x.base 1 r.2 ∧
    linkView t = { x with queued := [frameForwardEthernetFrames] }) ?_ fun r t ht => wp_pure ht
  refine wp_seq (M := fun ready t => ready ≠ 0 ∧ Quiet x (fun _ => True) t) ?_ fun ready t ht => ?_
  · -- all slots were just flagged, so the first one is free
    refine wp_read quiet_stable hs fun t ht => ⟨firstQueued_of_eq rfl, ?_, ht.1, ht.2.1, trivial⟩
    rw [hf.next_eq]
    exact ht.2.2 0 (by decide)
  rw [if_neg ht.1]
  refine wp_seq (wp_queueForward hf hnil ht.2) fun _ t ht => ?_
  refine wp_seq (wp_modify_keepsLink (fun _ _ => ⟨rfl, rfl⟩) ht) fun _ t ht => ?_
  refine wp_seq (wp_of_keepsLink (read_keepsLink _) ht) fun ready t ht => ?_
  -- the queue may be stopped; the account does not mention it
  by_cases hready : ready = 0
  · rw [if_pos hready]
    exact wp_seq (wp_modify_keepsLink (fun _ _ => ⟨rfl, rfl⟩) ht.2) fun _ t ht => wp_pure ⟨hf', ht⟩
  · rw [if_neg hready]
    exact wp_pure ⟨hf', ht.2⟩

/-- What a link-up does to the view. -/
def LinkView.linkUp (x : LinkView) : LinkView :=
  { x with
    carrier := true
    rxResets := x.rxResets + 1
    txResets := x.txResets + 1
    queued := [frameForwardEthernetFrames] }

/-- The FIFOs of the driver, in any state. -/
structure LinkFifos (x : LinkView) (priv : Priv) : Prop where
  rx : priv.rxFifo.reg = x.reg + 0x10
  tx : ∃ k, RingFifo x.reg x.base k priv.txFifo

/-- `ccat_eth_link_up()` from any state of the rings. -/
theorem wp_linkUp {priv : Priv} (hne : x.reg ≠ 0) (hp : LinkFifos x priv) (hs : linkView s = x) :
    wp Hw (FirstQueued n x.base) (ccatEthLinkUp dma priv)
      (fun priv' t => LinkFifos x priv' ∧ linkView t = x.linkUp) s := by
  obtain ⟨k, hf⟩ := hp.tx
  unfold ccatEthLinkUp
  refine wp_seq (wp_rxFifoReset_link hp.rx hs) fun rxFifo t ht => ?_
  obtain ⟨hrx, ht⟩ := ht
  refine wp_seq (wp_txFifoReset_link (x := { x with rxResets := x.rxResets + 1 }) hne hf ht)
    fun txFifo t ht => ?_
  refine wp_seq (wp_xmitRaw_link (x := { x with
    rxResets := x.rxResets + 1, txResets := x.txResets + 1, queued := [] }) ht.1 rfl ht.2)
    fun txFifo t ht => ?_
  obtain ⟨htx, ht⟩ := ht
  refine wp_seq (M := fun _ t => linkView t = x.linkUp) ?_ fun _ t ht => ?_
  · refine wp_modify linkView_stable ht fun t ht => ⟨firstQueued_of_eq rfl, ?_⟩
    show { linkView t with carrier := true } = _
    rw [ht]
    rfl
  refine wp_seq (wp_modify_keepsLink (fun _ _ => ⟨rfl, rfl⟩) ht) fun _ t ht => ?_
  exact wp_pure ⟨⟨hrx, 1, htx⟩, ht⟩

/-- What `poll_link()` does to the view. -/
def LinkView.polled (x : LinkView) (link : Bool) : LinkView :=
  if link && !x.carrier then x.linkUp else { x with carrier := link }

/-- `poll_link()`, once the link bit is read. -/
theorem wp_pollLinkOn {priv : Priv} (hne : x.reg ≠ 0) (hp : LinkFifos x priv) (link : Bool)
    (hs : linkView s = x) :
    wp Hw (FirstQueued n x.base) (pollLinkOn dma priv link)
      (fun priv' t => LinkFifos x priv' ∧ linkView t = x.polled link) s := by
  unfold pollLinkOn
  refine wp_seq (M := fun carrier t => carrier = x.carrier ∧ linkView t = x) ?_
    fun carrier t ht => ?_
  · refine wp_read linkView_stable hs fun t ht => ⟨firstQueued_of_eq rfl, ?_, ht⟩
    exact congrArg LinkView.carrier ht
  obtain ⟨rfl, ht⟩ := ht
  -- nothing is done when the link bit did not change
  by_cases hchange : link ≠ x.carrier
  · rw [if_pos hchange]
    cases link with
    | true =>
      have hdown : x.carrier = false := by simpa using hchange
      have hpolled : x.polled true = x.linkUp := by simp [LinkView.polled, hdown]
      rw [if_pos rfl, hpolled]
      exact wp_linkUp hne hp ht
    -- the link went down: the FIFOs and what is queued stay as they are
    | false =>
      rw [if_neg (by decide)]
      unfold ccatEthLinkDown
      refine wp_seq (M := fun _ t => linkView t = x.polled false) ?_ fun _ t ht => wp_pure ⟨hp, ht⟩
      refine wp_seq (wp_modify_keepsLink (fun _ _ => ⟨rfl, rfl⟩) ht) fun _ t ht => ?_
      refine wp_modify linkView_stable ht fun t ht => ⟨firstQueued_of_eq rfl, ?_⟩
      show { linkView t with carrier := false } = _
      rw [ht]
      rfl
  · rw [if_neg hchange]
    have hsame : link = x.carrier := by simpa using hchange
    have hpolled : x.polled link = x := by simp [LinkView.polled, hsame]
    rw [hpolled]
    exact wp_pure ⟨hp, ht⟩

/-- `poll_timer_callback()` from any state of the rings. -/
theorem wp_pollTimer_link {o : Observed} (hne : x.reg ≠ 0) (hp : LinkFifos x o.priv)
    (hs : linkView s = x) :
    wp Hw (FirstQueued n x.base) (pollTimerObserved dma o)
      (fun o' t => ∃ link, o'.events = o.events ++ [.polled link] ∧ LinkFifos x o'.priv ∧
        linkView t = x.polled link) s := by
  unfold pollTimerObserved pollLinkObserved
  refine wp_seq (M := fun r t => LinkFifos x r.2 ∧ linkView t = x.polled r.1) ?_ fun r t ht => ?_
  · refine wp_seq (wp_of_keepsLink (read_keepsLink _) hs) fun link t ht => ?_
    refine wp_seq (wp_pollLinkOn hne hp link ht.2) fun priv t ht => ?_
    exact wp_pure ht
  obtain ⟨link, priv⟩ := r
  obtain ⟨hp', ht⟩ := ht
  -- receiving and waking the queue add nothing to the account
  have hreg : (x.polled link).reg = x.reg := by
    unfold LinkView.polled
    split <;> rfl
  refine wp_seq (wp_of_keepsLink (pollRx_keepsLink (hp'.rx.trans (by rw [hreg]))) ht)
    fun rxFifo t ht => ?_
  refine wp_seq (M := fun _ t => linkView t = x.polled link) ?_ fun _ t ht' => ?_
  · refine wp_seq (wp_of_keepsLink (read_keepsLink _) ht.2) fun ready t ht => ?_
    by_cases hready : ready ≠ 0
    · rw [if_pos hready]
      exact wp_modify_keepsLink (fun _ _ => ⟨rfl, rfl⟩) ht.2
    · rw [if_neg hready]
      exact wp_pure ht.2
  exact wp_pure ⟨link, rfl, ⟨ht.1.trans (by rw [hreg]), hp'.tx⟩, ht'⟩

end Run

/-! ## Every run -/

/-- The carrier flag after `poll_link()`, from any state. -/
theorem wp_pollLinkObserved_carrier (priv : Priv) (s : DmaMachine) :
    wp Hw (fun _ _ => True) (pollLinkObserved dma priv) (fun r t => t.net.carrier = r.1) s := by
  have hstable : ∀ b, Stable Hw fun t => t.net.carrier = b := by
    rintro b t _ ht ⟨a, rfl⟩
    exact (congrArg LinkView.carrier (linkView_hw a t)).trans ht
  -- the flag after the last write to it
  have hset : ∀ (upd : DmaMachine → DmaMachine) (b : Bool) (t : DmaMachine),
      (∀ t, (upd t).net.carrier = b) →
      wp Hw (fun _ _ => True) (.modify upd) (fun _ t => t.net.carrier = b) t :=
    fun upd b t hupd => wp_modify (P := fun _ => True) (fun _ _ _ _ => trivial) trivial
      fun t _ => ⟨trivial, hupd t⟩
  unfold pollLinkObserved
  refine wp_seq (M := fun _ _ => True) (wp_end (fun _ _ => trivial) _ s) fun link t _ => ?_
  refine wp_seq (M := fun _ t => t.net.carrier = link) ?_ fun priv t ht => wp_pure ht
  unfold pollLinkOn
  refine wp_seq (M := fun carrier t => t.net.carrier = carrier) ?_ fun carrier t ht => ?_
  · exact wp_read (P := fun _ => True) (fun _ _ _ _ => trivial) trivial fun t _ => ⟨trivial, rfl⟩
  by_cases hchange : link ≠ carrier
  · rw [if_pos hchange]
    cases link with
    | true =>
      rw [if_pos rfl]
      -- whatever happened before, the carrier is turned on behind it
      unfold ccatEthLinkUp
      refine wp_seq (M := fun _ _ => True) (wp_end (fun _ _ => trivial) _ t) fun rxFifo t _ => ?_
      refine wp_seq (M := fun _ _ => True) (wp_end (fun _ _ => trivial) _ t) fun txFifo t _ => ?_
      refine wp_seq (M := fun _ _ => True) (wp_end (fun _ _ => trivial) _ t) fun txFifo t _ => ?_
      refine wp_seq (hset netifCarrierOn true t fun _ => rfl) fun _ t ht => ?_
      exact wp_seq (wp_modify (hstable true) ht fun t ht => ⟨trivial, ht⟩) fun _ t ht => wp_pure ht
    | false =>
      rw [if_neg (by decide)]
      unfold ccatEthLinkDown
      refine wp_seq (M := fun _ t => t.net.carrier = false) ?_ fun _ t ht => wp_pure ht
      refine wp_seq (M := fun _ _ => True) (wp_end (fun _ _ => trivial) _ t) fun _ t _ => ?_
      exact hset netifCarrierOff false t fun _ => rfl
  · -- the flag already says what was read
    rw [if_neg hchange]
    have hsame : link = carrier := by simpa using hchange
    exact wp_pure (ht.trans hsame.symm)

/-- The view after the events `es`, with `q` queued since the last reset. -/
def LinkView.after (x : LinkView) (es : List LinkEvent) (q : List (List UInt8)) : LinkView where
  reg := x.reg
  base := x.base
  carrier := linkSeen x.carrier es
  rxResets := x.rxResets + linkUps x.carrier es
  txResets := x.txResets + linkUps x.carrier es
  busy := x.busy + es.countP LinkEvent.isBusy
  queued := q

/-- What holds between callbacks. -/
structure LinkJ (x : LinkView) (o : Observed) (s : DmaMachine) : Prop where
  fifos : LinkFifos x o.priv
  view : ∃ q, linkView s = x.after o.events q ∧
    ∀ later, sinceLinkUp x.carrier o.events = some later →
      q = frameForwardEthernetFrames :: later.filterMap LinkEvent.frame?

section After

variable {x : LinkView} {es : List LinkEvent} {q : List (List UInt8)}

/-- The account after one more poll. -/
theorem LinkView.after_polled (link : Bool)
    (hq : ∀ later, sinceLinkUp x.carrier es = some later →
      q = frameForwardEthernetFrames :: later.filterMap LinkEvent.frame?) :
    ∃ q', (x.after es q).polled link = x.after (es ++ [.polled link]) q' ∧
      ∀ later, sinceLinkUp x.carrier (es ++ [.polled link]) = some later →
        q' = frameForwardEthernetFrames :: later.filterMap LinkEvent.frame? := by
  have hcarrier : (x.after es q).carrier = linkSeen x.carrier es := rfl
  -- the link came up, and a new account begins; or the old one goes on
  cases hup : link && !linkSeen x.carrier es with
  | true =>
    obtain rfl : link = true := (Bool.and_eq_true_iff.mp hup).1
    refine ⟨[frameForwardEthernetFrames], ?_, fun later hlater => ?_⟩
    · rw [LinkView.polled, hcarrier, if_pos hup]
      simp only [LinkView.linkUp, LinkView.after, linkSeen_polled, linkUps_polled, hup,
        List.countP_append, List.countP_singleton, LinkEvent.isBusy, if_true, Bool.false_eq_true,
        if_false, Nat.add_zero, Nat.add_assoc]
    · rw [sinceLinkUp_polled, if_pos hup] at hlater
      cases hlater
      rfl
  | false =>
    have hnot : ¬(link && !linkSeen x.carrier es) = true := by simp [hup]
    refine ⟨q, ?_, fun later hlater => ?_⟩
    · rw [LinkView.polled, hcarrier, if_neg hnot]
      simp only [LinkView.after, linkSeen_polled, linkUps_polled, hup, List.countP_append,
        List.countP_singleton, LinkEvent.isBusy, Bool.false_eq_true, if_false, Nat.add_zero]
    · -- a poll is no frame, so the frames since are the same
      rw [sinceLinkUp_polled, if_neg hnot] at hlater
      obtain ⟨l, hl, rfl⟩ := Option.map_eq_some_iff.mp hlater
      rw [hq l hl, List.filterMap_append]
      exact (List.append_nil _).symm

/-- The account after one more transmission. -/
theorem LinkView.after_xmit (skb : Skb) (res : NetdevTx)
    (hq : ∀ later, sinceLinkUp x.carrier es = some later →
      q = frameForwardEthernetFrames :: later.filterMap LinkEvent.frame?) :
    ∃ q', (x.after es q).xmit skb res = x.after (es ++ [.xmit skb res]) q' ∧
      ∀ later, sinceLinkUp x.carrier (es ++ [.xmit skb res]) = some later →
        q' = frameForwardEthernetFrames :: later.filterMap LinkEvent.frame? := by
  refine ⟨q ++ [LinkEvent.xmit skb res].filterMap LinkEvent.frame?, ?_, fun later hlater => ?_⟩
  · simp only [LinkView.after, LinkView.xmit, linkSeen_xmit, linkUps_xmit, List.countP_append,
      Nat.add_assoc]
  · rw [sinceLinkUp_xmit] at hlater
    obtain ⟨l, hl, rfl⟩ := Option.map_eq_some_iff.mp hlater
    rw [hq l hl, List.filterMap_append]
    rfl

/-- After a link change something is queued. -/
theorem LinkView.after_queued_ne
    (hq : ∀ later, sinceLinkUp x.carrier es = some later →
      q = frameForwardEthernetFrames :: later.filterMap LinkEvent.frame?)
    (h : x.txResets < (x.after es q).txResets) : (x.after es q).queued ≠ [] := by
  have hups : 0 < linkUps x.carrier es := by
    have h' : x.txResets < x.txResets + linkUps x.carrier es := h
    omega
  obtain ⟨later, hlater⟩ := Option.isSome_iff_exists.mp ((sinceLinkUp_isSome _ _).mpr hups)
  show q ≠ []
  rw [hq later hlater]
  exact List.cons_ne_nil _ _

end After

/-- `poll_timer_callback()` between two states of the record. -/
theorem wp_pollTimerObserved {x : LinkView} {o : Observed} {s : DmaMachine} (hne : x.reg ≠ 0)
    (hs : LinkJ x o s) :
    wp Hw (FirstQueued x.txResets x.base) (pollTimerObserved dma o) (LinkJ x) s := by
  obtain ⟨hp, q, hview, hq⟩ := hs
  refine wp_mono (wp_pollTimer_link (x := x.after o.events q) hne ⟨hp.rx, hp.tx⟩ hview)
    fun o' t ht => ?_
  obtain ⟨link, hevents, hp', ht⟩ := ht
  refine ⟨⟨hp'.rx, hp'.tx⟩, ?_⟩
  -- the record and the view change together
  rw [hevents]
  obtain ⟨q', hafter, hq'⟩ := LinkView.after_polled link hq
  exact ⟨q', ht.trans hafter, hq'⟩

/-- `ccat_eth_start_xmit()` between two states of the record. -/
theorem wp_startXmitObserved {x : LinkView} {o : Observed} {s : DmaMachine} (skb : Skb)
    (hs : LinkJ x o s) :
    wp Hw (FirstQueued x.txResets x.base) (startXmitObserved dma o skb) (LinkJ x) s := by
  obtain ⟨hp, q, hview, hq⟩ := hs
  obtain ⟨k, hf⟩ := hp.tx
  unfold startXmitObserved
  refine wp_seq (wp_startXmit_link (x := x.after o.events q) hf (LinkView.after_queued_ne hq) hview)
    fun r t ht => ?_
  obtain ⟨q', hafter, hq'⟩ := LinkView.after_xmit skb r.1 hq
  exact wp_pure ⟨⟨hp.rx, ht.1⟩, q', ht.2.trans hafter, hq'⟩

/-- Every callback keeps the account. -/
theorem linkSystem_correct {x : LinkView} (hne : x.reg ≠ 0) :
    linkSystem.Correct (LinkJ x) (FirstQueued x.txResets x.base) := by
  constructor
  · rintro o s t ⟨hp, q, hview, hq⟩ hR
    exact ⟨hp, q, linkView_stable hview hR, hq⟩
  · intro o s prog hs hcall
    cases hcall with
    | timer => exact wp_pollTimerObserved hne hs
    | startXmit skb => exact wp_startXmitObserved skb hs

/-- The account of a run from `s₀` that made the events `es` and ended in `s`. -/
structure LinkAccount (s₀ : DmaMachine) (es : List LinkEvent) (s : DmaMachine) : Prop where
  carrier : s.net.carrier = linkSeen s₀.net.carrier es
  rxResets : s.rxLog.countP RxEvent.isReset =
    s₀.rxLog.countP RxEvent.isReset + linkUps s₀.net.carrier es
  txResets : s.txLog.countP TxEvent.isReset =
    s₀.txLog.countP TxEvent.isReset + linkUps s₀.net.carrier es
  /-- Only calls of the stack find the ring full. -/
  busy : s.txLog.countP TxEvent.isBusy =
    s₀.txLog.countP TxEvent.isBusy + es.countP LinkEvent.isBusy
  /-- Since the last change to up: the forward frame once, then frames of the stack. -/
  forward : ∀ later, sinceLinkUp s₀.net.carrier es = some later →
    queuedFrames (txSince s.txLog) =
      frameForwardEthernetFrames :: later.filterMap LinkEvent.frame?

/-- **The link state machine.** In every run from any state of the rings and of the link:
    between callbacks the carrier flag is the link bit read last, both FIFOs were reset once for
    every change from down to up and the forward frame was queued first and once since; the
    first descriptor written after such a reset is that of slot 0 with the forward frame in it;
    and wherever a `poll_link()` starts, it ends with the carrier flag as the link bit it read. -/
theorem link_state_machine (priv₀ : Priv) (s₀ : DmaMachine) (k : Nat) (hne : s₀.dev.txReg ≠ 0)
    (hrx : priv₀.rxFifo.reg = s₀.dev.txReg + 0x10)
    (htx : RingFifo s₀.dev.txReg s₀.dev.tx.base k priv₀.txFifo)
    (c : Config DmaMachine Observed) (hreach : linkSystem.Reach ⟨.idle ⟨priv₀, []⟩, s₀⟩ c) :
    (∀ o, c.control = .idle o → LinkAccount s₀ o.events c.state) ∧
      (∀ c', linkSystem.Step c c' →
        FirstQueued (s₀.txLog.countP TxEvent.isReset) s₀.dev.tx.base c.state c'.state) ∧
      ∀ priv, wp Hw (fun _ _ => True) (pollLinkObserved dma priv)
        (fun r t => t.net.carrier = r.1) c.state := by
  have hcorrect := linkSystem_correct (x := linkView s₀) hne
  -- at first nothing has been observed
  have hinit : LinkJ (linkView s₀) ⟨priv₀, []⟩ s₀ :=
    ⟨⟨hrx, k, htx⟩, queuedFrames (txSince s₀.txLog), rfl, fun _ h => nomatch h⟩
  have hstart : linkSystem.Ok (LinkJ (linkView s₀))
      (FirstQueued (s₀.txLog.countP TxEvent.isReset) s₀.dev.tx.base)
      ⟨.idle ⟨priv₀, []⟩, s₀⟩ := hinit
  have hok := System.reach_ok hcorrect hstart hreach
  refine ⟨fun o hidle => ?_, fun c' hstep => ?_,
    fun priv => wp_pollLinkObserved_carrier priv c.state⟩
  · unfold System.Ok at hok
    rw [hidle] at hok
    -- the account is read off the view
    obtain ⟨-, q, hview, hq⟩ := hok
    constructor
    case carrier => exact congrArg LinkView.carrier hview
    case rxResets => exact congrArg LinkView.rxResets hview
    case txResets => exact congrArg LinkView.txResets hview
    case busy => exact congrArg LinkView.busy hview
    case forward =>
      intro later hlater
      exact (congrArg LinkView.queued hview).trans (hq later hlater)
  · rcases System.step_rel hok hstep with ⟨a, ha⟩ | hG | heq
    · -- the hardware queues nothing
      refine firstQueued_of_ne fun p hp => ?_
      have hview := congrArg LinkView.queued (linkView_hw a c.state)
      rw [← ha] at hview
      simp only [linkView, hp, queuedFrames_concat _ (rfl : (TxEvent.queued p).isReset = false)]
        at hview
      simp [queuedFrames] at hview
    · exact hG
    · exact firstQueued_of_eq (congrArg Machine.txLog heq)

/-- A machine whose link has just come up. -/
private def linkedMachine : DmaMachine :=
  { DmaMachine.zeroed 0x100 0x20000 0x40000 with dev.mii := 2 ^ 24 }

/-- The driver in the middle of a ring whose slots are all in use. -/
private def midRing : Observed :=
  ⟨⟨⟨0x110, 0x20000, 0x20000, 0x3f800⟩, ⟨0x100, 0x40000, 0x41800, 0x5f800⟩⟩, []⟩

/-- The first callback after the link came up. -/
theorem link_state_machine_linkUp :
    LinkAccount linkedMachine
      ((pollTimerObserved dma midRing).exec (fun _ => true) 0 linkedMachine).1.events
      ((pollTimerObserved dma midRing).exec (fun _ => true) 0 linkedMachine).2 :=
  (link_state_machine midRing.priv linkedMachine 3 (by decide) rfl ⟨rfl, rfl, rfl, rfl⟩ _
    (.head (.start .timer) (System.reach_exec (fun _ => true) _ 0 _))).1 _ rfl

end Ccat.Native.Eth
