import Ccat.Spec.EthEimTx
import Ccat.Spec.EthRxChannel

/-!
# The receive queue of the EIM variant

There is one slot, and its length says whose it is: the CCAT stores a frame when it is 0,
and the driver writes that 0 when it is done. A reset does not take the slot away from the
CCAT, so that a frame which arrives between the reset and the `add` behind it goes with
that `add`. From then on no frame is lost on the side of the driver.

## Key results

- `eimRxView_lawful`: the operations of the EIM variant keep the promises of a receive queue
- `eim_rx_channel`: every log is one of a queue of one slot
-/

namespace Ccat.Native.Eth

open Interleave Memory

/-- The slot holds the frame `p`. -/
structure EimFrame.Holds (fr : EimFrame) (p : List UInt8) : Prop where
  length_eq : fr.length = p.length + EIM_HDR_SIZE
  data_eq : slice fr.data 0 p.length = p
  pos : 0 < p.length

/-- The slot when the queue is in a phase, with the frames `fs` in it. -/
def EimSlot (fr : EimFrame) (fs : List (List UInt8)) : SlotQueue.Phase → Prop
  -- whatever was there before the reset is still there
  | .filling _ => fs = [] ∨ fs.length = 1 ∧ fr.length ≠ 0
  | .ready => (fs = [] ∧ fr.length = 0) ∨ ∃ p, fs = [p] ∧ fr.Holds p
  | .inHand => fs = [] ∧ fr.length ≠ 0

/-- The slot to receive into at `start`, and the TX register at `reg`. -/
def eimRxView (reg start : Nat) : RxView EimDev where
  At ph _ fs s := s.dev.txReg = reg ∧ s.dev.rxBase = start ∧ EimSlot (s.dev.rxMem start) fs ph
  Shape f := f.reg = reg + 0x10 ∧ f.start = start ∧ f.fifoEnd = start
  Fits _ f := f = ⟨reg + 0x10, start, start, start⟩
  TxShape f := f.reg = reg

section Laws

variable {reg start b : Nat} {ph : SlotQueue.Phase} {K : RxKnown} {s t : EimMachine} {f : Fifo}
  {fs : List (List UInt8)}

theorem EimFrame.Holds.ne_zero {fr : EimFrame} {p : List UInt8} (h : fr.Holds p) :
    fr.length ≠ 0 := by
  rw [h.length_eq, EIM_HDR_SIZE]
  omega

/-! ## Steps of the hardware -/

/-- A frame that finds the slot free is the only one in the queue. -/
theorem EimSlot.store {fr : EimFrame} {p : List UInt8} (h : EimSlot fr fs ph)
    (hfree : fr.length = 0) (hpos : 0 < p.length) :
    fs.length < ph.room 1 ∧
      EimSlot ⟨p.length + EIM_HDR_SIZE, blit fr.data 0 p⟩ (fs ++ [p]) ph := by
  have hholds : EimFrame.Holds ⟨p.length + EIM_HDR_SIZE, blit fr.data 0 p⟩ p :=
    ⟨rfl, slice_blit fr.data 0 p, hpos⟩
  cases ph with
  | filling k =>
    rcases h with rfl | ⟨-, hne⟩
    · exact ⟨Nat.one_pos, .inr ⟨rfl, hholds.ne_zero⟩⟩
    · exact absurd hfree hne
  | ready =>
    rcases h with ⟨rfl, -⟩ | ⟨q, -, hq⟩
    · exact ⟨Nat.one_pos, .inr ⟨p, rfl, hholds⟩⟩
    · exact absurd hfree hq.ne_zero
  | inHand => exact absurd hfree h.2

/-- A frame that does not find the slot free finds the queue full. -/
theorem EimSlot.full {fr : EimFrame} (h : EimSlot fr fs ph) (hne : fr.length ≠ 0) :
    SlotQueue.State.Full 1 ⟨ph, fs⟩ := by
  cases ph with
  | filling k => exact .inl ⟨k, rfl⟩
  | ready =>
    rcases h with ⟨-, hfree⟩ | ⟨p, rfl, -⟩
    · exact absurd hfree hne
    · exact .inr rfl
  | inHand =>
    obtain ⟨rfl, -⟩ := h
    exact .inr rfl

/-- A step of the hardware stores a frame in the window, loses one as the window is in use, or does
    nothing to the RX FIFO. -/
theorem eimRxView_env (h : (eimRxView reg start).At ph b fs s) (hR : EimHw s t) :
    (eimRxView reg start).HwOk 1 ph b fs s t := by
  obtain ⟨hreg, hbase, hslot⟩ := h
  obtain ⟨a, rfl⟩ := hR
  cases a with
  | rxArrive p hpos _ =>
    show (eimRxView reg start).HwOk 1 ph b fs s (eimRxArrive p s)
    unfold eimRxArrive
    subst hbase
    -- the hardware looks at the length that the driver has cleared
    by_cases hfree : (s.dev.rxMem s.dev.rxBase).length = 0
    · rw [if_pos hfree]
      obtain ⟨hroom, hslot'⟩ := hslot.store hfree hpos
      refine .stored p rfl hroom ⟨hreg, rfl, ?_⟩
      show EimSlot (setEimFrame s.dev.rxMem s.dev.rxBase _ s.dev.rxBase) _ ph
      rw [setEimFrame, if_pos rfl]
      exact hslot'
    · rw [if_neg hfree]
      exact .lost p rfl (hslot.full hfree) ⟨hreg, rfl, hslot⟩
  | txSent => exact .same rfl ⟨hreg, hbase, hslot⟩
  | link w => exact .same rfl ⟨hreg, hbase, hslot⟩

/-- What the driver knows of the queue outlives a step of the hardware. -/
theorem eimLive_stable : Stable EimHw ((eimRxView reg start).Live 1 ph b K) :=
  fun _ _ h hR => h.hw fun _ hat => eimRxView_env hat hR

/-! ## The RX operations -/

/-- `fifo_eim_rx_ready()` returns zero only when the window is free, and else the length of the
    frame in it. -/
theorem wp_eimReady (hf : (eimRxView reg start).Fits b f)
    (hs : (eimRxView reg start).Live 1 .ready b K s) :
    wp EimHw ((eimRxView reg start).Guar 1) (eim.rxOps.ready f)
      ((eimRxView reg start).Ready 1 b K) s := by
  obtain rfl : f = ⟨reg + 0x10, start, start, start⟩ := hf
  show wp EimHw _ (fifoEimRxReady _) _ s
  unfold fifoEimRxReady
  refine wp_seq (M := fun len t => (eimRxView reg start).Ready 1 b K
    (if len < EIM_HDR_SIZE then 0 else len - EIM_HDR_SIZE) t) ?_ fun len t ht => wp_pure ht
  refine wp_read eimLive_stable hs fun t ht => ⟨ht.guar, ?_⟩
  obtain ⟨new, ⟨hreg, hbase, hslot⟩, hqueue, hcounts⟩ := ht
  rcases hslot with ⟨hnil, hfree⟩ | ⟨p, hp, hholds⟩
  · -- the slot is free
    obtain ⟨hK, rfl⟩ := List.append_eq_nil_iff.mp hnil
    rw [hfree]
    refine .inl ⟨rfl, hK, [], ⟨hreg, hbase, .inl ⟨hnil, hfree⟩⟩, hqueue, hcounts⟩
  · -- the window has a frame, and there is room for only one
    rw [hholds.length_eq, if_neg (by omega), Nat.add_sub_cancel]
    refine .inr ⟨p, [], hp ▸ List.prefix_append _ _, rfl, Nat.ne_of_gt hholds.pos, [], ?_⟩
    rw [hp] at hqueue
    exact ⟨⟨hreg, hbase, .inr ⟨p, rfl, hholds⟩⟩, hqueue, hcounts⟩

/-- The oldest frame is in the slot. -/
theorem eimLive_holds {p : List UInt8} {n m : Nat}
    (h : (eimRxView reg start).Live 1 .ready b ⟨p :: fs, n, m⟩ s) :
    (s.dev.rxMem start).Holds p := by
  obtain ⟨new, ⟨-, -, hslot⟩, -⟩ := h
  rcases hslot with ⟨hnil, -⟩ | ⟨q, hq, hholds⟩
  · exact nomatch hnil
  · obtain ⟨rfl, -⟩ := List.cons.inj hq
    exact hholds

/-- `fifo_eim_copy_to_linear_skb()` reads the frame in the window. -/
theorem wp_eimCopy {p : List UInt8} {n m : Nat} (hf : (eimRxView reg start).Fits b f)
    (hs : (eimRxView reg start).Live 1 .ready b ⟨p :: fs, n, m⟩ s) :
    wp EimHw ((eimRxView reg start).Guar 1) (eim.rxOps.copyToSkb f p.length)
      (fun data t => data = p ∧ (eimRxView reg start).Live 1 .ready b ⟨p :: fs, n, m⟩ t) s := by
  obtain rfl : f = ⟨reg + 0x10, start, start, start⟩ := hf
  exact wp_read eimLive_stable hs fun t ht => ⟨ht.guar, (eimLive_holds ht).data_eq, ht⟩

/-- `fifo_eim_rx_add()` hands the slot out, and the queue is ready with nothing in it. -/
theorem wp_eimAdd (b' : Nat) (hph : ph = .filling 0 ∨ ph = .inHand)
    (hs : (eimRxView reg start).Live 1 ph b K s) :
    wp EimHw ((eimRxView reg start).Guar 1) (fifoEimRxAdd ⟨reg + 0x10, start, start, start⟩)
      (fun _ => (eimRxView reg start).Live 1 .ready b' ⟨[], K.taken, K.resets⟩) s := by
  refine wp_modify eimLive_stable hs fun t ht => ?_
  obtain ⟨new, ⟨hreg, hbase, hslot⟩, hqueue, htaken, hresets⟩ := ht
  -- the queue is handed its only slot, for the first time or again
  have hstep : SlotQueue.step 1 ⟨ph, K.oldest ++ new⟩ .free = some ⟨.ready, []⟩ := by
    rcases hph with rfl | rfl
    · exact SlotQueue.step_free_first rfl
    · rw [hslot.1]
      exact SlotQueue.step_free_inHand rfl
  have hlive : (eimRxView reg start).Live 1 .ready b' ⟨[], K.taken, K.resets⟩ { t with
      dev.rxMem := setEimFrame t.dev.rxMem start fun fr => { fr with length := 0 }
      rxLog := t.rxLog ++ [.armed (start - start)] } := by
    refine RxView.live_concat [] rfl hqueue hstep ⟨hreg, hbase, .inl ⟨rfl, ?_⟩⟩ htaken
      hresets
    show (setEimFrame t.dev.rxMem start _ start).length = 0
    rw [setEimFrame, if_pos rfl]
  exact ⟨hlive.guar, hlive⟩

/-- Behind a frame that was taken the window is handed out again. -/
theorem wp_eimAdd_inHand (hf : (eimRxView reg start).Fits b f)
    (hs : (eimRxView reg start).Live 1 .inHand b K s) :
    wp EimHw ((eimRxView reg start).Guar 1) (eim.rxOps.add f)
      (fun _ => (eimRxView reg start).Live 1 .ready (b + 1) K) s := by
  obtain rfl : f = ⟨reg + 0x10, start, start, start⟩ := hf
  -- the frame in the driver's hand was the only one
  have hK : K = ⟨[], K.taken, K.resets⟩ := by
    obtain ⟨new, ⟨-, -, hnil, -⟩, -⟩ := hs
    rw [← (List.append_eq_nil_iff.mp hnil).1]
  rw [hK]
  exact wp_eimAdd (b + 1) (.inr rfl) hs

/-! ## Resetting -/

/-- `ccat_eth_fifo_reset()` of the RX FIFO frees the window, whatever is in it. -/
theorem wp_eimReset (hf : (eimRxView reg start).Shape f)
    (hs : (eimRxView reg start).Live 1 ph b K s) :
    wp EimHw ((eimRxView reg start).Guar 1) (ccatEthFifoReset eim eim.rxOps.add f)
      (fun f' t => ∃ b, (eimRxView reg start).Fits b f' ∧
        (eimRxView reg start).Live 1 .ready b K.cleared t) s := by
  obtain ⟨hreg, hstart, hend⟩ := hf
  unfold ccatEthFifoReset ccatEthFifoHwReset
  rw [if_pos (by omega)]
  refine wp_seq (M := fun _ => (eimRxView reg start).Live 1 (.filling 0) 0 K.cleared) ?_
    fun _ s hs => ?_
  · refine wp_modify eimLive_stable hs fun t ht => ?_
    obtain ⟨new, ⟨htreg, hbase, -⟩, hqueue, htaken, hresets⟩ := ht
    -- the EIM variant has no queue to empty, so the window itself stays as it is
    have hwrite : eim.iowrite32 0 (f.reg + 0x8) t = { t with rxLog := t.rxLog ++ [.reset] } :=
      if_pos (by rw [htreg, hreg])
    rw [hwrite]
    have hlive : (eimRxView reg start).Live 1 (.filling 0) 0 K.cleared
        { t with rxLog := t.rxLog ++ [.reset] } :=
      RxView.live_concat [] rfl hqueue rfl ⟨htreg, hbase, .inl rfl⟩ htaken
        (Nat.add_le_add_right hresets 1)
    exact ⟨hlive.guar, hlive⟩
  · have hf : ({ f with next := f.start } : Fifo) = ⟨reg + 0x10, start, start, start⟩ := by
      rw [hreg, hstart, hend]
    -- the loop over the slots ends after the only one
    rw [hf, addSlots_oneSlot]
    refine wp_seq (wp_eimAdd 0 (.inl rfl) hs) fun _ t ht => ?_
    exact wp_pure ⟨0, rfl, ht⟩

/-! ## The transmit side does not interfere -/

/-- The slot to receive into, its memory and the RX log. -/
def eimSlotView (s : EimMachine) : Nat × (Nat → EimFrame) × List RxEvent :=
  (s.dev.rxBase, s.dev.rxMem, s.rxLog)

/-- An update that leaves the receive side alone. -/
theorem keeps_of_keepsEim {upd : EimMachine → EimMachine} (h : KeepsEim eimSlotView reg upd) :
    (eimRxView reg start).Keeps upd := by
  rintro ph b fs s ⟨hreg, hbase, hslot⟩
  obtain ⟨hreg', hview⟩ := h s hreg
  obtain ⟨hbase', hview⟩ := Prod.mk.inj hview
  obtain ⟨hmem, hlog⟩ := Prod.mk.inj hview
  refine ⟨⟨hreg', hbase'.trans hbase, ?_⟩, hlog⟩
  rw [hmem]
  exact hslot

/-- A command to the TX FIFO does not touch the receive window. -/
theorem iowrite32_keepsEim (value : Nat) {addr : Nat} (haddr : addr = reg ∨ addr = reg + 0x8) :
    KeepsEim eimSlotView reg (eimIowrite32 value addr) := by
  intro t ht
  unfold eimIowrite32
  rcases haddr with rfl | rfl
  · rw [if_neg (by omega), if_pos ht.symm]
    exact ⟨ht, rfl⟩
  · rw [if_neg (by omega), if_neg (by omega), if_pos (by omega)]
    exact ⟨ht, rfl⟩

/-- `ccat_eth_start_xmit()` does not touch the receive window. -/
theorem eimStartXmit_keepsRx (hf : f.reg = reg) (skb : Skb) :
    (ccatEthStartXmit eim f skb).All (KeepsEim eimSlotView reg) fun r => r.2.reg = reg := by
  apply startXmit_all (I := fun f => f.reg = reg)
  case hinc => exact fun f hf => (ccatEthFifoInc_reg f).trans hf
  case hready => exact fun f => Prog.all_read (fun _ h => ⟨h, rfl⟩) fun _ => trivial
  case hqueue =>
    intro f skb hf
    refine Prog.all_modify_bind (fun _ h => ⟨h, rfl⟩) ?_
    refine Prog.all_modify_bind (fun _ h => ⟨h, rfl⟩) ?_
    refine Prog.all_modify fun t ht => ?_
    exact iowrite32_keepsEim _ (.inl hf) { t with txLog := t.txLog ++ [.queued skb.data] } ht
  case hdrop => exact fun _ h => ⟨h, rfl⟩
  case hfull => exact fun _ h => ⟨h, rfl⟩
  case hstop => exact fun _ h => ⟨h, rfl⟩
  case hbytes => exact fun _ _ h => ⟨h, rfl⟩
  case hf => exact hf

theorem eimTxFifoReset_keepsRx (hf : f.reg = reg) :
    (ccatEthFifoReset eim fifoEimTxAdd f).All (KeepsEim eimSlotView reg) fun f' => f'.reg = reg :=
  fifoReset_all_reg (v := eim) (iowrite32_keepsEim 0 (.inr rfl))
    (fun _ _ => Prog.all_pure trivial) hf

/-! ## The promises -/

/-- The operations of the EIM variant keep the promises of a receive queue of one slot. -/
theorem eimRxView_lawful : (eimRxView reg start).Lawful 1 eim EimHw where
  congr := by
    intro ph b fs s t hat hdev _
    obtain ⟨hreg, hbase, hslot⟩ := hat
    refine ⟨?_, ?_, ?_⟩ <;> rw [hdev] <;> assumption
  env := eimRxView_env
  shape := by
    intro b f hf
    obtain rfl : f = ⟨reg + 0x10, start, start, start⟩ := hf
    exact ⟨rfl, rfl, rfl⟩
  fits_inc := by
    intro b f hf
    obtain rfl : f = ⟨reg + 0x10, start, start, start⟩ := hf
    exact if_pos (Nat.lt_add_of_pos_right (by decide))
  take := by
    intro b p fs s e o hat _ _ net
    obtain ⟨hreg, hbase, hslot⟩ := hat
    -- the frame is read, and its length is not cleared yet
    rcases hslot with ⟨hnil, -⟩ | ⟨q, hq, hholds⟩
    · exact nomatch hnil
    · exact ⟨hreg, hbase, (List.cons.inj hq).2, hholds.ne_zero⟩
  ready := wp_eimReady
  copy := wp_eimCopy
  add := wp_eimAdd_inHand
  reset := wp_eimReset
  startXmit hf skb := Prog.all_mono (eimStartXmit_keepsRx hf skb) fun _ h => keeps_of_keepsEim h
  txReset hf := Prog.all_mono (eimTxFifoReset_keepsRx hf) fun _ h => keeps_of_keepsEim h
  txReady f := by
    have hid : KeepsEim eimSlotView reg id := fun _ h => ⟨h, rfl⟩
    exact Prog.all_read (keeps_of_keepsEim hid) fun _ => trivial

/-- The callbacks of the EIM variant are the two that the receive channel is about. -/
theorem eimSystem_serves : RxView.Serves eimSystem eim where
  callback priv s prog hcall := by
    cases hcall with
    | timer => exact .inl rfl
    | startXmit skb _ => exact .inr ⟨skb, rfl⟩

end Laws

/-! ## Every run -/

/-- The machine when the FIFOs are set up: nothing has happened yet; what is in the slot is
    arbitrary. -/
structure EimFresh (rx tx : Fifo) (s : EimMachine) : Prop where
  rxReg_eq : rx.reg = s.dev.txReg + 0x10
  rxStart_eq : rx.start = s.dev.rxBase
  txReg_eq : tx.reg = s.dev.txReg
  rxLog_eq : s.rxLog = []

section Run

variable {rx tx : Fifo} {txSize : Nat} {s₀ : EimMachine}

/-- Ahead of the set-up nothing is known of the window. -/
theorem eimLive_fresh (h : EimFresh rx tx s₀) :
    (eimRxView s₀.dev.txReg s₀.dev.rxBase).Live 1 (.filling 0) 0 .nothing s₀ := by
  refine ⟨[], ⟨rfl, rfl, .inl rfl⟩, ?_, Nat.zero_le _, Nat.zero_le _⟩
  rw [h.rxLog_eq]
  rfl

/-- After `ccat_eth_priv_init_eim()` has set up the FIFOs the window is free. -/
theorem wp_setUpEimFifos_channel (h : EimFresh rx tx s₀) :
    wp EimHw ((eimRxView s₀.dev.txReg s₀.dev.rxBase).Guar 1) (setUpEimFifos rx tx txSize)
      ((eimRxView s₀.dev.txReg s₀.dev.rxBase).Idle 1 .nothing) s₀ := by
  have hshape : (eimRxView s₀.dev.txReg s₀.dev.rxBase).Shape
      { rx with fifoEnd := rx.start + FRAME_SIZE - FRAME_SIZE } :=
    ⟨h.rxReg_eq, h.rxStart_eq, by rw [Nat.add_sub_cancel]; exact h.rxStart_eq⟩
  unfold setUpEimFifos fifoSetEnd
  refine wp_seq (wp_eimReset hshape (eimLive_fresh h)) fun rxFifo t ht => ?_
  have htx : (eimRxView s₀.dev.txReg s₀.dev.rxBase).TxShape
      { tx with fifoEnd := tx.start + txSize - FRAME_SIZE } := h.txReg_eq
  refine wp_seq (RxView.wp_idle_of_keeps eimRxView_lawful (eimRxView_lawful.txReset htx) ht)
    fun txFifo t ht => ?_
  refine wp_pure ?_
  have hidle : (eimRxView s₀.dev.txReg s₀.dev.rxBase).Idle 1 RxKnown.nothing.cleared
      ⟨rxFifo, txFifo⟩ t := ⟨ht.2, ht.1⟩
  exact hidle.forget List.nil_prefix (Nat.le_refl _) (Nat.zero_le _)

end Run

/-- **The receive queue of the EIM variant.** In every run from the set-up of the FIFOs, with the
    hardware stepping anywhere, the log of the receive side is one of a queue of one slot: since
    the slot was handed out after the last reset the frames taken out, and the one in the slot,
    are the frames stored, in their order, each passed on unchanged or dropped for want of an skb.
    Between callbacks the slot is free, or holds the frame that is next. -/
theorem eim_rx_channel (rx tx : Fifo) (txSize : Nat) (s₀ : EimMachine) (h : EimFresh rx tx s₀)
    (c : Config EimMachine Priv)
    (hreach : eimSystem.Reach ⟨.running (setUpEimFifos rx tx txSize), s₀⟩ c) :
    ∃ st, RxChannel 1 c.state.rxLog st ∧ ∀ priv, c.control = .idle priv → st.phase = .ready ∧
      ((st.pending = [] ∧ (c.state.dev.rxMem s₀.dev.rxBase).length = 0) ∨
        ∃ p, st.pending = [p] ∧ (c.state.dev.rxMem s₀.dev.rxBase).Holds p) := by
  have hok : eimSystem.Ok ((eimRxView s₀.dev.txReg s₀.dev.rxBase).Idle 1 .nothing)
      ((eimRxView s₀.dev.txReg s₀.dev.rxBase).Guar 1)
      ⟨.running (setUpEimFifos rx tx txSize), s₀⟩ := wp_setUpEimFifos_channel h
  obtain ⟨⟨ph, b, new, hat, hqueue, -⟩, hidle⟩ := RxView.Lawful.reach eimRxView_lawful
    eimSystem_serves hok ⟨_, _, eimLive_fresh h⟩ hreach
  refine ⟨⟨ph, new⟩, rxChannel_of_queue hqueue, fun priv hcontrol => ?_⟩
  obtain ⟨⟨b', -, new', ⟨-, -, hslot⟩, hqueue', -⟩, -⟩ := hidle priv hcontrol
  -- the log determines the queue
  obtain ⟨rfl, rfl⟩ : SlotQueue.Phase.ready = ph ∧ new' = new := by
    simpa [RxKnown.nothing, hqueue] using hqueue'.symm
  exact ⟨rfl, hslot⟩

/-- A frame that arrives after an undisturbed set-up is the one frame of the queue. -/
theorem eim_rx_channel_frame :
    ∃ st, RxChannel 1 (eimHwStep (.rxArrive [1] (by decide) (by decide)) eimSetUp).rxLog st ∧
      st.phase = .ready ∧ st.pending = [[1]] := by
  obtain ⟨st, hst, hidle⟩ := eim_rx_channel oneSlotRx oneSlotTx FRAME_SIZE eimLinked
    ⟨rfl, rfl, rfl, rfl⟩ ⟨.idle ⟨oneSlotRx, oneSlotTx⟩, _⟩ (eimSetUp_reach.tail (.env ⟨_, rfl⟩))
  have hpending : st.pending = [[1]] := by
    have hqueue := hst.queue_eq
    have hcompute : rxQueue 1
        (eimHwStep (.rxArrive [1] (by decide) (by decide)) eimSetUp).rxLog =
        some ⟨.ready, [[1]]⟩ := by decide
    rw [hcompute] at hqueue
    obtain rfl := Option.some.inj hqueue
    rfl
  exact ⟨st, hst, (hidle _ rfl).1, hpending⟩

end Ccat.Native.Eth
