import Ccat.Spec.EthRxChannel

/-!
# The receive queue of the DMA variant

The queue has the 64 slots of the ring. While it is filled after a reset the segment of
the ring that is in use grows from slot 0 on; while the driver has a frame in its hand the
segment is one slot short.

## Key results

- `dmaRxView_lawful`: the operations of the DMA variant keep the promises of a receive queue
- `dma_rx_exactly_once`: frames are delivered once and in order, in every run
- `dma_rx_channel`: every log is one of a queue of 64 slots
- `dma_rx_latency`: how long a frame stays in the queue
-/

namespace Ccat.Native.Eth

open Interleave Memory

/-- First slot of the segment in use. -/
def segStart : SlotQueue.Phase → Nat → Nat
  | .filling _, _ => 0
  | .ready, b => b
  | .inHand, b => b + 1

/-- Number of slots in use. -/
def segLength : SlotQueue.Phase → Nat
  | .filling k => k
  | .ready => FIFO_LENGTH
  | .inHand => FIFO_LENGTH - 1

/-- The ring, with the TX register at `reg` and its memory at `start`. -/
def dmaRxView (reg start : Nat) : RxView DmaDev where
  At ph b fs s := RxAt reg start (segStart ph b) (segLength ph) fs s
  Shape f := f.reg = reg + 0x10 ∧ f.start = start ∧
    f.fifoEnd = start + CCAT_ALIGNMENT - FRAME_SIZE
  Fits b f := RingFifo (reg + 0x10) start b f
  TxShape f := f.reg = reg

section Laws

variable {reg start b : Nat} {ph ph' : SlotQueue.Phase} {K : RxKnown} {s t : DmaMachine} {f : Fifo}
  {fs : List (List UInt8)}

/-! ## Steps of the hardware -/

/-- As long as the segment fits into the ring it has no more slots than the queue has room for. -/
theorem segLength_le_room (h : segLength ph ≤ FIFO_LENGTH) :
    segLength ph ≤ ph.room FIFO_LENGTH := by
  cases ph with
  | filling k => exact h
  | ready => exact Nat.le_refl _
  | inHand => exact Nat.le_refl _

/-- A frame finds no armed slot only when all slots in use have frames in them. -/
theorem full_of_queue_nil {base : Nat} {mem : Nat → DmaFrame}
    (h : RxRing base mem [] (segStart ph b) (segLength ph) fs) :
    SlotQueue.State.Full FIFO_LENGTH ⟨ph, fs⟩ := by
  have hle := h.filled_le
  -- what is armed is the segment less the frames in it
  have hnil : segLength ph - fs.length = 0 := by
    have hlength := congrArg List.length h.queue_eq
    simp only [slots, List.length_nil, List.length_map, List.length_range] at hlength
    exact hlength.symm
  cases ph with
  | filling k => exact .inl ⟨k, rfl⟩
  | ready =>
    right
    simp only [segLength, SlotQueue.Phase.room] at hle hnil ⊢
    omega
  | inHand =>
    right
    simp only [segLength, SlotQueue.Phase.room] at hle hnil ⊢
    omega

/-- A step of the hardware stores a frame in the oldest armed slot, loses one for want of such a
    slot, or does nothing to the receive queue. -/
theorem dmaRxView_env (h : (dmaRxView reg start).At ph b fs s) (hR : Hw s t) :
    (dmaRxView reg start).HwOk FIFO_LENGTH ph b fs s t := by
  have hkeep : ∀ t, SameRx s t → (dmaRxView reg start).HwOk FIFO_LENGTH ph b fs s t :=
    fun t hsame => .same hsame.log_eq (RxAt.congr h hsame)
  obtain ⟨hreg, hbase, hring, htrace⟩ := h
  cases hR.effect with
  | lost p hqueue =>
    -- no slot is armed: the frame is not recorded as stored
    refine .lost p rfl ?_ ⟨hreg, hbase, hring, rxTrace_concat rfl (htrace.other rfl rfl)⟩
    rw [hqueue] at hring
    exact full_of_queue_nil hring
  | stored p off queue hpos hqueue =>
    rw [hqueue] at hring
    obtain ⟨hroom, -, hring'⟩ := hring.store hpos
    subst hbase
    refine .stored p rfl ?_ ⟨hreg, rfl, hring', rxTrace_concat rfl (htrace.put p)⟩
    exact Nat.lt_of_lt_of_le hroom (segLength_le_room hring.le_length)
  | wire off queue _ _ => exact hkeep _ ⟨rfl, rfl, rfl⟩
  | done off queue _ _ => exact hkeep _ ⟨rfl, rfl, rfl⟩
  | link w => exact hkeep _ ⟨rfl, rfl, rfl⟩
  | nothing => exact hkeep _ ⟨rfl, rfl, rfl⟩

/-- What the driver knows of the queue outlives a step of the hardware. -/
theorem dmaLive_stable :
    Stable Hw ((dmaRxView reg start).Live FIFO_LENGTH ph b K) :=
  fun _ _ h hR => h.hw fun _ hat => dmaRxView_env hat hR

/-! ## The RX operations -/

/-- A flagged slot at `next` holds the oldest frame. -/
theorem dmaLive_of_received (h : (dmaRxView reg start).Live FIFO_LENGTH .ready b K s)
    (hrec : (s.dev.rx.mem (start + slotOff b)).Received) :
    ∃ p fs, K.oldest <+: p :: fs ∧
      (dmaRxView reg start).Live FIFO_LENGTH .ready b { K with oldest := p :: fs } s := by
  obtain ⟨new, hat, hqueue, hcounts⟩ := h
  cases hK : K.oldest with
  | cons p fs =>
    rw [hK] at hat hqueue
    exact ⟨p, fs, List.prefix_refl _, new, hat, hqueue, hcounts⟩
  | nil =>
    rw [hK] at hat hqueue
    cases new with
    | nil => exact absurd hrec (hat.ring.armed 0 (Nat.le_refl 0) (by decide))
    | cons p new => exact ⟨p, [], List.nil_prefix, new, hat, hqueue, hcounts⟩

/-- The oldest frame is in the slot at `next`. -/
theorem dmaLive_holds {p : List UInt8} {n m : Nat}
    (h : (dmaRxView reg start).Live FIFO_LENGTH .ready b ⟨p :: fs, n, m⟩ s) :
    (s.dev.rx.mem (start + slotOff b)).Holds p := by
  obtain ⟨new, hat, -⟩ := h
  exact hat.ring.filled 0 p rfl

/-- `fifo_dma_rx_ready()` returns zero only when no frame is known of, and else the length of the
    oldest one. -/
theorem wp_dmaReady (hf : (dmaRxView reg start).Fits b f)
    (hs : (dmaRxView reg start).Live FIFO_LENGTH .ready b K s) :
    wp Hw ((dmaRxView reg start).Guar FIFO_LENGTH) (dma.rxOps.ready f)
      ((dmaRxView reg start).Ready FIFO_LENGTH b K) s := by
  have hnext : f.next = start + slotOff b := hf.next_eq
  show wp Hw _ (fifoDmaRxReady f) _ s
  unfold fifoDmaRxReady
  refine wp_seq (M := fun flags t =>
    (flags &&& CCAT_FRAME_RECEIVED = 0 → K.oldest = [] ∧
      (dmaRxView reg start).Live FIFO_LENGTH .ready b K t) ∧
    (flags &&& CCAT_FRAME_RECEIVED ≠ 0 → ∃ p fs, K.oldest <+: p :: fs ∧
      (dmaRxView reg start).Live FIFO_LENGTH .ready b { K with oldest := p :: fs } t)) ?_
    fun flags s hs => ?_
  · refine wp_read dmaLive_stable hs fun t ht => ⟨ht.guar, ?_, fun hflag => ?_⟩
    · intro hflag
      refine ⟨?_, ht⟩
      -- a known frame would be flagged
      cases hK : K.oldest with
      | nil => rfl
      | cons p fs =>
        obtain ⟨new, hat, -⟩ := ht
        rw [hK] at hat
        have hholds := hat.ring.filled 0 p rfl
        rw [hnext] at hflag
        exact absurd hflag hholds.received
    · rw [hnext] at hflag
      exact dmaLive_of_received ht hflag
  · -- the length is read only of a slot that is flagged; no frame can be stored over it, so the
    -- length is still that of the frame that was seen
    by_cases hflag : flags &&& CCAT_FRAME_RECEIVED ≠ 0
    · rw [if_pos hflag]
      obtain ⟨p, fs, hfs, hlive⟩ := hs.2 hflag
      refine wp_seq (M := fun len t => len = p.length + OFFSET_RX_FLAGS ∧ 0 < p.length ∧
        (dmaRxView reg start).Live FIFO_LENGTH .ready b { K with oldest := p :: fs } t) ?_
        fun len t ht => ?_
      · refine wp_read dmaLive_stable hlive fun t ht => ⟨ht.guar, ?_, (dmaLive_holds ht).pos, ht⟩
        rw [hnext]
        exact (dmaLive_holds ht).length_eq
      · obtain ⟨rfl, hpos, ht⟩ := ht
        rw [if_neg (by omega), Nat.add_sub_cancel]
        exact wp_pure (.inr ⟨p, fs, hfs, rfl, by omega, ht⟩)
    · rw [if_neg hflag]
      obtain ⟨hnil, hlive⟩ := hs.1 (by simpa using hflag)
      exact wp_pure (.inl ⟨rfl, hnil, hlive⟩)

/-- `fifo_dma_copy_to_linear_skb()` reads the oldest frame. -/
theorem wp_dmaCopy {p : List UInt8} {n m : Nat} (hf : (dmaRxView reg start).Fits b f)
    (hs : (dmaRxView reg start).Live FIFO_LENGTH .ready b ⟨p :: fs, n, m⟩ s) :
    wp Hw ((dmaRxView reg start).Guar FIFO_LENGTH) (dma.rxOps.copyToSkb f p.length)
      (fun data t => data = p ∧
        (dmaRxView reg start).Live FIFO_LENGTH .ready b ⟨p :: fs, n, m⟩ t) s := by
  have hnext : f.next = start + slotOff b := hf.next_eq
  refine wp_read dmaLive_stable hs fun t ht => ⟨ht.guar, ?_, ht⟩
  rw [hnext]
  exact (dmaLive_holds ht).data_eq

/-- The slot behind the segment is not flagged. -/
def DmaClear (reg start : Nat) (ph : SlotQueue.Phase) (b : Nat) (K : RxKnown)
    (s : DmaMachine) : Prop :=
  (dmaRxView reg start).Live FIFO_LENGTH ph b K s ∧
    ¬(s.dev.rx.mem (start + slotOff (segStart ph b + segLength ph))).Received

/-- The hardware does not flag a slot outside of the segment. -/
theorem dmaClear_stable (hlt : segLength ph < FIFO_LENGTH) :
    Stable Hw (DmaClear reg start ph b K) := by
  rintro s t ⟨hlive, hclear⟩ hR
  refine ⟨dmaLive_stable hlive hR, ?_⟩
  obtain ⟨new, ⟨hreg, hbase, hring, -⟩, -⟩ := hlive
  cases hR.effect with
  | stored p off queue hpos hqueue =>
    -- the frame goes into the segment
    rw [hqueue] at hring
    obtain ⟨hroom, rfl, -⟩ := hring.store hpos
    subst hbase
    have hother := setFrame_slot_ne s.dev.rx.mem s.dev.rx.base (segStart ph b)
      (DmaFrame.receive p) (Nat.ne_of_gt hroom) hlt (by omega)
    show ¬(setFrame s.dev.rx.mem _ _ _).Received
    rw [hother]
    exact hclear
  | _ => exact hclear

/-- `ccat_eth_rx_fifo_dma_add()` on the slot behind the segment makes it part of it. -/
theorem wp_dmaAdd (ph ph' : SlotQueue.Phase) {b' : Nat} (hstart : segStart ph' b' = segStart ph b)
    (hlength : segLength ph' = segLength ph + 1) (hlt : segLength ph < FIFO_LENGTH)
    (hstep : ∀ fs : List (List UInt8), fs.length ≤ segLength ph →
      SlotQueue.step FIFO_LENGTH ⟨ph, fs⟩ .free = some ⟨ph', fs⟩)
    (hf : RingFifo (reg + 0x10) start (segStart ph b + segLength ph) f)
    (hs : (dmaRxView reg start).Live FIFO_LENGTH ph b K s) :
    wp Hw ((dmaRxView reg start).Guar FIFO_LENGTH) (ccatEthRxFifoDmaAdd f)
      (fun _ => (dmaRxView reg start).Live FIFO_LENGTH ph' b' K) s := by
  have hnext := hf.next_eq
  have hoff : f.next - f.start = slotOff (segStart ph b + segLength ph) := by
    rw [hnext, hf.start_eq, Nat.add_sub_cancel_left]
  unfold ccatEthRxFifoDmaAdd
  refine wp_seq (M := fun _ => DmaClear reg start ph b K) ?_ fun _ s hs => ?_
  · -- the flag of the slot is cleared
    refine wp_modify dmaLive_stable hs fun t ht => ?_
    obtain ⟨new, ⟨hreg, hbase, hring, htrace⟩, hrest⟩ := ht
    rw [hnext]
    have hlive : (dmaRxView reg start).Live FIFO_LENGTH ph b K { t with
        dev.rx.mem := setFrame t.dev.rx.mem (start + slotOff (segStart ph b + segLength ph))
          fun fr => { fr with rxFlags := 0 } } :=
      ⟨new, ⟨hreg, hbase, hring.clear hlt fun fr => { fr with rxFlags := 0 }, htrace⟩, hrest⟩
    refine ⟨hlive.guar, hlive, ?_⟩
    show ¬(setFrame t.dev.rx.mem _ _ _).Received
    rw [setFrame_self]
    exact fun hrec => hrec (Nat.zero_and 1)
  · -- and the slot is armed
    refine wp_modify (dmaClear_stable hlt) hs fun t ht => ?_
    obtain ⟨⟨new, ⟨hreg, hbase, hring, htrace⟩, hqueue, htaken, hresets⟩, hclear⟩ := ht
    have hbound := slotOff_lt (segStart ph b + segLength ph)
    simp only [CCAT_ALIGNMENT] at hbound
    -- the offset in the command is that of the slot
    rw [hf.reg_eq, hoff, iowrite32_rx hreg, decode_armed (by omega)]
    have harmed := hring.arm hlt hclear
    have hlive : (dmaRxView reg start).Live FIFO_LENGTH ph' b' K { t with
        dev.rx.queue := t.dev.rx.queue ++ [slotOff (segStart ph b + segLength ph)]
        rxLog := t.rxLog ++ [.armed (slotOff (segStart ph b + segLength ph))] } := by
      refine RxView.live_concat new rfl hqueue (hstep _ hring.filled_le)
        ⟨hreg, hbase, ?_, rxTrace_concat rfl (htrace.other rfl rfl)⟩ htaken hresets
      rw [hstart, hlength]
      exact harmed
    exact ⟨hlive.guar, hlive⟩

/-- After the frame in the driver's hand its slot follows the other 63. -/
theorem wp_dmaAdd_inHand (hf : (dmaRxView reg start).Fits b f)
    (hs : (dmaRxView reg start).Live FIFO_LENGTH .inHand b K s) :
    wp Hw ((dmaRxView reg start).Guar FIFO_LENGTH) (dma.rxOps.add f)
      (fun _ => (dmaRxView reg start).Live FIFO_LENGTH .ready (b + 1) K) s := by
  obtain ⟨hreg, hstart, hend, hnext⟩ := hf
  have hslot : slotOff (b + 1 + (FIFO_LENGTH - 1)) = slotOff b := slotOff_add_length b
  refine wp_dmaAdd .inHand .ready rfl rfl (by decide) (fun fs _ => SlotQueue.step_free_inHand rfl)
    ?_ hs
  exact ⟨hreg, hstart, hend, by rw [hnext, ← hslot]; rfl⟩

/-- While the queue is filled the slots follow one another. -/
theorem wp_dmaAdd_filling {k : Nat} (hk : k < FIFO_LENGTH) (hf : RingFifo (reg + 0x10) start k f)
    (hs : (dmaRxView reg start).Live FIFO_LENGTH (SlotQueue.filled FIFO_LENGTH k) 0 K s) :
    wp Hw ((dmaRxView reg start).Guar FIFO_LENGTH) (ccatEthRxFifoDmaAdd f)
      (fun _ => (dmaRxView reg start).Live FIFO_LENGTH
        (SlotQueue.filled FIFO_LENGTH (k + 1)) 0 K) s := by
  have hfilling : SlotQueue.filled FIFO_LENGTH k = .filling k := if_neg (Nat.ne_of_lt hk)
  -- the segment starts at slot 0 and grows by one slot with each command
  have hseg : ∀ n, segStart (SlotQueue.filled FIFO_LENGTH n) 0 = 0 ∧
      segLength (SlotQueue.filled FIFO_LENGTH n) = n := by
    intro n
    unfold SlotQueue.filled
    split
    · exact ⟨rfl, by rw [segLength]; omega⟩
    · exact ⟨rfl, rfl⟩
  rw [hfilling] at hs
  refine wp_dmaAdd (.filling k) _ ?_ (hseg _).2 hk (fun fs hfs => ?_) ?_ hs
  · exact (hseg _).1
  · refine SlotQueue.step_free_filling rfl fun hzero => ?_
    simp only [segLength, hzero] at hfs
    exact List.length_eq_zero_iff.mp (Nat.le_zero.mp hfs)
  · simpa [segStart, segLength] using hf

/-! ## Resetting -/

/-- `ccat_eth_fifo_reset()` of the RX FIFO: the queue is emptied, and all slots are handed out
    again. -/
theorem wp_dmaReset (hf : (dmaRxView reg start).Shape f)
    (hs : (dmaRxView reg start).Live FIFO_LENGTH ph b K s) :
    wp Hw ((dmaRxView reg start).Guar FIFO_LENGTH) (ccatEthFifoReset dma dma.rxOps.add f)
      (fun f' t => ∃ b, (dmaRxView reg start).Fits b f' ∧
        (dmaRxView reg start).Live FIFO_LENGTH .ready b K.cleared t) s := by
  obtain ⟨hreg, hstart, hend⟩ := hf
  unfold ccatEthFifoReset ccatEthFifoHwReset
  rw [if_pos (by omega)]
  refine wp_seq
    (M := fun _ => (dmaRxView reg start).Live FIFO_LENGTH (.filling 0) 0 K.cleared) ?_
    fun _ s hs => ?_
  · -- the hardware forgets its queue, with the frames that nobody read
    refine wp_modify dmaLive_stable hs fun t ht => ?_
    obtain ⟨new, ⟨htreg, hbase, -, -⟩, hqueue, htaken, hresets⟩ := ht
    show (dmaRxView reg start).Guar FIFO_LENGTH t (dmaIowrite32 0 (f.reg + 0x8) t) ∧
      (dmaRxView reg start).Live FIFO_LENGTH _ 0 _ (dmaIowrite32 0 (f.reg + 0x8) t)
    rw [hreg, iowrite32_rxReset htreg]
    have hlive : (dmaRxView reg start).Live FIFO_LENGTH (.filling 0) 0 K.cleared
        { t with dev.rx.queue := [], rxLog := t.rxLog ++ [.reset] } :=
      RxView.live_concat [] rfl hqueue rfl
        ⟨htreg, hbase, RxRing.reset .., RxTrace.reset _⟩ htaken (Nat.add_le_add_right hresets 1)
    exact ⟨hlive.guar, hlive⟩
  · -- and slot by slot is armed again
    have hring : RingFifo (reg + 0x10) start 0 { f with next := f.start } :=
      ringFifo_start hreg hstart hend
    refine wp_mono (wp_addSlots (fun k => (dmaRxView reg start).Live FIFO_LENGTH
      (SlotQueue.filled FIFO_LENGTH k) 0 K.cleared)
      (fun k hk f s hf hs => wp_dmaAdd_filling hk hf hs) (by decide) hring hs) fun f' t ht => ?_
    exact ⟨0, ht.1, ht.2⟩

/-! ## The promises -/

/-- What does not touch the RX FIFO keeps the view of it. -/
theorem keeps_of_keepsRx {upd : DmaMachine → DmaMachine} (h : KeepsRx reg upd) :
    (dmaRxView reg start).Keeps upd := by
  intro ph b fs s hat
  have hsame := h s hat.reg_eq
  exact ⟨hat.congr hsame, hsame.log_eq⟩

/-- The operations of the DMA variant keep the promises of a receive queue of 64 slots. -/
theorem dmaRxView_lawful : (dmaRxView reg start).Lawful FIFO_LENGTH dma Hw where
  congr := fun hat hdev hlog => RxAt.congr hat ⟨by rw [hdev], by rw [hdev], hlog⟩
  env := dmaRxView_env
  shape hf := ⟨hf.reg_eq, hf.start_eq, hf.end_eq⟩
  fits_inc hf := ringFifo_inc hf
  take := by
    -- the slot of the oldest frame leaves the segment
    intro b p fs s e o hat he ho net
    refine ⟨hat.reg_eq, hat.base_eq, hat.ring.shift, rxTrace_concat ?_ ?_⟩
    · cases e <;> cases he <;> rfl
    · rw [he]
      exact hat.trace.take ho
  ready := wp_dmaReady
  copy := wp_dmaCopy
  add := wp_dmaAdd_inHand
  reset := wp_dmaReset
  startXmit hf skb := Prog.all_mono (startXmit_keepsRx hf skb) fun _ h => keeps_of_keepsRx h
  txReset hf := Prog.all_mono (txFifoReset_keepsRx hf) fun _ h => keeps_of_keepsRx h
  txReady f := by
    have hkeeps : (fifoDmaTxReady f).All (KeepsRx reg) fun _ => True := txReady_keepsRx f
    exact Prog.all_mono hkeeps fun _ h => keeps_of_keepsRx h

/-- The callbacks of the DMA variant are the two that the receive channel is about. -/
theorem dmaSystem_serves : RxView.Serves dmaSystem dma where
  callback priv s prog hcall := by
    cases hcall with
    | timer => exact .inl rfl
    | startXmit skb _ => exact .inr ⟨skb, rfl⟩

end Laws

/-! ## Every run -/

section Run

variable {rx tx : Fifo} {s₀ : DmaMachine}

/-- The queue of a machine in which nothing has happened yet. -/
theorem dmaLive_fresh (h : Fresh rx tx s₀) :
    (dmaRxView s₀.dev.txReg s₀.dev.rx.base).Live FIFO_LENGTH (.filling 0) 0 .nothing s₀ := by
  refine ⟨[], ⟨rfl, rfl, ?_, ?_⟩, ?_, Nat.zero_le _, Nat.zero_le _⟩
  · rw [h.rxQueue_eq]
    exact RxRing.reset ..
  · rw [h.rxLog_eq]
    exact ⟨[], rfl, .nil⟩
  · rw [h.rxLog_eq]
    rfl

/-- After `ccat_eth_priv_init_dma()` has set up the FIFOs the queue is ready and empty. -/
theorem wp_setUpFifos_channel (h : Fresh rx tx s₀) :
    wp Hw ((dmaRxView s₀.dev.txReg s₀.dev.rx.base).Guar FIFO_LENGTH) (setUpFifos rx tx)
      ((dmaRxView s₀.dev.txReg s₀.dev.rx.base).Idle FIFO_LENGTH .nothing) s₀ := by
  unfold setUpFifos fifoSetEnd
  refine wp_seq (wp_dmaReset ⟨h.rxReg_eq, h.rxStart_eq, by rw [h.rxStart_eq]⟩ (dmaLive_fresh h))
    fun rxFifo t ht => ?_
  have htx : (dmaRxView s₀.dev.txReg s₀.dev.rx.base).TxShape
      { tx with fifoEnd := tx.start + CCAT_ALIGNMENT - FRAME_SIZE } := h.txReg_eq
  refine wp_seq (RxView.wp_idle_of_keeps dmaRxView_lawful (dmaRxView_lawful.txReset htx) ht)
    fun txFifo t ht => ?_
  refine wp_pure ?_
  have hidle : (dmaRxView s₀.dev.txReg s₀.dev.rx.base).Idle FIFO_LENGTH RxKnown.nothing.cleared
      ⟨rxFifo, txFifo⟩ t := ⟨ht.2, ht.1⟩
  exact hidle.forget List.nil_prefix (Nat.le_refl _) (Nat.zero_le _)

/-- What every run from the set-up of the FIFOs leads to. -/
theorem dmaChannel_reach (h : Fresh rx tx s₀) {c : Config DmaMachine Priv}
    (hreach : dmaSystem.Reach ⟨.running (setUpFifos rx tx), s₀⟩ c) :
    (∃ ph b, (dmaRxView s₀.dev.txReg s₀.dev.rx.base).Live FIFO_LENGTH ph b .nothing c.state) ∧
      ∀ priv, c.control = .idle priv →
        (dmaRxView s₀.dev.txReg s₀.dev.rx.base).Idle FIFO_LENGTH .nothing priv c.state := by
  have hok : dmaSystem.Ok ((dmaRxView s₀.dev.txReg s₀.dev.rx.base).Idle FIFO_LENGTH .nothing)
      ((dmaRxView s₀.dev.txReg s₀.dev.rx.base).Guar FIFO_LENGTH)
      ⟨.running (setUpFifos rx tx), s₀⟩ := wp_setUpFifos_channel h
  exact RxView.Lawful.reach dmaRxView_lawful dmaSystem_serves hok ⟨_, _, dmaLive_fresh h⟩ hreach

end Run

/-- **The DMA receive path.** In every run from the set-up of the FIFOs, with the hardware
    stepping anywhere, the receive side is as `RxAlways` says at every moment and as `RxBetween`
    says between callbacks. -/
theorem dma_rx_exactly_once (rx tx : Fifo) (s₀ : DmaMachine) (h : Fresh rx tx s₀)
    (c : Config DmaMachine Priv)
    (hreach : dmaSystem.Reach ⟨.running (setUpFifos rx tx), s₀⟩ c) :
    RxAlways c.state ∧
      ∀ priv, c.control = .idle priv → ∃ b fs, RxBetween priv.rxFifo c.state b fs := by
  obtain ⟨⟨ph, b, new, hat, -⟩, hidle⟩ := dmaChannel_reach h hreach
  refine ⟨hat.always, fun priv hcontrol => ?_⟩
  -- between callbacks the segment is the whole ring
  obtain ⟨⟨b', hf, new', hat', -⟩, -⟩ := hidle priv hcontrol
  exact ⟨_, _, hat'.between hf⟩

/-- A frame arrives after the set-up. -/
def dmaAfterFrame : DmaMachine :=
  hwStep (.rxArrive [1] (by decide) (by decide)) dmaAfterSetUp.2

/-- This is a state of a run. -/
theorem dmaAfterFrame_reach : dmaSystem.Reach
    ⟨.running (setUpFifos ⟨0x110, 0x20000, 0, 0⟩ ⟨0x100, 0x40000, 0, 0⟩),
      .zeroed 0x100 0x20000 0x40000⟩ ⟨.idle dmaAfterSetUp.1, dmaAfterFrame⟩ :=
  .tail (System.reach_exec (fun _ => true) _ 0 _) (.env ⟨_, rfl⟩)

/-- Then another one. -/
def dmaAfterFrames : DmaMachine :=
  hwStep (.rxArrive [2] (by decide) (by decide)) dmaAfterFrame

/-- The timer callback after that. It gets an skb for the first frame, but none for the second. -/
def dmaAfterPoll : Priv × DmaMachine :=
  (pollTimerCallback dma dmaAfterSetUp.1).exec (fun n => n = 0) 0 dmaAfterFrames

/-- The first of the frames is delivered and the second dropped, in a ring that is in order
    afterwards and has all its slots armed. -/
theorem dma_rx_exactly_once_frames :
    storedFrames (rxSince dmaAfterPoll.2.rxLog) = [[1], [2]] ∧
      outcomes (rxSince dmaAfterPoll.2.rxLog) = [some [1], none] ∧
      RxAlways dmaAfterPoll.2 ∧ ∃ b fs, RxBetween dmaAfterPoll.1.rxFifo dmaAfterPoll.2 b fs := by
  have hreach : dmaSystem.Reach
      ⟨.running (setUpFifos ⟨0x110, 0x20000, 0, 0⟩ ⟨0x100, 0x40000, 0, 0⟩),
        .zeroed 0x100 0x20000 0x40000⟩ ⟨.idle dmaAfterPoll.1, dmaAfterPoll.2⟩ := by
    have hframes := dmaAfterFrame_reach.tail (.env (t := dmaAfterFrames) ⟨_, rfl⟩)
    exact hframes.trans (.head (.start .timer) (System.reach_exec (fun n => n = 0) _ 0 _))
  obtain ⟨halways, hbetween⟩ := dma_rx_exactly_once ⟨0x110, 0x20000, 0, 0⟩ ⟨0x100, 0x40000, 0, 0⟩
    (.zeroed 0x100 0x20000 0x40000) fresh_zeroed _ hreach
  exact ⟨by decide +kernel, by decide +kernel, halways, hbetween _ rfl⟩

/-- **The receive queue of the DMA variant.** In every run from the set-up of the FIFOs, with the
    hardware stepping anywhere, the log of the receive side is one of a queue of 64 slots; in
    particular a frame is lost only when the slots that are not in the driver's hand all have
    frames in them. Between callbacks the frames of the queue are in the slots from `next` on,
    and the other slots are armed. -/
theorem dma_rx_channel (rx tx : Fifo) (s₀ : DmaMachine) (h : Fresh rx tx s₀)
    (c : Config DmaMachine Priv)
    (hreach : dmaSystem.Reach ⟨.running (setUpFifos rx tx), s₀⟩ c) :
    ∃ st, RxChannel FIFO_LENGTH c.state.rxLog st ∧
      ∀ priv, c.control = .idle priv → st.phase = .ready ∧
        ∃ b, RingFifo (s₀.dev.txReg + 0x10) s₀.dev.rx.base b priv.rxFifo ∧
          RxRing s₀.dev.rx.base c.state.dev.rx.mem c.state.dev.rx.queue b FIFO_LENGTH
            st.pending := by
  obtain ⟨⟨ph, b, new, hat, hqueue, -⟩, hidle⟩ := dmaChannel_reach h hreach
  refine ⟨⟨ph, new⟩, rxChannel_of_queue hqueue, fun priv hcontrol => ?_⟩
  obtain ⟨⟨b', hf, new', hat', hqueue', -⟩, -⟩ := hidle priv hcontrol
  -- the log determines the queue
  obtain ⟨rfl, rfl⟩ : SlotQueue.Phase.ready = ph ∧ new' = new := by
    simpa [RxKnown.nothing, hqueue] using hqueue'.symm
  exact ⟨rfl, b', hf, hat'.ring⟩

/-- After the set-up and one frame the queue is ready. -/
theorem dma_rx_channel_frame :
    ∃ st, RxChannel FIFO_LENGTH dmaAfterFrame.rxLog st ∧ st.phase = .ready := by
  obtain ⟨st, hst, hidle⟩ := dma_rx_channel ⟨0x110, 0x20000, 0, 0⟩ ⟨0x100, 0x40000, 0, 0⟩
    (.zeroed 0x100 0x20000 0x40000) fresh_zeroed _ dmaAfterFrame_reach
  exact ⟨st, hst, (hidle _ rfl).1⟩

/-- **How long a frame stays in the queue.** From any moment between callbacks on, `n` timer
    callbacks take at least the `31 * n` oldest of the frames that were in the queue out of it, or
    all of them, whatever else happens in between; unless the FIFO is reset. -/
theorem dma_rx_latency (rx tx : Fifo) (s₀ : DmaMachine) (h : Fresh rx tx s₀)
    (c c' : Config DmaMachine Priv)
    (hreach : dmaSystem.Reach ⟨.running (setUpFifos rx tx), s₀⟩ c) (priv priv' : Priv)
    (hidle : c.control = .idle priv) (n : Nat)
    (hrun : dmaSystem.Rounds (fun p prog => prog = pollTimerCallback dma p) c n c')
    (hidle' : c'.control = .idle priv') (st : SlotQueue.State (List UInt8))
    (hst : rxQueue FIFO_LENGTH c.state.rxLog = some st) :
    rxTaken c.state.rxLog + min st.pending.length (rxBudget * n) ≤ rxTaken c'.state.rxLog ∨
      rxResets c.state.rxLog < rxResets c'.state.rxLog := by
  obtain ⟨⟨b, hf, new, hat, hqueue, -⟩, htx⟩ := (dmaChannel_reach h hreach).2 priv hidle
  obtain rfl : st = ⟨.ready, new⟩ := by simpa [RxKnown.nothing, hst] using hqueue
  -- all frames of the queue are known at this moment
  refine RxView.Lawful.rounds dmaRxView_lawful dmaSystem_serves
    (K := ⟨new, rxTaken c.state.rxLog, rxResets c.state.rxLog⟩) hidle ⟨⟨b, hf, [], ?_⟩, htx⟩ hrun
    hidle'
  rw [List.append_nil]
  exact ⟨hat, hqueue, Nat.le_refl _, Nat.le_refl _⟩

/-- The frame is taken out by the first callback after it. -/
theorem dma_rx_latency_frame :
    let end_ := (pollTimerCallback dma dmaAfterSetUp.1).exec (fun _ => true) 0 dmaAfterFrame
    ∃ st, rxQueue FIFO_LENGTH dmaAfterFrame.rxLog = some st ∧
      (rxTaken dmaAfterFrame.rxLog + min st.pending.length (rxBudget * 1) ≤
          rxTaken end_.2.rxLog ∨ rxResets dmaAfterFrame.rxLog < rxResets end_.2.rxLog) := by
  intro end_
  obtain ⟨⟨b, hf, new, hat, hqueue, -⟩, -⟩ :=
    (dmaChannel_reach fresh_zeroed dmaAfterFrame_reach).2 _ rfl
  refine ⟨_, hqueue, ?_⟩
  exact dma_rx_latency ⟨0x110, 0x20000, 0, 0⟩ ⟨0x100, 0x40000, 0, 0⟩
    (.zeroed 0x100 0x20000 0x40000) fresh_zeroed _ ⟨.idle end_.1, end_.2⟩ dmaAfterFrame_reach _ _
    rfl 1 (.round .refl .timer rfl (runsTo_exec (fun _ => true) _ 0 _)) rfl _ hqueue

end Ccat.Native.Eth
