import Ccat.Spec.EthEimTx

/-!
# The frame in the MAC of the EIM variant

The driver fills a slot and then counts the MAC up; the MAC reads the frame while it sends
it and counts down when it is done. `fifo_eim_tx_ready()` only looks at that count. In every
run the MAC has one frame at most, this frame lies as it was passed to
`ccat_eth_start_xmit()` in the slot whose offset was written to the register of the FIFO, and
no step changes the TX memory before the MAC is done with it.

## Key results

- `wp_eimQueueSkb_frame`: a slot is filled only while the MAC is empty
- `wp_startXmit_frame`, `wp_txFifoReset_frame`: what the driver does to the frame in the MAC
- `eim_tx_frame_safe`: the frame in the MAC, in every run
-/

namespace Ccat.Native.Eth

open Interleave Memory

/-- The frame queued last since the FIFO was reset. -/
def lastQueued (log : List TxEvent) : Option (List UInt8) := (queuedFrames (txSince log)).getLast?

/-- The slot holds the frame `p`, as the MAC reads it. -/
def EimFrame.HoldsTx (fr : EimFrame) (p : List UInt8) : Prop :=
  fr.length = p.length ∧ slice fr.data 0 p.length = p

/-- The MAC has one frame at most, and that is the one queued last, whole in the slot of the TX
    memory from `start` on whose offset is in the register, as far as that has room for it. -/
structure EimTxInv (reg start : Nat) (s : EimMachine) : Prop where
  reg_eq : s.dev.txReg = reg
  level_le : s.dev.txLevel ≤ 1
  frame : s.dev.txLevel = 1 → ∃ addr p, lastQueued s.txLog = some p ∧
    (s.dev.txMem addr).HoldsTx p ∧ start ≤ addr ∧ s.dev.txSlot = (addr - start) % 2 ^ 32

/-- No step changes the TX memory while a frame stays in the MAC. -/
def TxMemKept (s t : EimMachine) : Prop :=
  s.dev.txLevel = 1 → t.dev.txLevel = 1 → t.dev.txMem = s.dev.txMem

/-- What every update of the driver does. -/
def EimTxGuar (reg start : Nat) (s t : EimMachine) : Prop :=
  EimTxInv reg start t ∧ TxMemKept s t

/-- A TX FIFO in the memory from `start` on. -/
structure EimTxFifo (reg start : Nat) (f : Fifo) : Prop where
  reg_eq : f.reg = reg
  start_eq : f.start = start
  le_next : start ≤ f.next

/-- `ccat_eth_fifo_inc()` stays in the memory of the FIFO. -/
theorem EimTxFifo.inc {reg start : Nat} {f : Fifo} (h : EimTxFifo reg start f) :
    EimTxFifo reg start (ccatEthFifoInc f) := by
  obtain ⟨hreg, hstart, hle⟩ := h
  unfold ccatEthFifoInc
  split
  · exact ⟨hreg, hstart, Nat.le_of_eq hstart.symm⟩
  · exact ⟨hreg, hstart, Nat.le_add_right_of_le hle⟩

section Run

variable {reg start : Nat} {s t : EimMachine} {f : Fifo}

/-! ## Steps of the hardware -/

/-- What is neither a reset nor a frame queued does not count. -/
theorem lastQueued_other (log : List TxEvent) {e : TxEvent} (he : e.isReset = false)
    (hqueued : queuedFrames [e] = []) : lastQueued (log ++ [e]) = lastQueued log := by
  unfold lastQueued
  rw [queuedFrames_concat log he, hqueued, List.append_nil]

/-- The frame queued last. -/
theorem lastQueued_queued (log : List TxEvent) (p : List UInt8) :
    lastQueued (log ++ [.queued p]) = some p := by
  unfold lastQueued
  rw [queuedFrames_concat log rfl]
  exact List.getLast?_concat

/-- The hardware only counts down. -/
theorem eimHw_tx (hR : EimHw s t) : t.dev.txReg = s.dev.txReg ∧ t.dev.txMem = s.dev.txMem ∧
    t.dev.txSlot = s.dev.txSlot ∧ t.txLog = s.txLog ∧
    (t.dev.txLevel = s.dev.txLevel ∨ t.dev.txLevel = s.dev.txLevel - 1) := by
  obtain ⟨a, rfl⟩ := hR
  cases a with
  | rxArrive p _ _ =>
    show (eimRxArrive p s).dev.txReg = _ ∧ (eimRxArrive p s).dev.txMem = _ ∧
      (eimRxArrive p s).dev.txSlot = _ ∧ (eimRxArrive p s).txLog = _ ∧
      ((eimRxArrive p s).dev.txLevel = _ ∨ _)
    unfold eimRxArrive
    split <;> exact ⟨rfl, rfl, rfl, rfl, .inl rfl⟩
  | txSent => exact ⟨rfl, rfl, rfl, rfl, .inr rfl⟩
  | link w => exact ⟨rfl, rfl, rfl, rfl, .inl rfl⟩

/-- Sending the frame does not change it. -/
theorem eimTxInv_stable : Stable EimHw (EimTxInv reg start) := by
  intro s t h hR
  obtain ⟨hreg, hmem, hslot, hlog, hlevel⟩ := eimHw_tx hR
  have hle := h.level_le
  refine ⟨hreg.trans h.reg_eq, by omega, fun hone => ?_⟩
  obtain ⟨addr, p, hp, hholds⟩ := h.frame (by omega)
  rw [hlog, hmem, hslot]
  exact ⟨addr, p, hp, hholds⟩

/-! ## Updates that leave the transmit side alone -/

/-- The frame in the MAC: the level, the TX memory, the offset in the register and the frame queued
    last. -/
def eimFrameView (s : EimMachine) : Nat × (Nat → EimFrame) × Nat × Option (List UInt8) :=
  (s.dev.txLevel, s.dev.txMem, s.dev.txSlot, lastQueued s.txLog)

theorem eimFrameView_blind : BlindToRx eimFrameView := fun _ _ _ _ _ => rfl

/-- An update that keeps what the MAC sends. -/
theorem EimTxInv.keep {upd : EimMachine → EimMachine} (hupd : KeepsEim eimFrameView reg upd)
    (h : EimTxInv reg start s) : EimTxGuar reg start s (upd s) := by
  obtain ⟨hreg, hview⟩ := hupd s h.reg_eq
  obtain ⟨hlevel, hview⟩ := Prod.mk.inj hview
  obtain ⟨hmem, hview⟩ := Prod.mk.inj hview
  obtain ⟨hslot, hlast⟩ := Prod.mk.inj hview
  refine ⟨⟨hreg, ?_, ?_⟩, fun _ _ => hmem⟩
  · rw [hlevel]
    exact h.level_le
  · rw [hlevel, hlast, hmem, hslot]
    exact h.frame

/-- Programs all of whose updates keep it. -/
theorem wp_of_keepsEimFrame {α : Type} {ψ : α → Prop} {prog : Prog EimMachine α}
    (hall : prog.All (KeepsEim eimFrameView reg) ψ) (hs : EimTxInv reg start s) :
    wp EimHw (EimTxGuar reg start) prog (fun a t => ψ a ∧ EimTxInv reg start t) s := by
  refine wp_of_all eimTxInv_stable hs (Prog.all_mono hall fun upd hupd t ht => ?_)
  exact ⟨ht.keep hupd, (ht.keep hupd).1⟩

theorem wp_modify_keepsEimFrame {upd : EimMachine → EimMachine}
    (hupd : KeepsEim eimFrameView reg upd) (hs : EimTxInv reg start s) :
    wp EimHw (EimTxGuar reg start) (.modify upd) (fun _ => EimTxInv reg start) s :=
  wp_modify eimTxInv_stable hs fun _ ht => ⟨ht.keep hupd, (ht.keep hupd).1⟩

/-! ## Transmitting -/

/-- The MAC is empty, and the slot at `addr` is as `P` says. -/
def EimFilling (reg addr : Nat) (P : EimFrame → Prop) (s : EimMachine) : Prop :=
  s.dev.txReg = reg ∧ s.dev.txLevel = 0 ∧ P (s.dev.txMem addr)

/-- The hardware does not touch a slot that is being filled. -/
theorem eimFilling_stable {addr : Nat} {P : EimFrame → Prop} :
    Stable EimHw (EimFilling reg addr P) := by
  rintro s t ⟨hreg, hlevel, hP⟩ hR
  obtain ⟨hreg', hmem, -, -, hlevel'⟩ := eimHw_tx hR
  refine ⟨hreg'.trans hreg, by omega, ?_⟩
  rw [hmem]
  exact hP

/-- An assignment to a slot while the MAC is empty. -/
theorem EimFilling.write {addr : Nat} {P Q : EimFrame → Prop} (h : EimFilling reg addr P s)
    (g : EimFrame → EimFrame) (hg : ∀ fr, P fr → Q (g fr)) :
    EimTxGuar reg start s { s with dev.txMem := setEimFrame s.dev.txMem addr g } ∧
      EimFilling reg addr Q { s with dev.txMem := setEimFrame s.dev.txMem addr g } := by
  obtain ⟨hreg, hlevel, hP⟩ := h
  refine ⟨⟨⟨hreg, ?_, ?_⟩, ?_⟩, hreg, hlevel, ?_⟩
  · show s.dev.txLevel ≤ 1
    omega
  · intro hone
    rw [show s.dev.txLevel = 1 from hone] at hlevel
    exact absurd hlevel (by decide)
  · intro hone
    rw [hone] at hlevel
    exact absurd hlevel (by decide)
  · show Q (setEimFrame s.dev.txMem addr g addr)
    rw [setEimFrame, if_pos rfl]
    exact hg _ hP

/-- `fifo_eim_queue_skb()` fills the slot while the MAC is empty, and hands the frame over when it
    is complete. -/
theorem wp_eimQueueSkb_frame {skb : Skb} (hf : EimTxFifo reg start f)
    (hlen : skb.len ≤ MAX_PAYLOAD_SIZE) (hs : EimFilling reg f.next (fun _ => True) s) :
    wp EimHw (EimTxGuar reg start) (fifoEimQueueSkb f skb) (fun _ => EimTxInv reg start) s := by
  unfold fifoEimQueueSkb
  -- the length first, then the data
  refine wp_seq (M := fun _ => EimFilling reg f.next fun fr => fr.length = skb.len) ?_
    fun _ s hs => ?_
  · refine wp_modify eimFilling_stable hs fun t ht => ht.write _ fun fr _ => ?_
    exact Nat.mod_eq_of_lt (Nat.lt_of_le_of_lt hlen (by decide))
  refine wp_seq (M := fun _ => EimFilling reg f.next fun fr => fr.HoldsTx skb.data) ?_
    fun _ s hs => ?_
  · refine wp_modify eimFilling_stable hs fun t ht => ht.write _ fun fr hfr => ⟨hfr, ?_⟩
    exact slice_blit fr.data 0 skb.data
  · refine wp_modify eimFilling_stable hs fun t ht => ?_
    obtain ⟨hreg, hlevel, hholds⟩ := ht
    unfold eimIowrite32
    rw [if_neg (by simp only [hreg, hf.reg_eq]; omega), if_pos (by simp only [hreg, hf.reg_eq])]
    -- with the offset of the slot written the MAC has the frame
    have hinv : EimTxInv reg start { t with
        dev.txSlot := (f.next - f.start) % 2 ^ 32
        dev.txLevel := t.dev.txLevel + 1
        txLog := t.txLog ++ [.queued skb.data] } := by
      refine ⟨hreg, ?_, fun _ => ⟨f.next, skb.data, lastQueued_queued _ _, hholds, hf.le_next, ?_⟩⟩
      · show t.dev.txLevel + 1 ≤ 1
        rw [hlevel]
      · show (f.next - f.start) % 2 ^ 32 = _
        rw [hf.start_eq]
    exact ⟨⟨hinv, fun _ _ => rfl⟩, hinv⟩

/-- `ccat_eth_start_xmit()` fills a slot only when the MAC is empty. -/
theorem wp_startXmit_frame {skb : Skb} (hf : EimTxFifo reg start f) (hs : EimTxInv reg start s) :
    wp EimHw (EimTxGuar reg start) (ccatEthStartXmit eim f skb)
      (fun r t => EimTxFifo reg start r.2 ∧ EimTxInv reg start t) s := by
  -- a refused frame does not get to the MAC
  have hdrop : wp EimHw (EimTxGuar reg start) (do Prog.modify txDrop; return (NetdevTx.ok, f))
      (fun r t => EimTxFifo reg start r.2 ∧ EimTxInv reg start t) s :=
    wp_seq (wp_modify_keepsEimFrame (fun _ h => ⟨h, rfl⟩) hs)
      fun _ t ht => wp_pure ⟨hf, ht⟩
  unfold ccatEthStartXmit
  split
  · exact hdrop
  · split
    · exact hdrop
    · rename_i hlen
      -- ready means that the MAC is empty, and it stays so until the driver counts it up
      refine wp_seq (M := fun ready t => EimTxInv reg start t ∧
        (ready ≠ 0 → EimFilling reg f.next (fun _ => True) t)) ?_ fun ready s hs => ?_
      · refine wp_read eimTxInv_stable hs fun t ht =>
          ⟨⟨ht, fun _ _ => rfl⟩, ht, fun hready => ⟨ht.reg_eq, ?_, trivial⟩⟩
        apply empty_of_eimReady ht.level_le
        by_contra hnot
        exact hready (if_neg hnot)
      by_cases hready : ready = 0
      · rw [if_pos hready]
        refine wp_seq (wp_modify_keepsEimFrame (fun t h => ⟨h, ?_⟩) hs.1)
          fun _ t ht => wp_pure ⟨hf, ht⟩
        -- a full ring is logged, but nothing is queued
        have hlast : lastQueued (t.txLog ++ [.busy]) = lastQueued t.txLog :=
          lastQueued_other t.txLog rfl rfl
        exact congrArg (fun last => (t.dev.txLevel, t.dev.txMem, t.dev.txSlot, last)) hlast
      · rw [if_neg hready]
        refine wp_seq (wp_eimQueueSkb_frame hf (Nat.not_lt.mp hlen) (hs.2 hready)) fun _ t ht => ?_
        refine wp_seq (wp_modify_keepsEimFrame (fun _ h => ⟨h, rfl⟩) ht)
          fun _ t ht => ?_
        refine wp_seq (wp_of_keepsEimFrame (read_keepsEim _) ht) fun ready t ht => ?_
        split
        · refine wp_seq (wp_modify_keepsEimFrame (fun _ h => ⟨h, rfl⟩) ht.2)
            fun _ t ht => ?_
          exact wp_pure ⟨hf.inc, ht⟩
        · exact wp_pure ⟨hf.inc, ht.2⟩

/-- `ccat_eth_fifo_reset()` of the TX FIFO, from any level. -/
theorem wp_txFifoReset_frame {G : EimMachine → EimMachine → Prop} (hf : f.reg = reg)
    (hstart : f.start = start) (hne : reg ≠ 0)
    (hG : ∀ t u, EimTxInv reg start u → u.dev.txLevel = 0 → G t u) (hs : s.dev.txReg = reg) :
    wp EimHw G (ccatEthFifoReset eim fifoEimTxAdd f)
      (fun f' t => EimTxFifo reg start f' ∧ EimTxInv reg start t) s := by
  have hreg : Stable EimHw fun t : EimMachine => t.dev.txReg = reg :=
    fun s t h hR => (eimHw_tx hR).1.trans h
  unfold ccatEthFifoReset ccatEthFifoHwReset
  rw [if_pos (by rw [hf]; exact hne)]
  refine wp_seq (M := fun _ => EimTxInv reg start) ?_ fun _ t ht => ?_
  · refine wp_modify hreg hs fun t ht => ?_
    show G t (eimIowrite32 0 (f.reg + 0x8) t) ∧ EimTxInv reg start (eimIowrite32 0 (f.reg + 0x8) t)
    unfold eimIowrite32
    rw [if_neg (by rw [ht, hf]; omega), if_neg (by rw [ht, hf]; omega),
      if_pos (by rw [ht, hf])]
    -- with the MAC empty there is no frame to keep
    have hinv : EimTxInv reg start { t with dev.txLevel := 0, txLog := t.txLog ++ [.reset] } :=
      ⟨ht, Nat.zero_le 1, fun hone => nomatch hone⟩
    exact ⟨hG _ _ hinv rfl, hinv⟩
  · -- there is nothing to do for the slots of a TX FIFO
    have hadd : ∀ f s, EimTxFifo reg start f → EimTxInv reg start s →
        wp EimHw G (fifoEimTxAdd f) (fun _ => EimTxInv reg start) s := fun _ _ _ hs => wp_pure hs
    have hf' : EimTxFifo reg start { f with next := f.start } :=
      ⟨hf, hstart, Nat.le_of_eq hstart.symm⟩
    exact wp_addSlots_of_add (fun _ h => h.inc) hadd (fun _ h => h) hf' ht

/-! ## Callbacks -/

/-- What holds between callbacks. -/
def EimTxJ (reg start : Nat) (priv : Priv) (s : EimMachine) : Prop :=
  priv.rxFifo.reg = reg + 0x10 ∧ EimTxFifo reg start priv.txFifo ∧ EimTxInv reg start s

/-- `ccat_eth_link_up()` empties the MAC ahead of the forward frame. -/
theorem wp_linkUp_frame {priv : Priv} (hne : reg ≠ 0) (hs : EimTxJ reg start priv s) :
    wp EimHw (EimTxGuar reg start) (ccatEthLinkUp eim priv) (EimTxJ reg start) s := by
  obtain ⟨hrx, htx, hs⟩ := hs
  have hG : ∀ t u, EimTxInv reg start u → u.dev.txLevel = 0 → EimTxGuar reg start t u :=
    fun t u hu hzero => ⟨hu, fun _ hone => by rw [hone] at hzero; exact nomatch hzero⟩
  unfold ccatEthLinkUp ccatEthXmitRaw
  refine wp_seq (wp_of_keepsEimFrame (rxFifoReset_keepsEim eimFrameView_blind hrx) hs)
    fun rxFifo t ht => ?_
  obtain ⟨hrx, ht⟩ := ht
  refine wp_seq (wp_txFifoReset_frame htx.reg_eq htx.start_eq hne hG ht.reg_eq)
    fun txFifo t ht => ?_
  refine wp_seq (M := fun f t => EimTxFifo reg start f ∧ EimTxInv reg start t)
    (wp_seq (wp_startXmit_frame ht.1 ht.2) fun r t ht => wp_pure ht) fun txFifo t ht => ?_
  obtain ⟨htx, ht⟩ := ht
  refine wp_seq (wp_modify_keepsEimFrame (fun _ h => ⟨h, rfl⟩) ht) fun _ t ht => ?_
  refine wp_seq (wp_modify_keepsEimFrame (fun _ h => ⟨h, rfl⟩) ht) fun _ t ht => ?_
  exact wp_pure ⟨hrx, htx, ht⟩

/-- The timer callback. -/
theorem wp_pollTimerCallback_frame {priv : Priv} (hne : reg ≠ 0) (hs : EimTxJ reg start priv s) :
    wp EimHw (EimTxGuar reg start) (pollTimerCallback eim priv) (EimTxJ reg start) s := by
  unfold pollTimerCallback
  refine wp_seq (M := EimTxJ reg start) ?_ fun priv t ht => ?_
  · obtain ⟨hrx, htx, hs⟩ := hs
    unfold pollLink ccatEthPrivReadLinkState
    refine wp_seq (wp_of_keepsEimFrame (read_keepsEim _) hs) fun link t ht => ?_
    refine wp_seq (wp_of_keepsEimFrame (read_keepsEim _) ht.2) fun carrier t ht => ?_
    split
    · split
      · exact wp_linkUp_frame hne ⟨hrx, htx, ht.2⟩
      · -- taking the link down stops the queue, but not the MAC
        have hdown : (ccatEthLinkDown : Prog EimMachine Unit).All (KeepsEim eimFrameView reg)
            fun _ => True :=
          Prog.all_modify_bind (fun _ h => ⟨h, rfl⟩)
            (Prog.all_modify fun _ h => ⟨h, rfl⟩)
        exact wp_seq (wp_of_keepsEimFrame hdown ht.2) fun _ t ht => wp_pure ⟨hrx, htx, ht.2⟩
    · exact wp_pure ⟨hrx, htx, ht.2⟩
  · obtain ⟨hrx, htx, ht⟩ := ht
    refine wp_seq (wp_of_keepsEimFrame (pollRx_keepsEim eimFrameView_blind hrx) ht)
      fun rxFifo t ht => ?_
    have hpollTx : (pollTx eim priv.txFifo).All (KeepsEim eimFrameView reg) fun _ => True :=
      Prog.all_bind (read_keepsEim _) fun _ _ =>
        Prog.all_ite (Prog.all_modify fun _ h => ⟨h, rfl⟩) trivial
    refine wp_seq (wp_of_keepsEimFrame hpollTx ht.2) fun _ t ht' => ?_
    exact wp_pure ⟨ht.1, htx, ht'.2⟩

/-- Every callback keeps the frame in the MAC. -/
theorem eimSystem_correct_frame (hne : reg ≠ 0) :
    eimSystem.Correct (EimTxJ reg start) (EimTxGuar reg start) := by
  constructor
  · rintro priv s t ⟨hrx, htx, hs⟩ hR
    exact ⟨hrx, htx, eimTxInv_stable hs hR⟩
  · intro priv s prog hs hcall
    cases hcall with
    | timer => exact wp_pollTimerCallback_frame hne hs
    | startXmit skb _ =>
      obtain ⟨hrx, htx, hs⟩ := hs
      exact wp_seq (wp_startXmit_frame htx hs) fun r t ht => wp_pure ⟨hrx, ht.1, ht.2⟩

/-- The set-up of the FIFOs empties the MAC, whatever was in it. -/
theorem wp_setUpEimFifos_frame {rx tx : Fifo} {txSize : Nat} (hne : reg ≠ 0)
    (hrx : rx.reg = reg + 0x10) (htx : tx.reg = reg) (hs : s.dev.txReg = reg) :
    wp EimHw (fun _ _ => True) (setUpEimFifos rx tx txSize) (EimTxJ reg tx.start) s := by
  have hreg : Stable EimHw fun t : EimMachine => t.dev.txReg = reg :=
    fun s t h hR => (eimHw_tx hR).1.trans h
  unfold setUpEimFifos fifoSetEnd
  refine wp_seq (wp_of_all hreg hs (Prog.all_mono (rxFifoReset_keepsEim eimFrameView_blind hrx)
    fun upd hupd t ht => ⟨trivial, (hupd t ht).1⟩)) fun rxFifo t ht => ?_
  refine wp_seq (wp_txFifoReset_frame htx rfl hne (fun _ _ _ _ => trivial) ht.2)
    fun txFifo t ht' => ?_
  exact wp_pure ⟨ht.1, ht'.1, ht'.2⟩

end Run

/-! ## Every run -/

/-- **The frame in the MAC.** In every run from the end of the set-up, with the hardware stepping
    anywhere: the MAC never has more than one frame, this frame is the one queued last and lies as
    it was passed down in the slot whose offset was written to the register, and no step changes
    the TX memory as long as the frame stays in the MAC. -/
theorem eim_tx_frame_safe (rx tx : Fifo) (txSize : Nat) (s₀ s₁ : EimMachine) (priv : Priv)
    (hne : s₀.dev.txReg ≠ 0) (hrx : rx.reg = s₀.dev.txReg + 0x10) (htx : tx.reg = s₀.dev.txReg)
    (hsetUp : RunsTo EimHw (setUpEimFifos rx tx txSize) s₀ priv s₁) (c : Config EimMachine Priv)
    (hreach : eimSystem.Reach ⟨.idle priv, s₁⟩ c) :
    EimTxInv s₀.dev.txReg tx.start c.state ∧
      ∀ c', eimSystem.Step c c' → TxMemKept c.state c'.state := by
  have hcorrect : eimSystem.Correct (EimTxJ s₀.dev.txReg tx.start)
      (EimTxGuar s₀.dev.txReg tx.start) := eimSystem_correct_frame hne
  have hidle : EimTxJ s₀.dev.txReg tx.start priv s₁ :=
    wp_runsTo hcorrect.stable (wp_setUpEimFifos_frame hne hrx htx rfl) hsetUp
  have hok : eimSystem.Ok (EimTxJ s₀.dev.txReg tx.start) (EimTxGuar s₀.dev.txReg tx.start)
      ⟨.idle priv, s₁⟩ := hidle
  refine ⟨?_, fun c' hstep => ?_⟩
  · exact System.reach_always hcorrect (fun s t hs hR => eimTxInv_stable hs hR)
      (fun s t _ hG => hG.1) hok hidle.2.2 hreach
  · -- a step of the hardware, of the driver, or none at all
    rcases System.step_rel (System.reach_ok hcorrect hok hreach) hstep with hR | hG | heq
    · exact fun _ _ => (eimHw_tx hR).2.1
    · exact hG.2
    · rw [heq]
      exact fun _ _ => rfl

/-- After the callback that saw the link come up the forward frame is in the MAC. -/
theorem eim_tx_frame_safe_linkUp :
    linkUpEnd.2.dev.txLevel = 1 ∧ EimTxInv 0x100 0x2000 linkUpEnd.2 := by
  obtain ⟨-, -, hlevel⟩ := linkUpEnd_spec
  refine ⟨hlevel, ?_⟩
  have hsetUp : RunsTo EimHw (setUpEimFifos oneSlotRx oneSlotTx FRAME_SIZE) eimLinked
      ⟨oneSlotRx, oneSlotTx⟩ eimSetUp := eimSetUp_runsTo
  exact (eim_tx_frame_safe oneSlotRx oneSlotTx FRAME_SIZE eimLinked eimSetUp
    ⟨oneSlotRx, oneSlotTx⟩ (by decide) rfl rfl hsetUp ⟨.idle linkUpEnd.1, linkUpEnd.2⟩
    (.head (.start .timer) (System.reach_exec (fun _ => true) _ 0 _))).1

end Ccat.Native.Eth
