import Mathlib.Data.List.Perm.Subperm
import Ccat.ForStd.List
import Ccat.Spec.EthFifo

/-!
# The DMA transmit path

A slot that is flagged `CCAT_FRAME_SENT` is the driver's, a slot in the hardware's queue
is not flagged. So a slot found flagged at `next` is not in the queue, and filling it
does not disturb a frame in flight. Between callbacks the transmit queue of the net
device is awake only when the slot at `next` is flagged.

## Key results

- `TxRing.transmit`, `TxRing.complete`, `TxRing.write`, `TxRing.push`: what the steps do to
  the ring
- `txInv_hw`: every step of the hardware keeps the ring in order
- `wp_xmit`, `wp_txFifoReset`: what the driver does to it
- `dmaSystem_correct_tx`, `wp_setUpFifos_tx`: every callback restores the transmit side
-/

namespace Ccat.Native.Eth

open Interleave Memory

/-! ## Logs -/

def TxEvent.isReset : TxEvent → Bool
  | .reset => true
  | _ => false

def TxEvent.isBusy : TxEvent → Bool
  | .busy => true
  | _ => false

/-- The part of a log since the last reset of the TX FIFO. -/
def txSince (log : List TxEvent) : List TxEvent := log.since TxEvent.isReset

/-- The frames `ccat_eth_start_xmit()` queued. -/
def queuedFrames (log : List TxEvent) : List (List UInt8) :=
  log.filterMap fun | .queued p => some p | _ => none

/-- The frames the hardware put on the wire. -/
def wireFrames (log : List TxEvent) : List (List UInt8) :=
  log.filterMap fun | .wire p => some p | _ => none

/-- One more event that is not a reset. -/
theorem queuedFrames_concat (log : List TxEvent) {e : TxEvent} (he : e.isReset = false) :
    queuedFrames (txSince (log ++ [e])) = queuedFrames (txSince log) ++ queuedFrames [e] := by
  unfold txSince
  rw [List.since_concat_of_neg log he]
  exact List.filterMap_append

/-- One more event that is not a reset. -/
theorem wireFrames_concat (log : List TxEvent) {e : TxEvent} (he : e.isReset = false) :
    wireFrames (txSince (log ++ [e])) = wireFrames (txSince log) ++ wireFrames [e] := by
  unfold txSince
  rw [List.since_concat_of_neg log he]
  exact List.filterMap_append

/-- At every moment of the log, what was on the wire since the last reset is the beginning of
    what was queued since then. -/
def InOrder (log : List TxEvent) : Prop :=
  ∀ l, l <+: log → wireFrames (txSince l) <+: queuedFrames (txSince l)

/-- It is enough to look at the log up to the last event. -/
theorem InOrder.concat {log : List TxEvent} (h : InOrder log) {e : TxEvent}
    (hnew : wireFrames (txSince (log ++ [e])) <+: queuedFrames (txSince (log ++ [e]))) :
    InOrder (log ++ [e]) := by
  intro l hl
  rcases List.prefix_concat_iff.mp hl with rfl | hl
  · exact hnew
  · exact h l hl

/-! ## The ring -/

/-- `CCAT_FRAME_SENT` is set. -/
def DmaFrame.Sent (fr : DmaFrame) : Prop := fr.txFlags &&& CCAT_FRAME_SENT ≠ 0

/-- The frames that are queued and not on the wire yet. -/
def waiting (queue : List Nat) (transmitting : Bool) : List Nat :=
  if transmitting then queue.tail else queue

/-- The ring with the slots at the offsets `S` known to be flagged. -/
structure TxRing (base : Nat) (mem : Nat → DmaFrame) (queue : List Nat) (transmitting : Bool)
    (log : List TxEvent) (S : Nat → Prop) : Prop where
  nodup : queue.Nodup
  slots : ∀ off ∈ queue, ∃ k, off = slotOff k
  unsent : ∀ off ∈ queue, ¬(mem (base + off)).Sent
  trace : queuedFrames (txSince log) = wireFrames (txSince log) ++
    (waiting queue transmitting).map fun off => (mem (base + off)).payload
  inOrder : InOrder log
  nonempty : transmitting = true → queue ≠ []
  no_busy : TxEvent.busy ∉ log
  sent : ∀ off, S off → (mem (base + off)).Sent

section TxRing

variable {base : Nat} {mem : Nat → DmaFrame} {queue : List Nat} {transmitting : Bool}
  {log : List TxEvent} {S S' : Nat → Prop} {off : Nat}

/-- A flagged slot is not in the queue. -/
theorem TxRing.notMem (h : TxRing base mem queue transmitting log S) (hoff : S off) :
    off ∉ queue :=
  fun hmem => h.unsent off hmem (h.sent off hoff)

theorem TxRing.weaken (h : TxRing base mem queue transmitting log S)
    (hS : ∀ off, S' off → (mem (base + off)).Sent) :
    TxRing base mem queue transmitting log S' :=
  { h with sent := hS }

/-- A reset of the FIFO empties the queue and begins a new account. -/
theorem TxRing.reset (h : TxRing base mem queue transmitting log S) :
    TxRing base mem [] false (log ++ [.reset]) S := by
  have hsince : txSince (log ++ [.reset]) = [] := List.since_concat_of_pos log rfl
  refine ⟨List.nodup_nil, (fun _ h => nomatch h), (fun _ h => nomatch h), ?_, h.inOrder.concat ?_,
    (fun h => nomatch h), ?_, h.sent⟩
  · -- a reset starts an empty part of the log
    rw [hsince]
    rfl
  · rw [hsince]
    exact List.prefix_refl _
  · simp [h.no_busy]

/-- The oldest frame goes on the wire. -/
theorem TxRing.transmit (h : TxRing base mem (off :: queue) false log S) :
    TxRing base mem (off :: queue) true (log ++ [.wire (mem (base + off)).payload]) S := by
  have htrace : queuedFrames (txSince (log ++ [.wire (mem (base + off)).payload])) =
      wireFrames (txSince (log ++ [.wire (mem (base + off)).payload])) ++
        queue.map fun off => (mem (base + off)).payload := by
    rw [queuedFrames_concat log rfl, wireFrames_concat log rfl, h.trace]
    show _ ++ [] = _ ++ [(mem (base + off)).payload] ++ _
    rw [List.append_nil, List.append_assoc]
    rfl
  refine ⟨h.nodup, h.slots, h.unsent, htrace, h.inOrder.concat ⟨_, htrace.symm⟩, ?_, ?_, h.sent⟩
  · simp
  · simp [h.no_busy]

theorem DmaFrame.complete_sent (fr : DmaFrame) : fr.complete.Sent := or_one_and_one_ne_zero _

/-- An assignment to a slot that is not queued. -/
theorem TxRing.write (h : TxRing base mem queue transmitting log S) (hoff : off ∉ queue)
    (g : DmaFrame → DmaFrame) (hS : ∀ o, S' o → o ≠ off → S o)
    (hoffS : S' off → (g (mem (base + off))).Sent) :
    TxRing base (setFrame mem (base + off) g) queue transmitting log S' := by
  -- queued slots are others, so they do not change
  have hmem : ∀ o ∈ queue, setFrame mem (base + off) g (base + o) = mem (base + o) :=
    fun o ho => setFrame_ne mem base g fun heq => hoff (heq ▸ ho)
  refine ⟨h.nodup, h.slots, fun o ho => ?_, ?_, h.inOrder, h.nonempty, h.no_busy, fun o ho => ?_⟩
  · rw [hmem o ho]
    exact h.unsent o ho
  · rw [h.trace]
    congr 1
    apply List.map_congr_left
    intro o ho
    have ho' : o ∈ queue := by
      unfold waiting at ho
      split at ho
      · exact List.mem_of_mem_tail ho
      · exact ho
    rw [hmem o ho']
  · -- a slot known to be flagged is the written one or untouched
    by_cases heq : o = off
    · subst heq
      rw [setFrame_self]
      exact hoffS ho
    · rw [setFrame_ne mem base g heq]
      exact h.sent o (hS o ho heq)

/-- The frame on the wire is done. -/
theorem TxRing.complete (h : TxRing base mem (off :: queue) true log S) :
    TxRing base (setFrame mem (base + off) DmaFrame.complete) queue false log S := by
  obtain ⟨hnotin, hnodup⟩ := List.nodup_cons.mp h.nodup
  -- without its first slot the queue is all waiting
  have hrest : TxRing base mem queue false log S :=
    ⟨hnodup, fun o ho => h.slots o (List.mem_cons_of_mem _ ho),
      fun o ho => h.unsent o (List.mem_cons_of_mem _ ho), h.trace, h.inOrder, (fun h => nomatch h),
      h.no_busy, h.sent⟩
  exact hrest.write hnotin _ (fun o ho _ => ho) fun _ => DmaFrame.complete_sent _

/-- The driver queues a slot that it has filled with `data`. -/
theorem TxRing.push (h : TxRing base mem queue transmitting log S) (hoff : off ∉ queue)
    (hslot : ∃ k, off = slotOff k) (hunsent : ¬(mem (base + off)).Sent) {data : List UInt8}
    (hdata : (mem (base + off)).payload = data) :
    TxRing base mem (queue ++ [off]) transmitting (log ++ [.queued data]) S := by
  -- the new slot waits behind all others
  have hwaiting : waiting (queue ++ [off]) transmitting = waiting queue transmitting ++ [off] := by
    unfold waiting
    cases htr : transmitting with
    | false => rfl
    | true =>
      have hne := h.nonempty htr
      simp only [if_true]
      exact List.tail_append_of_ne_nil hne
  have htrace : queuedFrames (txSince (log ++ [.queued data])) =
      wireFrames (txSince (log ++ [.queued data])) ++
        (waiting (queue ++ [off]) transmitting).map fun off => (mem (base + off)).payload := by
    rw [queuedFrames_concat log rfl, wireFrames_concat log rfl, h.trace, hwaiting, List.map_append]
    show _ ++ [data] = _ ++ [] ++ (_ ++ [(mem (base + off)).payload])
    rw [hdata, List.append_nil, List.append_assoc]
  -- the wire is still a beginning of what was queued
  refine ⟨?_, fun o ho => ?_, fun o ho => ?_, htrace, h.inOrder.concat ⟨_, htrace.symm⟩, ?_, ?_,
    h.sent⟩
  · rw [List.nodup_append]
    exact ⟨h.nodup, by simp, fun a ha b hb => by
      rw [List.mem_singleton.mp hb]
      exact fun heq => hoff (heq ▸ ha)⟩
  · rcases List.mem_append.mp ho with ho | ho
    · exact h.slots o ho
    · rw [List.mem_singleton.mp ho]
      exact hslot
  · rcases List.mem_append.mp ho with ho | ho
    · exact h.unsent o ho
    · rw [List.mem_singleton.mp ho]
      exact hunsent
  · simp
  · simp [h.no_busy]

end TxRing

/-! ## The ring in a run -/

/-- The machine with its transmit ring in order and the slots at the offsets `S` flagged. -/
structure TxInv (reg start : Nat) (S : Nat → Prop) (s : DmaMachine) : Prop where
  reg_eq : s.dev.txReg = reg
  base_eq : s.dev.tx.base = start
  ring : TxRing start s.dev.tx.mem s.dev.tx.queue s.dev.transmitting s.txLog S

/-- The driver holds the slot at `off`, and it is as `P` says. -/
def TxHeld (reg start : Nat) (S : Nat → Prop) (off : Nat) (P : DmaFrame → Prop)
    (s : DmaMachine) : Prop :=
  TxInv reg start S s ∧ off ∉ s.dev.tx.queue ∧ P (s.dev.tx.mem (start + off))

/-- Queued slots stay queued and as they are. -/
def TxKeep (s t : DmaMachine) : Prop :=
  ∀ off ∈ s.dev.tx.queue, off ∈ t.dev.tx.queue ∧
    t.dev.tx.mem (s.dev.tx.base + off) = s.dev.tx.mem (s.dev.tx.base + off)

/-- What every update of the driver does: the ring stays in order, and unless the FIFO is reset
    no queued slot changes. -/
def TxGuar (reg start : Nat) (s t : DmaMachine) : Prop :=
  TxInv reg start (fun _ => False) t ∧ (TxKeep s t ∨ t.txLog = s.txLog ++ [.reset])

section Run

variable {reg start off : Nat} {S S' : Nat → Prop} {P : DmaFrame → Prop} {s t : DmaMachine}

theorem TxInv.weaken (h : TxInv reg start S s) (hS : ∀ off, S' off → S off) :
    TxInv reg start S' s :=
  ⟨h.reg_eq, h.base_eq, h.ring.weaken fun off hoff => h.ring.sent off (hS off hoff)⟩

/-- A step that keeps the queued slots does what the driver promises. -/
theorem TxInv.guar (h : TxInv reg start S t) (hkeep : TxKeep s t) : TxGuar reg start s t :=
  ⟨h.weaken fun _ hfalse => hfalse.elim, .inl hkeep⟩

theorem TxKeep.refl (s : DmaMachine) : TxKeep s s := fun _ hoff => ⟨hoff, rfl⟩

/-- The transmit side of two machines is the same. -/
structure SameTx (s t : DmaMachine) : Prop where
  reg_eq : t.dev.txReg = s.dev.txReg
  tx_eq : t.dev.tx = s.dev.tx
  transmitting_eq : t.dev.transmitting = s.dev.transmitting
  log_eq : t.txLog = s.txLog
  awake_eq : t.net.awake = s.net.awake

/-- The invariant depends on the TX FIFO and its log alone. -/
theorem TxInv.congr (h : TxInv reg start S s) (hreg : t.dev.txReg = s.dev.txReg)
    (htx : t.dev.tx = s.dev.tx) (htr : t.dev.transmitting = s.dev.transmitting)
    (hlog : t.txLog = s.txLog) : TxInv reg start S t := by
  refine ⟨hreg.trans h.reg_eq, ?_, ?_⟩
  · rw [htx]
    exact h.base_eq
  · rw [htx, htr, hlog]
    exact h.ring

/-- A step that does not touch the TX FIFO keeps the queued slots. -/
theorem TxKeep.congr (htx : t.dev.tx = s.dev.tx) : TxKeep s t := by
  intro off hoff
  rw [htx]
  exact ⟨hoff, rfl⟩

/-- What a step of the hardware does to the queued slots: it keeps them, or flags the first. -/
structure TxHw (s t : DmaMachine) : Prop where
  awake_eq : t.net.awake = s.net.awake
  base_eq : t.dev.tx.base = s.dev.tx.base
  queue_sub : ∀ off ∈ t.dev.tx.queue, off ∈ s.dev.tx.queue
  keep : ∀ off, (off ∈ t.dev.tx.queue ∨ off ∉ s.dev.tx.queue) →
    t.dev.tx.mem (s.dev.tx.base + off) = s.dev.tx.mem (s.dev.tx.base + off)
  done : ∀ off ∈ s.dev.tx.queue, off ∉ t.dev.tx.queue →
    t.dev.tx.mem (s.dev.tx.base + off) = (s.dev.tx.mem (s.dev.tx.base + off)).complete

/-- What does not touch the TX FIFO is as harmless as the hardware. -/
theorem SameTx.txHw (h : SameTx s t) : TxHw s t := by
  refine ⟨h.awake_eq, ?_, fun off hoff => ?_, fun off _ => ?_, fun off hoff hnot => ?_⟩
  · rw [h.tx_eq]
  · rw [h.tx_eq] at hoff
    exact hoff
  · rw [h.tx_eq]
  · rw [h.tx_eq] at hnot
    exact absurd hoff hnot

/-- Every step of the hardware keeps the ring in order. -/
theorem txInv_hw (h : TxInv reg start S s) (a : HwStep) :
    TxInv reg start S (hwStep a s) ∧ TxHw s (hwStep a s) := by
  -- steps that leave the transmit side alone
  have hkeep : ∀ t, SameTx s t → TxInv reg start S t ∧ TxHw s t := fun t hsame =>
    ⟨h.congr hsame.reg_eq hsame.tx_eq hsame.transmitting_eq hsame.log_eq, hsame.txHw⟩
  obtain ⟨hreg, hbase, hring⟩ := h
  subst hbase
  have heffect := hwStep_effect a s
  generalize hwStep a s = t at heffect ⊢
  cases heffect with
  | lost p _ => exact hkeep _ ⟨rfl, rfl, rfl, rfl, rfl⟩
  | stored p off queue _ _ => exact hkeep _ ⟨rfl, rfl, rfl, rfl, rfl⟩
  | wire off queue hqueue htr =>
    rw [hqueue, htr] at hring
    -- the first slot stays queued until it is flagged
    have hring' := hring.transmit
    rw [← hqueue] at hring'
    exact ⟨⟨hreg, rfl, hring'⟩, rfl, rfl, fun _ ho => ho, fun _ _ => rfl,
      fun _ ho hno => absurd ho hno⟩
  | done off queue hqueue htr =>
    rw [hqueue, htr] at hring
    -- the slot that leaves the queue is queued only once
    have hnotin := (List.nodup_cons.mp hring.nodup).1
    refine ⟨⟨hreg, rfl, hring.complete⟩, rfl, rfl, fun o ho => ?_, fun o ho => ?_,
      fun o ho hno => ?_⟩
    · rw [hqueue]
      exact List.mem_cons_of_mem _ ho
    · refine setFrame_ne _ _ _ fun heq => ?_
      subst heq
      rcases ho with ho | ho
      · exact hnotin ho
      · rw [hqueue] at ho
        exact ho (List.mem_cons_self ..)
    · rw [hqueue] at ho
      rcases List.mem_cons.mp ho with rfl | ho
      · exact setFrame_self ..
      · exact absurd ho hno
  | link w => exact hkeep _ ⟨rfl, rfl, rfl, rfl, rfl⟩
  | nothing => exact hkeep _ ⟨rfl, rfl, rfl, rfl, rfl⟩

theorem txInv_stable : Stable Hw (TxInv reg start S) := by
  rintro s _ h ⟨a, rfl⟩
  exact (txInv_hw h a).1

/-- The hardware does not touch a slot that the driver holds. -/
theorem txHeld_stable : Stable Hw (TxHeld reg start S off P) := by
  rintro s _ ⟨hinv, hoff, hP⟩ ⟨a, rfl⟩
  obtain ⟨hinv', hhw⟩ := txInv_hw hinv a
  refine ⟨hinv', fun hin => hoff (hhw.queue_sub off hin), ?_⟩
  have hmem := hhw.keep off (.inr hoff)
  rw [hinv.base_eq] at hmem
  rw [hmem]
  exact hP

/-! ## Queueing a frame -/

/-- An assignment to the slot the driver holds. -/
theorem TxHeld.write {Q : DmaFrame → Prop} (h : TxHeld reg start S off P s) (hS : ¬S off)
    (g : DmaFrame → DmaFrame) (hg : ∀ fr, P fr → Q (g fr)) :
    TxGuar reg start s { s with dev.tx.mem := setFrame s.dev.tx.mem (start + off) g } ∧
      TxHeld reg start S off Q { s with dev.tx.mem := setFrame s.dev.tx.mem (start + off) g } := by
  obtain ⟨⟨hreg, hbase, hring⟩, hoff, hP⟩ := h
  have hinv : TxInv reg start S { s with dev.tx.mem := setFrame s.dev.tx.mem (start + off) g } :=
    ⟨hreg, hbase, hring.write hoff g (fun o ho _ => ho) fun hin => absurd hin hS⟩
  refine ⟨hinv.guar fun o ho => ⟨ho, ?_⟩, hinv, hoff, ?_⟩
  · rw [hbase]
    exact setFrame_ne _ _ _ fun heq => hoff (heq ▸ ho)
  · show Q (setFrame s.dev.tx.mem (start + off) g (start + off))
    rw [setFrame_self]
    exact hg _ hP

/-- `fifo_dma_queue_skb()` on a flagged slot. The slot is taken from the known flagged ones; the
    driver holds it until it is filled and queued. -/
theorem wp_queueSkb {k : Nat} {f : Fifo} (hf : RingFifo reg start k f) {skb : Skb}
    (hlen : skb.len ≤ MAX_PAYLOAD_SIZE) (hk : S (slotOff k)) (hs : TxInv reg start S s) :
    wp Hw (TxGuar reg start) (fifoDmaQueueSkb f skb)
      (fun _ => TxInv reg start fun o => S o ∧ o ≠ slotOff k) s := by
  have hnext := hf.next_eq
  have hgone : ¬(S (slotOff k) ∧ slotOff k ≠ slotOff k) := fun h => h.2 rfl
  unfold fifoDmaQueueSkb
  rw [hnext]
  refine wp_seq (M := fun _ => TxHeld reg start (fun o => S o ∧ o ≠ slotOff k) (slotOff k)
    fun fr => fr.txFlags = 0) ?_ fun _ s hs => ?_
  · -- the slot becomes the driver's
    refine wp_modify txInv_stable hs fun t ht => ?_
    have hheld : TxHeld reg start (fun o => S o ∧ o ≠ slotOff k) (slotOff k) (fun _ => True) t :=
      ⟨ht.weaken fun _ h => h.1, ht.ring.notMem hk, trivial⟩
    exact hheld.write hgone _ fun _ _ => rfl
  refine wp_seq (M := fun _ => TxHeld reg start (fun o => S o ∧ o ≠ slotOff k) (slotOff k)
    fun fr => fr.txFlags = 0 ∧ fr.length = skb.len) ?_ fun _ s hs => ?_
  · -- the length fits into the 16 bits of its field
    refine wp_modify txHeld_stable hs fun t ht => ht.write hgone _ fun fr hfr => ⟨hfr, ?_⟩
    exact Nat.mod_eq_of_lt (Nat.lt_of_le_of_lt hlen (by decide))
  refine wp_seq (M := fun _ => TxHeld reg start (fun o => S o ∧ o ≠ slotOff k) (slotOff k)
    fun fr => fr.txFlags = 0 ∧ fr.payload = skb.data) ?_ fun _ s hs => ?_
  · -- the payload is what was copied, as the length is already in place
    refine wp_modify txHeld_stable hs fun t ht => ht.write hgone _ fun fr hfr => ⟨hfr.1, ?_⟩
    show slice (blit fr.data 0 skb.data) 0 fr.length = skb.data
    rw [hfr.2]
    exact slice_blit ..
  · -- the frame is complete and is handed over
    refine wp_modify txHeld_stable hs fun t ht => ?_
    obtain ⟨⟨hreg, hbase, hring⟩, hoff, hflags, hdata⟩ := ht
    have hunsent : ¬(t.dev.tx.mem (start + slotOff k)).Sent := fun hsent => hsent (by
      rw [hflags]
      rfl)
    have hpush := hring.push hoff ⟨k, rfl⟩ hunsent hdata
    have hwrite := iowrite32_tx (s := { t with txLog := t.txLog ++ [.queued skb.data] }) hreg
      (addrAndLength f skb.len)
    -- the descriptor leads back to the slot
    rw [hf.reg_eq, hwrite, decode_addrAndLength hf]
    have hinv : TxInv reg start (fun o => S o ∧ o ≠ slotOff k)
        { t with
          dev.tx.queue := t.dev.tx.queue ++ [slotOff k]
          txLog := t.txLog ++ [.queued skb.data] } := ⟨hreg, hbase, hpush⟩
    exact ⟨hinv.guar fun o ho => ⟨List.mem_append_left _ ho, rfl⟩, hinv⟩

/-! ## `ccat_eth_start_xmit()` -/

/-- `fifo_dma_tx_ready()` tells whether the slot at `next` is flagged. -/
theorem wp_txReady {k : Nat} {f : Fifo} (hf : RingFifo reg start k f) (hs : TxInv reg start S s) :
    wp Hw (TxGuar reg start) (fifoDmaTxReady f)
      (fun ready t => TxInv reg start S t ∧ (S (slotOff k) → ready ≠ 0) ∧
        (ready ≠ 0 → TxInv reg start (fun o => S o ∨ o = slotOff k) t)) s := by
  refine wp_read txInv_stable hs fun t ht => ⟨ht.guar (TxKeep.refl t), ht, ?_, ?_⟩
  · rw [hf.next_eq]
    exact ht.ring.sent _
  · rw [hf.next_eq]
    refine fun hsent => ⟨ht.reg_eq, ht.base_eq, ht.ring.weaken fun o ho => ?_⟩
    rcases ho with ho | rfl
    · exact ht.ring.sent o ho
    · exact hsent

/-- Between callbacks: `next` is at a flagged slot, or the queue is stopped. -/
def TxIdleAt (reg start k : Nat) (s : DmaMachine) : Prop :=
  TxInv reg start (fun o => o = slotOff k) s ∨
    (TxInv reg start (fun _ => False) s ∧ s.net.awake = false)

theorem txInv_net (net : Net) (h : TxInv reg start S s) :
    TxGuar reg start s { s with net := net } ∧ TxInv reg start S { s with net := net } := by
  have hinv : TxInv reg start S { s with net := net } := h.congr rfl rfl rfl rfl
  exact ⟨hinv.guar (TxKeep.congr rfl), hinv⟩

/-- A frame that is linear and not too long is queued, and the queue is stopped when the next
    slot is not flagged. -/
theorem wp_xmit {k : Nat} {f : Fifo} (hf : RingFifo reg start k f) {skb : Skb}
    (hlin : skb.nonlinear = false) (hlen : skb.len ≤ MAX_PAYLOAD_SIZE) (hs : TxInv reg start S s)
    (hk : S (slotOff k)) :
    wp Hw (TxGuar reg start) (ccatEthStartXmit dma f skb)
      (fun r t => r.1 = .ok ∧ RingFifo reg start (k + 1) r.2 ∧ TxIdleAt reg start (k + 1) t ∧
        TxInv reg start (fun o => S o ∧ o ≠ slotOff k) t) s := by
  have hf' := ringFifo_inc hf
  unfold ccatEthStartXmit
  rw [if_neg (by rw [hlin]; decide), if_neg (Nat.not_lt.mpr hlen)]
  refine wp_seq (wp_txReady hf hs) fun ready s hs => ?_
  -- the slot is flagged, so the ring is not full
  rw [if_neg (hs.2.1 hk)]
  refine wp_seq (wp_queueSkb hf hlen hk hs.1) fun _ s hs => ?_
  refine wp_seq (M := fun _ => TxInv reg start fun o => S o ∧ o ≠ slotOff k)
    (wp_modify txInv_stable hs fun t ht => txInv_net _ ht) fun _ s hs => ?_
  refine wp_seq (wp_txReady hf' hs) fun ready s hs => ?_
  -- the queue is stopped behind the last free slot
  by_cases hready : ready = 0
  · rw [if_pos hready]
    refine wp_seq (M := fun _ t => TxInv reg start (fun o => S o ∧ o ≠ slotOff k) t ∧
      t.net.awake = false) ?_ fun _ s hs => ?_
    · refine wp_modify txInv_stable hs.1 fun t ht => ?_
      have hnet := txInv_net { t.net with awake := false } ht
      exact ⟨hnet.1, hnet.2, rfl⟩
    · exact wp_pure ⟨rfl, hf', .inr ⟨hs.1.weaken fun _ h => h.elim, hs.2⟩, hs.1⟩
  · rw [if_neg hready]
    exact wp_pure ⟨rfl, hf', .inl ((hs.2.2 hready).weaken fun _ h => .inr h), hs.1⟩

/-- `ccat_eth_start_xmit()` of any skb, with the slot at `next` flagged. -/
theorem wp_startXmit {k : Nat} {f : Fifo} (hf : RingFifo reg start k f) (skb : Skb)
    (hs : TxInv reg start (fun o => o = slotOff k) s) :
    wp Hw (TxGuar reg start) (ccatEthStartXmit dma f skb)
      (fun r t => ∃ k, RingFifo reg start k r.2 ∧ TxIdleAt reg start k t) s := by
  -- the two ways to drop a frame
  have hdrop : wp Hw (TxGuar reg start) (do Prog.modify txDrop; return (NetdevTx.ok, f))
      (fun r t => ∃ k, RingFifo reg start k r.2 ∧ TxIdleAt reg start k t) s := by
    refine wp_seq (M := fun _ => TxInv reg start fun o => o = slotOff k)
      (wp_modify txInv_stable hs fun t ht => txInv_net _ ht) fun _ t ht => ?_
    exact wp_pure ⟨k, hf, .inl ht⟩
  by_cases hlin : skb.nonlinear = true
  · unfold ccatEthStartXmit
    rw [if_pos hlin]
    exact hdrop
  · rcases Nat.lt_or_ge MAX_PAYLOAD_SIZE skb.len with hlong | hlen
    · unfold ccatEthStartXmit
      rw [if_neg hlin, if_pos hlong]
      exact hdrop
    · refine wp_mono (wp_xmit hf (by simpa using hlin) hlen hs rfl) fun r t ht => ?_
      exact ⟨k + 1, ht.2.1, ht.2.2.1⟩

/-! ## Resetting the FIFO -/

/-- During a reset: nothing is queued, and the first `k` slots are flagged. -/
def TxResetting (reg start k : Nat) (s : DmaMachine) : Prop :=
  TxInv reg start (fun o => ∃ j, j < k ∧ o = slotOff j) s ∧ s.dev.tx.queue = []

/-- While the driver resets the FIFO the hardware has nothing to send. -/
theorem txResetting_stable {k : Nat} : Stable Hw (TxResetting reg start k) := by
  rintro s _ ⟨hinv, hqueue⟩ ⟨a, rfl⟩
  obtain ⟨hinv', hhw⟩ := txInv_hw hinv a
  refine ⟨hinv', List.eq_nil_iff_forall_not_mem.mpr fun off hoff => ?_⟩
  have hmem := hhw.queue_sub off hoff
  rw [hqueue] at hmem
  exact nomatch hmem

/-- `ccat_eth_tx_fifo_dma_add_free()` flags one more slot. -/
theorem wp_txAdd {k : Nat} {f : Fifo} (hf : RingFifo reg start k f)
    (hs : TxResetting reg start k s) :
    wp Hw (TxGuar reg start) (ccatEthTxFifoDmaAddFree f)
      (fun _ => TxResetting reg start (k + 1)) s := by
  unfold ccatEthTxFifoDmaAddFree
  rw [hf.next_eq]
  refine wp_modify txResetting_stable hs ?_
  rintro t ⟨⟨hreg, hbase, hring⟩, hqueue⟩
  -- the queue is empty, so the slot is not in use
  have hnot : slotOff k ∉ t.dev.tx.queue := by simp [hqueue]
  have hring' : TxRing start (setFrame t.dev.tx.mem (start + slotOff k) fun fr =>
      { fr with txFlags := CCAT_FRAME_SENT }) t.dev.tx.queue t.dev.transmitting t.txLog
      fun o => ∃ j, j < k + 1 ∧ o = slotOff j := by
    refine hring.write hnot _ ?_ fun _ => ?_
    · rintro o ⟨j, hj, rfl⟩ hne
      refine ⟨j, ?_, rfl⟩
      rcases Nat.lt_or_ge j k with hlt | hge
      · exact hlt
      · obtain rfl : j = k := by omega
        exact absurd rfl hne
    · show CCAT_FRAME_SENT &&& CCAT_FRAME_SENT ≠ 0
      decide
  have hinv : TxInv reg start (fun o => ∃ j, j < k + 1 ∧ o = slotOff j) { t with
      dev.tx.mem := setFrame t.dev.tx.mem (start + slotOff k) fun fr =>
        { fr with txFlags := CCAT_FRAME_SENT } } := ⟨hreg, hbase, hring'⟩
  refine ⟨hinv.guar fun o ho => ?_, hinv, hqueue⟩
  rw [hqueue] at ho
  exact nomatch ho

/-- `ccat_eth_fifo_reset()` of the TX FIFO: all slots are flagged and `next` is at the start. -/
theorem wp_txFifoReset {f : Fifo} (hreg : f.reg = reg) (hne : reg ≠ 0) (hstart : f.start = start)
    (hend : f.fifoEnd = start + CCAT_ALIGNMENT - FRAME_SIZE) (hs : TxInv reg start S s) :
    wp Hw (TxGuar reg start) (ccatEthFifoReset dma ccatEthTxFifoDmaAddFree f)
      (fun f' t => RingFifo reg start 0 f' ∧
        TxInv reg start (fun o => ∃ j, j < FIFO_LENGTH ∧ o = slotOff j) t) s := by
  unfold ccatEthFifoReset ccatEthFifoHwReset
  rw [if_pos (by rw [hreg]; exact hne)]
  refine wp_seq (M := fun _ => TxResetting reg start 0) ?_ fun _ s hs => ?_
  · -- the hardware gives up its queue
    refine wp_modify txInv_stable hs ?_
    rintro t ⟨htreg, hbase, hring⟩
    show TxGuar reg start t (dmaIowrite32 0 (f.reg + 0x8) t) ∧
      TxResetting reg start 0 (dmaIowrite32 0 (f.reg + 0x8) t)
    rw [hreg, iowrite32_txReset htreg]
    have hinv : TxInv reg start (fun o => ∃ j, j < 0 ∧ o = slotOff j) { t with
        dev.tx.queue := [], dev.transmitting := false, txLog := t.txLog ++ [.reset] } :=
      ⟨htreg, hbase, hring.reset.weaken fun o ho => absurd ho.choose_spec.1 (Nat.not_lt_zero _)⟩
    exact ⟨⟨hinv.weaken fun _ hf => hf.elim, .inr rfl⟩, hinv, rfl⟩
  · have hf : RingFifo reg start 0 { f with next := f.start } :=
      ringFifo_start hreg hstart hend
    -- and all 64 slots are flagged
    have hloop := wp_addSlots (R := Hw) (G := TxGuar reg start) (TxResetting reg start)
      (fun k _ f s hf hs => wp_txAdd hf hs) (by decide) hf hs
    exact wp_mono hloop fun f' t ht => ⟨ht.1, ht.2.1⟩

/-! ## The receive side does not interfere -/

/-- The update leaves the transmit side alone when the TX register is at `reg`. -/
def KeepsTx (reg : Nat) (upd : DmaMachine → DmaMachine) : Prop :=
  ∀ t, t.dev.txReg = reg → SameTx t (upd t)

theorem read_keepsTx {α : Type} (g : DmaMachine → α) :
    (Prog.read g).All (KeepsTx reg) fun _ => True :=
  Prog.all_read (fun _ _ => ⟨rfl, rfl, rfl, rfl, rfl⟩) fun _ => trivial

/-- A write to the RX register, or behind it. -/
theorem keepsTx_iowrite32 (value : Nat) {addr : Nat}
    (haddr : addr = reg + 0x10 ∨ addr = reg + 0x10 + 0x8) :
    KeepsTx reg (dmaIowrite32 value addr) := by
  intro t ht
  rcases haddr with rfl | rfl
  · rw [iowrite32_rx ht]
    exact ⟨rfl, rfl, rfl, rfl, rfl⟩
  · rw [iowrite32_rxReset ht]
    exact ⟨rfl, rfl, rfl, rfl, rfl⟩

theorem rxReady_keepsTx (f : Fifo) : (fifoDmaRxReady f).All (KeepsTx reg) fun _ => True := by
  unfold fifoDmaRxReady
  refine Prog.all_bind (read_keepsTx _) fun _ _ => Prog.all_ite ?_ trivial
  exact Prog.all_bind (read_keepsTx _) fun _ _ => trivial

/-- Arming a receive slot does not touch the TX FIFO. -/
theorem rxAdd_keepsTx {f : Fifo} (hf : f.reg = reg + 0x10) :
    (ccatEthRxFifoDmaAdd f).All (KeepsTx reg) fun _ => True := by
  unfold ccatEthRxFifoDmaAdd
  refine Prog.all_modify_bind (fun _ _ => ⟨rfl, rfl, rfl, rfl, rfl⟩) ?_
  exact Prog.all_modify (keepsTx_iowrite32 _ (.inl hf))

/-- The reset of the RX FIFO does not touch the TX FIFO. -/
theorem rxFifoReset_keepsTx {f : Fifo} (hf : f.reg = reg + 0x10) :
    (ccatEthFifoReset dma ccatEthRxFifoDmaAdd f).All (KeepsTx reg)
      fun f' => f'.reg = reg + 0x10 :=
  fifoReset_all_reg (v := dma) (keepsTx_iowrite32 0 (.inr rfl)) (fun _ hf => rxAdd_keepsTx hf) hf

/-- `poll_rx()` does not touch the TX FIFO. -/
theorem pollRx_keepsTx {f : Fifo} (hf : f.reg = reg + 0x10) :
    (pollRx dma f).All (KeepsTx reg) fun f' => f'.reg = reg + 0x10 := by
  apply pollRx_all (I := fun f => f.reg = reg + 0x10)
  case hinc => exact fun f hf => (ccatEthFifoInc_reg f).trans hf
  case hready => exact rxReady_keepsTx
  case hadd => exact fun f hf => rxAdd_keepsTx hf
  case hcopy => exact fun f len => read_keepsTx _
  case hf => exact hf
  case hbytes => exact fun _ _ _ => ⟨rfl, rfl, rfl, rfl, rfl⟩
  case hnetif => exact fun _ _ _ => ⟨rfl, rfl, rfl, rfl, rfl⟩
  case hnoMem => exact fun _ _ => ⟨rfl, rfl, rfl, rfl, rfl⟩

/-! ## Callbacks -/

/-- Awake or stopped, the ring is in order. -/
theorem TxIdleAt.inv {k : Nat} (h : TxIdleAt reg start k s) :
    TxInv reg start (fun _ => False) s := by
  rcases h with h | h
  · exact h.weaken fun _ hf => hf.elim
  · exact h.1

/-- The hardware neither stops nor wakes the queue, and it clears no flag. -/
theorem txIdleAt_stable {k : Nat} : Stable Hw (TxIdleAt reg start k) := by
  rintro s _ (h | h) ⟨a, rfl⟩
  · exact .inl (txInv_hw h a).1
  · obtain ⟨hinv, hhw⟩ := txInv_hw h.1 a
    exact .inr ⟨hinv, hhw.awake_eq.trans h.2⟩

/-- What holds between callbacks depends on the TX FIFO and the state of the queue. -/
theorem TxIdleAt.congr {k : Nat} (h : TxIdleAt reg start k s) (hsame : SameTx s t) :
    TxIdleAt reg start k t := by
  rcases h with h | h
  · exact .inl (h.congr hsame.reg_eq hsame.tx_eq hsame.transmitting_eq hsame.log_eq)
  · exact .inr ⟨h.1.congr hsame.reg_eq hsame.tx_eq hsame.transmitting_eq hsame.log_eq,
      hsame.awake_eq.trans h.2⟩

/-- A program that leaves the transmit side alone keeps it in order. -/
theorem wp_of_keepsTx {α : Type} {ψ : α → Prop} {prog : Prog DmaMachine α} {k : Nat}
    (hall : prog.All (KeepsTx reg) ψ) (hs : TxIdleAt reg start k s) :
    wp Hw (TxGuar reg start) prog (fun a t => ψ a ∧ TxIdleAt reg start k t) s := by
  refine wp_of_all txIdleAt_stable hs (Prog.all_mono hall fun upd hkeeps t ht => ?_)
  have hsame := hkeeps t ht.inv.reg_eq
  have ht' := ht.congr hsame
  exact ⟨ht'.inv.guar (TxKeep.congr hsame.tx_eq), ht'⟩

/-- A program that does not touch the TX FIFO keeps the invariant. -/
theorem wp_inv_of_keepsTx {α : Type} {ψ : α → Prop} {prog : Prog DmaMachine α}
    (hall : prog.All (KeepsTx reg) ψ) (hs : TxInv reg start S s) :
    wp Hw (TxGuar reg start) prog (fun a t => ψ a ∧ TxInv reg start S t) s := by
  refine wp_of_all txInv_stable hs (Prog.all_mono hall fun upd hkeeps t ht => ?_)
  have hsame := hkeeps t ht.reg_eq
  have ht' := ht.congr hsame.reg_eq hsame.tx_eq hsame.transmitting_eq hsame.log_eq
  exact ⟨ht'.guar (TxKeep.congr hsame.tx_eq), ht'⟩

/-- What holds of the transmit side between callbacks. -/
def TxJ (reg start : Nat) (priv : Priv) (s : DmaMachine) : Prop :=
  (∃ k, RingFifo reg start k priv.txFifo ∧ TxIdleAt reg start k s) ∧
    priv.rxFifo.reg = reg + 0x10

/-- `ccat_eth_link_up()` starts the queue on a ring of free slots. -/
theorem wp_linkUp_tx {priv : Priv} (hne : reg ≠ 0) (hs : TxJ reg start priv s) :
    wp Hw (TxGuar reg start) (ccatEthLinkUp dma priv) (TxJ reg start) s := by
  obtain ⟨⟨k, hf, hidle⟩, hrx⟩ := hs
  unfold ccatEthLinkUp
  refine wp_seq (wp_of_keepsTx (rxFifoReset_keepsTx hrx) hidle) fun rxFifo s hs₁ => ?_
  refine wp_seq (wp_txFifoReset hf.reg_eq hne hf.start_eq hf.end_eq hs₁.2.inv)
    fun txFifo s hs => ?_
  -- all slots are flagged, so the forward frame goes to slot 0 and slot 1 stays flagged
  have hlin : (Skb.mk false frameForwardEthernetFrames).nonlinear = false := rfl
  have hxmit := wp_xmit hs.1 hlin (by decide) hs.2 ⟨0, by decide, rfl⟩
  refine wp_seq (M := fun f t => RingFifo reg start 1 f ∧
    TxInv reg start (fun o => o = slotOff 1) t) ?_ fun txFifo s hs => ?_
  · refine wp_seq hxmit fun r t ht => wp_pure ⟨ht.2.1, ht.2.2.2.weaken ?_⟩
    rintro _ rfl
    exact ⟨⟨1, by decide, rfl⟩, by decide⟩
  refine wp_seq (M := fun _ => TxInv reg start fun o => o = slotOff 1)
    (wp_modify txInv_stable hs.2 fun t ht => txInv_net _ ht) fun _ t ht => ?_
  refine wp_seq (M := fun _ => TxInv reg start fun o => o = slotOff 1)
    (wp_modify txInv_stable ht fun t ht => txInv_net _ ht) fun _ t ht => ?_
  exact wp_pure ⟨⟨1, hs.1, .inl ht⟩, hs₁.1⟩

/-- `ccat_eth_link_down()` stops the queue. -/
theorem wp_linkDown_tx {k : Nat} (hs : TxIdleAt reg start k s) :
    wp Hw (TxGuar reg start) ccatEthLinkDown (fun _ => TxIdleAt reg start k) s := by
  unfold ccatEthLinkDown
  have hstop : ∀ t, TxIdleAt reg start k t →
      TxGuar reg start t (netifStopQueue t) ∧ TxIdleAt reg start k (netifStopQueue t) := by
    intro t ht
    have hnet := txInv_net { t.net with awake := false } ht.inv
    exact ⟨hnet.1, .inr ⟨hnet.2, rfl⟩⟩
  refine wp_seq (M := fun _ => TxIdleAt reg start k) (wp_modify txIdleAt_stable hs hstop)
    fun _ t ht => ?_
  have hcarrier : (Prog.modify netifCarrierOff : Prog DmaMachine Unit).All (KeepsTx reg)
      fun _ => True := Prog.all_modify fun _ _ => ⟨rfl, rfl, rfl, rfl, rfl⟩
  exact wp_mono (wp_of_keepsTx hcarrier ht) fun _ _ h => h.2

/-- `poll_link()`, with or without a change. -/
theorem wp_pollLink_tx {priv : Priv} (hne : reg ≠ 0) (hs : TxJ reg start priv s) :
    wp Hw (TxGuar reg start) (pollLink dma priv) (TxJ reg start) s := by
  obtain ⟨⟨k, hf, hidle⟩, hrx⟩ := hs
  unfold pollLink ccatEthPrivReadLinkState
  refine wp_seq (wp_of_keepsTx (read_keepsTx _) hidle) fun link s hs₁ => ?_
  refine wp_seq (wp_of_keepsTx (read_keepsTx _) hs₁.2) fun carrier s hs₂ => ?_
  split
  · split
    · exact wp_linkUp_tx hne ⟨⟨k, hf, hs₂.2⟩, hrx⟩
    · exact wp_seq (wp_linkDown_tx hs₂.2) fun _ t ht => wp_pure ⟨⟨k, hf, ht⟩, hrx⟩
  · exact wp_pure ⟨⟨k, hf, hs₂.2⟩, hrx⟩

/-- `poll_tx()` wakes the queue only when the slot at `next` is flagged. -/
theorem wp_pollTx {k : Nat} {f : Fifo} (hf : RingFifo reg start k f)
    (hs : TxIdleAt reg start k s) :
    wp Hw (TxGuar reg start) (pollTx dma f) (fun _ => TxIdleAt reg start k) s := by
  unfold pollTx
  refine wp_seq (M := fun ready t => TxIdleAt reg start k t ∧
    (ready ≠ 0 → TxInv reg start (fun o => o = slotOff k) t)) ?_ fun ready t ht => ?_
  · refine wp_read txIdleAt_stable hs fun t ht => ⟨ht.inv.guar (TxKeep.refl t), ht, fun hsent => ?_⟩
    rw [hf.next_eq] at hsent
    refine ⟨ht.inv.reg_eq, ht.inv.base_eq, ht.inv.ring.weaken ?_⟩
    -- the flag that was read is that of the slot at `next`; it is not cleared behind the back of
    -- the driver
    rintro _ rfl
    exact hsent
  · by_cases hready : ready ≠ 0
    · rw [if_pos hready]
      refine wp_modify txInv_stable (ht.2 hready) fun t ht => ?_
      have hnet := txInv_net { t.net with awake := true } ht
      exact ⟨hnet.1, .inl hnet.2⟩
    · rw [if_neg hready]
      exact wp_pure ht.1

/-- A timer callback leaves the ring as the next callback needs it. -/
theorem wp_pollTimerCallback_tx {priv : Priv} (hne : reg ≠ 0) (hs : TxJ reg start priv s) :
    wp Hw (TxGuar reg start) (pollTimerCallback dma priv) (TxJ reg start) s := by
  unfold pollTimerCallback
  refine wp_seq (wp_pollLink_tx hne hs) fun priv s hs => ?_
  obtain ⟨⟨k, hf, hidle⟩, hrx⟩ := hs
  refine wp_seq (wp_of_keepsTx (pollRx_keepsTx hrx) hidle) fun rxFifo s hs₁ => ?_
  refine wp_seq (wp_pollTx hf hs₁.2) fun _ s hs₂ => ?_
  exact wp_pure ⟨⟨k, hf, hs₂⟩, hs₁.1⟩

/-- Every callback restores the transmit side. -/
theorem dmaSystem_correct_tx (hne : reg ≠ 0) :
    dmaSystem.Correct (TxJ reg start) (TxGuar reg start) := by
  constructor
  · rintro priv s t ⟨⟨k, hf, hidle⟩, hrx⟩ hR
    exact ⟨⟨k, hf, txIdleAt_stable hidle hR⟩, hrx⟩
  · intro priv s prog hs hcall
    cases hcall with
    | timer => exact wp_pollTimerCallback_tx hne hs
    | startXmit skb hawake =>
      obtain ⟨⟨k, hf, hidle⟩, hrx⟩ := hs
      -- the queue is awake, so the slot at `next` is flagged
      have hinv : TxInv reg start (fun o => o = slotOff k) s := by
        rcases hidle with h | h
        · exact h
        · rw [hawake] at h
          exact nomatch h.2
      refine wp_seq (wp_startXmit hf skb hinv) fun r s hs' => ?_
      exact wp_pure ⟨hs', hrx⟩

/-- A fresh machine has nothing queued. -/
theorem Fresh.txInv {rx tx : Fifo} (h : Fresh rx tx s) :
    TxInv s.dev.txReg s.dev.tx.base (fun _ => False) s := by
  refine ⟨rfl, rfl, ?_⟩
  rw [h.txQueue_eq, h.transmitting_eq, h.txLog_eq]
  refine ⟨List.nodup_nil, (fun _ h => nomatch h), (fun _ h => nomatch h), rfl, fun l hl => ?_,
    (fun h => nomatch h), (fun h => nomatch h), fun _ h => h.elim⟩
  rw [List.prefix_nil.mp hl]
  exact List.prefix_refl _

/-- The set-up of the FIFOs leaves the ring as the first callback needs it. -/
theorem wp_setUpFifos_tx {rx tx : Fifo} (h : Fresh rx tx s) :
    wp Hw (TxGuar s.dev.txReg s.dev.tx.base) (setUpFifos rx tx)
      (TxJ s.dev.txReg s.dev.tx.base) s := by
  unfold setUpFifos fifoSetEnd
  refine wp_seq (wp_inv_of_keepsTx (rxFifoReset_keepsTx h.rxReg_eq) h.txInv) fun rxFifo t ht₁ => ?_
  refine wp_seq (wp_txFifoReset h.txReg_eq h.txReg_ne h.txStart_eq (by rw [h.txStart_eq]) ht₁.2)
    fun txFifo t ht => ?_
  refine wp_pure ⟨⟨0, ht.1, .inl (ht.2.weaken ?_)⟩, ht₁.1⟩
  rintro _ rfl
  exact ⟨0, by decide, rfl⟩

end Run

end Ccat.Native.Eth
