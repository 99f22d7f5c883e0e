import Ccat.ForStd.List
import Ccat.ForStd.SlotQueue
import Ccat.Spec.EthFifo

/-!
# The receive ring of the DMA variant

A segment of the ring is under control of driver and hardware together: its slots are
first those with a frame in them, in the order of arrival, then those armed, in the
order in which the hardware will use them. Between callbacks this segment is the whole
ring and starts at `next`. While a frame is taken out, the segment starts one slot
later and is one slot shorter, until that slot is armed again; while the FIFO is reset
it grows slot by slot from nothing. The hardware only moves the border between the two
parts.

## Key results

- `RxRing.store`, `RxRing.shift`, `RxRing.clear`, `RxRing.arm`: what the steps do to the segment
- `RxAt.always`, `RxAt.between`: what a segment says about slots, frames and skbs
- `startXmit_keepsRx`, `txFifoReset_keepsRx`: the transmit side does not interfere
-/

namespace Ccat.Native.Eth

open Interleave Memory

/-! ## Logs -/

/-- The event is a reset of the RX FIFO. -/
def RxEvent.isReset : RxEvent → Bool
  | .reset => true
  | _ => false

/-- The event as one of a queue of slots. -/
def RxEvent.queueEvent : RxEvent → SlotQueue.Event (List UInt8)
  | .reset => .clear
  | .armed _ => .free
  | .stored p => .put p
  | .lost p => .lose p
  | .netifRx p => .take (some p)
  | .noMem => .take none

/-- The part of a log since the last reset of the RX FIFO. -/
def rxSince (log : List RxEvent) : List RxEvent := log.since RxEvent.isReset

/-- The frames the hardware stored. -/
def storedFrames (log : List RxEvent) : List (List UInt8) :=
  SlotQueue.puts (log.map RxEvent.queueEvent)

/-- What became of the frames the driver took out: passed to `netif_rx()`, or dropped. -/
def outcomes (log : List RxEvent) : List (Option (List UInt8)) :=
  SlotQueue.takes (log.map RxEvent.queueEvent)

/-- Since the last reset the frames taken out, and `fs` after them, are those stored. -/
def RxTrace (log : List RxEvent) (fs : List (List UInt8)) : Prop :=
  SlotQueue.Conserved ((rxSince log).map RxEvent.queueEvent) fs

theorem RxTrace.reset (log : List RxEvent) : RxTrace (log ++ [.reset]) [] := by
  unfold RxTrace rxSince
  rw [List.since_concat_of_pos log rfl]
  exact ⟨[], rfl, .nil⟩

/-- One more event that is no reset. -/
theorem rxTrace_concat {log : List RxEvent} {e : RxEvent} {fs : List (List UInt8)}
    (he : e.isReset = false)
    (h : SlotQueue.Conserved ((rxSince log).map RxEvent.queueEvent ++ [e.queueEvent]) fs) :
    RxTrace (log ++ [e]) fs := by
  unfold RxTrace rxSince
  rw [List.since_concat_of_neg log he, List.map_append]
  exact h

/-! ## The segment -/

/-- `CCAT_FRAME_RECEIVED` is set. -/
def DmaFrame.Received (fr : DmaFrame) : Prop := fr.rxFlags &&& CCAT_FRAME_RECEIVED ≠ 0

/-- The slot is flagged and holds the frame `p`. -/
structure DmaFrame.Holds (fr : DmaFrame) (p : List UInt8) : Prop where
  received : fr.Received
  length_eq : fr.length = p.length + OFFSET_RX_FLAGS
  data_eq : slice fr.data 0 p.length = p
  pos : 0 < p.length

/-- The `c` slots from slot `b` on: the first hold the frames `fs`, the others are armed. -/
structure RxRing (base : Nat) (mem : Nat → DmaFrame) (queue : List Nat) (b c : Nat)
    (fs : List (List UInt8)) : Prop where
  filled_le : fs.length ≤ c
  le_length : c ≤ FIFO_LENGTH
  queue_eq : queue = slots (b + fs.length) (c - fs.length)
  filled : ∀ j p, fs[j]? = some p → (mem (base + slotOff (b + j))).Holds p
  armed : ∀ j, fs.length ≤ j → j < c → ¬(mem (base + slotOff (b + j))).Received

section RxRing

variable {base : Nat} {mem : Nat → DmaFrame} {queue : List Nat} {b c : Nat} {p : List UInt8}
  {fs : List (List UInt8)}

/-- The frame that the hardware stored is in its slot. -/
theorem DmaFrame.receive_holds (fr : DmaFrame) (hpos : 0 < p.length) :
    (fr.receive p).Holds p :=
  ⟨or_one_and_one_ne_zero _, rfl, slice_blit fr.data 0 p, hpos⟩

/-- The hardware stores a frame in the oldest armed slot. -/
theorem RxRing.store {off : Nat} (h : RxRing base mem (off :: queue) b c fs)
    (hpos : 0 < p.length) :
    fs.length < c ∧ off = slotOff (b + fs.length) ∧
      RxRing base (setFrame mem (base + off) (DmaFrame.receive p)) queue b c (fs ++ [p]) := by
  have hle := h.le_length
  have hlen : (fs ++ [p]).length = fs.length + 1 := List.length_append
  -- a slot is armed, so not all of the segment is filled
  have hroom : fs.length < c := by
    rcases Nat.lt_or_ge fs.length c with hlt | hge
    · exact hlt
    · have hq := h.queue_eq
      rw [Nat.sub_eq_zero_of_le hge] at hq
      exact nomatch hq
  have hslots := h.queue_eq
  rw [show c - fs.length = c - (fs.length + 1) + 1 by omega, slots_cons,
    List.cons.injEq] at hslots
  -- the oldest armed slot is the one behind the frames
  obtain ⟨rfl, hrest⟩ := hslots
  refine ⟨hroom, rfl, by omega, hle, ?_, fun j q hq => ?_, fun j hj hjc => ?_⟩
  · rw [hlen, ← Nat.add_assoc]
    exact hrest
  · -- an older frame, the new one, or none
    rcases Nat.lt_trichotomy j fs.length with hlt | heq | hgt
    · rw [List.getElem?_append_left hlt] at hq
      rw [setFrame_slot_ne mem base b _ (Nat.ne_of_lt hlt) (by omega) (by omega)]
      exact h.filled j q hq
    · subst heq
      rw [List.getElem?_concat_length, Option.some.injEq] at hq
      subst hq
      rw [setFrame_self]
      exact DmaFrame.receive_holds _ hpos
    · rw [List.getElem?_eq_none (by omega)] at hq
      exact nomatch hq
  · rw [setFrame_slot_ne mem base b _ (show j ≠ fs.length by omega) (by omega) (by omega)]
    exact h.armed j (by omega) hjc

/-- The driver is done with the oldest frame: the segment starts behind it. -/
theorem RxRing.shift (h : RxRing base mem queue b c (p :: fs)) :
    RxRing base mem queue (b + 1) (c - 1) fs := by
  have hlen : (p :: fs).length = fs.length + 1 := List.length_cons
  have hle := h.filled_le
  have hle' := h.le_length
  refine ⟨by omega, by omega, ?_, fun j q hq => ?_, fun j hj hjc => ?_⟩
  · rw [h.queue_eq, hlen]
    congr 1 <;> omega
  · have hfilled := h.filled (j + 1) q (by rw [List.getElem?_cons_succ]; exact hq)
    rw [show b + 1 + j = b + (j + 1) by omega]
    exact hfilled
  · have harmed := h.armed (j + 1) (by omega) (by omega)
    rw [show b + 1 + j = b + (j + 1) by omega]
    exact harmed

/-- The driver assigns to the slot behind the segment. -/
theorem RxRing.clear (h : RxRing base mem queue b c fs) (hc : c < FIFO_LENGTH)
    (g : DmaFrame → DmaFrame) :
    RxRing base (setFrame mem (base + slotOff (b + c)) g) queue b c fs := by
  have hle := h.filled_le
  refine ⟨hle, h.le_length, h.queue_eq, fun j q hq => ?_, fun j hj hjc => ?_⟩
  · have hj : j < fs.length := (List.getElem?_eq_some_iff.mp hq).1
    rw [setFrame_slot_ne mem base b _ (show j ≠ c by omega) (by omega) hc]
    exact h.filled j q hq
  · rw [setFrame_slot_ne mem base b _ (show j ≠ c by omega) (by omega) hc]
    exact h.armed j hj hjc

/-- The driver arms the slot behind the segment. -/
theorem RxRing.arm (h : RxRing base mem queue b c fs) (hc : c < FIFO_LENGTH)
    (hclear : ¬(mem (base + slotOff (b + c))).Received) :
    RxRing base mem (queue ++ [slotOff (b + c)]) b (c + 1) fs := by
  have hle := h.filled_le
  refine ⟨by omega, by omega, ?_, h.filled, fun j hj hjc => ?_⟩
  · rw [h.queue_eq, show c + 1 - fs.length = c - fs.length + 1 by omega, slots_concat,
      show b + fs.length + (c - fs.length) = b + c by omega]
  · rcases Nat.lt_or_ge j c with hlt | hge
    · exact h.armed j hj hlt
    · obtain rfl : j = c := by omega
      exact hclear

theorem RxRing.reset (base : Nat) (mem : Nat → DmaFrame) (b : Nat) : RxRing base mem [] b 0 [] :=
  ⟨Nat.le_refl 0, Nat.zero_le _, rfl, (fun _ _ h => nomatch h), fun _ _ h => absurd h (by omega)⟩

end RxRing

/-! ## The segment in a run -/

/-- The machine with the segment of `c` slots from `b` on, the frames `fs` in it, and the log
    that goes with it. The TX register is at `reg`, the ring at `start`. -/
structure RxAt (reg start b c : Nat) (fs : List (List UInt8)) (s : DmaMachine) : Prop where
  reg_eq : s.dev.txReg = reg
  base_eq : s.dev.rx.base = start
  ring : RxRing start s.dev.rx.mem s.dev.rx.queue b c fs
  trace : RxTrace s.rxLog fs

/-- The receive side of two machines is the same. -/
structure SameRx (s t : DmaMachine) : Prop where
  reg_eq : t.dev.txReg = s.dev.txReg
  rx_eq : t.dev.rx = s.dev.rx
  log_eq : t.rxLog = s.rxLog

/-- The segment is one of the receive side alone. -/
theorem RxAt.congr {reg start b c : Nat} {fs : List (List UInt8)} {s t : DmaMachine}
    (h : RxAt reg start b c fs s) (hsame : SameRx s t) : RxAt reg start b c fs t := by
  refine ⟨hsame.reg_eq.trans h.reg_eq, ?_, ?_, ?_⟩
  · rw [hsame.rx_eq]
    exact h.base_eq
  · rw [hsame.rx_eq]
    exact h.ring
  · rw [hsame.log_eq]
    exact h.trace

/-! ## Slots and frames -/

/-- The slot is armed. -/
def Armed (s : DmaMachine) (k : Nat) : Prop := slotOff k ∈ s.dev.rx.queue

/-- The slot is flagged as received. -/
def Filled (s : DmaMachine) (k : Nat) : Prop :=
  (s.dev.rx.mem (s.dev.rx.base + slotOff k)).Received

/-- What holds of the receive side at every moment: only slots are armed, none of them twice
    and none that is flagged; and since the last reset the frames taken out of the ring are the
    first ones that were stored, in their order, each passed on unchanged or dropped for want of
    an skb. -/
structure RxAlways (s : DmaMachine) : Prop where
  nodup : s.dev.rx.queue.Nodup
  slots : ∀ off ∈ s.dev.rx.queue, ∃ k, k < FIFO_LENGTH ∧ off = slotOff k
  exclusive : ∀ k, Armed s k → ¬Filled s k
  delivered : ∃ taken pending, storedFrames (rxSince s.rxLog) = taken ++ pending ∧
    List.Forall₂ SlotQueue.Delivered (outcomes (rxSince s.rxLog)) taken

/-- What holds between callbacks: the frames not yet taken out are in the slots from `next` on,
    in the order in which they arrived, and all other slots are armed. -/
structure RxBetween (f : Fifo) (s : DmaMachine) (b : Nat) (fs : List (List UInt8)) : Prop where
  next_eq : f.next = f.start + FRAME_SIZE * b
  lt_length : b < FIFO_LENGTH
  filled_le : fs.length ≤ FIFO_LENGTH
  filled : ∀ j p, fs[j]? = some p → ¬Armed s (b + j) ∧
    (s.dev.rx.mem (s.dev.rx.base + slotOff (b + j))).Holds p
  armed : ∀ j, fs.length ≤ j → j < FIFO_LENGTH → Armed s (b + j) ∧ ¬Filled s (b + j)
  delivered : ∃ taken, storedFrames (rxSince s.rxLog) = taken ++ fs ∧
    List.Forall₂ SlotQueue.Delivered (outcomes (rxSince s.rxLog)) taken

/-- Segments do not depend on multiples of the ring's length. -/
private theorem slotOff_mod_add (b j : Nat) : slotOff (b % FIFO_LENGTH + j) = slotOff (b + j) := by
  unfold slotOff
  rw [Nat.mod_add_mod]

/-- A segment of any length is in order. -/
theorem RxAt.always {reg start b c : Nat} {fs : List (List UInt8)} {s : DmaMachine}
    (h : RxAt reg start b c fs s) : RxAlways s := by
  obtain ⟨hreg, rfl, hring, taken, hstored, hout⟩ := h
  have hle := hring.le_length
  refine ⟨?_, fun off hoff => ?_, fun k harmed hfilled => ?_, taken, fs, hstored, hout⟩
  · rw [hring.queue_eq]
    exact nodup_slots (by omega)
  · rw [hring.queue_eq] at hoff
    obtain ⟨j, -, rfl⟩ := mem_slots.mp hoff
    refine ⟨(b + fs.length + j) % FIFO_LENGTH, Nat.mod_lt _ (by decide), ?_⟩
    exact (slotOff_mod_add (b + fs.length + j) 0).symm
  · -- an armed slot is behind the frames of the segment
    unfold Armed at harmed
    rw [hring.queue_eq] at harmed
    obtain ⟨j, hj, hoff⟩ := mem_slots.mp harmed
    unfold Filled at hfilled
    rw [hoff, show b + fs.length + j = b + (fs.length + j) by omega] at hfilled
    exact hring.armed (fs.length + j) (by omega) (by omega) hfilled

/-- A segment that is the whole ring, with `next` at its start. -/
theorem RxAt.between {reg start b : Nat} {fs : List (List UInt8)} {f : Fifo} {s : DmaMachine}
    (h : RxAt reg start b FIFO_LENGTH fs s) (hf : RingFifo (reg + 0x10) start b f) :
    RxBetween f s (b % FIFO_LENGTH) fs := by
  obtain ⟨hreg, rfl, hring, hdel⟩ := h
  have hle := hring.filled_le
  refine ⟨?_, Nat.mod_lt _ (by decide), hle, fun j p hp => ⟨?_, ?_⟩,
    fun j hj hjc => ⟨?_, ?_⟩, hdel⟩
  · rw [hf.next_eq, hf.start_eq]
    rfl
  · -- the armed slots are the others
    unfold Armed
    rw [slotOff_mod_add, hring.queue_eq]
    intro harmed
    obtain ⟨i, hi, hoff⟩ := mem_slots.mp harmed
    have hj : j < fs.length := (List.getElem?_eq_some_iff.mp hp).1
    exact slotOff_inj (by omega) (by omega) hoff
  · rw [slotOff_mod_add]
    exact hring.filled j p hp
  · unfold Armed
    rw [slotOff_mod_add, hring.queue_eq]
    exact mem_slots.mpr ⟨j - fs.length, by omega, by congr 1; omega⟩
  · unfold Filled
    rw [slotOff_mod_add]
    exact hring.armed j hj hjc

/-! ## The transmit side does not interfere -/

/-- The update leaves the receive side alone when the TX register is at `reg`. -/
def KeepsRx (reg : Nat) (upd : DmaMachine → DmaMachine) : Prop :=
  ∀ t, t.dev.txReg = reg → SameRx t (upd t)

section KeepsRx

variable {reg : Nat}

theorem read_keepsRx {α : Type} (g : DmaMachine → α) :
    (Prog.read g).All (KeepsRx reg) fun _ => True :=
  Prog.all_read (fun _ _ => ⟨rfl, rfl, rfl⟩) fun _ => trivial

/-- A write to the TX register, or behind it. -/
theorem keepsRx_iowrite32 (value : Nat) {addr : Nat} (haddr : addr = reg ∨ addr = reg + 0x8) :
    KeepsRx reg (dmaIowrite32 value addr) := by
  intro t ht
  rcases haddr with rfl | rfl
  · rw [iowrite32_tx ht]
    exact ⟨rfl, rfl, rfl⟩
  · rw [iowrite32_txReset ht]
    exact ⟨rfl, rfl, rfl⟩

theorem txReady_keepsRx (f : Fifo) : (fifoDmaTxReady f).All (KeepsRx reg) fun _ => True :=
  read_keepsRx _

/-- `fifo_dma_queue_skb()` stores to the TX ring and writes the TX register. -/
theorem queueSkb_keepsRx {f : Fifo} (hf : f.reg = reg) (skb : Skb) :
    (fifoDmaQueueSkb f skb).All (KeepsRx reg) fun _ => True := by
  unfold fifoDmaQueueSkb
  refine Prog.all_modify_bind (fun _ _ => ⟨rfl, rfl, rfl⟩) ?_
  refine Prog.all_modify_bind (fun _ _ => ⟨rfl, rfl, rfl⟩) ?_
  refine Prog.all_modify_bind (fun _ _ => ⟨rfl, rfl, rfl⟩) ?_
  refine Prog.all_modify fun t ht => ?_
  have hwrite := keepsRx_iowrite32 (addrAndLength f skb.len) (.inl hf)
    { t with txLog := t.txLog ++ [.queued skb.data] } ht
  exact ⟨hwrite.reg_eq, hwrite.rx_eq, hwrite.log_eq⟩

/-- `ccat_eth_start_xmit()`. -/
theorem startXmit_keepsRx {f : Fifo} (hf : f.reg = reg) (skb : Skb) :
    (ccatEthStartXmit dma f skb).All (KeepsRx reg) fun r => r.2.reg = reg := by
  apply startXmit_all (I := fun f => f.reg = reg)
  case hinc => exact fun f hf => (ccatEthFifoInc_reg f).trans hf
  case hready => exact txReady_keepsRx
  case hqueue => exact fun f skb hf => queueSkb_keepsRx hf skb
  case hdrop => exact fun _ _ => ⟨rfl, rfl, rfl⟩
  case hfull => exact fun _ _ => ⟨rfl, rfl, rfl⟩
  case hstop => exact fun _ _ => ⟨rfl, rfl, rfl⟩
  case hbytes => exact fun _ _ _ => ⟨rfl, rfl, rfl⟩
  case hf => exact hf

theorem txFifoReset_keepsRx {f : Fifo} (hf : f.reg = reg) :
    (ccatEthFifoReset dma ccatEthTxFifoDmaAddFree f).All (KeepsRx reg) fun f' => f'.reg = reg := by
  refine fifoReset_all_reg (v := dma) (keepsRx_iowrite32 0 (.inr rfl)) (fun f _ => ?_) hf
  exact Prog.all_modify fun _ _ => ⟨rfl, rfl, rfl⟩

end KeepsRx

end Ccat.Native.Eth
