import Ccat.Native.Eth
import Mathlib.Logic.Function.Iterate

/-!
# A FIFO reset visits every slot once

`fifo_set_end()` is called with the size of a DMA ring, with one frame, and with the
`tx_size` of the info block, which may be any number of bytes. The end pointer is then
not at a slot, or even in front of the start; the loop of `ccat_eth_fifo_reset()` stops
at pointer equality all the same. Addresses do not wrap around.

## Key results

- `ccatEthFifoInc_atSlot`: the slots follow each other in a ring
- `addSlots_atSlot`: the loop, from any slot on
- `fifoReset_visitSlots`: a reset from any `next` visits the slots in order, and `next` stays on
  one of them from then on
-/

namespace Ccat.Native.Eth

open Interleave

/-- Number of slots in `size` bytes; there is always one. -/
def slotCount (size : Nat) : Nat := max 1 (size / FRAME_SIZE)

/-- The FIFO of `size` bytes with `next` at slot `k`. -/
def Fifo.atSlot (f : Fifo) (size k : Nat) : Fifo :=
  { f with next := f.start + FRAME_SIZE * k, fifoEnd := f.start + size - FRAME_SIZE }

variable {δ : Type}

/-- Reset the hardware, then add slot after slot; `next` is at the start in the end. -/
def visitSlots (v : Variant δ) (add : Fifo → Prog (Machine δ) Unit) (f : Fifo) (size : Nat) :
    Prog (Machine δ) Fifo := do
  ccatEthFifoHwReset v f
  forM (List.range (slotCount size)) fun k => add (f.atSlot size k)
  return f.atSlot size 0

theorem slotCount_pos (size : Nat) : 0 < slotCount size := by
  simp only [slotCount]
  omega

/-- The slot behind the last one is the first. -/
theorem ccatEthFifoInc_atSlot (f : Fifo) {size k : Nat} (hk : k < slotCount size) :
    ccatEthFifoInc (f.atSlot size k) = f.atSlot size ((k + 1) % slotCount size) := by
  by_cases hlast : k + 1 = slotCount size
  · have hwrap : (f.atSlot size k).next + FRAME_SIZE > (f.atSlot size k).fifoEnd := by
      simp only [slotCount, Fifo.atSlot, FRAME_SIZE] at hlast ⊢
      omega
    rw [ccatEthFifoInc, if_pos hwrap, hlast, Nat.mod_self]
    rfl
  · have hlt : k + 1 < slotCount size := by omega
    have hwrap : ¬ (f.atSlot size k).next + FRAME_SIZE > (f.atSlot size k).fifoEnd := by
      simp only [slotCount, Fifo.atSlot, FRAME_SIZE] at hlt ⊢
      omega
    rw [ccatEthFifoInc, if_neg hwrap, Nat.mod_eq_of_lt hlt]
    simp only [Fifo.atSlot, Nat.mul_succ, Nat.add_assoc]

/-- The loop of `ccat_eth_fifo_reset()` from slot `k` on: each of the others is added once, and
    the loop ends at the start. -/
theorem addSlots_atSlot (add : Fifo → Prog (Machine δ) Unit) (f : Fifo) {size k : Nat}
    (hk : k < slotCount size) :
    addSlots add (f.atSlot size k) = (do
      forM (List.range' k (slotCount size - k)) fun j => add (f.atSlot size j)
      return f.atSlot size 0) := by
  induction hn : slotCount size - k generalizing k with
  | zero => omega
  | succ n ih =>
    have hinc := ccatEthFifoInc_atSlot f hk
    rw [addSlots, hinc, List.range'_succ, List.forM_cons, bind_assoc]
    refine congrArg (add (f.atSlot size k) >>= ·) (funext fun _ => ?_)
    by_cases hlast : k + 1 = slotCount size
    · -- the last slot: nothing is left of the list
      have hzero : n = 0 := by omega
      have hstart : (f.atSlot size 0).next = (f.atSlot size k).start := rfl
      rw [hlast, Nat.mod_self, if_pos hstart, hzero]
      rfl
    · have hlt : k + 1 < slotCount size := by omega
      rw [Nat.mod_eq_of_lt hlt, if_neg, ih hlt (by omega)]
      simp only [Fifo.atSlot, FRAME_SIZE]
      omega

/-- From any `next` a reset of a FIFO of any size visits its slots in order, once each. -/
theorem ccatEthFifoReset_eq (v : Variant δ) (add : Fifo → Prog (Machine δ) Unit) (f : Fifo)
    (size next : Nat) :
    ccatEthFifoReset v add { f with next := next, fifoEnd := f.start + size - FRAME_SIZE } =
      visitSlots v add f size := by
  have hloop := addSlots_atSlot add f (slotCount_pos size)
  rw [Nat.sub_zero, ← List.range_eq_range'] at hloop
  rw [visitSlots, ← hloop]
  rfl

/-- Counting in slots. -/
theorem iterate_ccatEthFifoInc (f : Fifo) (size calls : Nat) :
    Nat.iterate ccatEthFifoInc calls (f.atSlot size 0) =
      f.atSlot size (calls % slotCount size) := by
  induction calls with
  | zero => rw [Nat.zero_mod]; rfl
  | succ calls ih =>
    rw [Function.iterate_succ_apply', ih,
      ccatEthFifoInc_atSlot f (Nat.mod_lt calls (slotCount_pos size)), Nat.mod_add_mod]

/-- `fifo_set_end()` and every later reset end after visiting each of the `slotCount size` slots
    once, in order, with `next` at the start. After that `next` counts the calls of
    `ccat_eth_fifo_inc()` modulo the number of slots, and with room for a frame the frame at
    `next` lies in the memory of the FIFO. -/
theorem fifoReset_visitSlots (v : Variant δ) (add : Fifo → Prog (Machine δ) Unit) (f : Fifo)
    (size : Nat) :
    fifoSetEnd v add f size = visitSlots v add f size ∧
    (∀ next, ccatEthFifoReset v add
        { f with next := next, fifoEnd := f.start + size - FRAME_SIZE } =
      visitSlots v add f size) ∧
    ∀ calls, (Nat.iterate ccatEthFifoInc calls (f.atSlot size 0)).next =
        f.start + FRAME_SIZE * (calls % slotCount size) ∧
      (FRAME_SIZE ≤ size →
        f.start + FRAME_SIZE * (calls % slotCount size) + FRAME_SIZE ≤ f.start + size) := by
  refine ⟨ccatEthFifoReset_eq v add f size f.next, ccatEthFifoReset_eq v add f size,
    fun calls => ⟨by rw [iterate_ccatEthFifoInc]; rfl, fun hsize => ?_⟩⟩
  have hmod := Nat.mod_lt calls (slotCount_pos size)
  simp only [slotCount, FRAME_SIZE] at hsize hmod ⊢
  omega

end Ccat.Native.Eth
