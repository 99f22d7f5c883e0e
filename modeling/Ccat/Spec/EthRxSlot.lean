import Ccat.Native.EthDmaBytes
import Ccat.Native.EthEim
import Ccat.Spec.EthRxRing

/-!
# Where received bytes come from

The length of a received frame is what the CCAT wrote into the header of its slot, a
number of 16 bits. `ready` subtracts the overhead of the header from it, but compares it
with nothing else. A length beyond the data of a slot makes `copy_to_skb` read on behind
the slot. The memory of the FIFO is one of bytes here.

## Key results

- `exec_dmaRxReady`, `exec_eimRxReady`: what `ready` returns
- `readsInside_slice`: which bytes a copy depends on
- `rxReady_fromSlot_iff`: when a received frame comes from its own slot
-/

namespace Ccat.Native.Eth

open Interleave Memory

/-- The machine with these bytes in its RX ring. -/
def DmaMachine.withRing (s : DmaMachine) (bytes : Nat → UInt8) : DmaMachine :=
  { s with dev.rx.mem := DmaFrame.ofBytes bytes }

/-- The machine with these bytes where it receives. -/
def EimMachine.withSlot (s : EimMachine) (bytes : Nat → UInt8) : EimMachine :=
  { s with dev.rxMem := EimFrame.ofBytes bytes }

/-- The length that `fifo_dma_rx_ready()` takes from a slot, 0 for none. -/
def DmaFrame.readyLen (fr : DmaFrame) : Nat :=
  if fr.rxFlags &&& CCAT_FRAME_RECEIVED ≠ 0 then
    if fr.length < OFFSET_RX_FLAGS then 0 else fr.length - OFFSET_RX_FLAGS
  else 0

/-- The result depends on the bytes in `[lo, hi)` only. -/
def ReadsInside (lo hi : Nat) (read : (Nat → UInt8) → List UInt8) : Prop :=
  ∀ bytes bytes', (∀ p, lo ≤ p → p < hi → bytes p = bytes' p) → read bytes = read bytes'

/-- A frame of `len` bytes fits behind a header of `hdr` bytes in the slot at `next`, `copy`
    takes it from that slot only, and the slot lies in the `size` bytes of the FIFO. -/
structure FromSlot (hdr size : Nat) (copy : (Nat → UInt8) → List UInt8) (f : Fifo) (len : Nat) :
    Prop where
  fits : len ≤ FRAME_SIZE - hdr
  slot : ReadsInside f.next (f.next + FRAME_SIZE) copy
  memory : f.start ≤ f.next ∧ f.next + FRAME_SIZE ≤ f.start + size

/-- What `copy_to_skb` copies from a ring of these bytes. -/
def dmaCopied (f : Fifo) (len : Nat) (s : DmaMachine) (oracle : Nat → Bool) (n : Nat)
    (bytes : Nat → UInt8) : List UInt8 :=
  ((dma.rxOps.copyToSkb f len).exec oracle n (s.withRing bytes)).1

def eimCopied (f : Fifo) (len : Nat) (s : EimMachine) (oracle : Nat → Bool) (n : Nat)
    (bytes : Nat → UInt8) : List UInt8 :=
  ((eim.rxOps.copyToSkb f len).exec oracle n (s.withSlot bytes)).1

/-- A received frame of the DMA variant comes from its own slot. -/
def DmaFromSlot (f : Fifo) (s : DmaMachine) (oracle : Nat → Bool) (n : Nat)
    (bytes : Nat → UInt8) : Prop :=
  let len := ((dma.rxOps.ready f).exec oracle n (s.withRing bytes)).1
  0 < len → FromSlot DMA_HDR_SIZE CCAT_ALIGNMENT (dmaCopied f len s oracle n) f len

/-- A received frame of the EIM variant comes from its own slot. -/
def EimFromSlot (f : Fifo) (s : EimMachine) (oracle : Nat → Bool) (n : Nat)
    (bytes : Nat → UInt8) : Prop :=
  let len := ((eim.rxOps.ready f).exec oracle n (s.withSlot bytes)).1
  0 < len → FromSlot EIM_HDR_SIZE FRAME_SIZE (eimCopied f len s oracle n) f len

/-! ### The operations -/

/-- The length that is reported of a flagged frame. -/
theorem DmaFrame.readyLen_of_received {fr : DmaFrame} (h : fr.Received) :
    fr.readyLen = if fr.length < OFFSET_RX_FLAGS then 0 else fr.length - OFFSET_RX_FLAGS :=
  if_pos h

/-- A frame that is not flagged is not reported. -/
theorem DmaFrame.readyLen_of_not_received {fr : DmaFrame} (h : ¬fr.Received) : fr.readyLen = 0 :=
  if_neg h

section

variable {f : Fifo} (oracle : Nat → Bool) (n : Nat) (bytes : Nat → UInt8)

/-- `ready` looks at the slot at `next` and changes nothing. -/
theorem exec_rxReady_bind {α : Type} (q : Nat → Prog DmaMachine α) (s : DmaMachine) :
    (dma.rxOps.ready f >>= q).exec oracle n s =
      (q (s.dev.rx.mem f.next).readyLen).exec oracle n s := by
  show (fifoDmaRxReady f >>= q).exec oracle n s = _
  unfold fifoDmaRxReady DmaFrame.readyLen
  show Prog.exec oracle ((if (s.dev.rx.mem f.next).rxFlags &&& CCAT_FRAME_RECEIVED ≠ 0 then _
    else _) >>= q) n s = _
  by_cases hflag : (s.dev.rx.mem f.next).rxFlags &&& CCAT_FRAME_RECEIVED ≠ 0
  · rw [if_pos hflag, if_pos hflag]
    rfl
  · rw [if_neg hflag, if_neg hflag]
    rfl

/-- `fifo_dma_rx_ready()` looks at the frame at `next`. -/
theorem exec_dmaRxReady (s : DmaMachine) :
    (dma.rxOps.ready f).exec oracle n s = ((s.dev.rx.mem f.next).readyLen, s) := by
  rw [← bind_pure (dma.rxOps.ready f), exec_rxReady_bind]
  rfl

/-- So does `fifo_eim_rx_ready()`, and there are no flags. -/
theorem exec_eimRxReady (s : EimMachine) :
    ((eim.rxOps.ready f).exec oracle n (s.withSlot bytes)).1 =
      if (EimFrame.ofBytes bytes f.next).length < EIM_HDR_SIZE then 0
      else (EimFrame.ofBytes bytes f.next).length - EIM_HDR_SIZE := rfl

/-- The bytes behind the header are copied. -/
theorem dmaCopied_eq (len : Nat) (s : DmaMachine) :
    dmaCopied f len s oracle n = fun bytes => slice bytes (f.next + DMA_HDR_SIZE) len := by
  funext bytes
  show slice (DmaFrame.ofBytes bytes f.next).data 0 len = _
  apply slice_congr
  intro i _
  simp only [DmaFrame.ofBytes, Nat.zero_add]

/-- The bytes behind the header are copied, in the EIM variant too. -/
theorem eimCopied_eq (len : Nat) (s : EimMachine) :
    eimCopied f len s oracle n = fun bytes => slice bytes (f.next + EIM_HDR_SIZE) len := by
  funext bytes
  show slice (EimFrame.ofBytes bytes f.next).data 0 len = _
  apply slice_congr
  intro i _
  simp only [EimFrame.ofBytes, Nat.zero_add]

end

/-! ### Slots -/

/-- A slice depends on its own bytes only. -/
theorem readsInside_slice {lo hi src len : Nat} (hlo : lo ≤ src) (hhi : src + len ≤ hi) :
    ReadsInside lo hi fun bytes => slice bytes src len := by
  intro bytes bytes' h
  apply slice_congr
  intro i hi'
  exact h _ (by omega) (by omega)

/-- A frame whose length field, with `overhead` bytes counted in, is `length`. -/
theorem fromSlot_iff {hdr size overhead length : Nat} {f : Fifo}
    {copy : Nat → (Nat → UInt8) → List UInt8}
    (hcopy : ∀ len, copy len = fun bytes => slice bytes (f.next + hdr) len)
    (hhdr : hdr ≤ FRAME_SIZE) (hmem : f.start ≤ f.next ∧ f.next + FRAME_SIZE ≤ f.start + size) :
    (0 < (if length < overhead then 0 else length - overhead) →
        FromSlot hdr size (copy (if length < overhead then 0 else length - overhead)) f
          (if length < overhead then 0 else length - overhead)) ↔
      length ≤ overhead + (FRAME_SIZE - hdr) := by
  -- a length below the overhead is reported as none
  by_cases hshort : length < overhead
  · rw [if_pos hshort]
    exact ⟨fun _ => by omega, fun _ h => absurd h (Nat.lt_irrefl 0)⟩
  · rw [if_neg hshort]
    constructor
    · intro h
      by_cases hzero : length - overhead = 0
      · omega
      · have hfits := (h (by omega)).fits
        omega
    · intro hle _
      refine ⟨by omega, ?_, hmem⟩
      rw [hcopy]
      exact readsInside_slice (by omega) (by omega)

/-- For every content of a slot and every position of the ring, a received frame comes from its
    own slot iff the length in the header of a flagged slot is at most 2028, in EIM mode at
    most 2048. -/
theorem rxReady_fromSlot_iff {reg start k : Nat} (f g : Fifo) (hf : RingFifo reg start k f)
    (hg : g.next = g.start) (bytes : Nat → UInt8) (s : DmaMachine) (t : EimMachine)
    (oracle : Nat → Bool) (n : Nat) :
    (DmaFromSlot f s oracle n bytes ↔ ((DmaFrame.ofBytes bytes f.next).Received →
      (DmaFrame.ofBytes bytes f.next).length ≤ 2028)) ∧
    (EimFromSlot g t oracle n bytes ↔ (EimFrame.ofBytes bytes g.next).length ≤ 2048) := by
  constructor
  · -- every slot lies in the ring
    have hmem : f.start ≤ f.next ∧ f.next + FRAME_SIZE ≤ f.start + CCAT_ALIGNMENT := by
      rw [hf.next_eq, hf.start_eq]
      simp only [slotOff, FRAME_SIZE, FIFO_LENGTH, CCAT_ALIGNMENT]
      omega
    simp only [DmaFromSlot, exec_dmaRxReady, DmaMachine.withRing]
    by_cases hflag : (DmaFrame.ofBytes bytes f.next).Received
    · rw [DmaFrame.readyLen_of_received hflag]
      exact (fromSlot_iff (fun len => dmaCopied_eq oracle n len s) (by decide) hmem).trans
        ⟨fun h _ => h, fun h => h hflag⟩
    · rw [DmaFrame.readyLen_of_not_received hflag]
      exact ⟨fun _ h => absurd h hflag, fun _ h => absurd h (Nat.lt_irrefl 0)⟩
  · -- there is one slot
    have hmem : g.start ≤ g.next ∧ g.next + FRAME_SIZE ≤ g.start + FRAME_SIZE := by
      rw [hg]
      omega
    simp only [EimFromSlot, exec_eimRxReady]
    exact fromSlot_iff (fun len => eimCopied_eq oracle n len t) (by decide) hmem

/-- A ring whose first slot is flagged with the given length. -/
private def flaggedSlot (length : Nat) : Nat → UInt8 := fun p =>
  if p = OFFSET_RX_FLAGS then 1
  else ((leBytes 2 length)[p - OFFSET_LENGTH]?).getD 0

private def ringAtZero : Fifo := ⟨0x10, 0, 0, CCAT_ALIGNMENT - FRAME_SIZE⟩

private theorem ringFifo_ringAtZero : RingFifo 0x10 0 0 ringAtZero := ⟨rfl, rfl, rfl, rfl⟩

/-- The longest frame that fits. -/
theorem rxReady_fromSlot_longest :
    DmaFromSlot ringAtZero (DmaMachine.zeroed 0 0 0) (fun _ => true) 0 (flaggedSlot 2028) ∧
      ((dma.rxOps.ready ringAtZero).exec (fun _ => true) 0
        ((DmaMachine.zeroed 0 0 0).withRing (flaggedSlot 2028))).1 = 2024 :=
  ⟨(rxReady_fromSlot_iff ringAtZero ringAtZero ringFifo_ringAtZero rfl (flaggedSlot 2028)
    (DmaMachine.zeroed 0 0 0) (EimMachine.zeroed 0 0) (fun _ => true) 0).1.mpr (fun _ => by decide),
    by decide⟩

/-- One byte more, and the copy reaches behind the slot. -/
theorem not_fromSlot_tooLong :
    ¬ ∀ {reg start k : Nat} (f g : Fifo), RingFifo reg start k f → g.next = g.start →
      ∀ (bytes : Nat → UInt8) (s : DmaMachine) (t : EimMachine) (oracle : Nat → Bool) (n : Nat),
      DmaFromSlot f s oracle n bytes ∧ EimFromSlot g t oracle n bytes := by
  intro h
  have hlen : ((dma.rxOps.ready ringAtZero).exec (fun _ => true) 0
      ((DmaMachine.zeroed 0 0 0).withRing (flaggedSlot 2029))).1 = 2025 := by decide
  have hslot := (h ringAtZero ringAtZero ringFifo_ringAtZero rfl (flaggedSlot 2029)
    (DmaMachine.zeroed 0 0 0) (EimMachine.zeroed 0 0) (fun _ => true) 0).1
  simp only [DmaFromSlot, hlen] at hslot
  exact absurd (hslot (by decide)).fits (by decide)

end Ccat.Native.Eth
