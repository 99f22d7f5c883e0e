import Ccat.Native.EthDmaBytes
import Ccat.Spec.EthFifo

/-!
# TX descriptors

What the CCAT can recover from a descriptor word and the bytes of the ring. The word
holds a byte offset in its low 24 bits and a number of 8-byte units in its top 8 bits.
The units are counted from the start of the slot although the descriptor starts 8 bytes
later, so the longest frame the driver admits needs one unit more than 8 bits can hold.

## Key results

- `represents_queueSkb`: the bytes of the ring follow the frames of `EthDma`
- `descriptorFaithful_iff`: for which frames the descriptor is faithful
-/

namespace Ccat.Native.Eth

open Interleave Memory

/-! ## Bytes and frames -/

/-- The bytes hold the frames of the ring at `base`. -/
structure Represents (base : Nat) (bytes : Nat → UInt8) (mem : Nat → DmaFrame) : Prop where
  rxFlags : ∀ k, (mem (base + slotOff k)).rxFlags =
    (DmaFrame.ofBytes bytes (base + slotOff k)).rxFlags
  length : ∀ k, (mem (base + slotOff k)).length =
    (DmaFrame.ofBytes bytes (base + slotOff k)).length
  txFlags : ∀ k, (mem (base + slotOff k)).txFlags =
    (DmaFrame.ofBytes bytes (base + slotOff k)).txFlags
  data : ∀ k i, i < FRAME_SIZE - DMA_HDR_SIZE →
    (mem (base + slotOff k)).data i = (DmaFrame.ofBytes bytes (base + slotOff k)).data i

/-- The frame after `fifo_dma_queue_skb()`. -/
def DmaFrame.queued (skb : Skb) (fr : DmaFrame) : DmaFrame :=
  { fr with txFlags := 0, length := skb.len % 2 ^ 16, data := blit fr.data 0 skb.data }

/-- Two updates of one frame are one. -/
theorem setFrame_setFrame (mem : Nat → DmaFrame) (addr : Nat) (g h : DmaFrame → DmaFrame) :
    setFrame (setFrame mem addr g) addr h = setFrame mem addr fun fr => h (g fr) := by
  funext p
  by_cases hp : p = addr
  · simp only [setFrame, hp, if_true]
  · simp only [setFrame, hp, if_false]

/-- A register write does not touch the ring. -/
theorem dmaIowrite32_mem (value addr : Nat) (s : DmaMachine) :
    (dmaIowrite32 value addr s).dev.tx.mem = s.dev.tx.mem :=
  (dmaIowrite32_keeps value addr s).2.2

/-- `fifo_dma_queue_skb()` replaces one frame. -/
theorem fifoDmaQueueSkb_mem (f : Fifo) (skb : Skb) (oracle : Nat → Bool) (n : Nat)
    (s : DmaMachine) : ((fifoDmaQueueSkb f skb).exec oracle n s).2.dev.tx.mem =
      setFrame s.dev.tx.mem f.next (DmaFrame.queued skb) := by
  show (dmaIowrite32 _ _ _).dev.tx.mem = _
  rw [dmaIowrite32_mem]
  -- the three stores go to the same frame
  dsimp only
  rw [setFrame_setFrame, setFrame_setFrame]
  rfl

section Slot

variable {reg start k : Nat} {f : Fifo} {skb : Skb} (bytes : Nat → UInt8)

/-- Bytes outside the slot keep their values. -/
theorem queueSkbBytes_outside (hlen : skb.len ≤ MAX_PAYLOAD_SIZE) {p : Nat}
    (hp : p < f.next ∨ f.next + FRAME_SIZE ≤ p) :
    (fifoDmaQueueSkbBytes f skb bytes).1 p = bytes p := by
  have hskb : skb.data.length ≤ 2024 := hlen
  cases hp with
  | inl hlt =>
    simp only [fifoDmaQueueSkbBytes]
    rw [blit_of_lt _ _ (by omega), blit_of_lt _ _ (by omega), blit_of_lt _ _ (by omega)]
  | inr hge =>
    simp only [FRAME_SIZE] at hge
    simp only [fifoDmaQueueSkbBytes]
    rw [blit_of_ge _ _ (by simp only [DMA_HDR_SIZE]; omega),
      blit_of_ge _ _ (by simp only [OFFSET_LENGTH, length_leBytes]; omega),
      blit_of_ge _ _ (by simp only [OFFSET_TX_FLAGS, length_leBytes]; omega)]

/-- Ranges outside the slot read as before. -/
theorem slice_queueSkbBytes_outside (hlen : skb.len ≤ MAX_PAYLOAD_SIZE) {p n : Nat}
    (hp : p + n ≤ f.next ∨ f.next + FRAME_SIZE ≤ p) :
    slice (fifoDmaQueueSkbBytes f skb bytes).1 p n = slice bytes p n := by
  apply slice_congr
  intro i hi
  apply queueSkbBytes_outside bytes hlen
  omega

/-- The length field reads back. -/
theorem ofBytes_queueSkb_length :
    leNat (slice (fifoDmaQueueSkbBytes f skb bytes).1 (f.next + OFFSET_LENGTH) 2) =
      skb.len % 2 ^ 16 := by
  unfold fifoDmaQueueSkbBytes
  rw [slice_blit_disjoint _ _ (.inl (by simp only [OFFSET_LENGTH, DMA_HDR_SIZE]; omega))]
  have hread := slice_blit (blit bytes (f.next + OFFSET_TX_FLAGS) (leBytes 4 0))
    (f.next + OFFSET_LENGTH) (leBytes 2 skb.len)
  rw [length_leBytes] at hread
  rw [hread, leNat_leBytes]
  rfl

/-- The flags are cleared. -/
theorem ofBytes_queueSkb_txFlags :
    leNat (slice (fifoDmaQueueSkbBytes f skb bytes).1 (f.next + OFFSET_TX_FLAGS) 4) = 0 := by
  unfold fifoDmaQueueSkbBytes
  rw [slice_blit_disjoint _ _ (.inl (by simp only [OFFSET_TX_FLAGS, DMA_HDR_SIZE]; omega)),
    slice_blit_disjoint _ _
      (.inr (by simp only [OFFSET_TX_FLAGS, OFFSET_LENGTH, length_leBytes]; omega))]
  have hread := slice_blit bytes (f.next + OFFSET_TX_FLAGS) (leBytes 4 0)
  rw [length_leBytes] at hread
  rw [hread, leNat_leBytes]
  rfl

/-- The receive flags stay. -/
theorem ofBytes_queueSkb_rxFlags :
    slice (fifoDmaQueueSkbBytes f skb bytes).1 (f.next + OFFSET_RX_FLAGS) 4 =
      slice bytes (f.next + OFFSET_RX_FLAGS) 4 := by
  unfold fifoDmaQueueSkbBytes
  rw [slice_blit_disjoint _ _ (.inl (by simp only [OFFSET_RX_FLAGS, DMA_HDR_SIZE]; omega)),
    slice_blit_disjoint _ _ (.inl (by simp only [OFFSET_RX_FLAGS, OFFSET_LENGTH]; omega)),
    slice_blit_disjoint _ _ (.inl (by simp only [OFFSET_RX_FLAGS, OFFSET_TX_FLAGS]; omega))]

/-- The payload stands behind the header. -/
theorem queueSkbBytes_payload :
    slice (fifoDmaQueueSkbBytes f skb bytes).1 (f.next + DMA_HDR_SIZE) skb.len = skb.data :=
  slice_blit _ _ _

/-- The payload is written behind the header, and the bytes behind it stay. -/
theorem queueSkbBytes_data (i : Nat) :
    (fifoDmaQueueSkbBytes f skb bytes).1 (f.next + DMA_HDR_SIZE + i) =
      blit (fun j => bytes (f.next + DMA_HDR_SIZE + j)) 0 skb.data i := by
  rcases Nat.lt_or_ge i skb.data.length with hi | hi
  · have hright := blit_add (fun j => bytes (f.next + DMA_HDR_SIZE + j)) 0 skb.data hi
    rw [Nat.zero_add] at hright
    rw [hright]
    exact blit_add _ _ _ hi
  · simp only [fifoDmaQueueSkbBytes]
    rw [blit_of_ge _ _ (by omega),
      blit_of_ge _ _ (by simp only [OFFSET_LENGTH, DMA_HDR_SIZE, length_leBytes]; omega),
      blit_of_ge _ _ (by simp only [OFFSET_TX_FLAGS, DMA_HDR_SIZE, length_leBytes]; omega),
      blit_of_ge _ _ (by omega)]

/-- Queueing an skb does to the bytes of the ring what it does to the frames. -/
theorem represents_queueSkb (oracle : Nat → Bool) (n : Nat) {s : DmaMachine}
    (hf : RingFifo reg start k f) (hlen : skb.len ≤ MAX_PAYLOAD_SIZE)
    (h : Represents start bytes s.dev.tx.mem) :
    Represents start (fifoDmaQueueSkbBytes f skb bytes).1
      ((fifoDmaQueueSkb f skb).exec oracle n s).2.dev.tx.mem := by
  rw [fifoDmaQueueSkb_mem]
  -- every slot is the one at `next` or lies outside it
  have hslot : ∀ j, start + slotOff j = f.next ∨
      start + slotOff j + FRAME_SIZE ≤ f.next ∨ f.next + FRAME_SIZE ≤ start + slotOff j := by
    intro j
    rw [hf.next_eq]
    simp only [slotOff, FRAME_SIZE, FIFO_LENGTH]
    omega
  -- the frames of the other slots stay
  have hne : ∀ j, start + slotOff j ≠ f.next →
      setFrame s.dev.tx.mem f.next (DmaFrame.queued skb) (start + slotOff j) =
        s.dev.tx.mem (start + slotOff j) := fun j hj => if_neg hj
  constructor
  · intro j
    rcases hslot j with hj | hj
    · -- the flags of the receive side are not written
      rw [hj, setFrame, if_pos rfl, ← hj]
      simp only [DmaFrame.queued, DmaFrame.ofBytes, h.rxFlags j]
      rw [hj, ofBytes_queueSkb_rxFlags]
    · rw [hne j (by simp only [FRAME_SIZE] at hj; omega), h.rxFlags j]
      simp only [DmaFrame.ofBytes]
      rw [slice_queueSkbBytes_outside bytes hlen]
      simp only [OFFSET_RX_FLAGS, FRAME_SIZE] at hj ⊢
      omega
  · intro j
    rcases hslot j with hj | hj
    · rw [hj, setFrame, if_pos rfl]
      exact (ofBytes_queueSkb_length bytes).symm
    · rw [hne j (by simp only [FRAME_SIZE] at hj; omega), h.length j]
      simp only [DmaFrame.ofBytes]
      rw [slice_queueSkbBytes_outside bytes hlen]
      simp only [OFFSET_LENGTH, FRAME_SIZE] at hj ⊢
      omega
  · intro j
    rcases hslot j with hj | hj
    · rw [hj, setFrame, if_pos rfl]
      exact (ofBytes_queueSkb_txFlags bytes).symm
    · rw [hne j (by simp only [FRAME_SIZE] at hj; omega), h.txFlags j]
      simp only [DmaFrame.ofBytes]
      rw [slice_queueSkbBytes_outside bytes hlen]
      simp only [OFFSET_TX_FLAGS, FRAME_SIZE] at hj ⊢
      omega
  · intro j i hi
    rcases hslot j with hj | hj
    · -- the payload is copied over the old data, byte by byte
      have hdata := h.data j i hi
      rw [hj] at hdata ⊢
      simp only [setFrame, if_true, DmaFrame.queued, DmaFrame.ofBytes] at hdata ⊢
      rw [queueSkbBytes_data]
      simp only [blit, hdata]
    · rw [hne j (by simp only [FRAME_SIZE] at hj; omega), h.data j i hi]
      simp only [DmaFrame.ofBytes]
      rw [queueSkbBytes_outside bytes hlen]
      simp only [DMA_HDR_SIZE, FRAME_SIZE] at hi hj ⊢
      omega

end Slot

/-! ## Reading a descriptor -/

/-- The bytes that the descriptor `word` tells the CCAT to fetch from the ring at `start`. -/
def fetched (start : Nat) (bytes : Nat → UInt8) (word : Nat) : List UInt8 :=
  slice bytes (start + word % 2 ^ 24) (8 * (word / 2 ^ 24))

/-- Bytes of the header behind its `length` field, that field included. -/
def REST_HDR_SIZE : Nat := DMA_HDR_SIZE - OFFSET_LENGTH

/-- From `bytes` before, the queueing of `payload` in slot `k` left a ring `bytes'` and wrote a
    descriptor from which the frame can be recovered. -/
structure DescriptorFaithful (start k : Nat) (payload : List UInt8) (bytes bytes' : Nat → UInt8)
    (word : Nat) : Prop where
  lt_word : word < 2 ^ 32
  /-- The fetched range starts at the `length` field of the slot. -/
  starts : word % 2 ^ 24 = FRAME_SIZE * k + OFFSET_LENGTH
  /-- It stays inside the slot. -/
  inside : word % 2 ^ 24 + 8 * (word / 2 ^ 24) ≤ FRAME_SIZE * (k + 1)
  /-- It holds the rest of the header and at least the payload. -/
  covers : REST_HDR_SIZE + payload.length ≤ (fetched start bytes' word).length
  length_eq : leNat ((fetched start bytes' word).take 2) = payload.length
  payload_eq : ((fetched start bytes' word).drop REST_HDR_SIZE).take payload.length = payload
  others : ∀ p, p < start + FRAME_SIZE * k ∨ start + FRAME_SIZE * (k + 1) ≤ p →
    bytes' p = bytes p

/-- The offset in the descriptor is that of the `length` field, whatever the length is. -/
theorem addrAndLength_offset {reg start k : Nat} {f : Fifo} (hf : RingFifo reg start k f)
    (hk : k < FIFO_LENGTH) (len : Nat) :
    addrAndLength f len % 2 ^ 24 = FRAME_SIZE * k + OFFSET_LENGTH := by
  unfold addrAndLength
  rw [hf.next_eq, hf.start_eq]
  simp only [slotOff, FRAME_SIZE, FIFO_LENGTH, OFFSET_LENGTH, DMA_HDR_SIZE] at hk ⊢
  omega

/-- The units in the descriptor wrap around at 256. -/
theorem addrAndLength_units {reg start k : Nat} {f : Fifo} (hf : RingFifo reg start k f)
    (hk : k < FIFO_LENGTH) (len : Nat) :
    addrAndLength f len / 2 ^ 24 = (len + DMA_HDR_SIZE) / 8 % 2 ^ 8 := by
  unfold addrAndLength
  rw [hf.next_eq, hf.start_eq]
  simp only [slotOff, FRAME_SIZE, FIFO_LENGTH, OFFSET_LENGTH, DMA_HDR_SIZE] at hk ⊢
  omega

/-- The longest frame has 256 units, of which 0 are left in the descriptor. -/
theorem DescriptorFaithful.lt_max {reg start k : Nat} {f : Fifo} {bytes bytes' : Nat → UInt8}
    {payload : List UInt8} (hf : RingFifo reg start k f) (hk : k < FIFO_LENGTH)
    (hlen : payload.length ≤ MAX_PAYLOAD_SIZE)
    (h : DescriptorFaithful start k payload bytes bytes' (addrAndLength f payload.length)) :
    payload.length < MAX_PAYLOAD_SIZE := by
  have hcovers := h.covers
  rw [fetched, length_slice, addrAndLength_units hf hk] at hcovers
  simp only [REST_HDR_SIZE, DMA_HDR_SIZE, OFFSET_LENGTH, MAX_PAYLOAD_SIZE, FRAME_SIZE,
    EIM_HDR_SIZE] at hcovers hlen ⊢
  omega

/-- For which of the frames that `ccat_eth_start_xmit()` admits the descriptor is faithful: all
    but the longest. -/
theorem descriptorFaithful_iff (reg start k : Nat) (f : Fifo) (hf : RingFifo reg start k f)
    (hk : k < FIFO_LENGTH) (bytes : Nat → UInt8) (skb : Skb) (hlen : skb.len ≤ MAX_PAYLOAD_SIZE) :
    DescriptorFaithful start k skb.data bytes (fifoDmaQueueSkbBytes f skb bytes).1
        (fifoDmaQueueSkbBytes f skb bytes).2 ↔
      skb.len < MAX_PAYLOAD_SIZE := by
  have hoff : (fifoDmaQueueSkbBytes f skb bytes).2 % 2 ^ 24 = FRAME_SIZE * k + OFFSET_LENGTH :=
    addrAndLength_offset hf hk skb.len
  have hunits : (fifoDmaQueueSkbBytes f skb bytes).2 / 2 ^ 24 =
      (skb.len + DMA_HDR_SIZE) / 8 % 2 ^ 8 := addrAndLength_units hf hk skb.len
  have hnext : f.next = start + FRAME_SIZE * k := by
    rw [hf.next_eq, slotOff, Nat.mod_eq_of_lt hk]
  have hdata : skb.data.length = skb.len := rfl
  -- only bytes of the slot are written
  have hout : ∀ p, p < start + FRAME_SIZE * k ∨ start + FRAME_SIZE * (k + 1) ≤ p →
      (fifoDmaQueueSkbBytes f skb bytes).1 p = bytes p := by
    intro p hp
    apply queueSkbBytes_outside bytes hlen
    rw [hnext]
    cases hp with
    | inl hlt => exact .inl hlt
    | inr hge => exact .inr (by rw [Nat.add_assoc, ← Nat.mul_succ]; exact hge)
  constructor
  · exact fun h => h.lt_max hf hk hlen
  · intro hlt
    have hlt' : skb.len < 2024 := hlt
    -- a shorter frame is fetched from its length field on
    have hfetched : fetched start (fifoDmaQueueSkbBytes f skb bytes).1
        (fifoDmaQueueSkbBytes f skb bytes).2 =
          slice (fifoDmaQueueSkbBytes f skb bytes).1 (f.next + OFFSET_LENGTH)
            (8 * ((skb.len + DMA_HDR_SIZE) / 8)) := by
      rw [fetched, hoff, hunits, hnext, Nat.add_assoc]
      rw [Nat.mod_eq_of_lt (by simp only [DMA_HDR_SIZE]; omega)]
    constructor
    · exact Nat.mod_lt _ (Nat.two_pow_pos 32)
    · exact hoff
    · rw [hoff, hunits]
      simp only [DMA_HDR_SIZE, OFFSET_LENGTH, FRAME_SIZE]
      omega
    · rw [hfetched, length_slice, hdata]
      simp only [REST_HDR_SIZE, DMA_HDR_SIZE, OFFSET_LENGTH]
      omega
    · rw [hfetched, take_slice, Nat.min_eq_left (by simp only [DMA_HDR_SIZE]; omega),
        ofBytes_queueSkb_length, hdata]
      exact Nat.mod_eq_of_lt (by omega)
    · rw [hfetched, drop_slice, take_slice]
      -- the units cover the payload
      have hmin : min skb.data.length (8 * ((skb.len + DMA_HDR_SIZE) / 8) - REST_HDR_SIZE) =
          skb.len := by
        simp only [hdata, REST_HDR_SIZE, DMA_HDR_SIZE, OFFSET_LENGTH]
        omega
      rw [hmin]
      exact queueSkbBytes_payload bytes
    · exact hout

/-- A frame of 64 bytes in the second slot. -/
theorem descriptorFaithful_iff_short :
    DescriptorFaithful 0 1 (List.replicate 64 0xa5) (fun _ => 0)
      (fifoDmaQueueSkbBytes ⟨0x100, 0, 0x800, 0x1f800⟩ ⟨false, List.replicate 64 0xa5⟩
        fun _ => 0).1
      (fifoDmaQueueSkbBytes ⟨0x100, 0, 0x800, 0x1f800⟩ ⟨false, List.replicate 64 0xa5⟩
        fun _ => 0).2 :=
  (descriptorFaithful_iff 0x100 0 1 ⟨0x100, 0, 0x800, 0x1f800⟩ ⟨rfl, rfl, rfl, rfl⟩ (by decide)
    (fun _ => 0) ⟨false, List.replicate 64 0xa5⟩ (by decide)).mpr (by decide)

/-- A frame of `MAX_PAYLOAD_SIZE` bytes passes the check of `ccat_eth_start_xmit()`, and its
    descriptor says that there is nothing to fetch. -/
theorem not_descriptorFaithful_max :
    ¬ ∀ (reg start k : Nat) (f : Fifo), RingFifo reg start k f → k < FIFO_LENGTH →
      ∀ (bytes : Nat → UInt8) (skb : Skb), skb.len ≤ MAX_PAYLOAD_SIZE →
        DescriptorFaithful start k skb.data bytes (fifoDmaQueueSkbBytes f skb bytes).1
          (fifoDmaQueueSkbBytes f skb bytes).2 := by
  intro hall
  have hlen : (List.replicate MAX_PAYLOAD_SIZE (0 : UInt8)).length = MAX_PAYLOAD_SIZE :=
    List.length_replicate
  have hf : RingFifo 0x100 0 0 ⟨0x100, 0, 0, 0x1f800⟩ := ⟨rfl, rfl, rfl, rfl⟩
  -- the length is all that matters
  generalize List.replicate MAX_PAYLOAD_SIZE (0 : UInt8) = payload at hlen
  have hmax := hall 0x100 0 0 _ hf (by decide) (fun _ => 0) ⟨false, payload⟩ (Nat.le_of_eq hlen)
  have hlt := hmax.lt_max hf (by decide) (Nat.le_of_eq hlen)
  exact absurd hlt (Nat.not_lt.mpr (Nat.le_of_eq hlen.symm))

end Ccat.Native.Eth
