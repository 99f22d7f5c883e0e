import Ccat.Spec.EthLifeCorrect

/-!
# The DMA window and its base registers

`ccat_dma_init()` allocates one byte less than two rings, rounds the bus address up to
the alignment of a ring and moves the CPU pointer by the same distance. The rounded
address goes into a pair of registers, whose bit 0 tells the CCAT that the upper word
counts. All of this is prepared for a `dma_addr_t` of 64 bits, but `PTR_ALIGN()` rounds in
`unsigned long`: where that is narrower, the upper word of the bus address is lost.

## Key results

- `ptrAlign_aligned`: the rounded address
- `baseWords_decode`: the register pair decodes back to the address written
- `wp_ccatDmaInit_words`: the ring that is set up and the words that are written
- `dmaWindow_iff`: the ring and the registers fit exactly when the address can be rounded up
- `ccatDmaInit_window`: ring, bus address and registers after `ccat_dma_init()`
- `not_ccatDmaInit_window`: a buffer above 4 GiB on a kernel with `unsigned long` of 32 bits
-/

namespace Ccat.Native.Eth

open Interleave

/-- The ring at `start` lies in the buffer `a`, the device sees it at the aligned bus address
    `bus`, and the words `lo` and `hi` of the base registers stand for that address. -/
structure DmaWindow (a : Coherent) (start bus lo hi : Nat) : Prop where
  inside : a.base ≤ start ∧ start + CCAT_ALIGNMENT ≤ a.base + DMA_SIZE
  aligned : CCAT_ALIGNMENT ∣ bus
  distance : a.phys ≤ bus ∧ bus - a.phys = start - a.base
  /-- CPU and device see each slot at the same place of the buffer. -/
  slots : ∀ k, k < FIFO_LENGTH →
    bus + FRAME_SIZE * k - a.phys = start + FRAME_SIZE * k - a.base
  high : hi = bus / 2 ^ 32
  low : lo / 2 * 2 = bus % 2 ^ 32
  mode : lo % 2 = 1 ↔ hi ≠ 0
  words : lo < 2 ^ 32 ∧ hi < 2 ^ 32

/-! ### Addresses -/

/-- Whatever the casts cut off, what is left is a multiple of the size of a ring. -/
theorem ptrAlign_aligned (W : AddrWidth) (phys : Nat) : CCAT_ALIGNMENT ∣ ptrAlign W phys := by
  have hdvd : CCAT_ALIGNMENT ∣ 2 ^ W.dma.bits := by
    cases W.dma <;> decide
  exact (Nat.dvd_mod_iff hdvd).mpr (Nat.dvd_mul_left _ _)

theorem ptrAlign_lt (W : AddrWidth) (phys : Nat) : ptrAlign W phys < 2 ^ W.dma.bits :=
  Nat.mod_lt _ (Nat.two_pow_pos _)

theorem ptrAlign_lt_long (W : AddrWidth) (phys : Nat) : ptrAlign W phys < 2 ^ W.long.bits := by
  have hlt := Nat.mod_lt (phys % 2 ^ W.long.bits + (CCAT_ALIGNMENT - 1))
    (Nat.two_pow_pos W.long.bits)
  exact Nat.lt_of_le_of_lt (Nat.mod_le _ _) (Nat.lt_of_le_of_lt (Nat.div_mul_le_self _ _) hlt)

/-- A bus address that cannot be rounded up in `unsigned long` is programmed too low. -/
theorem ptrAlign_lt_phys {W : AddrWidth} {phys : Nat}
    (hround : ¬phys + (CCAT_ALIGNMENT - 1) < 2 ^ W.long.bits) : ptrAlign W phys < phys := by
  have hlt := ptrAlign_lt_long W phys
  obtain ⟨k, hk⟩ := ptrAlign_aligned W phys
  obtain ⟨m, hm⟩ : CCAT_ALIGNMENT ∣ 2 ^ W.long.bits := by
    cases W.long <;> decide
  -- both are multiples of the alignment, so a whole ring lies between them
  simp only [CCAT_ALIGNMENT] at hround hk hm
  omega

/-- The distance by which the CPU pointer is moved does not wrap around, nor does the pointer. -/
theorem start_eq {W : AddrWidth} {a : Coherent} (hfits : a.phys + DMA_SIZE ≤ 2 ^ W.dma.bits)
    (hbase : a.base + DMA_SIZE ≤ 2 ^ W.long.bits) (hround : a.RoundsUp W) :
    (a.base + (ptrAlign W a.phys + 2 ^ W.dma.bits - a.phys) % 2 ^ W.dma.bits) % 2 ^ W.long.bits =
      a.base + (ptrAlign W a.phys - a.phys) := by
  obtain ⟨hle, hin⟩ := ptrAlign_inside hfits hround
  have hlt := ptrAlign_lt W a.phys
  have hdistance : (ptrAlign W a.phys + 2 ^ W.dma.bits - a.phys) % 2 ^ W.dma.bits =
      ptrAlign W a.phys - a.phys := by
    rw [Nat.sub_add_comm hle, Nat.add_mod_right, Nat.mod_eq_of_lt (by omega)]
  rw [hdistance]
  apply Nat.mod_eq_of_lt
  simp only [DMA_SIZE, CCAT_ALIGNMENT] at hin hbase
  omega

/-! ### The register pair -/

/-- The upper word, in either width of a `dma_addr_t`. -/
theorem baseHigh_eq {W : AddrWidth} {bus : Nat} (h : bus < 2 ^ W.dma.bits) :
    baseHigh W bus = bus / 2 ^ 32 := by
  unfold baseHigh
  cases hdma : W.dma with
  | long32 =>
    rw [hdma, LongWidth.bits_long32] at h
    rw [LongWidth.bits_long32, if_neg (by decide), Nat.div_eq_of_lt h]
  | long64 => rw [LongWidth.bits_long64, if_pos (by decide)]

/-- Bit 0 of an even address carries the mode. -/
theorem even_or {n b : Nat} (hn : n % 2 = 0) (hb : b < 2) :
    (n ||| b) / 2 * 2 = n ∧ ((n ||| b) % 2 = 1 ↔ b = 1) := by
  have hdiv : (n ||| b) / 2 = n / 2 := by
    rw [Nat.or_div_two, Nat.div_eq_of_lt hb, Nat.or_zero]
  refine ⟨by rw [hdiv]; omega, ?_⟩
  rw [Nat.or_mod_two_eq_one]
  omega

/-- The two words stand for the aligned address. -/
theorem baseWords_decode {W : AddrWidth} {bus : Nat} (hlt : bus < 2 ^ W.dma.bits)
    (halign : CCAT_ALIGNMENT ∣ bus) :
    baseHigh W bus = bus / 2 ^ 32 ∧ baseLow W bus / 2 * 2 = bus % 2 ^ 32 ∧
      (baseLow W bus % 2 = 1 ↔ baseHigh W bus ≠ 0) := by
  have heven : bus % 2 ^ 32 % 2 = 0 := by
    simp only [CCAT_ALIGNMENT] at halign
    omega
  refine ⟨baseHigh_eq hlt, ?_⟩
  unfold baseLow
  by_cases hhigh : baseHigh W bus > 0
  · obtain ⟨hlow, hmode⟩ := even_or heven (b := 1) (by decide)
    rw [if_pos hhigh]
    exact ⟨hlow, by rw [hmode]; omega⟩
  · obtain ⟨hlow, hmode⟩ := even_or heven (b := 0) (by decide)
    rw [if_neg hhigh]
    exact ⟨hlow, by rw [hmode]; omega⟩

/-- The window that `ccat_dma_init()` computes from an answer. -/
theorem dmaWindow_ptrAlign {W : AddrWidth} {a : Coherent}
    (hfits : a.phys + DMA_SIZE ≤ 2 ^ W.dma.bits) (hround : a.RoundsUp W) :
    DmaWindow a (a.base + (ptrAlign W a.phys - a.phys)) (ptrAlign W a.phys)
      (baseLow W (ptrAlign W a.phys)) (baseHigh W (ptrAlign W a.phys)) := by
  obtain ⟨hle, hin⟩ := ptrAlign_inside hfits hround
  have hlt := ptrAlign_lt W a.phys
  obtain ⟨hhigh, hlow, hmode⟩ := baseWords_decode hlt (ptrAlign_aligned W a.phys)
  have hbits : ptrAlign W a.phys < 2 ^ 64 := by
    refine Nat.lt_of_lt_of_le hlt (Nat.pow_le_pow_right (by decide) ?_)
    cases W.dma <;> decide
  constructor
  case inside => omega
  case aligned => exact ptrAlign_aligned W a.phys
  case distance => omega
  case slots => intro k _; omega
  case high => exact hhigh
  case low => exact hlow
  case mode => exact hmode
  case words => omega

/-- The registers stand for one bus address only, the one that was programmed. -/
theorem DmaWindow.bus_eq {W : AddrWidth} {a : Coherent} {start bus phys : Nat}
    (h : DmaWindow a start bus (baseLow W (ptrAlign W phys)) (baseHigh W (ptrAlign W phys))) :
    bus = ptrAlign W phys := by
  obtain ⟨hhigh, hlow, -⟩ := baseWords_decode (ptrAlign_lt W phys) (ptrAlign_aligned W phys)
  have hupper : bus / 2 ^ 32 = ptrAlign W phys / 2 ^ 32 := h.high.symm.trans hhigh
  have hlower : bus % 2 ^ 32 = ptrAlign W phys % 2 ^ 32 := h.low.symm.trans hlow
  rw [← Nat.div_add_mod bus (2 ^ 32), hupper, hlower, Nat.div_add_mod]

/-- Ring and registers fit together exactly when the bus address can be rounded up in
    `unsigned long`. -/
theorem dmaWindow_iff {W : AddrWidth} {a : Coherent} (hfits : a.phys + DMA_SIZE ≤ 2 ^ W.dma.bits)
    (hbase : a.base + DMA_SIZE ≤ 2 ^ W.long.bits) :
    (∃ bus, DmaWindow a
      ((a.base + (ptrAlign W a.phys + 2 ^ W.dma.bits - a.phys) % 2 ^ W.dma.bits) %
        2 ^ W.long.bits) bus
      (baseLow W (ptrAlign W a.phys)) (baseHigh W (ptrAlign W a.phys))) ↔ a.RoundsUp W := by
  constructor
  · rintro ⟨bus, hwindow⟩
    by_contra hround
    have hle := hwindow.distance.1
    rw [hwindow.bus_eq] at hle
    exact absurd (ptrAlign_lt_phys hround) (Nat.not_lt.mpr hle)
  · intro hround
    rw [start_eq hfits hbase hround]
    exact ⟨_, dmaWindow_ptrAlign hfits hround⟩

/-! ### The program -/

/-- The hardware leaves the registers alone. -/
theorem stable_regs (P : Nat → (Nat → Nat) → Prop) :
    Stable Hw fun s : DmaMachine => P s.dev.txReg s.dev.regs := by
  rintro s _ hs ⟨a, rfl⟩
  obtain ⟨hreg, hregs, -⟩ := hwStep_rx a s
  rw [hreg, hregs]
  exact hs

/-- The set-up of either FIFO keeps its memory and the place of the registers. -/
theorem wp_fifoSetEnd_start {add : Fifo → Prog DmaMachine Unit}
    (hadd : add = dma.rxOps.add ∨ add = dma.txOps.add) (f : Fifo) (size : Nat) {reg : Nat}
    {s : DmaMachine} (hs : s.dev.txReg = reg) :
    wp Hw (fun _ _ => True) (fifoSetEnd dma add f size)
      (fun f' t => f'.start = f.start ∧ t.dev.txReg = reg) s := by
  let φ (upd : DmaMachine → DmaMachine) : Prop :=
    ∀ t, t.dev.txReg = reg → True ∧ (upd t).dev.txReg = reg
  have hwrite : ∀ value addr, φ (dmaIowrite32 value addr) :=
    fun value addr t ht => ⟨trivial, (dmaIowrite32_keeps value addr t).2.1.trans ht⟩
  have hall : ∀ g, (add g).All φ fun _ => True := by
    intro g
    rcases hadd with rfl | rfl
    · exact Prog.all_modify_bind (fun t ht => ⟨trivial, ht⟩) (Prog.all_modify (hwrite _ _))
    · exact Prog.all_modify fun t ht => ⟨trivial, ht⟩
  refine wp_of_all (stable_regs fun r _ => r = reg) hs ?_
  refine fifoReset_all (I := fun g => g.start = f.start) ?_ (fun g _ => hall g) (hwrite _ _) rfl
  intro g hg
  unfold ccatEthFifoInc
  split <;> exact hg

/-- One update of the registers. -/
theorem wp_modify_regs (P Q : Nat → (Nat → Nat) → Prop)
    {upd : DmaMachine → DmaMachine} {s : DmaMachine} (hs : P s.dev.txReg s.dev.regs)
    (hupd : ∀ t, P t.dev.txReg t.dev.regs → Q (upd t).dev.txReg (upd t).dev.regs) :
    wp Hw (fun _ _ => True) (.modify upd) (fun _ t => Q t.dev.txReg t.dev.regs) s :=
  wp_modify (stable_regs P) hs fun t ht => ⟨trivial, hupd t ht⟩

/-- Both words of the base register of a channel are written. -/
theorem wp_writeBase {α : Type} {func : EthFunction} (hbars : func.BarsDisjoint) (channel : UInt8)
    (lo hi : Nat) (r : α) {s : DmaMachine}
    (hs : s.dev.txReg = func.base + func.offsets.txFifo) :
    wp Hw (fun _ _ => True) (do
        Prog.modify (dmaIowrite32 lo (func.dmaBase channel))
        Prog.modify (dmaIowrite32 hi (func.dmaBase channel + 4))
        return r)
      (fun r' t => r' = r ∧ t.dev.regs (func.dmaBase channel) = lo ∧
        t.dev.regs (func.dmaBase channel + 4) = hi) s := by
  have hchan : channel.toNat < 256 := channel.toNat_lt
  -- neither word is a register of a FIFO
  have hlow : ∀ j, j < 0x20 → func.dmaBase channel ≠ func.base + func.offsets.txFifo + j :=
    fun j hj => hbars j _ hj (by omega)
  have hhigh : ∀ j, j < 0x20 → func.dmaBase channel + 4 ≠ func.base + func.offsets.txFifo + j := by
    intro j hj
    rw [EthFunction.dmaBase, Nat.add_assoc]
    exact hbars j _ hj (by omega)
  let low (r : Nat) (regs : Nat → Nat) : Prop :=
    r = func.base + func.offsets.txFifo ∧ regs (func.dmaBase channel) = lo
  refine wp_seq (wp_modify_regs (fun r _ => r = func.base + func.offsets.txFifo) low hs
    fun t ht => ?_) fun _ t ht => ?_
  · rw [iowrite32_other ht lo hlow]
    exact ⟨ht, if_pos rfl⟩
  refine wp_seq (wp_modify_regs low (fun _ regs => regs (func.dmaBase channel) = lo ∧
    regs (func.dmaBase channel + 4) = hi) ht fun u hu => ?_) fun _ u hu => wp_pure ⟨rfl, hu⟩
  -- the high word is written next to the low one, which stays
  rw [iowrite32_other hu.1 hi hhigh]
  exact ⟨(if_neg (by omega)).trans hu.2, if_pos rfl⟩

/-- `ccat_dma_init()` of a channel with a buffer: the ring that it sets up, and the words that it
    writes. -/
theorem wp_ccatDmaInit_words (W : AddrWidth) {func : EthFunction} {a : Coherent} (channel : UInt8)
    {add : Fifo → Prog DmaMachine Unit} (hadd : add = dma.rxOps.add ∨ add = dma.txOps.add)
    (f : Fifo) {s : DmaMachine} (hbars : func.BarsDisjoint)
    (hreg : s.dev.txReg = func.base + func.offsets.txFifo) (husable : a.Usable) :
    wp Hw (fun _ _ => True) (ccatDmaInit dma W a channel.toNat func.bar2 add f)
      (fun r t => r.1 = 0 ∧
        r.2.1.start =
          (a.base + (ptrAlign W a.phys + 2 ^ W.dma.bits - a.phys) % 2 ^ W.dma.bits) %
            2 ^ W.long.bits ∧
        t.dev.regs (func.dmaBase channel) = baseLow W (ptrAlign W a.phys) ∧
        t.dev.regs (func.dmaBase channel + 4) = baseHigh W (ptrAlign W a.phys)) s := by
  -- the buffer is recorded and no register changes
  have halloc : ∀ t : DmaMachine, (dmaAllocCoherent a t).dev = t.dev := by
    intro t
    unfold dmaAllocCoherent
    split <;> rfl
  unfold ccatDmaInit
  refine wp_seq (wp_modify_regs (fun r _ => r = func.base + func.offsets.txFifo)
    (fun r _ => r = func.base + func.offsets.txFifo) hreg fun t ht => ?_) fun _ t ht => ?_
  · rw [halloc]
    exact ht
  rw [if_neg (fun hfail => hfail.elim husable.1 husable.2)]
  refine wp_seq (wp_fifoSetEnd_start hadd _ CCAT_ALIGNMENT ht) fun f' u hu => ?_
  obtain ⟨hstart, hu⟩ := hu
  refine wp_mono (wp_writeBase hbars channel (baseLow W (ptrAlign W a.phys))
    (baseHigh W (ptrAlign W a.phys)) _ hu) fun r x hx => ?_
  obtain ⟨rfl, hlow, hhigh⟩ := hx
  exact ⟨rfl, hstart, hlow, hhigh⟩

/-- After `ccat_dma_init()` of a channel with a buffer at any address, whatever the hardware does
    meanwhile: the ring lies in the buffer, the base registers of the channel hold its aligned bus
    address, and CPU and device see the same slots, exactly when `unsigned long` has room for the
    bus address that is rounded up. -/
theorem ccatDmaInit_window (W : AddrWidth) (func : EthFunction) (a : Coherent) (channel : UInt8)
    (add : Fifo → Prog DmaMachine Unit) (hadd : add = dma.rxOps.add ∨ add = dma.txOps.add)
    (f : Fifo) (s : DmaMachine) (hbars : func.BarsDisjoint)
    (hreg : s.dev.txReg = func.base + func.offsets.txFifo) (husable : a.Usable)
    (hfits : a.phys + DMA_SIZE ≤ 2 ^ W.dma.bits) (hbase : a.base + DMA_SIZE ≤ 2 ^ W.long.bits) :
    wp Hw (fun _ _ => True) (ccatDmaInit dma W a channel.toNat func.bar2 add f)
      (fun r t => r.1 = 0 ∧
        ((∃ bus, DmaWindow a r.2.1.start bus (t.dev.regs (func.dmaBase channel))
          (t.dev.regs (func.dmaBase channel + 4))) ↔
          a.phys + (CCAT_ALIGNMENT - 1) < 2 ^ W.long.bits)) s := by
  refine wp_mono (wp_ccatDmaInit_words W channel hadd f hbars hreg husable) fun r t ht => ?_
  obtain ⟨hstatus, hstart, hlow, hhigh⟩ := ht
  refine ⟨hstatus, ?_⟩
  rw [hlow, hhigh, hstart]
  exact dmaWindow_iff hfits hbase

/-- A buffer that starts one byte past an alignment boundary below 4 GiB; its ring is above. -/
private def Coherent.aboveFourGiB : Coherent := ⟨0x400000, 0xFFFE0001⟩

/-- The ring is moved up to the boundary at 4 GiB, where `unsigned long` has 64 bits. -/
theorem ccatDmaInit_window_aboveFourGiB :
    wp Hw (fun _ _ => True)
      (ccatDmaInit dma ⟨.long64, .long64⟩ .aboveFourGiB 0 0x200000 dma.rxOps.add
        ⟨0x101210, 0, 0, 0⟩)
      (fun r t => r.1 = 0 ∧ ∃ bus, DmaWindow .aboveFourGiB r.2.1.start bus
        (t.dev.regs 0x201000) (t.dev.regs 0x201004)) (DmaMachine.zeroed 0x101200 0 0) := by
  refine wp_mono (ccatDmaInit_window ⟨.long64, .long64⟩ .atOffset .aboveFourGiB 0 dma.rxOps.add
    (.inl rfl) ⟨0x101210, 0, 0, 0⟩ (DmaMachine.zeroed 0x101200 0 0) barsDisjoint_atOffset rfl
    ⟨by decide, by decide⟩ (by decide) (by decide)) fun r t ht => ⟨ht.1, ht.2.mpr ?_⟩
  decide

/-- A buffer above 4 GiB. -/
private def Coherent.highMemory : Coherent := ⟨0x400000, 0x100010000⟩

/-- On a kernel with `unsigned long` of 32 bits and `dma_addr_t` of 64 bits, the rounded address
    of a buffer at 0x100010000 is 0x20000: no bus address makes ring and registers fit. -/
theorem not_ccatDmaInit_window :
    ¬ ∀ (W : AddrWidth) (func : EthFunction) (a : Coherent) (channel : UInt8)
      (add : Fifo → Prog DmaMachine Unit), (add = dma.rxOps.add ∨ add = dma.txOps.add) →
      ∀ (f : Fifo) (s : DmaMachine), func.BarsDisjoint →
        s.dev.txReg = func.base + func.offsets.txFifo → a.Usable →
        a.phys + DMA_SIZE ≤ 2 ^ W.dma.bits → a.base + DMA_SIZE ≤ 2 ^ W.long.bits →
        wp Hw (fun _ _ => True) (ccatDmaInit dma W a channel.toNat func.bar2 add f)
          (fun r t => r.1 = 0 ∧ ∃ bus, DmaWindow a r.2.1.start bus
            (t.dev.regs (func.dmaBase channel)) (t.dev.regs (func.dmaBase channel + 4))) s := by
  intro hall
  have hwindow := hall ⟨.long32, .long64⟩ .atOffset .highMemory 0 dma.rxOps.add (.inl rfl)
    ⟨0x101210, 0, 0, 0⟩ (DmaMachine.zeroed 0x101200 0 0) barsDisjoint_atOffset rfl
    ⟨by decide, by decide⟩ (by decide) (by decide)
  have hwords := wp_ccatDmaInit_words ⟨.long32, .long64⟩ 0 (.inl rfl) ⟨0x101210, 0, 0, 0⟩
    barsDisjoint_atOffset (s := DmaMachine.zeroed 0x101200 0 0) rfl
    (a := .highMemory) ⟨by decide, by decide⟩
  obtain ⟨r, t, ⟨-, bus, hbus⟩, -, hstart, hlow, hhigh⟩ := wp_exists (wp_and hwindow hwords)
  rw [hstart, hlow, hhigh] at hbus
  have hround := (dmaWindow_iff (by decide) (by decide)).mp ⟨bus, hbus⟩
  -- the buffer is above what `unsigned long` can hold
  exact absurd hround (by unfold Coherent.RoundsUp; decide)

end Ccat.Native.Eth
