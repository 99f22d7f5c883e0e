import Ccat.Native.EthDma

/-!
# The 64-slot ring

The FIFOs of the DMA variant are rings of 64 frames of `0x800` bytes. `RingFifo` says
which slot `next` is at; slots are counted without bound and taken modulo 64, so that
a segment of the ring is a segment of numbers.

## Key results

- `ringFifo_inc`: `ccat_eth_fifo_inc()` moves to the next slot
- `slotOff_inj`: 64 slots in a row are different
- `hwStep_effect`: all that a step of the hardware can do
- `wp_addSlots`: rule for the loop of `ccat_eth_fifo_reset()`
- `wp_addSlots_of_add`: the same on a FIFO of any size
- `addSlots_all`, `fifoReset_all`, `pollRx_all`, `startXmit_all`, `pollTimerCallback_all`: what
  all updates of these have in common
-/

namespace Ccat.Native.Eth

open Interleave

/-- Offset of slot `k` in the ring. -/
def slotOff (k : Nat) : Nat := FRAME_SIZE * (k % FIFO_LENGTH)

/-- A ring of 64 slots with `next` at slot `k`. -/
structure RingFifo (reg start k : Nat) (f : Fifo) : Prop where
  reg_eq : f.reg = reg
  start_eq : f.start = start
  end_eq : f.fifoEnd = start + CCAT_ALIGNMENT - FRAME_SIZE
  next_eq : f.next = start + slotOff k

theorem slotOff_lt (k : Nat) : slotOff k < CCAT_ALIGNMENT := by
  simp only [slotOff, FRAME_SIZE, FIFO_LENGTH, CCAT_ALIGNMENT]
  omega

theorem slotOff_inj {i j : Nat} (hij : i < j) (h : j < i + FIFO_LENGTH) :
    slotOff i ≠ slotOff j := by
  simp only [slotOff, FRAME_SIZE, FIFO_LENGTH] at h ⊢
  omega

/-- The ring closes after its 64 slots. -/
theorem slotOff_add_length (k : Nat) : slotOff (k + FIFO_LENGTH) = slotOff k := by
  simp only [slotOff, Nat.add_mod_right]

/-- Offsets of the `n` slots from slot `b` on. -/
def slots (b n : Nat) : List Nat := (List.range n).map fun j => slotOff (b + j)

/-- The first slot of a segment. -/
theorem slots_cons (b n : Nat) : slots b (n + 1) = slotOff b :: slots (b + 1) n := by
  unfold slots
  rw [List.range_succ_eq_map, List.map_cons, List.map_map]
  congr 1
  apply List.map_congr_left
  intro j _
  show slotOff (b + (j + 1)) = slotOff (b + 1 + j)
  rw [Nat.add_assoc, Nat.add_comm 1 j]

theorem slots_concat (b n : Nat) : slots b (n + 1) = slots b n ++ [slotOff (b + n)] := by
  unfold slots
  rw [List.range_succ, List.map_append]
  rfl

/-- The slots of a segment, by their position. -/
theorem mem_slots {b n off : Nat} : off ∈ slots b n ↔ ∃ j, j < n ∧ off = slotOff (b + j) := by
  unfold slots
  rw [List.mem_map]
  constructor
  · rintro ⟨j, hj, rfl⟩
    exact ⟨j, List.mem_range.mp hj, rfl⟩
  · rintro ⟨j, hj, rfl⟩
    exact ⟨j, List.mem_range.mpr hj, rfl⟩

/-- A segment no longer than the ring has no slot twice. -/
theorem nodup_slots {b n : Nat} (h : n ≤ FIFO_LENGTH) : (slots b n).Nodup := by
  unfold slots
  rw [List.nodup_iff_pairwise_ne, List.pairwise_map]
  refine List.Pairwise.imp_of_mem ?_ List.pairwise_lt_range
  intro i j _ hj hij
  have hj' := List.mem_range.mp hj
  exact slotOff_inj (by omega) (by omega)

theorem ccatEthFifoInc_reg (f : Fifo) : (ccatEthFifoInc f).reg = f.reg := by
  unfold ccatEthFifoInc
  split <;> rfl

/-- `ccat_eth_fifo_reset()` moves `next` to the first slot. -/
theorem ringFifo_start {reg start : Nat} {f : Fifo} (hreg : f.reg = reg) (hstart : f.start = start)
    (hend : f.fifoEnd = start + CCAT_ALIGNMENT - FRAME_SIZE) :
    RingFifo reg start 0 { f with next := f.start } := ⟨hreg, hstart, hend, hstart⟩

/-- `ccat_eth_fifo_inc()` moves `next` on by one slot of the ring. -/
theorem ringFifo_inc {reg start k : Nat} {f : Fifo} (h : RingFifo reg start k f) :
    RingFifo reg start (k + 1) (ccatEthFifoInc f) := by
  obtain ⟨hreg, hstart, hend, hnext⟩ := h
  have hlen : CCAT_ALIGNMENT = 64 * 0x800 := rfl
  unfold ccatEthFifoInc
  by_cases hwrap : f.next + FRAME_SIZE > f.fifoEnd
  · rw [if_pos hwrap]
    refine ⟨hreg, hstart, hend, ?_⟩
    -- only the last slot is followed by slot 0
    rw [hnext, hend] at hwrap
    simp only [slotOff, FRAME_SIZE, FIFO_LENGTH, hlen] at hwrap ⊢
    omega
  · rw [if_neg hwrap]
    refine ⟨hreg, hstart, hend, ?_⟩
    rw [hnext, hend] at hwrap
    simp only [hnext, slotOff, FRAME_SIZE, FIFO_LENGTH, hlen] at hwrap ⊢
    omega

/-- `next` is at the start again exactly after the last slot. -/
theorem ringFifo_inc_next_eq_start {reg start k : Nat} {f : Fifo} (h : RingFifo reg start k f)
    (hk : k < FIFO_LENGTH) : (ccatEthFifoInc f).next = f.start ↔ k + 1 = FIFO_LENGTH := by
  have hinc := (ringFifo_inc h).next_eq
  rw [hinc, h.start_eq]
  simp only [slotOff, FRAME_SIZE, FIFO_LENGTH] at hk ⊢
  omega

/-! ## Frames -/

theorem setFrame_self (mem : Nat → DmaFrame) (addr : Nat) (g : DmaFrame → DmaFrame) :
    setFrame mem addr g addr = g (mem addr) := if_pos rfl

theorem setFrame_ne (mem : Nat → DmaFrame) (base : Nat) {off off' : Nat} (g : DmaFrame → DmaFrame)
    (h : off' ≠ off) : setFrame mem (base + off) g (base + off') = mem (base + off') :=
  if_neg fun heq => h (by omega)

/-- A frame in another slot of a segment is not affected by an assignment. -/
theorem setFrame_slot_ne (mem : Nat → DmaFrame) (base b : Nat) (g : DmaFrame → DmaFrame)
    {i j : Nat} (hij : i ≠ j) (hi : i < FIFO_LENGTH) (hj : j < FIFO_LENGTH) :
    setFrame mem (base + slotOff (b + j)) g (base + slotOff (b + i)) =
      mem (base + slotOff (b + i)) := by
  apply setFrame_ne
  rcases Nat.lt_or_gt_of_ne hij with hlt | hgt
  · exact slotOff_inj (by omega) (by omega)
  · exact (slotOff_inj (by omega) (by omega)).symm

/-- A flag that the hardware has set is found set. -/
theorem or_one_and_one_ne_zero (flags : Nat) : (flags ||| 1) &&& 1 ≠ 0 := by
  rw [Nat.and_or_distrib_right, Nat.and_self, Nat.and_one_is_mod]
  rcases Nat.mod_two_eq_zero_or_one flags with h | h
  · rw [h]
    decide
  · rw [h]
    decide

/-! ## Registers -/

section Registers

variable {reg : Nat} {s : DmaMachine}

/-- A write to the RX register arms a slot. -/
theorem iowrite32_rx (hreg : s.dev.txReg = reg) (value : Nat) :
    dmaIowrite32 value (reg + 0x10) s =
      { s with
        dev.rx.queue := s.dev.rx.queue ++ [value % 2 ^ 31]
        rxLog := s.rxLog ++ [.armed (value % 2 ^ 31)] } := by
  unfold dmaIowrite32
  rw [if_pos (by omega)]

/-- `(1 << 31) | offset`, as the CCAT decodes it. -/
theorem decode_armed {n : Nat} (h : n < 2 ^ 31) : (2 ^ 31 ||| n) % 2 ^ 31 = n := by
  rw [Nat.or_mod_two_pow, Nat.mod_self, Nat.zero_or, Nat.mod_eq_of_lt h]

/-- The slot at `next`, as the CCAT decodes it from `addr_and_length`. -/
theorem decode_addrAndLength {reg start k : Nat} {f : Fifo} (hf : RingFifo reg start k f)
    (len : Nat) : addrAndLength f len % 2 ^ 24 - OFFSET_LENGTH = slotOff k := by
  have hlt := slotOff_lt k
  have hdvd : (2 : Nat) ^ 24 ∣ 2 ^ 32 := ⟨2 ^ 8, rfl⟩
  unfold addrAndLength
  rw [hf.next_eq, hf.start_eq, Nat.add_sub_cancel_left, Nat.mod_mod_of_dvd _ hdvd,
    Nat.add_mul_mod_self_right]
  simp only [OFFSET_LENGTH, CCAT_ALIGNMENT] at hlt ⊢
  omega

/-- A write behind the RX register empties the queue. -/
theorem iowrite32_rxReset (hreg : s.dev.txReg = reg) (value : Nat) :
    dmaIowrite32 value (reg + 0x10 + 0x8) s =
      { s with dev.rx.queue := [], rxLog := s.rxLog ++ [.reset] } := by
  unfold dmaIowrite32
  rw [if_neg (by omega), if_pos (by omega)]

/-- A write to the TX register queues a slot. -/
theorem iowrite32_tx (hreg : s.dev.txReg = reg) (value : Nat) :
    dmaIowrite32 value reg s =
      { s with dev.tx.queue := s.dev.tx.queue ++ [value % 2 ^ 24 - OFFSET_LENGTH] } := by
  unfold dmaIowrite32
  rw [if_neg (by omega), if_neg (by omega), if_pos hreg.symm]

/-- A write behind the TX register empties the queue. -/
theorem iowrite32_txReset (hreg : s.dev.txReg = reg) (value : Nat) :
    dmaIowrite32 value (reg + 0x8) s =
      { s with dev.tx.queue := [], dev.transmitting := false, txLog := s.txLog ++ [.reset] } := by
  unfold dmaIowrite32
  rw [if_neg (by omega), if_neg (by omega), if_neg (by omega), if_pos (by omega)]

/-- Any other register keeps the value written. -/
theorem iowrite32_other (hreg : s.dev.txReg = reg) (value : Nat) {addr : Nat}
    (haddr : ∀ k, k < 0x20 → addr ≠ reg + k) :
    dmaIowrite32 value addr s =
      { s with dev.regs := fun p => if p = addr then value else s.dev.regs p } := by
  -- the FIFOs have four registers among these
  have h0 := haddr 0 (by decide)
  have h8 := haddr 0x8 (by decide)
  have h10 := haddr 0x10 (by decide)
  have h18 := haddr 0x18 (by decide)
  unfold dmaIowrite32
  rw [if_neg (by omega), if_neg (by omega), if_neg (by omega), if_neg (by omega)]

/-- No register write changes the net device, the rings or the place of the registers. -/
theorem dmaIowrite32_keeps (value addr : Nat) (s : DmaMachine) :
    (dmaIowrite32 value addr s).net = s.net ∧
      (dmaIowrite32 value addr s).dev.txReg = s.dev.txReg ∧
      (dmaIowrite32 value addr s).dev.tx.mem = s.dev.tx.mem := by
  unfold dmaIowrite32
  split
  · exact ⟨rfl, rfl, rfl⟩
  · split
    · exact ⟨rfl, rfl, rfl⟩
    · split
      · exact ⟨rfl, rfl, rfl⟩
      · split <;> exact ⟨rfl, rfl, rfl⟩

end Registers

/-! ## Steps of the hardware -/

/-- All that a step of the hardware can do. -/
inductive HwEffect (s : DmaMachine) : DmaMachine → Prop where
  | lost (p : List UInt8) : s.dev.rx.queue = [] →
      HwEffect s { s with rxLog := s.rxLog ++ [.lost p] }
  | stored (p : List UInt8) (off : Nat) (queue : List Nat) : 0 < p.length →
      s.dev.rx.queue = off :: queue →
      HwEffect s
        { s with
          dev.rx.mem := setFrame s.dev.rx.mem (s.dev.rx.base + off) (DmaFrame.receive p)
          dev.rx.queue := queue
          rxLog := s.rxLog ++ [.stored p] }
  | wire (off : Nat) (queue : List Nat) : s.dev.tx.queue = off :: queue →
      s.dev.transmitting = false →
      HwEffect s
        { s with
          dev.transmitting := true
          txLog := s.txLog ++ [.wire (s.dev.tx.mem (s.dev.tx.base + off)).payload] }
  | done (off : Nat) (queue : List Nat) : s.dev.tx.queue = off :: queue →
      s.dev.transmitting = true →
      HwEffect s
        { s with
          dev.tx.mem := setFrame s.dev.tx.mem (s.dev.tx.base + off) DmaFrame.complete
          dev.tx.queue := queue
          dev.transmitting := false }
  | link (w : Nat) : HwEffect s { s with dev.mii := w }
  | nothing : HwEffect s s

/-- The inversion of a hardware step. -/
theorem hwStep_effect (a : HwStep) (s : DmaMachine) : HwEffect s (hwStep a s) := by
  cases a with
  | rxArrive p hpos _ =>
    simp only [hwStep, rxArrive]
    split
    · -- no armed slot: the frame is lost
      rename_i hqueue
      exact .lost p hqueue
    · rename_i off queue hqueue
      exact .stored p off queue hpos hqueue
  | txTransmit =>
    simp only [hwStep, txTransmit]
    split
    · rename_i off queue hqueue htr
      exact .wire off queue hqueue htr
    · exact .nothing
  | txComplete =>
    simp only [hwStep, txComplete]
    split
    · rename_i off queue hqueue htr
      exact .done off queue hqueue htr
    · exact .nothing
  | link w => exact .link w

/-- Every step of the hardware has one of the effects. -/
theorem Hw.effect {s t : DmaMachine} (h : Hw s t) : HwEffect s t := by
  obtain ⟨a, rfl⟩ := h
  exact hwStep_effect a s

/-! ## Resetting a FIFO -/

section Loops

variable {δ : Type} {R G : Machine δ → Machine δ → Prop} {add : Fifo → Prog (Machine δ) Unit}
  {reg start : Nat}

/-- The loop of `ccat_eth_fifo_reset()` on a ring: slot by slot, from `I k` to `I (k + 1)`. -/
theorem wp_addSlots (I : Nat → Machine δ → Prop)
    (hadd : ∀ k, k < FIFO_LENGTH → ∀ f s, RingFifo reg start k f → I k s →
      wp R G (add f) (fun _ => I (k + 1)) s)
    {k : Nat} (hk : k < FIFO_LENGTH) {f : Fifo} (hf : RingFifo reg start k f) {s : Machine δ}
    (hs : I k s) :
    wp R G (addSlots add f) (fun f' t => RingFifo reg start 0 f' ∧ I FIFO_LENGTH t) s := by
  induction hn : FIFO_LENGTH - k generalizing k f s with
  | zero => omega
  | succ n ih =>
    rw [addSlots]
    refine wp_seq (hadd k hk f s hf hs) fun _ t ht => ?_
    by_cases hlast : (ccatEthFifoInc f).next = f.start
    · rw [if_pos hlast]
      -- the last slot of the ring
      have hend := (ringFifo_inc_next_eq_start hf hk).mp hlast
      have hf' := ringFifo_inc hf
      refine wp_pure ⟨⟨hf'.reg_eq, hf'.start_eq, hf'.end_eq, ?_⟩, hend ▸ ht⟩
      rw [hf'.next_eq, hend]
      rfl
    · rw [if_neg hlast]
      -- there are slots left, and the next one is at `next`
      have hend := mt (ringFifo_inc_next_eq_start hf hk).mpr hlast
      exact ih (by omega) (ringFifo_inc hf) ht (by omega)

/-- The loop of `ccat_eth_fifo_reset()` on any FIFO: what one `add` establishes and the next
    one starts from; what `ccat_eth_fifo_inc()` keeps of the FIFO is kept. -/
theorem wp_addSlots_of_add {I : Fifo → Prop} {P Q : Machine δ → Prop}
    (hinc : ∀ f, I f → I (ccatEthFifoInc f))
    (hadd : ∀ f s, I f → P s → wp R G (add f) (fun _ => Q) s) (hQP : ∀ s, Q s → P s)
    {f : Fifo} (hf : I f) {s : Machine δ} (hs : P s) :
    wp R G (addSlots add f) (fun f' t => I f' ∧ Q t) s := by
  induction hn : f.fifoEnd - f.next using Nat.strongRecOn generalizing f s with
  | _ n ih =>
    subst hn
    rw [addSlots]
    refine wp_seq (hadd f s hf hs) fun _ t ht => ?_
    by_cases hlast : (ccatEthFifoInc f).next = f.start
    · rw [if_pos hlast]
      exact wp_pure ⟨hinc f hf, ht⟩
    · rw [if_neg hlast]
      exact ih _ (ccatEthFifoInc_lt f hlast) (hinc f hf) (hQP t ht) rfl

/-- All updates of the loop are updates of `add`; what `ccat_eth_fifo_inc()` keeps of the FIFO is
    kept. -/
theorem addSlots_all {φ : (Machine δ → Machine δ) → Prop} {I : Fifo → Prop}
    (hinc : ∀ f, I f → I (ccatEthFifoInc f))
    (hadd : ∀ f, I f → (add f).All φ fun _ => True) (f : Fifo) (hf : I f) :
    (addSlots add f).All φ I := by
  induction hn : f.fifoEnd - f.next using Nat.strongRecOn generalizing f with
  | _ n ih =>
    subst hn
    rw [addSlots]
    refine Prog.all_bind (hadd f hf) fun _ _ => ?_
    by_cases hlast : (ccatEthFifoInc f).next = f.start
    · rw [if_pos hlast]
      exact Prog.all_pure (hinc f hf)
    · rw [if_neg hlast]
      exact ih _ (ccatEthFifoInc_lt f hlast) _ (hinc f hf) rfl

/-- All updates of `poll_rx()` have the property `φ`, when those of the FIFO operations and
    those of the counters and the log have it. -/
theorem pollRx_all {φ : (Machine δ → Machine δ) → Prop} {v : Variant δ} {I : Fifo → Prop}
    (hinc : ∀ f, I f → I (ccatEthFifoInc f))
    (hready : ∀ f, (v.rxOps.ready f).All φ fun _ => True)
    (hadd : ∀ f, I f → (v.rxOps.add f).All φ fun _ => True)
    (hcopy : ∀ f len, (v.rxOps.copyToSkb f len).All φ fun _ => True)
    (hbytes : ∀ len, φ fun s => { s with net.rxBytes := s.net.rxBytes + len })
    (hnetif : ∀ data, φ fun s => { s with rxLog := s.rxLog ++ [.netifRx data] })
    (hnoMem : φ fun s =>
      { s with net.rxDropped := s.net.rxDropped + 1, rxLog := s.rxLog ++ [.noMem] })
    {f : Fifo} (hf : I f) : (pollRx v f).All φ I := by
  -- a frame is passed on or dropped
  have hreceive : ∀ f len, (ccatEthReceive v f len).All φ fun _ => True := by
    intro f len
    unfold ccatEthReceive
    refine Prog.all_bind (ψ := fun _ => True) (fun _ => trivial) fun skb _ => Prog.all_ite ?_ ?_
    · refine Prog.all_bind (hcopy f len) fun data _ => ?_
      exact Prog.all_modify_bind (hbytes len) (Prog.all_modify (hnetif data))
    · exact Prog.all_modify hnoMem
  -- the loop, by induction on its budget
  have hloop : ∀ n f len, I f → (pollRxLoop v f len n).All φ I := by
    intro n
    induction n with
    | zero => exact fun f len hf => hf
    | succ n ih =>
      intro f len hf
      unfold pollRxLoop
      refine Prog.all_ite ?_ hf
      refine Prog.all_bind (hreceive f len) fun _ _ => ?_
      refine Prog.all_bind (hadd f hf) fun _ _ => ?_
      exact Prog.all_bind (hready _) fun len _ => ih _ len (hinc f hf)
  exact Prog.all_bind (hready f) fun len _ => hloop _ f len hf

/-- The same of `ccat_eth_fifo_reset()`. -/
theorem fifoReset_all {φ : (Machine δ → Machine δ) → Prop} {v : Variant δ} {I : Fifo → Prop}
    (hinc : ∀ f, I f → I (ccatEthFifoInc f)) (hadd : ∀ f, I f → (add f).All φ fun _ => True)
    {f : Fifo} (hwrite : φ (v.iowrite32 0 (f.reg + 0x8))) (hstart : I { f with next := f.start }) :
    (ccatEthFifoReset v add f).All φ I := by
  unfold ccatEthFifoReset ccatEthFifoHwReset
  refine Prog.all_bind (ψ := fun _ => True) (Prog.all_ite ?_ trivial) fun _ _ => ?_
  · exact Prog.all_modify hwrite
  · exact addSlots_all hinc hadd _ hstart

/-- `fifoReset_all` for what depends on the register of the FIFO only. -/
theorem fifoReset_all_reg {φ : (Machine δ → Machine δ) → Prop} {v : Variant δ}
    (hwrite : φ (v.iowrite32 0 (reg + 0x8)))
    (hadd : ∀ f, f.reg = reg → (add f).All φ fun _ => True) {f : Fifo} (hf : f.reg = reg) :
    (ccatEthFifoReset v add f).All φ fun f' => f'.reg = reg := by
  refine fifoReset_all (fun f hf => (ccatEthFifoInc_reg f).trans hf) hadd ?_ hf
  rw [hf]
  exact hwrite

/-- The same of `ccat_eth_start_xmit()`. -/
theorem startXmit_all {φ : (Machine δ → Machine δ) → Prop} {v : Variant δ} {I : Fifo → Prop}
    (hinc : ∀ f, I f → I (ccatEthFifoInc f))
    (hready : ∀ f, (v.txOps.ready f).All φ fun _ => True)
    (hqueue : ∀ f skb, I f → (v.txOps.queueSkb f skb).All φ fun _ => True)
    (hdrop : φ txDrop) (hfull : φ txRingFull) (hstop : φ netifStopQueue)
    (hbytes : ∀ len, φ fun s => { s with net.txBytes := s.net.txBytes + len })
    {f : Fifo} (hf : I f) (skb : Skb) :
    (ccatEthStartXmit v f skb).All φ fun r => I r.2 := by
  unfold ccatEthStartXmit
  refine Prog.all_ite ?_ (Prog.all_ite ?_ ?_)
  · exact Prog.all_modify_bind hdrop hf
  · exact Prog.all_modify_bind hdrop hf
  · refine Prog.all_bind (hready f) fun ready _ => Prog.all_ite ?_ ?_
    · exact Prog.all_modify_bind hfull hf
    · refine Prog.all_bind (hqueue f skb hf) fun _ _ => ?_
      refine Prog.all_modify_bind (hbytes skb.len) ?_
      refine Prog.all_bind (hready _) fun ready _ => Prog.all_ite ?_ ?_
      · exact Prog.all_modify_bind hstop (hinc f hf)
      · exact hinc f hf

/-- The same of `ccat_eth_link_up()`. -/
theorem linkUp_all {φ : (Machine δ → Machine δ) → Prop} {v : Variant δ} {I T : Fifo → Prop}
    (hrxReset : ∀ f, I f → (ccatEthFifoReset v v.rxOps.add f).All φ I)
    (htxReset : ∀ f, T f → (ccatEthFifoReset v v.txOps.add f).All φ T)
    (hxmit : ∀ f skb, T f → (ccatEthStartXmit v f skb).All φ fun r => T r.2)
    (hon : φ netifCarrierOn) (hwake : φ netifWakeQueue) {priv : Priv} (hrx : I priv.rxFifo)
    (htx : T priv.txFifo) :
    (ccatEthLinkUp v priv).All φ fun priv => I priv.rxFifo ∧ T priv.txFifo := by
  unfold ccatEthLinkUp ccatEthXmitRaw
  refine Prog.all_bind (hrxReset _ hrx) fun rxFifo hrx => ?_
  refine Prog.all_bind (htxReset _ htx) fun txFifo htx => ?_
  refine Prog.all_bind (ψ := T) ?_ fun txFifo htx => ?_
  · exact Prog.all_bind (hxmit txFifo _ htx) fun _ hr => hr
  · exact Prog.all_modify_bind hon (Prog.all_modify_bind hwake ⟨hrx, htx⟩)

/-- The same of `poll_timer_callback()`. -/
theorem pollTimerCallback_all {φ : (Machine δ → Machine δ) → Prop} {v : Variant δ}
    {I T : Fifo → Prop} (hid : φ id)
    (hup : ∀ priv : Priv, I priv.rxFifo → T priv.txFifo →
      (ccatEthLinkUp v priv).All φ fun priv => I priv.rxFifo ∧ T priv.txFifo)
    (hdown : ccatEthLinkDown.All φ fun _ => True) (hpollRx : ∀ f, I f → (pollRx v f).All φ I)
    (hready : ∀ f, (v.txOps.ready f).All φ fun _ => True) (hwake : φ netifWakeQueue) {priv : Priv}
    (hrx : I priv.rxFifo) (htx : T priv.txFifo) :
    (pollTimerCallback v priv).All φ fun priv => I priv.rxFifo ∧ T priv.txFifo := by
  have hread : ∀ {α : Type} (g : Machine δ → α), (Prog.read g).All φ fun _ => True :=
    fun g => Prog.all_read hid fun _ => trivial
  unfold pollTimerCallback pollLink ccatEthPrivReadLinkState pollTx
  refine Prog.all_bind (ψ := fun priv => I priv.rxFifo ∧ T priv.txFifo) ?_ fun priv hpriv => ?_
  · refine Prog.all_bind (hread _) fun link _ => Prog.all_bind (hread _) fun carrier _ => ?_
    refine Prog.all_ite (Prog.all_ite (hup priv hrx htx) ?_) ⟨hrx, htx⟩
    exact Prog.all_bind hdown fun _ _ => ⟨hrx, htx⟩
  · refine Prog.all_bind (hpollRx _ hpriv.1) fun rxFifo hrx => ?_
    refine Prog.all_bind (ψ := fun _ => True) ?_ fun _ _ => ⟨hrx, hpriv.2⟩
    exact Prog.all_bind (hready _) fun ready _ => Prog.all_ite (Prog.all_modify hwake) trivial

end Loops

/-! ## An undisturbed set-up -/

/-- The machine after a set-up that nobody interferes with. -/
def dmaAfterSetUp : Priv × DmaMachine :=
  (setUpFifos ⟨0x110, 0x20000, 0, 0⟩ ⟨0x100, 0x40000, 0, 0⟩).exec (fun _ => true) 0
    (.zeroed 0x100 0x20000 0x40000)

theorem fresh_zeroed : Fresh ⟨0x110, 0x20000, 0, 0⟩ ⟨0x100, 0x40000, 0, 0⟩
    (.zeroed 0x100 0x20000 0x40000) :=
  ⟨rfl, by decide, rfl, rfl, rfl, rfl, rfl, rfl, rfl, rfl⟩

end Ccat.Native.Eth
