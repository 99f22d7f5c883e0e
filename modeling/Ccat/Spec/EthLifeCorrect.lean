import Ccat.Native.EthLife
import Ccat.Spec.EthFifo
import Ccat.Spec.EthProbeCorrect

/-!
# Armed descriptors and the memory behind them

`ccat_dma_init()` arms all slots of the RX FIFO before it writes the base register of the
channel, and `ccat_eth_priv_init_dma()` frees the RX buffer of an armed FIFO when there
is no TX buffer. In all other places the order is right: `Guarded` is kept by everything
that happens to a function, as long as each probe finds the registers in order.

## Key results

- `pollTimerCallback_calm`, `startXmit_calm`: callbacks arm slots of the ring only
- `wp_ccatDmaInit_rx`, `wp_ccatDmaInit_tx`: the set-up of the two channels
- `wp_ccatEthPrivFree_life`: FIFOs are reset before buffers are freed
- `armed_live`: every armed descriptor has an allocated buffer behind it
- `not_armed_live`: the first descriptor of a probe has none
-/

namespace Ccat.Native.Eth

open Interleave

/-- The bus address of the buffer can be rounded up in `unsigned long`. -/
def Coherent.RoundsUp (W : AddrWidth) (b : Coherent) : Prop :=
  b.phys + (CCAT_ALIGNMENT - 1) < 2 ^ W.long.bits

/-- The register pair `lo`, `hi` holds the aligned bus address of one of the buffers. -/
def BaseHolds (W : AddrWidth) (live : List Coherent) (lo hi : Nat) : Prop :=
  ∃ b ∈ live, b.RoundsUp W ∧ lo = baseLow W (ptrAlign W b.phys) ∧
    hi = baseHigh W (ptrAlign W b.phys)

/-- For every armed descriptor, the base register pair of the RX channel holds the aligned bus
    address of an allocated buffer, and the slot lies inside that buffer. -/
def ArmedLive (W : AddrWidth) (func : EthFunction) (x : DmaLife) : Prop :=
  ∀ off ∈ x.1.dev.rx.queue, ∃ b ∈ x.2,
    x.1.dev.regs (func.dmaBase func.rxDmaChan) = baseLow W (ptrAlign W b.phys) ∧
    x.1.dev.regs (func.dmaBase func.rxDmaChan + 4) = baseHigh W (ptrAlign W b.phys) ∧
    b.phys ≤ ptrAlign W b.phys + off ∧
    ptrAlign W b.phys + off + FRAME_SIZE ≤ b.phys + DMA_SIZE

/-- With the buffers `L` and the RX base registers at `lo` and `hi`, a probe gets both its buffers
    and the registers hold the address of an allocated buffer all the time: before they are
    written, with only the lower word written, and, when both FIFOs are on one channel, with only
    the lower word for the TX buffer written. The addresses written can be rounded up. -/
def BaseInTime (W : AddrWidth) (func : EthFunction) (o : Outcomes) (L : List Coherent)
    (lo hi : Nat) : Prop :=
  o.txDma.Usable ∧ o.rxDma.RoundsUp W ∧ BaseHolds W (o.rxDma :: L) lo hi ∧
    BaseHolds W (o.rxDma :: L) (baseLow W (ptrAlign W o.rxDma.phys)) hi ∧
    (func.rxDmaChan = func.txDmaChan → o.txDma.RoundsUp W ∧
      BaseHolds W (o.txDma :: o.rxDma :: L) (baseLow W (ptrAlign W o.txDma.phys))
        (baseHigh W (ptrAlign W o.rxDma.phys)))

/-- A probe stops before it arms anything, or finds the base registers in order. -/
def ProbeInTime (W : AddrWidth) (func : EthFunction) (o : Outcomes) (x : DmaLife) : Prop :=
  o.etherdev = false ∨ ¬o.rxDma.Usable ∨
    BaseInTime W func o x.2 (x.1.dev.regs (func.dmaBase func.rxDmaChan))
      (x.1.dev.regs (func.dmaBase func.rxDmaChan + 4))

/-- The MAC filter in BAR 0 is none of the DMA registers in BAR 2. -/
def EthFunction.FilterApart (func : EthFunction) : Prop :=
  ∀ k, k < 8 * 256 → func.bar2 + 0x1000 + k ≠ func.base + func.offsets.mii + 0x8 + 6

/-! ## Buffers -/

theorem BaseHolds.mono {W : AddrWidth} {live live' : List Coherent} {lo hi : Nat}
    (h : BaseHolds W live lo hi) (hsub : ∀ b ∈ live, b ∈ live') : BaseHolds W live' lo hi := by
  obtain ⟨b, hb, hpair⟩ := h
  exact ⟨b, hsub b hb, hpair⟩

theorem baseHolds_self {W : AddrWidth} {live : List Coherent} {b : Coherent} (hb : b ∈ live)
    (hround : b.RoundsUp W) :
    BaseHolds W live (baseLow W (ptrAlign W b.phys)) (baseHigh W (ptrAlign W b.phys)) :=
  ⟨b, hb, hround, rfl, rfl⟩

/-- An address that can be rounded up is: neither width cuts anything off. -/
theorem ptrAlign_eq {W : AddrWidth} {phys : Nat} (hfits : phys + DMA_SIZE ≤ 2 ^ W.dma.bits)
    (hround : phys + (CCAT_ALIGNMENT - 1) < 2 ^ W.long.bits) :
    ptrAlign W phys = (phys + (CCAT_ALIGNMENT - 1)) / CCAT_ALIGNMENT * CCAT_ALIGNMENT := by
  have hlow : phys % 2 ^ W.long.bits = phys := Nat.mod_eq_of_lt (by omega)
  rw [ptrAlign, hlow, Nat.mod_eq_of_lt hround]
  apply Nat.mod_eq_of_lt
  simp only [DMA_SIZE, CCAT_ALIGNMENT] at hfits ⊢
  omega

/-- The aligned 128 KiB lie inside a buffer. -/
theorem ptrAlign_inside {W : AddrWidth} {phys : Nat} (hfits : phys + DMA_SIZE ≤ 2 ^ W.dma.bits)
    (hround : phys + (CCAT_ALIGNMENT - 1) < 2 ^ W.long.bits) :
    phys ≤ ptrAlign W phys ∧ ptrAlign W phys + CCAT_ALIGNMENT ≤ phys + DMA_SIZE := by
  rw [ptrAlign_eq hfits hround]
  simp only [DMA_SIZE, CCAT_ALIGNMENT]
  omega

section Observe

variable {answers live : List Coherent}

/-- Without a call to the kernel no buffer comes or goes. -/
theorem observeBuffers_of_eq {s t : DmaMachine} (h : t.hostLog = s.hostLog) :
    observeBuffers answers s t live = live := by
  unfold observeBuffers
  rw [h, List.drop_length]
  rfl

/-- One call to the kernel. -/
theorem observeBuffers_logHost (e : HostEvent) (s : DmaMachine) :
    observeBuffers answers s (logHost e s) live = followBuffers answers live e := by
  unfold observeBuffers logHost
  rw [List.drop_left]
  rfl

/-- An update that leaves the host log alone keeps the buffers. -/
theorem tracked_of_eq {upd : DmaMachine → DmaMachine} {x : DmaLife} {t : DmaMachine}
    (h : upd x.1 = t) (hhost : t.hostLog = x.1.hostLog) :
    tracked (observeBuffers answers) upd x = (t, x.2) :=
  Prod.ext h (observeBuffers_of_eq ((congrArg Machine.hostLog h).trans hhost))

/-- A buffer that is allocated is alive from then on. -/
theorem tracked_dmaAllocCoherent {a : Coherent} (hbase : a.base ≠ 0) (x : DmaLife) :
    tracked (observeBuffers answers) (dmaAllocCoherent a) x =
      (logHost (.dmaAlloc a.base) x.1, answers.filter (·.base = a.base) ++ x.2) := by
  unfold tracked dmaAllocCoherent
  rw [if_pos hbase, observeBuffers_logHost]
  rfl

end Observe

/-! ## The guarded state -/

section Guarded

variable {W : AddrWidth} {func : EthFunction} {L : List Coherent} {lo hi : Nat} {x : DmaLife}

/-- The base registers of the RX channel hold `lo` and `hi`, all of `L` is allocated, and armed
    descriptors have a buffer of `L` behind them. -/
structure Guarded (W : AddrWidth) (func : EthFunction) (L : List Coherent) (lo hi : Nat)
    (x : DmaLife) : Prop where
  reg : x.1.dev.txReg = func.base + func.offsets.txFifo
  low : x.1.dev.regs (func.dmaBase func.rxDmaChan) = lo
  high : x.1.dev.regs (func.dmaBase func.rxDmaChan + 4) = hi
  live : ∀ b ∈ L, b ∈ x.2
  fits : ∀ b ∈ x.2, b.phys + DMA_SIZE ≤ 2 ^ W.dma.bits
  inside : ∀ off ∈ x.1.dev.rx.queue, off + FRAME_SIZE ≤ CCAT_ALIGNMENT
  backed : x.1.dev.rx.queue = [] ∨ BaseHolds W L lo hi

/-- What is guarded is alive while descriptors are armed. -/
theorem Guarded.armedLive (h : Guarded W func L lo hi x) : ArmedLive W func x := by
  intro off hoff
  rcases h.backed with hnil | ⟨b, hb, hround, hlo, hhi⟩
  · rw [hnil] at hoff
    exact nomatch hoff
  · have hlive := h.live b hb
    have hslot := h.inside off hoff
    obtain ⟨hstart, hend⟩ := ptrAlign_inside (h.fits b hlive) hround
    exact ⟨b, hlive, h.low.trans hlo, h.high.trans hhi, by omega, by omega⟩

/-- With all buffers and the registers as they are. -/
theorem Guarded.all (h : Guarded W func L lo hi x) :
    Guarded W func x.2 (x.1.dev.regs (func.dmaBase func.rxDmaChan))
      (x.1.dev.regs (func.dmaBase func.rxDmaChan + 4)) x := by
  refine ⟨h.reg, rfl, rfl, fun _ hb => hb, h.fits, h.inside, ?_⟩
  rw [h.low, h.high]
  exact h.backed.imp_right fun hbase => hbase.mono h.live

/-- The hardware keeps all registers and arms nothing. -/
theorem hwStep_rx (a : HwStep) (s : DmaMachine) :
    (hwStep a s).dev.txReg = s.dev.txReg ∧ (hwStep a s).dev.regs = s.dev.regs ∧
      (hwStep a s).dev.rx.queue <:+ s.dev.rx.queue := by
  have heffect := hwStep_effect a s
  generalize hwStep a s = t at heffect ⊢
  cases heffect with
  | stored p off queue _ hqueue =>
    -- only a frame that is stored takes a descriptor
    rw [hqueue]
    exact ⟨rfl, rfl, List.suffix_cons off queue⟩
  | _ => exact ⟨rfl, rfl, List.suffix_refl _⟩

/-- The hardware neither arms descriptors nor touches the base registers. -/
theorem armedLive_stable : Stable LifeHw (ArmedLive W func) := by
  rintro x _ h ⟨a, mem, rfl⟩ off hoff
  obtain ⟨-, hregs, hqueue⟩ := hwStep_rx a x.1
  obtain ⟨b, hb, hlow, hhigh, hslot⟩ := h off (hqueue.subset hoff)
  exact ⟨b, hb, (congrFun hregs _).trans hlow, (congrFun hregs _).trans hhigh, hslot⟩

/-- Nor does it take buffers away. -/
theorem guarded_stable : Stable LifeHw (Guarded W func L lo hi) := by
  rintro x _ h ⟨a, mem, rfl⟩
  obtain ⟨hreg, hregs, hqueue⟩ := hwStep_rx a x.1
  constructor
  case reg => exact hreg.trans h.reg
  case low => exact (congrFun hregs _).trans h.low
  case high => exact (congrFun hregs _).trans h.high
  case live => exact h.live
  case fits => exact h.fits
  case inside => exact fun off hoff => h.inside off (hqueue.subset hoff)
  case backed =>
    refine h.backed.imp_left fun hnil => ?_
    rw [hnil] at hqueue
    exact List.suffix_nil.mp hqueue

/-- Every update ends with all armed descriptors in order. -/
abbrev LifeGuar (W : AddrWidth) (func : EthFunction) : DmaLife → DmaLife → Prop :=
  fun _ y => ArmedLive W func y

/-- An update of a guarded state. -/
theorem wp_guarded {answers : List Coherent} {upd : DmaMachine → DmaMachine} {L' : List Coherent}
    {lo' hi' : Nat} (hx : Guarded W func L lo hi x)
    (hupd : ∀ y, Guarded W func L lo hi y →
      Guarded W func L' lo' hi' (tracked (observeBuffers answers) upd y)) :
    wp LifeHw (LifeGuar W func) ((Prog.modify upd).track (observeBuffers answers))
      (fun _ => Guarded W func L' lo' hi') x :=
  wp_track_modify guarded_stable hx fun y hy => ⟨(hupd y hy).armedLive, hupd y hy⟩

/-! ## Updates that arm slots of the ring only -/

/-- The update keeps the base registers and the buffers, and arms at most slots of a ring. -/
structure CalmAt (func : EthFunction) (s t : DmaMachine) : Prop where
  host : t.hostLog = s.hostLog
  reg : t.dev.txReg = s.dev.txReg
  low : t.dev.regs (func.dmaBase func.rxDmaChan) = s.dev.regs (func.dmaBase func.rxDmaChan)
  high : t.dev.regs (func.dmaBase func.rxDmaChan + 4) =
    s.dev.regs (func.dmaBase func.rxDmaChan + 4)
  queue : ∀ off ∈ t.dev.rx.queue, off ∈ s.dev.rx.queue ∨ off + FRAME_SIZE ≤ CCAT_ALIGNMENT

def Calm (func : EthFunction) (upd : DmaMachine → DmaMachine) : Prop :=
  ∀ s, s.dev.txReg = func.base + func.offsets.txFifo → CalmAt func s (upd s)

/-- With a buffer behind the base register, slots can be armed. -/
theorem wp_calm {answers : List Coherent} {α : Type} {ψ : α → Prop} {prog : Prog DmaMachine α}
    (hbase : BaseHolds W L lo hi) (hall : prog.All (Calm func) ψ) (hx : Guarded W func L lo hi x) :
    wp LifeHw (LifeGuar W func) (prog.track (observeBuffers answers))
      (fun a y => ψ a ∧ Guarded W func L lo hi y) x := by
  refine wp_track_of_all guarded_stable hx (Prog.all_mono hall fun upd hcalm y hy => ?_)
  obtain ⟨hhost, hreg, hlow, hhigh, hqueue⟩ := hcalm y.1 hy.reg
  have hlive : (tracked (observeBuffers answers) upd y).2 = y.2 := observeBuffers_of_eq hhost
  have hguarded : Guarded W func L lo hi (tracked (observeBuffers answers) upd y) := by
    constructor
    case reg => exact hreg.trans hy.reg
    case low => exact hlow.trans hy.low
    case high => exact hhigh.trans hy.high
    case live =>
      rw [hlive]
      exact hy.live
    case fits =>
      rw [hlive]
      exact hy.fits
    case inside => exact fun off hoff => (hqueue off hoff).elim (hy.inside off) id
    case backed => exact .inr hbase
  exact ⟨hguarded.armedLive, hguarded⟩

/-- An update that does not touch the device. -/
theorem calm_of_dev {upd : DmaMachine → DmaMachine} (hdev : ∀ s, (upd s).dev = s.dev)
    (hhost : ∀ s, (upd s).hostLog = s.hostLog) : Calm func upd := by
  intro s _
  refine ⟨hhost s, ?_, ?_, ?_, ?_⟩
  all_goals rw [hdev s]
  exact fun off hoff => .inl hoff

/-- An update of the rings. -/
theorem calm_of_rings {upd : DmaMachine → DmaMachine} (hhost : ∀ s, (upd s).hostLog = s.hostLog)
    (hreg : ∀ s, (upd s).dev.txReg = s.dev.txReg) (hregs : ∀ s, (upd s).dev.regs = s.dev.regs)
    (hqueue : ∀ s, (upd s).dev.rx.queue = s.dev.rx.queue) : Calm func upd := by
  intro s _
  refine ⟨hhost s, hreg s, ?_, ?_, ?_⟩
  · rw [hregs s]
  · rw [hregs s]
  · rw [hqueue s]
    exact fun off hoff => .inl hoff

theorem read_calm {α : Type} (g : DmaMachine → α) : (Prog.read g).All (Calm func) fun _ => True :=
  Prog.all_read (calm_of_dev (fun _ => rfl) fun _ => rfl) fun _ => trivial

/-- A reset of the TX FIFO, or a descriptor for it. -/
theorem calm_iowrite32_tx (value : Nat) {addr : Nat}
    (haddr : addr = func.base + func.offsets.txFifo ∨
      addr = func.base + func.offsets.txFifo + 0x8) : Calm func (dmaIowrite32 value addr) := by
  intro s hs
  rcases haddr with rfl | rfl
  · rw [iowrite32_tx hs]
    exact ⟨rfl, rfl, rfl, rfl, fun _ hoff => .inl hoff⟩
  · rw [iowrite32_txReset hs]
    exact ⟨rfl, rfl, rfl, rfl, fun _ hoff => .inl hoff⟩

/-- A reset of the RX FIFO arms nothing. -/
theorem calm_iowrite32_rxReset :
    Calm func (dmaIowrite32 0 (func.base + func.offsets.txFifo + 0x10 + 0x8)) := by
  intro s hs
  rw [iowrite32_rxReset hs]
  exact ⟨rfl, rfl, rfl, rfl, fun _ hoff => nomatch hoff⟩

/-- The RX FIFO is a ring, wherever it starts. -/
def RxRingFifo (func : EthFunction) (f : Fifo) : Prop :=
  ∃ start k, RingFifo (func.base + func.offsets.txFifo + 0x10) start k f

theorem rxRingFifo_inc (f : Fifo) (hf : RxRingFifo func f) :
    RxRingFifo func (ccatEthFifoInc f) := by
  obtain ⟨start, k, hf⟩ := hf
  exact ⟨start, k + 1, ringFifo_inc hf⟩

/-- The RX FIFO is armed with a slot of the ring. -/
theorem rxAdd_calm (f : Fifo) (hf : RxRingFifo func f) :
    (ccatEthRxFifoDmaAdd f).All (Calm func) fun _ => True := by
  obtain ⟨start, k, hf⟩ := hf
  unfold ccatEthRxFifoDmaAdd
  refine Prog.all_modify_bind (calm_of_rings (fun _ => rfl) (fun _ => rfl) (fun _ => rfl)
    fun _ => rfl) (Prog.all_modify fun s hs => ?_)
  have hoff : f.next - f.start = slotOff k := by
    rw [hf.next_eq, hf.start_eq, Nat.add_sub_cancel_left]
  have hslot : slotOff k + FRAME_SIZE ≤ CCAT_ALIGNMENT := by
    simp only [slotOff, FRAME_SIZE, FIFO_LENGTH, CCAT_ALIGNMENT]
    omega
  have hdecode : (2 ^ 31 ||| slotOff k) % 2 ^ 31 = slotOff k :=
    decode_armed (Nat.lt_trans (slotOff_lt k) (by decide))
  rw [hf.reg_eq, hoff, iowrite32_rx hs, hdecode]
  refine ⟨rfl, rfl, rfl, rfl, fun off hmem => ?_⟩
  rcases List.mem_append.mp hmem with hold | hnew
  · exact .inl hold
  · rw [List.mem_singleton.mp hnew]
    exact .inr hslot

/-- A reset of the RX FIFO; `next` may be anywhere. -/
theorem rxFifoReset_calm {f : Fifo} (hreg : f.reg = func.base + func.offsets.txFifo + 0x10)
    (hend : f.fifoEnd = f.start + CCAT_ALIGNMENT - FRAME_SIZE) :
    (ccatEthFifoReset dma dma.rxOps.add f).All (Calm func) (RxRingFifo func) := by
  refine fifoReset_all rxRingFifo_inc rxAdd_calm ?_ ⟨f.start, 0, hreg, rfl, hend, rfl⟩
  rw [hreg]
  exact calm_iowrite32_rxReset

/-- A reset of the TX FIFO does not touch the RX side. -/
theorem txFifoReset_calm (f : Fifo) (hf : f.reg = func.base + func.offsets.txFifo) :
    (ccatEthFifoReset dma dma.txOps.add f).All (Calm func)
      fun f' => f'.reg = func.base + func.offsets.txFifo := by
  refine fifoReset_all_reg (v := dma) (calm_iowrite32_tx 0 (.inr rfl)) (fun f _ => ?_) hf
  exact Prog.all_modify (calm_of_rings (fun _ => rfl) (fun _ => rfl) (fun _ => rfl) fun _ => rfl)

/-- Neither does a transmission. -/
theorem startXmit_calm (f : Fifo) (skb : Skb) (hf : f.reg = func.base + func.offsets.txFifo) :
    (ccatEthStartXmit dma f skb).All (Calm func)
      fun r => r.2.reg = func.base + func.offsets.txFifo := by
  have hring : ∀ addr (g : DmaFrame → DmaFrame), Calm func fun s =>
      { s with dev.tx.mem := setFrame s.dev.tx.mem addr g } := fun _ _ =>
    calm_of_rings (fun _ => rfl) (fun _ => rfl) (fun _ => rfl) fun _ => rfl
  apply startXmit_all (I := fun f => f.reg = func.base + func.offsets.txFifo)
  case hinc => exact fun f hf => (ccatEthFifoInc_reg f).trans hf
  case hready => exact fun f => read_calm _
  case hqueue =>
    intro f skb hf
    refine Prog.all_modify_bind (hring _ _) (Prog.all_modify_bind (hring _ _) ?_)
    refine Prog.all_modify_bind (hring _ _) (Prog.all_modify fun s hs => ?_)
    have hwrite := calm_iowrite32_tx (addrAndLength f skb.len) (.inl hf)
      { s with txLog := s.txLog ++ [.queued skb.data] } hs
    exact ⟨hwrite.host, hwrite.reg, hwrite.low, hwrite.high, hwrite.queue⟩
  case hdrop => exact calm_of_dev (fun _ => rfl) fun _ => rfl
  case hfull => exact calm_of_dev (fun _ => rfl) fun _ => rfl
  case hstop => exact calm_of_dev (fun _ => rfl) fun _ => rfl
  case hbytes => exact fun _ => calm_of_dev (fun _ => rfl) fun _ => rfl
  case hf => exact hf

/-- `poll_rx()` arms descriptors of its own ring only. -/
theorem pollRx_calm (f : Fifo) (hf : RxRingFifo func f) :
    (pollRx dma f).All (Calm func) (RxRingFifo func) := by
  apply pollRx_all
  case hinc => exact rxRingFifo_inc
  case hready =>
    intro f
    refine Prog.all_bind (read_calm _) fun _ _ => Prog.all_ite ?_ trivial
    exact Prog.all_bind (read_calm _) fun _ _ => trivial
  case hadd => exact rxAdd_calm
  case hcopy => exact fun f len => read_calm _
  case hbytes => exact fun _ => calm_of_dev (fun _ => rfl) fun _ => rfl
  case hnetif => exact fun _ => calm_of_dev (fun _ => rfl) fun _ => rfl
  case hnoMem => exact calm_of_dev (fun _ => rfl) fun _ => rfl
  case hf => exact hf

/-- A timer callback, also one that resets the FIFOs because the link came up. -/
theorem pollTimerCallback_calm {priv : Priv} (hrx : RxRingFifo func priv.rxFifo)
    (htx : priv.txFifo.reg = func.base + func.offsets.txFifo) :
    (pollTimerCallback dma priv).All (Calm func) fun priv =>
      RxRingFifo func priv.rxFifo ∧ priv.txFifo.reg = func.base + func.offsets.txFifo := by
  apply pollTimerCallback_all (I := RxRingFifo func)
    (T := fun f => f.reg = func.base + func.offsets.txFifo)
  case hid => exact calm_of_dev (fun _ => rfl) fun _ => rfl
  case hup =>
    intro priv hrx htx
    -- only the reset of the RX FIFO arms descriptors, all of them within the ring
    refine linkUp_all (fun f hf => ?_) txFifoReset_calm startXmit_calm ?_ ?_ hrx htx
    · obtain ⟨start, k, hreg, rfl, hend, -⟩ := hf
      exact rxFifoReset_calm hreg hend
    · exact calm_of_dev (fun _ => rfl) fun _ => rfl
    · exact calm_of_dev (fun _ => rfl) fun _ => rfl
  case hdown =>
    exact Prog.all_modify_bind (calm_of_dev (fun _ => rfl) fun _ => rfl)
      (Prog.all_modify (calm_of_dev (fun _ => rfl) fun _ => rfl))
  case hpollRx => exact pollRx_calm
  case hready => exact fun f => read_calm _
  case hwake => exact calm_of_dev (fun _ => rfl) fun _ => rfl
  case hrx => exact hrx
  case htx => exact htx

/-! ## Buffers and base registers -/

variable {answers : List Coherent}

/-- An update that touches neither the device nor the buffers. -/
theorem wp_aside {upd : DmaMachine → DmaMachine} (hdev : ∀ s, (upd s).dev = s.dev)
    (hlive : ∀ s live, observeBuffers answers s (upd s) live = live)
    (hx : Guarded W func L lo hi x) :
    wp LifeHw (LifeGuar W func) ((Prog.modify upd).track (observeBuffers answers))
      (fun _ => Guarded W func L lo hi) x := by
  refine wp_guarded hx fun y hy => ?_
  have htracked : tracked (observeBuffers answers) upd y = (upd y.1, y.2) :=
    Prod.ext rfl (hlive y.1 y.2)
  rw [htracked]
  constructor
  all_goals simp only [hdev]
  case reg => exact hy.reg
  case low => exact hy.low
  case high => exact hy.high
  case live => exact hy.live
  case fits => exact hy.fits
  case inside => exact hy.inside
  case backed => exact hy.backed

/-- A buffer more does no harm. -/
theorem wp_dmaAllocCoherent {a : Coherent} (ha : a ∈ answers)
    (hfits : ∀ b ∈ answers, b.base ≠ 0 → b.phys + DMA_SIZE ≤ 2 ^ W.dma.bits)
    (hx : Guarded W func L lo hi x) :
    wp LifeHw (LifeGuar W func)
      ((Prog.modify (dmaAllocCoherent a)).track (observeBuffers answers))
      (fun _ => Guarded W func (if a.base ≠ 0 then a :: L else L) lo hi) x := by
  by_cases hbase : a.base ≠ 0
  · rw [if_pos hbase]
    refine wp_guarded hx fun y hy => ?_
    rw [tracked_dmaAllocCoherent hbase]
    constructor
    case reg => exact hy.reg
    case low => exact hy.low
    case high => exact hy.high
    -- the new buffer is alive, the old ones still are
    case live =>
      intro b hb
      rcases List.mem_cons.mp hb with rfl | hb
      · exact List.mem_append_left _ (List.mem_filter.mpr ⟨ha, decide_eq_true rfl⟩)
      · exact List.mem_append_right _ (hy.live b hb)
    case fits =>
      intro b hb
      rcases List.mem_append.mp hb with hb | hb
      · obtain ⟨hmem, heq⟩ := List.mem_filter.mp hb
        exact hfits b hmem (by rw [of_decide_eq_true heq]; exact hbase)
      · exact hy.fits b hb
    case inside => exact hy.inside
    case backed => exact hy.backed.imp_right fun h => h.mono fun b => List.mem_cons_of_mem a
  · -- no buffer, and nothing to track
    rw [if_neg hbase]
    refine wp_aside (fun s => ?_) (fun s live => observeBuffers_of_eq ?_) hx
    all_goals rw [dmaAllocCoherent, if_neg hbase]

/-- A register in BAR 2 is none of a FIFO. -/
theorem dmaBase_ne (hbars : func.BarsDisjoint) (channel : UInt8) {k : Nat} (hk : k < 8) :
    ∀ j, j < 0x20 → func.dmaBase channel + k ≠ func.base + func.offsets.txFifo + j := by
  intro j hj
  have hchan := channel.toNat_lt
  unfold EthFunction.dmaBase
  rw [Nat.add_assoc]
  exact hbars j _ hj (by omega)

/-- Writing the lower word of the RX channel. -/
theorem wp_baseLow (hbars : func.BarsDisjoint) {lo' : Nat} (hbase : BaseHolds W L lo' hi)
    (hx : Guarded W func L lo hi x) :
    wp LifeHw (LifeGuar W func)
      ((Prog.modify (dmaIowrite32 lo' (func.dmaBase func.rxDmaChan))).track
        (observeBuffers answers))
      (fun _ => Guarded W func L lo' hi) x := by
  refine wp_guarded hx fun y hy => ?_
  have hwrite := iowrite32_other hy.reg lo' (dmaBase_ne hbars func.rxDmaChan (k := 0) (by decide))
  rw [Nat.add_zero] at hwrite
  rw [tracked_of_eq hwrite rfl]
  refine ⟨hy.reg, if_pos rfl, ?_, hy.live, hy.fits, hy.inside, .inr hbase⟩
  exact (if_neg (by omega)).trans hy.high

/-- Writing the upper word. -/
theorem wp_baseHigh (hbars : func.BarsDisjoint) {hi' : Nat} (hbase : BaseHolds W L lo hi')
    (hx : Guarded W func L lo hi x) :
    wp LifeHw (LifeGuar W func)
      ((Prog.modify (dmaIowrite32 hi' (func.dmaBase func.rxDmaChan + 4))).track
        (observeBuffers answers))
      (fun _ => Guarded W func L lo hi') x := by
  refine wp_guarded hx fun y hy => ?_
  have hwrite := iowrite32_other hy.reg hi' (dmaBase_ne hbars func.rxDmaChan (k := 4) (by decide))
  rw [tracked_of_eq hwrite rfl]
  refine ⟨hy.reg, ?_, if_pos rfl, hy.live, hy.fits, hy.inside, .inr hbase⟩
  exact (if_neg (by omega)).trans hy.low

/-- Writing a register of another channel. -/
theorem calm_iowrite32_channel (hbars : func.BarsDisjoint) (hchan : func.rxDmaChan ≠ func.txDmaChan)
    (value : Nat) {k : Nat} (hk : k < 8) :
    Calm func (dmaIowrite32 value (func.dmaBase func.txDmaChan + k)) := by
  intro s hs
  have hne : func.rxDmaChan.toNat ≠ func.txDmaChan.toNat := fun h => hchan (UInt8.toNat_inj.mp h)
  rw [iowrite32_other hs value (dmaBase_ne hbars func.txDmaChan hk)]
  refine ⟨rfl, rfl, if_neg ?_, if_neg ?_, fun _ hoff => .inl hoff⟩
  all_goals
    unfold EthFunction.dmaBase
    omega

/-- Writing the MAC filter. -/
theorem calm_iowrite8_filter (hfilter : func.FilterApart) (value : Nat) :
    Calm func (dmaIowrite8 value (func.base + func.offsets.mii + 0x8 + 6)) := by
  intro s _
  have hchan := func.rxDmaChan.toNat_lt
  refine ⟨rfl, rfl, if_neg ?_, if_neg ?_, fun _ hoff => .inl hoff⟩
  · exact hfilter _ (by omega)
  · unfold EthFunction.dmaBase
    rw [Nat.add_assoc]
    exact hfilter _ (by omega)

/-! ## The parts of a probe -/

/-- `ccat_dma_init()` of the RX channel. Its descriptors are armed with the old content of the
    base registers, then these are written one after the other. -/
theorem wp_ccatDmaInit_rx (hbars : func.BarsDisjoint) {a : Coherent} (ha : a ∈ answers)
    (hfits : ∀ b ∈ answers, b.base ≠ 0 → b.phys + DMA_SIZE ≤ 2 ^ W.dma.bits)
    (hround : a.Usable → a.RoundsUp W) (hold : a.Usable → BaseHolds W (a :: L) lo hi)
    (hmixed : a.Usable → BaseHolds W (a :: L) (baseLow W (ptrAlign W a.phys)) hi) {f : Fifo}
    (hf : f.reg = func.base + func.offsets.txFifo + 0x10) (hx : Guarded W func L lo hi x) :
    wp LifeHw (LifeGuar W func)
      ((ccatDmaInit dma W a func.rxDmaChan.toNat func.bar2 dma.rxOps.add f).track
        (observeBuffers answers))
      (fun r y =>
        ¬a.Usable ∧ r.1 ≠ 0 ∧ (∃ L, Guarded W func L lo hi y) ∨
        a.Usable ∧ r.1 = 0 ∧ RxRingFifo func r.2.1 ∧
          Guarded W func (a :: L) (baseLow W (ptrAlign W a.phys)) (baseHigh W (ptrAlign W a.phys))
            y) x := by
  unfold ccatDmaInit
  refine wp_track_seq (wp_dmaAllocCoherent ha hfits hx) fun _ y hy => ?_
  by_cases hfail : a.base = 0 ∨ a.phys = 0
  · rw [if_pos hfail]
    refine wp_track_pure (.inl ⟨fun hok => hfail.elim hok.1 hok.2, (by decide : -ENOMEM ≠ 0), ?_⟩)
    exact ⟨_, hy⟩
  · rw [if_neg hfail]
    have husable : a.Usable := not_or.mp hfail
    rw [if_pos husable.1] at hy
    -- armed while the base registers hold what they held before
    refine wp_track_seq (wp_calm (hold husable) (rxFifoReset_calm hf rfl) hy) fun f' y hy => ?_
    -- then the low word is new and the high word old
    refine wp_track_seq (wp_baseLow hbars (hmixed husable) hy.2) fun _ z hz => ?_
    have hnew := baseHolds_self (List.mem_cons_self (a := a) (l := L)) (hround husable)
    refine wp_track_seq (wp_baseHigh hbars hnew hz) fun _ z hz => ?_
    exact wp_track_pure (.inr ⟨husable, rfl, hy.1, hz⟩)

/-- `ccat_dma_init()` of the TX channel, with the RX FIFO armed. -/
theorem wp_ccatDmaInit_tx (hbars : func.BarsDisjoint) {a : Coherent} (ha : a ∈ answers)
    (hfits : ∀ b ∈ answers, b.base ≠ 0 → b.phys + DMA_SIZE ≤ 2 ^ W.dma.bits) (husable : a.Usable)
    (hbase : BaseHolds W L lo hi)
    (hmixed : func.rxDmaChan = func.txDmaChan →
      a.RoundsUp W ∧ BaseHolds W (a :: L) (baseLow W (ptrAlign W a.phys)) hi) {f : Fifo}
    (hf : f.reg = func.base + func.offsets.txFifo) (hx : Guarded W func L lo hi x) :
    wp LifeHw (LifeGuar W func)
      ((ccatDmaInit dma W a func.txDmaChan.toNat func.bar2 dma.txOps.add f).track
        (observeBuffers answers))
      (fun r y => r.1 = 0 ∧ r.2.1.reg = func.base + func.offsets.txFifo ∧
        ∃ lo hi, BaseHolds W (a :: L) lo hi ∧ Guarded W func (a :: L) lo hi y) x := by
  have hmono : BaseHolds W (a :: L) lo hi := hbase.mono fun b => List.mem_cons_of_mem a
  unfold ccatDmaInit
  refine wp_track_seq (wp_dmaAllocCoherent ha hfits hx) fun _ y hy => ?_
  rw [if_pos husable.1] at hy
  rw [if_neg (not_or.mpr husable)]
  refine wp_track_seq (wp_calm hmono (txFifoReset_calm _ hf) hy) fun f' y hy => ?_
  by_cases hchan : func.rxDmaChan = func.txDmaChan
  · -- the base registers of the RX channel are written again
    obtain ⟨hround, hmixed⟩ := hmixed hchan
    rw [← hchan]
    refine wp_track_seq (wp_baseLow hbars hmixed hy.2) fun _ z hz => ?_
    have hnew := baseHolds_self (List.mem_cons_self (a := a) (l := L)) hround
    refine wp_track_seq (wp_baseHigh hbars hnew hz) fun _ z hz => ?_
    exact wp_track_pure ⟨rfl, hy.1, _, _, hnew, hz⟩
  · -- another channel has base registers of its own
    have hlow : (Prog.modify (dma.iowrite32 (baseLow W (ptrAlign W a.phys))
        (func.dmaBase func.txDmaChan))).All (Calm func) fun _ => True :=
      Prog.all_modify (calm_iowrite32_channel hbars hchan _ (k := 0) (by decide))
    have hhigh : (Prog.modify (dma.iowrite32 (baseHigh W (ptrAlign W a.phys))
        (func.dmaBase func.txDmaChan + 4))).All (Calm func) fun _ => True :=
      Prog.all_modify (calm_iowrite32_channel hbars hchan _ (by decide))
    refine wp_track_seq (wp_calm hmono hlow hy.2) fun _ z hz => ?_
    refine wp_track_seq (wp_calm hmono hhigh hz.2) fun _ z hz => ?_
    exact wp_track_pure ⟨rfl, hy.1, lo, hi, hmono, hz.2⟩

/-- What holds of a function between calls. -/
def LifeInv (W : AddrWidth) (func : EthFunction) : Option EthPriv → DmaLife → Prop
  | none, x => ∃ L lo hi, Guarded W func L lo hi x
  | some eth, x => RxRingFifo func eth.rxFifo ∧
      eth.txFifo.reg = func.base + func.offsets.txFifo ∧
      ∃ L lo hi, BaseHolds W L lo hi ∧ Guarded W func L lo hi x

/-- What holds with a net device holds without it. -/
theorem LifeInv.unbound {eth : Option EthPriv} (h : LifeInv W func eth x) :
    LifeInv W func none x := by
  cases eth with
  | none => exact h
  | some eth =>
    obtain ⟨-, -, L, lo, hi, -, hx⟩ := h
    exact ⟨L, lo, hi, hx⟩

/-- `ccat_eth_priv_init_dma()`. -/
theorem wp_ccatEthPrivInitDma_life (hbars : func.BarsDisjoint) (hfilter : func.FilterApart)
    {o : Outcomes}
    (hfits : ∀ b ∈ [o.rxDma, o.txDma], b.base ≠ 0 → b.phys + DMA_SIZE ≤ 2 ^ W.dma.bits)
    (hmeets : o.rxDma.Usable → BaseInTime W func o L lo hi) (hx : Guarded W func L lo hi x) :
    wp LifeHw (LifeGuar W func)
      ((ccatEthPrivInitDma dma W func o (ccatEthPrivInitReg func)).track
        (observeBuffers [o.rxDma, o.txDma]))
      (fun r y => r.1 ≠ 0 ∧ LifeInv W func none y ∨ r.1 = 0 ∧ LifeInv W func (some r.2) y) x := by
  unfold ccatEthPrivInitDma
  refine wp_track_seq (wp_ccatDmaInit_rx hbars List.mem_cons_self hfits
    (fun h => (hmeets h).2.1) (fun h => (hmeets h).2.2.1) (fun h => (hmeets h).2.2.2.1) rfl hx)
    fun r y hy => ?_
  obtain ⟨status, rxFifo, rxDmaMem⟩ := r
  rcases hy with ⟨-, hstatus, L, hy⟩ | ⟨husable, hstatus, hring, hy⟩
  · -- the RX buffer cannot be used
    dsimp only
    rw [if_pos hstatus]
    exact wp_track_pure (.inl ⟨hstatus, L, lo, hi, hy⟩)
  · -- the base pair of the RX channel is complete before that of the TX channel is written
    obtain ⟨htx, hround, -, -, hmixed⟩ := hmeets husable
    dsimp only
    rw [if_neg (not_not_intro hstatus)]
    refine wp_track_seq (wp_ccatDmaInit_tx hbars (by simp) hfits htx
      (baseHolds_self List.mem_cons_self hround) hmixed rfl hy) fun r y hy => ?_
    obtain ⟨status', txFifo, txDmaMem⟩ := r
    obtain ⟨hstatus', hreg, lo, hi, hbase, hy⟩ := hy
    dsimp only
    rw [if_neg (not_not_intro hstatus')]
    refine wp_track_seq (wp_calm (ψ := fun status => status = 0) hbase
      (Prog.all_modify_bind (calm_iowrite8_filter hfilter 0) rfl) hy) fun status'' y hy => ?_
    exact wp_track_pure (.inr ⟨hy.1, hring, hreg, _, lo, hi, hbase, hy.2⟩)

/-! ## Freeing -/

/-- No descriptor is armed. -/
structure Unarmed (W : AddrWidth) (func : EthFunction) (x : DmaLife) : Prop where
  reg : x.1.dev.txReg = func.base + func.offsets.txFifo
  queue : x.1.dev.rx.queue = []
  fits : ∀ b ∈ x.2, b.phys + DMA_SIZE ≤ 2 ^ W.dma.bits

/-- With no descriptor armed nothing needs to be guarded. -/
theorem Unarmed.guarded (h : Unarmed W func x) :
    Guarded W func [] (x.1.dev.regs (func.dmaBase func.rxDmaChan))
      (x.1.dev.regs (func.dmaBase func.rxDmaChan + 4)) x := by
  refine ⟨h.reg, rfl, rfl, (fun _ hb => nomatch hb), h.fits, ?_, .inl h.queue⟩
  rw [h.queue]
  exact fun _ hoff => nomatch hoff

/-- The hardware does not arm descriptors. -/
theorem unarmed_stable : Stable LifeHw (Unarmed W func) := by
  rintro x _ h ⟨a, mem, rfl⟩
  obtain ⟨hreg, -, hqueue⟩ := hwStep_rx a x.1
  rw [h.queue] at hqueue
  exact ⟨hreg.trans h.reg, List.suffix_nil.mp hqueue, h.fits⟩

/-- An update that arms nothing. -/
theorem wp_unarmed {upd : DmaMachine → DmaMachine} (hx : Unarmed W func x)
    (hupd : ∀ y, Unarmed W func y → Unarmed W func (tracked (observeBuffers answers) upd y)) :
    wp LifeHw (LifeGuar W func) ((Prog.modify upd).track (observeBuffers answers))
      (fun _ => Unarmed W func) x :=
  wp_track_modify unarmed_stable hx fun y hy => ⟨(hupd y hy).guarded.armedLive, hupd y hy⟩

/-- With no descriptor armed a buffer can be freed. -/
theorem wp_ccatDmaFree_life (m : DmaMem) (hx : Unarmed W func x) :
    wp LifeHw (LifeGuar W func) ((ccatDmaFree m).track (observeBuffers answers))
      (fun _ => Unarmed W func) x := by
  unfold ccatDmaFree
  by_cases hbase : m.base ≠ 0
  · rw [if_pos hbase]
    refine wp_track_seq (wp_unarmed hx fun y hy => ⟨hy.reg, hy.queue, fun b hb => ?_⟩)
      fun _ y hy => wp_track_pure hy
    replace hb : b ∈ observeBuffers answers y.1 (logHost (.dmaFree m.base) y.1) y.2 := hb
    rw [observeBuffers_logHost] at hb
    exact hy.fits b (List.mem_filter.mp hb).1
  · rw [if_neg hbase]
    exact wp_track_pure hx

/-- `ccat_eth_priv_free()` resets the RX FIFO before it frees any buffer. -/
theorem wp_ccatEthPrivFree_life {eth : EthPriv} (hx : LifeInv W func (some eth) x) :
    wp LifeHw (LifeGuar W func) ((ccatEthPrivFree dma eth).track (observeBuffers answers))
      (fun _ => Unarmed W func) x := by
  obtain ⟨⟨start, k, hrx⟩, htx, L, lo, hi, -, hx⟩ := hx
  unfold ccatEthPrivFree
  refine wp_track_seq (M := fun _ => Unarmed W func) ?_ fun _ y hy => ?_
  · unfold ccatEthFifoHwReset
    rw [hrx.reg_eq, if_pos (by omega)]
    -- the reset takes all descriptors back
    refine wp_track_modify guarded_stable hx fun y hy => ?_
    have hwrite : dma.iowrite32 0 (func.base + func.offsets.txFifo + 0x10 + 0x8) y.1 = _ :=
      iowrite32_rxReset hy.reg 0
    rw [tracked_of_eq hwrite rfl]
    suffices hunarmed : Unarmed W func _ from ⟨hunarmed.guarded.armedLive, hunarmed⟩
    exact ⟨hy.reg, rfl, hy.fits⟩
  refine wp_track_seq (M := fun _ => Unarmed W func) ?_ fun _ y hy => ?_
  · unfold ccatEthFifoHwReset
    -- then the TX FIFO, and the buffers
    by_cases hreg : eth.txFifo.reg ≠ 0
    · rw [if_pos hreg, htx]
      refine wp_unarmed hy fun y hy => ?_
      have hwrite : dma.iowrite32 0 (func.base + func.offsets.txFifo + 0x8) y.1 = _ :=
        iowrite32_txReset hy.reg 0
      rw [tracked_of_eq hwrite rfl]
      exact ⟨hy.reg, hy.queue, hy.fits⟩
    · rw [if_neg hreg]
      exact wp_track_pure hy
  refine wp_track_seq (wp_ccatDmaFree_life _ hy) fun _ y hy => ?_
  exact wp_track_seq (wp_ccatDmaFree_life _ hy) fun _ y hy => wp_track_pure hy

/-! ## Every call -/

/-- The hardware does not spoil what holds between calls. -/
theorem lifeInv_stable (eth : Option EthPriv) : Stable LifeHw (LifeInv W func eth) := by
  intro x y hx hR
  cases eth with
  | none =>
    obtain ⟨L, lo, hi, hx⟩ := hx
    exact ⟨L, lo, hi, guarded_stable hx hR⟩
  | some eth =>
    obtain ⟨hrx, htx, L, lo, hi, hbase, hx⟩ := hx
    exact ⟨hrx, htx, L, lo, hi, hbase, guarded_stable hx hR⟩

/-- An update that touches neither the device nor the buffers, between calls. -/
theorem wp_aside_life {upd : DmaMachine → DmaMachine} (hdev : ∀ s, (upd s).dev = s.dev)
    (hlive : ∀ s live, observeBuffers answers s (upd s) live = live) {eth : Option EthPriv}
    (hx : LifeInv W func eth x) :
    wp LifeHw (LifeGuar W func) ((Prog.modify upd).track (observeBuffers answers))
      (fun _ => LifeInv W func eth) x := by
  cases eth with
  | none =>
    obtain ⟨L, lo, hi, hx⟩ := hx
    exact wp_mono (wp_aside hdev hlive hx) fun _ y hy => ⟨L, lo, hi, hy⟩
  | some eth =>
    obtain ⟨hrx, htx, L, lo, hi, hbase, hx⟩ := hx
    exact wp_mono (wp_aside hdev hlive hx) fun _ y hy => ⟨hrx, htx, L, lo, hi, hbase, hy⟩

/-- A kernel service that is not about DMA memory. -/
theorem wp_logHost_life {e : HostEvent} (he : ∀ answers live, followBuffers answers live e = live)
    {eth : Option EthPriv} (hx : LifeInv W func eth x) :
    wp LifeHw (LifeGuar W func) ((Prog.modify (logHost e)).track (observeBuffers answers))
      (fun _ => LifeInv W func eth) x := by
  refine wp_aside_life ?_ (fun s live => ?_) hx
  · exact fun _ => rfl
  · rw [observeBuffers_logHost, he]

/-- A driver that has armed nothing. -/
theorem Unarmed.lifeInv (h : Unarmed W func x) : LifeInv W func none x :=
  ⟨[], _, _, h.guarded⟩

/-- `ccat_eth_init_netdev()`. -/
theorem wp_ccatEthInitNetdev_life {o : Outcomes} {eth : EthPriv}
    (hx : LifeInv W func (some eth) x) :
    wp LifeHw (LifeGuar W func) ((ccatEthInitNetdev dma o eth).track (observeBuffers answers))
      (fun r => LifeInv W func r.2) x := by
  unfold ccatEthInitNetdev
  by_cases hvalid : isValidEtherAddr o.mac = true
  · rw [hvalid]
    refine wp_track_seq (M := fun _ => LifeInv W func (some eth)) ?_ fun _ y hy => ?_
    · refine wp_aside_life ?_ ?_ hx
      · exact fun _ => rfl
      · exact fun _ _ => observeBuffers_of_eq rfl
    by_cases hregister : o.register ≠ 0
    · rw [if_pos hregister]
      refine wp_track_seq (wp_ccatEthPrivFree_life hy) fun _ z hz => ?_
      refine wp_track_seq (wp_logHost_life (fun _ _ => rfl) hz.lifeInv) fun _ z hz => ?_
      exact wp_track_pure hz
    · rw [if_neg hregister]
      exact wp_track_seq (wp_logHost_life (fun _ _ => rfl) hy) fun _ z hz => wp_track_pure hz
  · -- the buffers stay allocated, and the descriptors armed
    rw [eq_false_of_ne_true hvalid]
    exact wp_track_pure hx.unbound

/-- A probe that meets the condition, successful or not. -/
theorem wp_ccatEthDmaProbe_life (hbars : func.BarsDisjoint) (hfilter : func.FilterApart)
    {o : Outcomes} (halloc : o.Allocated W x.2) (hmeets : ProbeInTime W func o x)
    (hx : LifeInv W func none x) :
    wp LifeHw (LifeGuar W func)
      ((ccatEthDmaProbe W func o).track (observeBuffers [o.rxDma, o.txDma]))
      (fun r => LifeInv W func r.2) x := by
  -- whatever was allocated can be addressed
  have hfits : ∀ b ∈ [o.rxDma, o.txDma], b.base ≠ 0 → b.phys + DMA_SIZE ≤ 2 ^ W.dma.bits := by
    intro b hb
    rcases List.mem_cons.mp hb with rfl | hb
    · exact halloc.rxFits
    · rw [List.mem_singleton.mp hb]
      exact halloc.txFits
  unfold ccatEthDmaProbe ccatEthProbe ccatEthAllocNetdev
  by_cases hether : o.etherdev = true
  · rw [if_pos hether]
    -- from here on the probe has to be in time
    have htime : o.rxDma.Usable → _ := fun husable =>
      (hmeets.resolve_left (by rw [hether]; decide)).resolve_left (not_not_intro husable)
    obtain ⟨L, lo, hi, hx⟩ := hx
    refine wp_track_seq (wp_track_seq (wp_aside (fun _ => rfl)
      (fun s _ => observeBuffers_logHost .allocNetdev s) hx.all) fun _ y hy =>
        wp_track_pure (Q := fun p y => p = some (ccatEthPrivInitReg func) ∧
          Guarded W func x.2 (x.1.dev.regs (func.dmaBase func.rxDmaChan))
            (x.1.dev.regs (func.dmaBase func.rxDmaChan + 4)) y) ⟨rfl, hy⟩) fun p y hp => ?_
    obtain ⟨rfl, hy⟩ := hp
    refine wp_track_seq (wp_ccatEthPrivInitDma_life hbars hfilter hfits htime hy) fun r z hz => ?_
    obtain ⟨status, eth⟩ := r
    -- without its private data the net device is freed
    rcases hz with ⟨hstatus, hz⟩ | ⟨hstatus, hz⟩
    · dsimp only
      rw [if_pos hstatus]
      exact wp_track_seq (wp_logHost_life (fun _ _ => rfl) hz) fun _ z hz => wp_track_pure hz
    · dsimp only
      rw [if_neg (not_not_intro hstatus)]
      exact wp_ccatEthInitNetdev_life hz
  · rw [if_neg hether]
    exact wp_track_pure hx

/-- `ccat_eth_dma_remove()`. -/
theorem wp_ccatEthDmaRemove_life {eth : EthPriv} (hx : LifeInv W func (some eth) x) :
    wp LifeHw (LifeGuar W func) ((ccatEthDmaRemove eth).track (observeBuffers answers))
      (fun _ => LifeInv W func none) x := by
  unfold ccatEthDmaRemove ccatEthRemove
  refine wp_track_seq (wp_logHost_life (fun _ _ => rfl) hx) fun _ y hy => ?_
  refine wp_track_seq (wp_ccatEthPrivFree_life hy) fun _ z hz => ?_
  exact wp_logHost_life (fun _ _ => rfl) hz.lifeInv

/-- A callback while the function is bound. -/
theorem wp_callback_life {eth : EthPriv} {α : Type} {ψ : α → Prop} {prog : Prog DmaMachine α}
    (hall : prog.All (Calm func) ψ) {bound : α → EthPriv}
    (hbound : ∀ a, ψ a → RxRingFifo func (bound a).rxFifo ∧
      (bound a).txFifo.reg = func.base + func.offsets.txFifo)
    (hx : LifeInv W func (some eth) x) :
    wp LifeHw (LifeGuar W func) ((prog >>= fun a => pure (some (bound a))).track
      (observeBuffers answers)) (LifeInv W func) x := by
  obtain ⟨-, -, L, lo, hi, hbase, hx⟩ := hx
  refine wp_track_seq (wp_calm hbase hall hx) fun a y hy => wp_track_pure ?_
  obtain ⟨hrx, htx⟩ := hbound a hy.1
  exact ⟨hrx, htx, L, lo, hi, hbase, hy.2⟩

/-- Every call that meets the condition leads back to the invariant. -/
theorem lifeSystem_correct (hbars : func.BarsDisjoint) (hfilter : func.FilterApart) :
    (lifeSystem W func (ProbeInTime W func)).Correct (LifeInv W func) (LifeGuar W func) := by
  refine ⟨lifeInv_stable, fun eth x prog hx hcall => ?_⟩
  cases hcall with
  | probe o halloc hmeets =>
    exact wp_track_seq (wp_ccatEthDmaProbe_life hbars hfilter halloc hmeets hx)
      fun r y hy => wp_track_pure hy
  | timer eth =>
    exact wp_callback_life (pollTimerCallback_calm hx.1 hx.2.1) (fun _ h => h) hx
  | startXmit eth skb =>
    exact wp_callback_life (startXmit_calm eth.txFifo skb hx.2.1) (fun _ h => ⟨hx.1, h⟩) hx
  | remove eth =>
    exact wp_track_seq (wp_ccatEthDmaRemove_life hx) fun _ y hy => wp_track_pure hy

end Guarded

/-- In every run of probes, callbacks and removes, each probe of which stops early or finds the
    base registers in order, every armed descriptor has an allocated buffer behind it at every
    point. -/
theorem armed_live (W : AddrWidth) (func : EthFunction) (hbars : func.BarsDisjoint)
    (hfilter : func.FilterApart) (s₀ : DmaMachine)
    (hreg : s₀.dev.txReg = func.base + func.offsets.txFifo) (hqueue : s₀.dev.rx.queue = [])
    (c : Config DmaLife (Option EthPriv))
    (hreach : (lifeSystem W func (ProbeInTime W func)).Reach ⟨.idle none, (s₀, [])⟩ c) :
    ArmedLive W func c.state := by
  have hstart : Unarmed W func (s₀, []) := ⟨hreg, hqueue, fun _ hb => nomatch hb⟩
  exact System.reach_always (lifeSystem_correct hbars hfilter)
    (fun _ _ hx hR => armedLive_stable hx hR) (fun _ _ _ hy => hy) (c := ⟨.idle none, (s₀, [])⟩)
    hstart.lifeInv hstart.guarded.armedLive hreach

/-- The two buffers are new, and they do not overlap. -/
theorem allocated_noAddress : Outcomes.noAddress.Allocated ⟨.long64, .long64⟩ [] where
  rxFits _ := by decide
  txFits _ := by decide
  rxNew _ h := nomatch h
  txNew _ h := nomatch h
  distinct _ := by decide

/-- The filter register is not one of the base registers. -/
theorem filterApart_atOffset : EthFunction.atOffset.FilterApart := by
  intro k hk
  show 0x200000 + 0x1000 + k ≠ 0x100000 + 0x1000 + 0x100 + 0x8 + 6
  omega

/-- A device whose RX base register was left at the address of the buffer that the next probe
    gets. -/
def leftAtBuffer : DmaMachine :=
  { DmaMachine.zeroed 0x101200 0 0 with dev.regs := fun p => if p = 0x201000 then 0x400000 else 0 }

/-- The base registers already point to the buffer. -/
theorem probeInTime_leftAtBuffer :
    ProbeInTime ⟨.long64, .long64⟩ .atOffset .noAddress (leftAtBuffer, []) := by
  have hround : Outcomes.noAddress.rxDma.RoundsUp ⟨.long64, .long64⟩ := by
    unfold Coherent.RoundsUp
    decide
  refine .inr (.inr ⟨⟨by decide, by decide⟩, hround, ?_, ?_, fun h => absurd h (by decide)⟩)
  · exact ⟨_, List.mem_cons_self, hround, by decide, by decide⟩
  · exact ⟨_, List.mem_cons_self, hround, by decide, by decide⟩

/-- The probe of such a device, undisturbed to its end. -/
theorem armed_live_leftAtBuffer : ArmedLive ⟨.long64, .long64⟩ .atOffset
    (((do
      let (_, eth) ← ccatEthDmaProbe ⟨.long64, .long64⟩ .atOffset .noAddress
      return eth).track
        (observeBuffers [Outcomes.noAddress.rxDma, Outcomes.noAddress.txDma])).exec
          (fun _ => true) 0 (leftAtBuffer, [])).2 :=
  armed_live ⟨.long64, .long64⟩ .atOffset barsDisjoint_atOffset filterApart_atOffset leftAtBuffer
    rfl rfl ⟨.idle _, _⟩
    (.head (.start (.probe .noAddress allocated_noAddress probeInTime_leftAtBuffer))
      (System.reach_exec (fun _ => true) _ 0 (leftAtBuffer, [])))

/-! ## Armed too early -/

section Early

variable {W : AddrWidth} {func : EthFunction} {x : DmaLife} {answers : List Coherent}

/-- The base registers of the RX channel hold the words that are written for one of the
    buffers. -/
def Based (W : AddrWidth) (func : EthFunction) (live : List Coherent) (s : DmaMachine) : Prop :=
  ∃ b ∈ live, s.dev.regs (func.dmaBase func.rxDmaChan) = baseLow W (ptrAlign W b.phys) ∧
    s.dev.regs (func.dmaBase func.rxDmaChan + 4) = baseHigh W (ptrAlign W b.phys)

/-- A slot is armed with the base registers as they are. -/
theorem based_of_armed (hreg : x.1.dev.txReg = func.base + func.offsets.txFifo) {value : Nat}
    (h : ArmedLive W func (tracked (observeBuffers answers)
      (dmaIowrite32 value (func.base + func.offsets.txFifo + 0x10)) x)) : Based W func x.2 x.1 := by
  rw [tracked_of_eq (iowrite32_rx hreg value) rfl] at h
  obtain ⟨b, hb, hlow, hhigh, -⟩ := h _ (List.mem_append_right _ List.mem_cons_self)
  exact ⟨b, hb, hlow, hhigh⟩

/-- A calm update at the start of a program can be left out. -/
theorem based_calm_bind {upd : DmaMachine → DmaMachine} {α : Type}
    {q : Unit → Prog DmaMachine α} {Q : α → DmaLife → Prop}
    (hreg : x.1.dev.txReg = func.base + func.offsets.txFifo)
    (h : wp LifeHw (LifeGuar W func) ((Prog.modify upd >>= q).track (observeBuffers answers)) Q x)
    (hcalm : Calm func upd) :
    ∃ y : DmaLife, y.1.dev.txReg = func.base + func.offsets.txFifo ∧
      (Based W func y.2 y.1 → Based W func x.2 x.1) ∧
      wp LifeHw (LifeGuar W func) ((q ()).track (observeBuffers answers)) Q y := by
  obtain ⟨hhost, hreg', hlow, hhigh, -⟩ := hcalm x.1 hreg
  have hlive : (tracked (observeBuffers answers) upd x).2 = x.2 := observeBuffers_of_eq hhost
  refine ⟨_, hreg'.trans hreg, fun hbased => ?_, (wp_track_modify_now (wp_track_bind.mp h)).2⟩
  obtain ⟨b, hb, hlo, hhi⟩ := hbased
  rw [hlive] at hb
  exact ⟨b, hb, hlow.symm.trans hlo, hhigh.symm.trans hhi⟩

/-- `ccat_eth_fifo_reset()` arms at least one slot. -/
theorem based_of_fifoReset {f : Fifo} (hf : f.reg = func.base + func.offsets.txFifo + 0x10)
    (hreg : x.1.dev.txReg = func.base + func.offsets.txFifo) {Q : Fifo → DmaLife → Prop}
    (h : wp LifeHw (LifeGuar W func)
      ((ccatEthFifoReset dma dma.rxOps.add f).track (observeBuffers answers)) Q x) :
    Based W func x.2 x.1 := by
  unfold ccatEthFifoReset ccatEthFifoHwReset at h
  rw [if_pos (by omega), hf] at h
  obtain ⟨y, hreg, hbased, h⟩ := based_calm_bind hreg h calm_iowrite32_rxReset
  rw [addSlots] at h
  obtain ⟨z, hreg, hbased', h⟩ := based_calm_bind hreg (wp_track_bind.mp h)
    (calm_of_rings (fun _ => rfl) (fun _ => rfl) (fun _ => rfl) fun _ => rfl)
  exact hbased (hbased' (based_of_armed hreg (wp_track_modify_now h).1))

/-- The same of `ccat_dma_init()`, which has its buffer by then. -/
theorem based_of_ccatDmaInit {a : Coherent} (husable : a.Usable) {f : Fifo}
    (hf : f.reg = func.base + func.offsets.txFifo + 0x10)
    (hreg : x.1.dev.txReg = func.base + func.offsets.txFifo)
    {Q : Int × Fifo × DmaMem → DmaLife → Prop}
    (h : wp LifeHw (LifeGuar W func)
      ((ccatDmaInit dma W a func.rxDmaChan.toNat func.bar2 dma.rxOps.add f).track
        (observeBuffers answers)) Q x) :
    Based W func (answers.filter (·.base = a.base) ++ x.2) x.1 := by
  unfold ccatDmaInit at h
  have halloc := (wp_track_modify_now (wp_track_bind.mp h)).2
  rw [if_neg (not_or.mpr husable), tracked_dmaAllocCoherent husable.1] at halloc
  exact based_of_fifoReset (by exact hf) (by exact hreg) (wp_track_bind.mp halloc)

end Early

/-- The first descriptor of a probe is armed with whatever the base register holds. -/
theorem not_armed_live :
    ¬ ∀ (W : AddrWidth) (func : EthFunction), func.BarsDisjoint → func.FilterApart →
      ∀ s₀ : DmaMachine, s₀.dev.txReg = func.base + func.offsets.txFifo → s₀.dev.rx.queue = [] →
        ∀ c, (lifeSystem W func fun _ _ => True).Reach ⟨.idle none, (s₀, [])⟩ c →
          ArmedLive W func c.state := by
  intro hall
  have hprobe := System.wp_of_reach fun c hc => hall ⟨.long64, .long64⟩ .atOffset
    barsDisjoint_atOffset filterApart_atOffset (DmaMachine.zeroed 0x101200 0 0) rfl rfl c
    (.head (.start (.probe .noAddress allocated_noAddress trivial)) hc)
  -- the net device is allocated, then the RX channel is set up
  have hether := (wp_track_modify_now (wp_track_bind.mp
    (wp_track_bind.mp (wp_track_bind.mp (wp_track_bind.mp hprobe))))).2
  have hinit := wp_track_bind.mp (wp_track_bind.mp hether)
  have husable : Outcomes.noAddress.rxDma.Usable := ⟨by decide, by decide⟩
  obtain ⟨b, hb, hlow, -⟩ := based_of_ccatDmaInit husable rfl rfl hinit
  obtain rfl : b = Outcomes.noAddress.rxDma := List.mem_singleton.mp hb
  -- the register is 0
  exact absurd hlow (by decide)

end Ccat.Native.Eth
