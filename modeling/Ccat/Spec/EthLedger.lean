import Ccat.ForStd.Ledger
import Ccat.Native.EthLife
import Ccat.Spec.EthFifo
import Ccat.Spec.EthProbeCorrect

/-!
# What the Ethernet driver holds of the kernel

Net devices, their registrations and DMA buffers are taken and given back in the log of
the host. Over the whole life of a function nothing is given back that is not held, and
what is held between two calls is what the bound net device needs, with what the probes
so far have lost: a probe that fails loses a buffer at bus address 0, or everything when
the device has no valid MAC address.

## Key results

- `wp_ccatDmaInit_held`, `wp_ccatDmaFree_held`: one DMA buffer
- `wp_ccatEthDmaProbe_held`, `wp_ccatEthEimProbe_held`: what a probe takes and loses
- `ownerSystem_correct`: everything that happens to a function keeps the books
- `host_ledger`: both drivers, over any run
-/

namespace Ccat.Native.Eth

open Interleave

/-! ## The books -/

inductive Resource where
  | netdev
  | registration
  | buffer (base : Nat)
  deriving DecidableEq, Repr

def HostEvent.entry : HostEvent → Ledger.Entry Resource
  | .allocNetdev => .take .netdev
  | .freeNetdev => .give .netdev
  | .registerNetdev => .take .registration
  | .unregisterNetdev => .give .registration
  | .dmaAlloc base => .take (.buffer base)
  | .dmaFree base => .give (.buffer base)

/-- What the driver holds according to the log. -/
def Holds {δ : Type} (held : Multiset Resource) (s : Machine δ) : Prop :=
  Ledger.balance (s.hostLog.map HostEvent.entry) = some held

/-- Nothing was given back that was not held. -/
def Solvent {δ : Type} (s : Machine δ) : Prop := ∃ held, Holds held s

/-- The buffer of an answer or of private data; a null pointer is none. -/
def bufferAt (base : Nat) : Multiset Resource := if base ≠ 0 then {.buffer base} else 0

/-- What a bound net device needs. -/
def EthPriv.held (eth : EthPriv) : Multiset Resource :=
  {.registration} + (bufferAt eth.rxDmaMem.base + (bufferAt eth.txDmaMem.base + {.netdev}))

/-- What a probe in DMA mode loses. -/
def Outcomes.dmaLost (o : Outcomes) : Multiset Resource :=
  if o.etherdev = false then 0
  else if o.rxDma.base = 0 ∨ o.rxDma.phys = 0 then bufferAt o.rxDma.base
  else if o.txDma.base = 0 ∨ o.txDma.phys = 0 then bufferAt o.txDma.base
  else if isValidEtherAddr o.mac then 0
  else bufferAt o.rxDma.base + (bufferAt o.txDma.base + {.netdev})

/-- What a probe in EIM mode loses. -/
def Outcomes.eimLost (o : Outcomes) : Multiset Resource :=
  if o.etherdev = false then 0
  else if isValidEtherAddr o.mac then 0
  else {.netdev}

/-- What the driver holds for a function, `lost` being what a probe loses. -/
def Owner.held (lost : Outcomes → Multiset Resource) (p : Owner) : Multiset Resource :=
  p.eth.elim 0 EthPriv.held + (p.probes.map lost).sum

/-! ## Updates that are not in the books -/

section Keeps

variable {δ : Type}

def KeepsHost (upd : Machine δ → Machine δ) : Prop := ∀ s, (upd s).hostLog = s.hostLog

/-- The FIFO operations and the registers of a variant have nothing to do with the host. -/
structure HostFree (v : Variant δ) : Prop where
  rxReady : ∀ f, (v.rxOps.ready f).All KeepsHost fun _ => True
  rxAdd : ∀ f, (v.rxOps.add f).All KeepsHost fun _ => True
  rxCopy : ∀ f len, (v.rxOps.copyToSkb f len).All KeepsHost fun _ => True
  txReady : ∀ f, (v.txOps.ready f).All KeepsHost fun _ => True
  txAdd : ∀ f, (v.txOps.add f).All KeepsHost fun _ => True
  txQueue : ∀ f skb, (v.txOps.queueSkb f skb).All KeepsHost fun _ => True
  iowrite32 : ∀ value addr, KeepsHost (v.iowrite32 value addr)
  iowrite8 : ∀ value addr, KeepsHost (v.iowrite8 value addr)

theorem read_keepsHost {α : Type} (g : Machine δ → α) :
    (Prog.read g).All KeepsHost fun _ => True :=
  Prog.all_read (fun _ => rfl) fun _ => trivial

variable {v : Variant δ} (hv : HostFree v)
include hv

theorem HostFree.hwReset (f : Fifo) : (ccatEthFifoHwReset v f).All KeepsHost fun _ => True :=
  Prog.all_ite (Prog.all_modify (hv.iowrite32 _ _)) trivial

/-- The reset of a FIFO takes and gives nothing. -/
theorem HostFree.fifoReset {add : Fifo → Prog (Machine δ) Unit}
    (hadd : ∀ f, (add f).All KeepsHost fun _ => True) (f : Fifo) :
    (ccatEthFifoReset v add f).All KeepsHost fun _ => True :=
  fifoReset_all (fun _ _ => trivial) (fun f _ => hadd f) (hv.iowrite32 _ _) trivial

/-- Neither does a transmission. -/
theorem HostFree.startXmit (f : Fifo) (skb : Skb) :
    (ccatEthStartXmit v f skb).All KeepsHost fun _ => True :=
  startXmit_all (I := fun _ => True) (fun _ _ => trivial) hv.txReady
    (fun f skb _ => hv.txQueue f skb) (fun _ => rfl) (fun _ => rfl) (fun _ => rfl)
    (fun _ _ => rfl) trivial skb

/-- Neither does a timer callback. -/
theorem HostFree.pollTimerCallback (priv : Priv) :
    (pollTimerCallback v priv).All KeepsHost fun _ => True := by
  refine Prog.all_imp (pollTimerCallback_all (I := fun _ => True) (T := fun _ => True)
    (fun _ => rfl) ?hup ?hdown ?hpollRx hv.txReady (fun _ => rfl) trivial trivial)
    fun _ _ => trivial
  case hup =>
    intro priv _ _
    exact linkUp_all (fun f _ => hv.fifoReset hv.rxAdd f) (fun f _ => hv.fifoReset hv.txAdd f)
      (fun f skb _ => hv.startXmit f skb) (fun _ => rfl) (fun _ => rfl) trivial trivial
  case hdown => exact Prog.all_modify_bind (fun _ => rfl) (Prog.all_modify fun _ => rfl)
  case hpollRx =>
    intro f _
    exact pollRx_all (fun _ _ => trivial) hv.rxReady (fun f _ => hv.rxAdd f) hv.rxCopy
      (fun _ _ => rfl) (fun _ _ => rfl) (fun _ => rfl) trivial

end Keeps

/-- Writes to the registers of the DMA variant. -/
theorem dmaIowrite32_keepsHost (value addr : Nat) : KeepsHost (dmaIowrite32 value addr) := by
  intro s
  unfold dmaIowrite32
  split
  · rfl
  · split
    · rfl
    · split
      · rfl
      · split <;> rfl

/-- The FIFO operations of the DMA variant. -/
theorem dma_hostFree : HostFree dma where
  rxReady f := by
    refine Prog.all_bind (read_keepsHost _) fun _ _ => Prog.all_ite ?_ trivial
    exact Prog.all_bind (read_keepsHost _) fun _ _ => trivial
  rxAdd f := Prog.all_modify_bind (fun _ => rfl) (Prog.all_modify (dmaIowrite32_keepsHost _ _))
  rxCopy f len := read_keepsHost _
  txReady f := read_keepsHost _
  txAdd f := Prog.all_modify fun _ => rfl
  txQueue f skb := by
    refine Prog.all_modify_bind (fun _ => rfl) (Prog.all_modify_bind (fun _ => rfl) ?_)
    exact Prog.all_modify_bind (fun _ => rfl)
      (Prog.all_modify fun s => dmaIowrite32_keepsHost _ _ _)
  iowrite32 := dmaIowrite32_keepsHost
  iowrite8 _ _ _ := rfl

/-- Writes to the registers of the EIM variant. -/
theorem eimIowrite32_keepsHost (value addr : Nat) : KeepsHost (eimIowrite32 value addr) := by
  intro s
  unfold eimIowrite32
  split
  · rfl
  · split
    · rfl
    · split <;> rfl

/-- The FIFO operations of the EIM variant. -/
theorem eim_hostFree : HostFree eim where
  rxReady f := Prog.all_bind (read_keepsHost _) fun _ _ => trivial
  rxAdd f := Prog.all_modify fun _ => rfl
  rxCopy f len := read_keepsHost _
  txReady f := read_keepsHost _
  txAdd f := trivial
  txQueue f skb := by
    refine Prog.all_modify_bind (fun _ => rfl) (Prog.all_modify_bind (fun _ => rfl) ?_)
    exact Prog.all_modify fun s => eimIowrite32_keepsHost _ _ _
  iowrite32 := eimIowrite32_keepsHost
  iowrite8 _ _ _ := rfl

/-! ## The parts of a probe -/

section Parts

variable {δ : Type} {v : Variant δ} {R : Machine δ → Machine δ → Prop}
  (hR : ∀ s t, R s t → t.hostLog = s.hostLog) {held : Multiset Resource} {s : Machine δ}
include hR

theorem holds_stable : Stable R (Holds held) := by
  intro s t hs hst
  rw [Holds, hR s t hst]
  exact hs

/-- Programs that take and give nothing. -/
theorem wp_keepsHost {α : Type} {ψ : α → Prop} {prog : Prog (Machine δ) α}
    (hall : prog.All KeepsHost ψ) (hs : Holds held s) :
    wp R (fun _ t => Solvent t) prog (fun a t => ψ a ∧ Holds held t) s := by
  refine wp_of_all (holds_stable hR) hs (Prog.all_mono hall fun upd hupd t ht => ?_)
  have hheld : Holds held (upd t) := by
    rw [Holds, hupd t]
    exact ht
  exact ⟨⟨held, hheld⟩, hheld⟩

/-- A resource is taken. -/
theorem wp_take {e : HostEvent} {r : Resource} (he : e.entry = .take r) (hs : Holds held s) :
    wp R (fun _ t => Solvent t) (.modify (logHost e)) (fun _ => Holds ({r} + held)) s := by
  refine wp_modify (holds_stable hR) hs fun t ht => ?_
  have hheld : Holds ({r} + held) (logHost e t) := by
    simp only [Holds, logHost, List.map_append, List.map_cons, List.map_nil, he]
    exact Ledger.balance_take ht r
  exact ⟨⟨_, hheld⟩, hheld⟩

/-- A resource that is held is given back. -/
theorem wp_give {e : HostEvent} {r : Resource} (he : e.entry = .give r)
    (hs : Holds ({r} + held) s) :
    wp R (fun _ t => Solvent t) (.modify (logHost e)) (fun _ => Holds held) s := by
  refine wp_modify (holds_stable hR) hs fun t ht => ?_
  have hheld : Holds held (logHost e t) := by
    simp only [Holds, logHost, List.map_append, List.map_cons, List.map_nil, he]
    exact Ledger.balance_give ht
  exact ⟨⟨_, hheld⟩, hheld⟩

/-- A buffer is taken, if there is one. -/
theorem wp_dmaAllocCoherent_held (a : Coherent) (hs : Holds held s) :
    wp R (fun _ t => Solvent t) (.modify (dmaAllocCoherent a))
      (fun _ => Holds (bufferAt a.base + held)) s := by
  by_cases hbase : a.base ≠ 0
  · have hlog : (dmaAllocCoherent a : Machine δ → Machine δ) = logHost (.dmaAlloc a.base) := by
      funext t
      rw [dmaAllocCoherent, if_pos hbase]
    rw [hlog, bufferAt, if_pos hbase]
    exact wp_take hR rfl hs
  · have hkeeps : KeepsHost (dmaAllocCoherent a : Machine δ → Machine δ) := by
      intro t
      rw [dmaAllocCoherent, if_neg hbase]
    rw [bufferAt, if_neg hbase, zero_add]
    exact wp_mono (wp_keepsHost hR (Prog.all_modify hkeeps) hs) fun _ _ h => h.2

/-- `ccat_dma_free()` gives its buffer back, if there is one. -/
theorem wp_ccatDmaFree_held (m : DmaMem) (hs : Holds (bufferAt m.base + held) s) :
    wp R (fun _ t => Solvent t) (ccatDmaFree m) (fun _ => Holds held) s := by
  unfold ccatDmaFree
  by_cases hbase : m.base ≠ 0
  · rw [if_pos hbase]
    rw [bufferAt, if_pos hbase] at hs
    exact wp_seq (wp_give hR rfl hs) fun _ _ ht => wp_pure ht
  · rw [if_neg hbase]
    rw [bufferAt, if_neg hbase, zero_add] at hs
    exact wp_pure hs

/-- `ccat_eth_priv_free()` gives both buffers back. -/
theorem wp_ccatEthPrivFree_held (hv : HostFree v) (eth : EthPriv)
    (hs : Holds (bufferAt eth.rxDmaMem.base + (bufferAt eth.txDmaMem.base + held)) s) :
    wp R (fun _ t => Solvent t) (ccatEthPrivFree v eth) (fun _ => Holds held) s := by
  unfold ccatEthPrivFree
  refine wp_seq (wp_keepsHost hR (hv.hwReset _) hs) fun _ t ht => ?_
  refine wp_seq (wp_keepsHost hR (hv.hwReset _) ht.2) fun _ t ht => ?_
  refine wp_seq (wp_ccatDmaFree_held hR _ ht.2) fun _ t ht => ?_
  exact wp_seq (wp_ccatDmaFree_held hR _ ht) fun _ t ht => wp_pure ht

/-- `ccat_dma_init()` keeps the buffer it got, also when it fails. -/
theorem wp_ccatDmaInit_held (hv : HostFree v) {W : AddrWidth} {a : Coherent} {channel bar2 : Nat}
    {add : Fifo → Prog (Machine δ) Unit} (hadd : ∀ f, (add f).All KeepsHost fun _ => True)
    (f : Fifo) (hs : Holds held s) :
    wp R (fun _ t => Solvent t) (ccatDmaInit v W a channel bar2 add f)
      (fun r t => r.2.2.base = a.base ∧ Holds (bufferAt a.base + held) t ∧
        ((a.base = 0 ∨ a.phys = 0) ∧ r.1 ≠ 0 ∨ ¬(a.base = 0 ∨ a.phys = 0) ∧ r.1 = 0)) s := by
  unfold ccatDmaInit
  refine wp_seq (wp_dmaAllocCoherent_held hR a hs) fun _ t ht => ?_
  by_cases hfail : a.base = 0 ∨ a.phys = 0
  · rw [if_pos hfail]
    exact wp_pure ⟨rfl, ht, .inl ⟨hfail, (by decide : -ENOMEM ≠ 0)⟩⟩
  · rw [if_neg hfail]
    refine wp_seq (wp_keepsHost hR (hv.fifoReset hadd _) ht) fun f' u hu => ?_
    refine wp_seq (wp_keepsHost hR (Prog.all_modify (hv.iowrite32 _ _)) hu.2) fun _ x hx => ?_
    refine wp_seq (wp_keepsHost hR (Prog.all_modify (hv.iowrite32 _ _)) hx.2) fun _ y hy => ?_
    exact wp_pure ⟨rfl, hy.2, .inr ⟨hfail, rfl⟩⟩

/-- The FIFOs of a probe are initialised: the probe fails and loses `lost`, or both buffers are
    held, and lost with the net device unless the address is valid. -/
def InitHeld (lost : Multiset Resource) (valid : Bool) (held : Multiset Resource)
    (r : Int × EthPriv) (t : Machine δ) : Prop :=
  r.1 ≠ 0 ∧ Holds (lost + held) t ∨
  r.1 = 0 ∧ Holds (bufferAt r.2.rxDmaMem.base + (bufferAt r.2.txDmaMem.base + held)) t ∧
    lost = if valid then 0
      else bufferAt r.2.rxDmaMem.base + (bufferAt r.2.txDmaMem.base + {.netdev})

/-- `ccat_eth_priv_init_dma()` takes two buffers, or loses what the outcome says. -/
theorem wp_ccatEthPrivInitDma_held (hv : HostFree v) {W : AddrWidth} {func : EthFunction}
    {o : Outcomes} (hdev : ¬o.etherdev = false) (priv : EthPriv) (hs : Holds held s) :
    wp R (fun _ t => Solvent t) (ccatEthPrivInitDma v W func o priv)
      (InitHeld o.dmaLost (isValidEtherAddr o.mac) held) s := by
  unfold ccatEthPrivInitDma
  refine wp_seq (wp_ccatDmaInit_held hR hv hv.rxAdd _ hs) fun r t hr => ?_
  obtain ⟨status, rxFifo, rxDmaMem⟩ := r
  obtain ⟨hrx, ht, hcase⟩ := hr
  rw [Outcomes.dmaLost, if_neg hdev]
  rcases hcase with ⟨hfail, hstatus⟩ | ⟨hok, hstatus⟩
  · -- the first buffer, if there is one, is not given back
    dsimp only
    rw [if_pos hstatus, if_pos hfail]
    exact wp_pure (.inl ⟨hstatus, ht⟩)
  · dsimp only
    rw [if_neg (not_not_intro hstatus), if_neg hok]
    refine wp_seq (wp_ccatDmaInit_held hR hv hv.txAdd _ ht) fun r t hr => ?_
    obtain ⟨status', txFifo, txDmaMem⟩ := r
    obtain ⟨htx, ht, hcase⟩ := hr
    dsimp only at hrx htx
    rw [add_left_comm, ← hrx] at ht
    rcases hcase with ⟨hfail, hstatus'⟩ | ⟨hok', hstatus'⟩
    · -- only the first buffer is given back
      dsimp only
      rw [if_pos hstatus', if_pos hfail]
      exact wp_seq (wp_ccatDmaFree_held hR rxDmaMem ht) fun _ u hu => wp_pure (.inl ⟨hstatus', hu⟩)
    · dsimp only
      rw [if_neg (not_not_intro hstatus'), if_neg hok']
      -- both buffers are held; the filter takes nothing
      unfold ccatHwDisableMacFilter
      refine wp_seq (wp_seq (wp_keepsHost hR (Prog.all_modify (hv.iowrite8 _ _)) ht)
        fun _ u hu => wp_pure (Q := fun status u => status = 0 ∧ Holds _ u) ⟨rfl, hu.2⟩)
        fun status'' u hu => ?_
      refine wp_pure (.inr ⟨hu.1, ?_, ?_⟩)
      · dsimp only
        rw [htx]
        exact hu.2
      · dsimp only
        rw [hrx, htx]

/-- `ccat_eth_priv_init_eim()` takes nothing. -/
theorem wp_ccatEthPrivInitEim_held (hv : HostFree v) {func : EthFunction} {o : Outcomes}
    (hdev : ¬o.etherdev = false) {priv : EthPriv} (hrx : priv.rxDmaMem.base = 0)
    (htx : priv.txDmaMem.base = 0) (hs : Holds held s) :
    wp R (fun _ t => Solvent t) (ccatEthPrivInitEim v func priv)
      (InitHeld o.eimLost (isValidEtherAddr o.mac) held) s := by
  unfold ccatEthPrivInitEim fifoSetEnd ccatHwDisableMacFilter
  refine wp_seq (wp_keepsHost hR (hv.fifoReset hv.rxAdd _) hs) fun rxFifo t ht => ?_
  refine wp_seq (wp_keepsHost hR (hv.fifoReset hv.txAdd _) ht.2) fun txFifo u hu => ?_
  refine wp_seq (wp_seq (wp_keepsHost hR (Prog.all_modify (hv.iowrite8 _ _)) hu.2)
    fun _ x hx => wp_pure (Q := fun status x => status = 0 ∧ Holds held x) ⟨rfl, hx.2⟩)
    fun status x hx => ?_
  have hnone : bufferAt 0 = 0 := rfl
  refine wp_pure (.inr ⟨hx.1, ?_, ?_⟩)
  · dsimp only
    rw [hrx, htx, hnone, zero_add, zero_add]
    exact hx.2
  · dsimp only
    rw [Outcomes.eimLost, if_neg hdev, hrx, htx, hnone, zero_add, zero_add]

/-! ## Probe and remove -/

/-- A net device that is set up is registered, or everything is given back, or lost. -/
theorem wp_ccatEthInitNetdev_held (hv : HostFree v) {o : Outcomes} {priv : EthPriv}
    (hs : Holds (bufferAt priv.rxDmaMem.base +
      (bufferAt priv.txDmaMem.base + ({.netdev} + held))) s) :
    wp R (fun _ t => Solvent t) (ccatEthInitNetdev v o priv)
      (fun r t => Holds (r.2.elim 0 EthPriv.held + ((if isValidEtherAddr o.mac then 0
        else bufferAt priv.rxDmaMem.base + (bufferAt priv.txDmaMem.base + {.netdev})) +
          held)) t) s := by
  unfold ccatEthInitNetdev
  by_cases hvalid : isValidEtherAddr o.mac = true
  · rw [hvalid]
    simp only [if_true, zero_add]
    refine wp_seq (wp_keepsHost hR (Prog.all_modify fun _ => rfl) hs) fun _ t ht => ?_
    -- when the registration fails all is given back
    by_cases hregister : o.register ≠ 0
    · rw [if_pos hregister]
      refine wp_seq (wp_ccatEthPrivFree_held hR hv priv ht.2) fun _ u hu => ?_
      refine wp_seq (wp_give hR rfl hu) fun _ x hx => wp_pure ?_
      rw [Option.elim_none, zero_add]
      exact hx
    · rw [if_neg hregister]
      refine wp_seq (wp_take hR rfl ht.2) fun _ u hu => wp_pure ?_
      simp only [Option.elim_some, EthPriv.held, add_assoc]
      exact hu
  · -- nothing is given back
    rw [eq_false_of_ne_true hvalid]
    refine wp_pure ?_
    simp only [Option.elim_none, zero_add, Bool.false_eq_true, if_false, add_assoc]
    exact hs

/-- A probe of either variant, by what its initialisation takes and loses. -/
theorem wp_ccatEthProbe_held (hv : HostFree v)
    {init : EthPriv → Prog (Machine δ) (Int × EthPriv)} {func : EthFunction} {o : Outcomes}
    {lost : Multiset Resource} (hnothing : o.etherdev = false → lost = 0)
    (hinit : ∀ t, ¬o.etherdev = false → Holds ({.netdev} + held) t →
      wp R (fun _ t => Solvent t) (init (ccatEthPrivInitReg func))
        (InitHeld lost (isValidEtherAddr o.mac) ({.netdev} + held)) t)
    (hs : Holds held s) :
    wp R (fun _ t => Solvent t) (ccatEthProbe v init func o)
      (fun r t => Holds (r.2.elim 0 EthPriv.held + (lost + held)) t) s := by
  unfold ccatEthProbe ccatEthAllocNetdev
  by_cases hdev : o.etherdev = true
  · have hne : ¬o.etherdev = false := ne_false_of_eq_true hdev
    rw [if_pos hdev]
    refine wp_seq (wp_seq (wp_take hR rfl hs) fun _ t ht =>
      wp_pure (Q := fun p t => p = some (ccatEthPrivInitReg func) ∧ Holds ({.netdev} + held) t)
        ⟨rfl, ht⟩) fun p t hp => ?_
    obtain ⟨rfl, ht⟩ := hp
    refine wp_seq (hinit t hne ht) fun r u hr => ?_
    obtain ⟨status, priv⟩ := r
    -- the net device is given back when its private data cannot be set up
    rcases hr with ⟨hstatus, hu⟩ | ⟨hstatus, hu, hlost⟩
    · dsimp only
      rw [if_pos hstatus]
      rw [add_left_comm] at hu
      refine wp_seq (wp_give hR rfl hu) fun _ x hx => wp_pure ?_
      rw [Option.elim_none, zero_add]
      exact hx
    · dsimp only
      rw [if_neg (not_not_intro hstatus), hlost]
      exact wp_ccatEthInitNetdev_held hR hv hu
  · rw [if_neg hdev]
    refine wp_pure ?_
    rw [Option.elim_none, hnothing (eq_false_of_ne_true hdev), zero_add, zero_add]
    exact hs

/-- A remove gives back all that the net device holds. -/
theorem wp_ccatEthRemove_held (hv : HostFree v) {eth : EthPriv} (hs : Holds (eth.held + held) s) :
    wp R (fun _ t => Solvent t) (ccatEthRemove v eth) (fun _ => Holds held) s := by
  simp only [EthPriv.held, add_assoc] at hs
  unfold ccatEthRemove
  refine wp_seq (wp_give hR rfl hs) fun _ t ht => ?_
  refine wp_seq (wp_ccatEthPrivFree_held hR hv eth ht) fun _ u hu => ?_
  exact wp_give hR rfl hu

/-! ## The life of a function -/

/-- Whatever happens to a function, the books are right when it is over. -/
theorem ownerSystem_correct (hv : HostFree v)
    {probe : Outcomes → Prog (Machine δ) (Int × Option EthPriv)}
    {lost : Outcomes → Multiset Resource}
    (hprobe : ∀ o held s, Holds held s → wp R (fun _ t => Solvent t) (probe o)
      (fun r t => Holds (r.2.elim 0 EthPriv.held + (lost o + held)) t) s) :
    (ownerSystem v R probe).Correct (fun p => Holds (p.held lost)) fun _ t => Solvent t where
  stable p := holds_stable hR
  restores p s prog hs hcall := by
    cases hcall with
    -- the losses of this probe are added to those of the earlier ones
    | @probe os o =>
      simp only [Owner.held, Option.elim_none, zero_add] at hs
      refine wp_seq (hprobe o _ s hs) fun r t ht => wp_pure ?_
      simp only [Owner.held, List.map_append, List.map_cons, List.map_nil, List.sum_append,
        List.sum_cons, List.sum_nil, add_zero]
      rw [add_comm (os.map lost).sum]
      exact ht
    | ccatEthOpen => exact wp_pure hs
    | timer =>
      exact wp_seq (wp_keepsHost hR (hv.pollTimerCallback _) hs) fun _ t ht => wp_pure ht.2
    | startXmit skb =>
      exact wp_seq (wp_keepsHost hR (hv.startXmit _ skb) hs) fun _ t ht => wp_pure ht.2
    | ccatEthStop =>
      exact wp_seq (wp_keepsHost hR (Prog.all_modify fun _ => rfl) hs) fun _ t ht => wp_pure ht.2
    -- what remains are the losses
    | remove =>
      refine wp_seq (wp_ccatEthRemove_held hR hv hs) fun _ t ht => wp_pure ?_
      simp only [Owner.held, Option.elim_none, zero_add]
      exact ht

end Parts

/-! ## Both drivers -/

/-- The hardware of the DMA variant does not touch the books. -/
theorem hw_hostLog (s t : DmaMachine) (h : Hw s t) : t.hostLog = s.hostLog := by
  cases h.effect with
  | _ => rfl

/-- Neither does that of the EIM variant. -/
theorem eimHw_hostLog (s t : EimMachine) (h : EimHw s t) : t.hostLog = s.hostLog := by
  obtain ⟨a, rfl⟩ := h
  cases a with
  | rxArrive p hpos hle =>
    simp only [eimHwStep]
    unfold eimRxArrive
    split
    · rfl
    · rfl
  | txSent => rfl
  | link w => rfl

/-- The probe of the DMA variant. -/
theorem wp_ccatEthDmaProbe_held (W : AddrWidth) (func : EthFunction) (o : Outcomes)
    (held : Multiset Resource) (s : DmaMachine) (hs : Holds held s) :
    wp Hw (fun _ t => Solvent t) (ccatEthDmaProbe W func o)
      (fun r t => Holds (r.2.elim 0 EthPriv.held + (o.dmaLost + held)) t) s :=
  wp_ccatEthProbe_held hw_hostLog dma_hostFree (fun hdev => if_pos hdev)
    (fun _ hdev ht => wp_ccatEthPrivInitDma_held hw_hostLog dma_hostFree hdev _ ht) hs

/-- The probe of the EIM variant. -/
theorem wp_ccatEthEimProbe_held (func : EthFunction) (o : Outcomes)
    (held : Multiset Resource) (s : EimMachine) (hs : Holds held s) :
    wp EimHw (fun _ t => Solvent t) (ccatEthEimProbe func o)
      (fun r t => Holds (r.2.elim 0 EthPriv.held + (o.eimLost + held)) t) s :=
  wp_ccatEthProbe_held eimHw_hostLog eim_hostFree (fun hdev => if_pos hdev)
    (fun _ hdev ht => wp_ccatEthPrivInitEim_held eimHw_hostLog eim_hostFree hdev rfl rfl ht) hs

/-- A function that was never probed. -/
def Owner.unbound : Owner := ⟨none, false, []⟩

/-- What a system with right books does from a log that is empty. -/
theorem held_of_reach {δ : Type} {v : Variant δ} {R : Machine δ → Machine δ → Prop}
    (hR : ∀ s t, R s t → t.hostLog = s.hostLog)
    {probe : Outcomes → Prog (Machine δ) (Int × Option EthPriv)}
    {lost : Outcomes → Multiset Resource}
    (h : (ownerSystem v R probe).Correct (fun p => Holds (p.held lost)) fun _ t => Solvent t)
    {s : Machine δ} (hs : s.hostLog = []) {c : Config (Machine δ) Owner}
    (hreach : (ownerSystem v R probe).Reach ⟨.idle .unbound, s⟩ c) :
    Solvent c.state ∧ ∀ p, c.control = .idle p → Holds (p.held lost) c.state := by
  have hinit : Holds (Owner.unbound.held lost) s := by
    rw [Holds, hs]
    rfl
  have hok := System.reach_ok h (c := ⟨.idle .unbound, s⟩) hinit hreach
  refine ⟨?_, fun p hp => ?_⟩
  · -- the hardware does not write to the log, and every update leaves right books
    refine System.reach_always h (fun t u ht htu => ?_) (fun t u _ hu => hu)
      (c := ⟨.idle .unbound, s⟩) hinit ⟨_, hinit⟩ hreach
    obtain ⟨held, ht⟩ := ht
    exact ⟨held, holds_stable hR ht htu⟩
  · rw [System.Ok, hp] at hok
    exact hok

/-- **What the drivers hold.** In every run of probes with any answers, `ccat_eth_open()`,
    `ccat_eth_stop()`, timer callbacks, transmissions and removals, among any steps of the
    hardware: at no point is anything given back that is not held, and between two calls the driver
    holds what the bound net device needs and what the probes so far have lost. -/
theorem host_ledger (W : AddrWidth) (func : EthFunction) (s : DmaMachine) (hs : s.hostLog = [])
    (t : EimMachine) (ht : t.hostLog = []) :
    (∀ c, (ownerSystem dma Hw (ccatEthDmaProbe W func)).Reach ⟨.idle .unbound, s⟩ c →
      Solvent c.state ∧ ∀ p, c.control = .idle p → Holds (p.held Outcomes.dmaLost) c.state) ∧
    (∀ c, (ownerSystem eim EimHw (ccatEthEimProbe func)).Reach ⟨.idle .unbound, t⟩ c →
      Solvent c.state ∧ ∀ p, c.control = .idle p → Holds (p.held Outcomes.eimLost) c.state) := by
  constructor
  · intro c hreach
    exact held_of_reach hw_hostLog (ownerSystem_correct hw_hostLog dma_hostFree
      (wp_ccatEthDmaProbe_held W func)) hs hreach
  · intro c hreach
    exact held_of_reach eimHw_hostLog (ownerSystem_correct eimHw_hostLog eim_hostFree
      (wp_ccatEthEimProbe_held func)) ht hreach

/-- The RX buffer is at bus address 0. -/
def Outcomes.busZero : Outcomes where
  etherdev := true
  rxDma := ⟨0x400000, 0⟩
  txDma := ⟨0x500000, 0x500000⟩
  mac := Vector.replicate 6 2
  register := 0

/-- The probe gives the net device back, but not that buffer. -/
theorem host_ledger_busZero :
    ∃ c, (ownerSystem dma Hw (ccatEthDmaProbe ⟨.long64, .long64⟩ .atOffset)).Reach
        ⟨.idle .unbound, DmaMachine.zeroed 0x101200 0 0⟩ c ∧
      c.control = .idle ⟨none, false, [.busZero]⟩ ∧ Holds {.buffer 0x400000} c.state := by
  have hreach : (ownerSystem dma Hw (ccatEthDmaProbe ⟨.long64, .long64⟩ .atOffset)).Reach
      ⟨.idle .unbound, DmaMachine.zeroed 0x101200 0 0⟩ _ :=
    .head (.start (.probe .busZero)) (System.reach_exec (fun _ => true) _ 0 _)
  have hheld := ((host_ledger ⟨.long64, .long64⟩ .atOffset (DmaMachine.zeroed 0x101200 0 0) rfl
    (EimMachine.zeroed 0x101200 0) rfl).1 _ hreach).2 _ rfl
  exact ⟨_, hreach, rfl, hheld⟩

end Ccat.Native.Eth
