import Ccat.Native.EthProbe
import Ccat.Spec.EthFifo

/-!
# Failing probes of the Ethernet function

A probe that fails should give back what it took: the net device, the DMA buffers, and
the slots it handed to the CCAT. `Trace` follows what the driver has taken and given
back and whether slots are handed out, whatever the hardware does meanwhile; a probe
then ends in the trace of the branch it took.

## Key results

- `ccatDmaInit_spec`: what `ccat_dma_init()` takes, by the answer it gets
- `ccatEthPrivFree_spec`: `ccat_eth_priv_free()` resets the FIFOs and frees the buffers
- `failureUndone_iff`: the outcomes for which failing probes leave nothing behind
- `remove_leavesNothing`: a probed device leaves nothing behind when removed
-/

namespace Ccat.Native.Eth

open Interleave

/-! ## What a probe leaves behind -/

/-- The driver's accesses to the RX FIFO. -/
def RxEvent.isAccess : RxEvent → Bool
  | .reset => true
  | .armed _ => true
  | _ => false

def lastRxAccess (log : List RxEvent) : Option RxEvent := (log.filter RxEvent.isAccess).getLast?

/-- The driver's accesses to the TX FIFO. -/
def TxEvent.isAccess : TxEvent → Bool
  | .reset => true
  | .queued _ => true
  | _ => false

def lastTxAccess (log : List TxEvent) : Option TxEvent := (log.filter TxEvent.isAccess).getLast?

/-- Whatever was allocated was freed once for each time. -/
structure Balanced (log : List HostEvent) : Prop where
  netdev : log.count .freeNetdev = log.count .allocNetdev
  dma : ∀ base, log.count (.dmaFree base) = log.count (.dmaAlloc base)

/-- Nothing allocated is left, and the last access to a FIFO that was armed is its reset. -/
structure LeavesNothing {δ : Type} (s : Machine δ) : Prop where
  balanced : Balanced s.hostLog
  rx : (∃ slot, .armed slot ∈ s.rxLog) → lastRxAccess s.rxLog = some .reset
  tx : (∃ p, .queued p ∈ s.txLog) → lastTxAccess s.txLog = some .reset

/-- A probe that returns a non-zero status leaves nothing behind. -/
def FailureUndone {δ : Type} (r : Int × Option EthPriv) (s : Machine δ) : Prop :=
  r.1 ≠ 0 → LeavesNothing s

/-! ## Traces -/

/-- The last access to the RX FIFO armed a slot. -/
def rxArmed (log : List RxEvent) : Bool :=
  match lastRxAccess log with
  | some (.armed _) => true
  | _ => false

/-- One more event. -/
theorem lastRxAccess_concat (log : List RxEvent) (e : RxEvent) :
    lastRxAccess (log ++ [e]) = if e.isAccess then some e else lastRxAccess log := by
  unfold lastRxAccess
  rw [List.filter_append]
  by_cases he : e.isAccess = true
  · rw [if_pos he, List.filter_cons_of_pos he]
    exact List.getLast?_concat
  · rw [if_neg he, List.filter_cons_of_neg he]
    exact congrArg _ (List.append_nil _)

theorem rxArmed_concat_armed (log : List RxEvent) (slot : Nat) :
    rxArmed (log ++ [.armed slot]) = true := by
  rw [rxArmed, lastRxAccess_concat]
  rfl

theorem rxArmed_concat_reset (log : List RxEvent) : rxArmed (log ++ [.reset]) = false := by
  rw [rxArmed, lastRxAccess_concat]
  rfl

theorem rxArmed_concat_of_not (log : List RxEvent) {e : RxEvent} (he : e.isAccess = false) :
    rxArmed (log ++ [e]) = rxArmed log := by
  rw [rxArmed, lastRxAccess_concat, he]
  rfl

/-- An armed FIFO was reset last exactly when the last access armed nothing. -/
theorem rxReset_iff (log : List RxEvent) :
    ((∃ slot, .armed slot ∈ log) → lastRxAccess log = some .reset) ↔ rxArmed log = false := by
  unfold rxArmed
  cases hlast : lastRxAccess log with
  | none =>
    -- nothing was accessed, so nothing was armed
    have hnil : log.filter RxEvent.isAccess = [] := List.getLast?_eq_none_iff.mp hlast
    refine ⟨fun _ => rfl, fun _ ⟨slot, hslot⟩ => ?_⟩
    have hmem : RxEvent.armed slot ∈ log.filter RxEvent.isAccess :=
      List.mem_filter.mpr ⟨hslot, rfl⟩
    rw [hnil] at hmem
    exact nomatch hmem
  | some e =>
    have hmem := List.mem_filter.mp (List.mem_of_getLast? hlast)
    cases e with
    -- the last access decides
    | reset => exact ⟨fun _ => rfl, fun _ _ => rfl⟩
    | armed slot =>
      refine ⟨fun h => ?_, fun h => nomatch h⟩
      exact nomatch h ⟨slot, hmem.1⟩
    | stored p => exact nomatch hmem.2
    | lost p => exact nomatch hmem.2
    | netifRx p => exact nomatch hmem.2
    | noMem => exact nomatch hmem.2

/-- The machine at a point of a probe: what was taken and given back so far, and whether slots
    are handed out for receiving. Nothing is transmitted. -/
structure Trace {δ : Type} (I : δ → Prop) (host : List HostEvent) (armed : Bool)
    (s : Machine δ) : Prop where
  dev : I s.dev
  host_eq : s.hostLog = host
  armed_eq : rxArmed s.rxLog = armed
  no_queued : ∀ p, .queued p ∉ s.txLog

section Trace

variable {δ : Type} {I : δ → Prop} {host : List HostEvent} {armed : Bool} {s : Machine δ}

/-- What a trace leaves behind. -/
theorem leavesNothing_iff (h : Trace I host armed s) :
    LeavesNothing s ↔ Balanced host ∧ armed = false := by
  obtain ⟨-, rfl, rfl, hqueued⟩ := h
  constructor
  · exact fun hs => ⟨hs.balanced, (rxReset_iff _).mp hs.rx⟩
  · exact fun hs => ⟨hs.1, (rxReset_iff _).mpr hs.2, fun ⟨p, hp⟩ => absurd hp (hqueued p)⟩

theorem trace_logHost (h : Trace I host armed s) (e : HostEvent) :
    Trace I (host ++ [e]) armed (logHost e s) :=
  ⟨h.dev, congrArg (· ++ [e]) h.host_eq, h.armed_eq, h.no_queued⟩

theorem trace_netifCarrierOff (h : Trace I host armed s) :
    Trace I host armed (netifCarrierOff s) :=
  ⟨h.dev, h.host_eq, h.armed_eq, h.no_queued⟩

end Trace

/-- The buffer at `base`, if it is one, is allocated. -/
def taken (base : Nat) : List HostEvent := if base ≠ 0 then [.dmaAlloc base] else []

/-- The buffer at `base`, if it is one, is freed. -/
def freed (base : Nat) : List HostEvent := if base ≠ 0 then [.dmaFree base] else []

/-- Taking a buffer is an allocation. -/
theorem count_taken_of_ne {base : Nat} {e : HostEvent} (he : ∀ b, e ≠ .dmaAlloc b) :
    (taken base).count e = 0 := by
  unfold taken
  split
  · exact List.count_eq_zero.mpr fun hmem => he base (List.mem_singleton.mp hmem)
  · rfl

/-- Freeing a buffer is a free. -/
theorem count_freed_of_ne {base : Nat} {e : HostEvent} (he : ∀ b, e ≠ .dmaFree b) :
    (freed base).count e = 0 := by
  unfold freed
  split
  · exact List.count_eq_zero.mpr fun hmem => he base (List.mem_singleton.mp hmem)
  · rfl

/-- A buffer is freed as often as it is allocated. -/
theorem count_freed_eq_count_taken (base b : Nat) :
    (freed base).count (.dmaFree b) = (taken base).count (.dmaAlloc b) := by
  unfold freed taken
  split
  · simp only [List.count_singleton, beq_iff_eq, HostEvent.dmaFree.injEq, HostEvent.dmaAlloc.injEq]
  · rfl

theorem balanced_nil : Balanced [] := ⟨rfl, fun _ => rfl⟩

/-- A net device that is freed does not make up for a buffer that is not. -/
theorem balanced_taken_iff (base : Nat) :
    Balanced ([.allocNetdev] ++ taken base ++ [.freeNetdev]) ↔ base = 0 := by
  constructor
  · intro h
    refine Decidable.byContradiction fun hbase => ?_
    -- a buffer that was allocated and not freed
    have hdma := h.dma base
    rw [taken, if_pos hbase] at hdma
    simp at hdma
  · rintro rfl
    exact ⟨by decide, fun base => by simp [taken]⟩

/-- A net device and two buffers, taken and given back. -/
theorem balanced_taken_freed (base base' : Nat) {log : List HostEvent} (hlog : Balanced log) :
    Balanced ([.allocNetdev] ++ taken base ++ taken base' ++ log ++ freed base ++ freed base' ++
      [.freeNetdev]) where
  netdev := by
    simp only [List.count_append, List.count_singleton, hlog.netdev,
      count_taken_of_ne (e := .freeNetdev) (fun _ h => nomatch h),
      count_taken_of_ne (e := .allocNetdev) (fun _ h => nomatch h),
      count_freed_of_ne (e := .freeNetdev) (fun _ h => nomatch h),
      count_freed_of_ne (e := .allocNetdev) (fun _ h => nomatch h)]
    simp only [beq_iff_eq, reduceCtorEq, if_true, if_false]
    omega
  dma b := by
    simp only [List.count_append, List.count_singleton, hlog.dma, count_freed_eq_count_taken,
      count_taken_of_ne (e := .dmaFree b) (fun _ h => nomatch h),
      count_freed_of_ne (e := .dmaAlloc b) (fun _ h => nomatch h)]
    simp only [beq_iff_eq, reduceCtorEq, if_false]
    omega

/-- An answer that `ccat_dma_init()` accepts. -/
def Coherent.Usable (a : Coherent) : Prop := a.base ≠ 0 ∧ a.phys ≠ 0

/-- Private data with the FIFO registers at `reg`. -/
structure Attached (reg : Nat) (priv : EthPriv) : Prop where
  rx : priv.rxFifo.reg = reg + 0x10
  tx : priv.txFifo.reg = reg

/-- What a variant's operations and its hardware, `R`, do to the trace of a probe; the registers
    of the FIFOs lie at `reg`. -/
structure Traced {δ : Type} (v : Variant δ) (R : Machine δ → Machine δ → Prop) (I : δ → Prop)
    (reg : Nat) : Prop where
  stable : ∀ host armed, Stable R (Trace I host armed)
  resetRx : ∀ host armed s, Trace I host armed s →
    Trace I host false (v.iowrite32 0 (reg + 0x10 + 0x8) s)
  resetTx : ∀ host armed s, Trace I host armed s →
    Trace I host armed (v.iowrite32 0 (reg + 0x8) s)
  iowrite32 : ∀ host armed s value addr, (∀ k, k < 0x20 → addr ≠ reg + k) →
    Trace I host armed s → Trace I host armed (v.iowrite32 value addr s)
  iowrite8 : ∀ host armed s value addr, Trace I host armed s →
    Trace I host armed (v.iowrite8 value addr s)
  addRx : ∀ host armed f s, f.reg = reg + 0x10 → Trace I host armed s →
    wp R (fun _ _ => True) (v.rxOps.add f) (fun _ => Trace I host true) s
  addTx : ∀ host armed f s, f.reg = reg → Trace I host armed s →
    wp R (fun _ _ => True) (v.txOps.add f) (fun _ => Trace I host armed) s

/-! ## The parts of a probe -/

section Parts

variable {δ : Type} {v : Variant δ} {R : Machine δ → Machine δ → Prop} {I : δ → Prop} {reg : Nat}
  (hv : Traced v R I reg) {host : List HostEvent} {armed : Bool} {s : Machine δ}
include hv

/-- One update of the driver. -/
theorem wp_trace {upd : Machine δ → Machine δ} {host' : List HostEvent} {armed' : Bool}
    (hs : Trace I host armed s)
    (hupd : ∀ t, Trace I host armed t → Trace I host' armed' (upd t)) :
    wp R (fun _ _ => True) (.modify upd) (fun _ => Trace I host' armed') s :=
  wp_modify (hv.stable host armed) hs fun t ht => ⟨trivial, hupd t ht⟩

theorem wp_logHost (hs : Trace I host armed s) (e : HostEvent) :
    wp R (fun _ _ => True) (.modify (logHost e)) (fun _ => Trace I (host ++ [e]) armed) s :=
  wp_trace hv hs fun _ ht => trace_logHost ht e

/-- A write to a register that is none of a FIFO. -/
theorem wp_iowrite32 {value addr : Nat} (hs : Trace I host armed s)
    (haddr : ∀ k, k < 0x20 → addr ≠ reg + k) :
    wp R (fun _ _ => True) (.modify (v.iowrite32 value addr)) (fun _ => Trace I host armed) s :=
  wp_trace hv hs fun t ht => hv.iowrite32 host armed t value addr haddr ht

/-- Resetting the RX FIFO disarms it. -/
theorem hwResetRx_spec {f : Fifo} (hf : f.reg = reg + 0x10) (hs : Trace I host armed s) :
    wp R (fun _ _ => True) (ccatEthFifoHwReset v f) (fun _ => Trace I host false) s := by
  unfold ccatEthFifoHwReset
  -- the RX register is `0x10` behind another one, so it is not 0
  rw [if_pos (by omega), hf]
  exact wp_trace hv hs (hv.resetRx host armed)

/-- Resetting the TX FIFO does not. -/
theorem hwResetTx_spec {f : Fifo} (hf : f.reg = reg) (hs : Trace I host armed s) :
    wp R (fun _ _ => True) (ccatEthFifoHwReset v f) (fun _ => Trace I host armed) s := by
  unfold ccatEthFifoHwReset
  by_cases hreg : f.reg ≠ 0
  · rw [if_pos hreg, hf]
    exact wp_trace hv hs (hv.resetTx host armed)
  · rw [if_neg hreg]
    exact wp_pure hs

/-- Setting up the RX FIFO arms it. -/
theorem fifoSetEndRx_spec {f : Fifo} (hf : f.reg = reg + 0x10) (size : Nat)
    (hs : Trace I host armed s) :
    wp R (fun _ _ => True) (fifoSetEnd v v.rxOps.add f size)
      (fun f' t => f'.reg = reg + 0x10 ∧ Trace I host true t) s := by
  unfold fifoSetEnd ccatEthFifoReset
  refine wp_seq (hwResetRx_spec hv hf hs) fun _ t ht => ?_
  -- every FIFO has at least one slot, so at least one is armed
  refine wp_addSlots_of_add (I := fun f => f.reg = reg + 0x10)
    (P := fun u => ∃ b, Trace I host b u) ?_ ?_ (fun u hu => ⟨true, hu⟩) ?_ ⟨false, ht⟩
  · exact fun f hf' => (ccatEthFifoInc_reg f).trans hf'
  · exact fun f u hf' ⟨b, hu⟩ => hv.addRx host b f u hf' hu
  · exact hf

/-- `fifo_set_end()` of the TX FIFO arms no receive descriptor. -/
theorem fifoSetEndTx_spec {f : Fifo} (hf : f.reg = reg) (size : Nat)
    (hs : Trace I host armed s) :
    wp R (fun _ _ => True) (fifoSetEnd v v.txOps.add f size)
      (fun f' t => f'.reg = reg ∧ Trace I host armed t) s := by
  unfold fifoSetEnd ccatEthFifoReset
  refine wp_seq (hwResetTx_spec hv hf hs) fun _ t ht => ?_
  refine wp_addSlots_of_add (I := fun f => f.reg = reg) ?_ (hv.addTx host armed) (fun u hu => hu)
    ?_ ht
  · exact fun f hf' => (ccatEthFifoInc_reg f).trans hf'
  · exact hf

/-! ### DMA memory -/

omit hv in
/-- `dma_alloc_coherent()`, successful or not. -/
theorem trace_dmaAllocCoherent (hs : Trace I host armed s) (a : Coherent) :
    Trace I (host ++ taken a.base) armed (dmaAllocCoherent a s) := by
  unfold dmaAllocCoherent taken
  by_cases hbase : a.base ≠ 0
  · rw [if_pos hbase, if_pos hbase]
    exact trace_logHost hs _
  · rw [if_neg hbase, if_neg hbase, List.append_nil]
    exact hs

/-- `ccat_dma_free()` frees what there is. -/
theorem ccatDmaFree_spec (hs : Trace I host armed s) (m : DmaMem) :
    wp R (fun _ _ => True) (ccatDmaFree m) (fun _ => Trace I (host ++ freed m.base) armed) s := by
  unfold ccatDmaFree freed
  by_cases hbase : m.base ≠ 0
  · rw [if_pos hbase, if_pos hbase]
    exact wp_seq (wp_logHost hv hs _) fun _ _ ht => wp_pure ht
  · rw [if_neg hbase, if_neg hbase, List.append_nil]
    exact wp_pure hs

/-- `ccat_dma_init()` keeps the buffer it got, also when it fails; otherwise it leaves the FIFO
    as `fifo_set_end()` does. -/
theorem ccatDmaInit_spec {W : AddrWidth} {a : Coherent} {channel : UInt8} {bar2 : Nat}
    {add : Fifo → Prog (Machine δ) Unit} {f : Fifo} {armed' : Bool}
    (hbars : ∀ j k, j < 0x20 → k < 8 * 256 → bar2 + 0x1000 + k ≠ reg + j)
    (hset : ∀ f' t, f'.reg = f.reg → Trace I (host ++ taken a.base) armed t →
      wp R (fun _ _ => True) (fifoSetEnd v add f' CCAT_ALIGNMENT)
        (fun f'' t => f''.reg = f.reg ∧ Trace I (host ++ taken a.base) armed' t) t)
    (hs : Trace I host armed s) :
    wp R (fun _ _ => True) (ccatDmaInit v W a channel.toNat bar2 add f)
      (fun r t => r.2.1.reg = f.reg ∧ r.2.2.base = a.base ∧
        (¬a.Usable ∧ r.1 ≠ 0 ∧ Trace I (host ++ taken a.base) armed t ∨
         a.Usable ∧ r.1 = 0 ∧ Trace I (host ++ taken a.base) armed' t)) s := by
  have hchan : channel.toNat < 256 := channel.toNat_lt
  unfold ccatDmaInit
  refine wp_seq (wp_trace hv hs fun t ht => trace_dmaAllocCoherent ht a) fun _ t ht => ?_
  -- the test of the driver, which also takes bus address 0 for a failure
  by_cases hfail : a.base = 0 ∨ a.phys = 0
  · rw [if_pos hfail]
    refine wp_pure ⟨rfl, rfl, Or.inl ⟨?_, (by decide : -ENOMEM ≠ 0), ht⟩⟩
    exact fun hok => hfail.elim hok.1 hok.2
  · rw [if_neg hfail]
    refine wp_seq (hset _ t rfl ht) fun f' u hu => ?_
    -- the two halves of the channel's base register
    refine wp_seq (wp_iowrite32 hv hu.2 fun j hj => hbars j _ hj (by omega)) fun _ x hx => ?_
    refine wp_seq (wp_iowrite32 hv hx fun j hj => ?_) fun _ y hy => ?_
    · rw [Nat.add_assoc]
      exact hbars j _ hj (by omega)
    · exact wp_pure ⟨hu.1, rfl, Or.inr ⟨not_or.mp hfail, rfl, hy⟩⟩

/-! ### Private data -/

/-- `ccat_eth_priv_free()` resets both FIFOs and frees both buffers. -/
theorem ccatEthPrivFree_spec {priv : EthPriv} (hpriv : Attached reg priv)
    (hs : Trace I host armed s) :
    wp R (fun _ _ => True) (ccatEthPrivFree v priv)
      (fun _ => Trace I (host ++ freed priv.rxDmaMem.base ++ freed priv.txDmaMem.base) false)
      s := by
  unfold ccatEthPrivFree
  refine wp_seq (hwResetRx_spec hv hpriv.rx hs) fun _ t ht => ?_
  refine wp_seq (hwResetTx_spec hv hpriv.tx ht) fun _ t ht => ?_
  refine wp_seq (ccatDmaFree_spec hv ht _) fun _ t ht => ?_
  exact wp_seq (ccatDmaFree_spec hv ht _) fun _ t ht => wp_pure ht

/-- The MAC filter is off, and nothing else has changed. -/
theorem ccatHwDisableMacFilter_spec {priv : EthPriv} (hs : Trace I host armed s) :
    wp R (fun _ _ => True) (ccatHwDisableMacFilter v priv)
      (fun status t => status = 0 ∧ Trace I host armed t) s := by
  unfold ccatHwDisableMacFilter
  refine wp_seq (wp_trace hv hs fun t ht => hv.iowrite8 _ _ _ _ _ ht) fun _ t ht => ?_
  exact wp_pure ⟨rfl, ht⟩

/-- The FIFOs of a probe are initialised. When that failed, freeing the net device leaves nothing
    behind iff `c`; otherwise all memory is kept and the RX FIFO is armed. -/
def InitDone (I : δ → Prop) (reg : Nat) (c : Prop) (valid : Bool) (r : Int × EthPriv)
    (t : Machine δ) : Prop :=
  r.1 ≠ 0 ∧ (∃ host armed, Trace I host armed t ∧
    (Balanced (host ++ [.freeNetdev]) ∧ armed = false ↔ c)) ∨
  r.1 = 0 ∧ Attached reg r.2 ∧ (c ↔ valid = true) ∧
    Trace I ([.allocNetdev] ++ taken r.2.rxDmaMem.base ++ taken r.2.txDmaMem.base) true t

/-- `ccat_eth_priv_init_dma()`: when it fails, and what is left then. -/
theorem ccatEthPrivInitDma_spec {W : AddrWidth} {func : EthFunction} {o : Outcomes}
    {priv : EthPriv} (hpriv : Attached reg priv)
    (hbars : ∀ j k, j < 0x20 → k < 8 * 256 → func.bar2 + 0x1000 + k ≠ reg + j)
    (hs : Trace I [.allocNetdev] false s) :
    wp R (fun _ _ => True) (ccatEthPrivInitDma v W func o priv)
      (InitDone I reg
        (o.rxDma.base = 0 ∨ o.rxDma.Usable ∧ o.txDma.Usable ∧ isValidEtherAddr o.mac = true)
        (isValidEtherAddr o.mac)) s := by
  unfold ccatEthPrivInitDma
  refine wp_seq (ccatDmaInit_spec hv hbars (fun f t hf ht =>
    wp_mono (fifoSetEndRx_spec hv (hf.trans hpriv.rx) _ ht)
      fun f' u hu => ⟨hu.1.trans hpriv.rx.symm, hu.2⟩) hs) fun r t hr => ?_
  obtain ⟨status, rxFifo, rxDmaMem⟩ := r
  obtain ⟨hrxReg, hrxBase, hcase⟩ := hr
  rcases hcase with ⟨hrx, hstatus, ht⟩ | ⟨hrx, hstatus, ht⟩
  · -- the first buffer is not freed, so there must be none
    dsimp only
    rw [if_pos hstatus]
    refine wp_pure (Or.inl ⟨hstatus, _, _, ht, ?_⟩)
    rw [balanced_taken_iff]
    exact ⟨fun h => Or.inl h.1, fun h => ⟨h.elim id fun h => absurd h.1 hrx, rfl⟩⟩
  · dsimp only
    rw [if_neg (not_not_intro hstatus)]
    refine wp_seq (ccatDmaInit_spec hv hbars (fun f t hf ht =>
      wp_mono (fifoSetEndTx_spec hv (hf.trans hpriv.tx) _ ht)
        fun f' u hu => ⟨hu.1.trans hpriv.tx.symm, hu.2⟩) ht) fun r t hr => ?_
    obtain ⟨status', txFifo, txDmaMem⟩ := r
    obtain ⟨htxReg, htxBase, hcase⟩ := hr
    rcases hcase with ⟨htx, hstatus', ht⟩ | ⟨htx, hstatus', ht⟩
    · -- the second buffer: the RX FIFO, set up already, is not reset
      dsimp only
      rw [if_pos hstatus']
      refine wp_seq (ccatDmaFree_spec hv ht rxDmaMem) fun _ u hu => ?_
      refine wp_pure (Or.inl ⟨hstatus', _, _, hu, ?_⟩)
      refine ⟨(fun h => nomatch h.2), fun h => ?_⟩
      exact h.elim (fun h => absurd h hrx.1) fun h => absurd h.2.1 htx
    · dsimp only
      rw [if_neg (not_not_intro hstatus')]
      -- both buffers are there; only the address is left to be checked
      refine wp_seq (ccatHwDisableMacFilter_spec hv ht) fun status'' u hu => ?_
      refine wp_pure (Or.inr ⟨hu.1, ⟨hrxReg.trans hpriv.rx, htxReg.trans hpriv.tx⟩, ?_, ?_⟩)
      · exact ⟨fun h => h.elim (fun h => absurd h hrx.1) fun h => h.2.2,
          fun h => Or.inr ⟨hrx, htx, h⟩⟩
      · dsimp only at hrxBase htxBase ⊢
        rw [hrxBase, htxBase]
        exact hu.2

/-- `ccat_eth_priv_init_eim()` takes nothing and does not fail. -/
theorem ccatEthPrivInitEim_spec {func : EthFunction} {priv : EthPriv} {valid : Bool}
    (hpriv : Attached reg priv) (hrx : priv.rxDmaMem.base = 0) (htx : priv.txDmaMem.base = 0)
    (hs : Trace I [.allocNetdev] false s) :
    wp R (fun _ _ => True) (ccatEthPrivInitEim v func priv)
      (InitDone I reg (valid = true) valid) s := by
  unfold ccatEthPrivInitEim
  refine wp_seq (fifoSetEndRx_spec hv ?_ _ hs) fun rxFifo t ht => ?_
  · exact hpriv.rx
  refine wp_seq (fifoSetEndTx_spec hv ?_ _ ht.2) fun txFifo u hu => ?_
  · exact hpriv.tx
  refine wp_seq (ccatHwDisableMacFilter_spec hv hu.2) fun status x hx => ?_
  refine wp_pure (Or.inr ⟨hx.1, ⟨ht.1, hu.1⟩, Iff.rfl, ?_⟩)
  dsimp only
  rw [hrx, htx]
  exact hx.2

/-! ### Net device -/

/-- What a successful probe has taken, and the private data that says so. -/
def Bound (I : δ → Prop) (reg : Nat) (r : Int × Option EthPriv) (t : Machine δ) : Prop :=
  ∀ eth, r.2 = some eth → Attached reg eth ∧
    Trace I ([.allocNetdev] ++ taken eth.rxDmaMem.base ++ taken eth.txDmaMem.base ++
      [.registerNetdev]) true t

/-- After the FIFOs are set up, a failing probe leaves nothing behind iff the address is
    valid: only then is anything undone. -/
theorem ccatEthInitNetdev_spec {o : Outcomes} {priv : EthPriv} (hpriv : Attached reg priv)
    (hs : Trace I ([.allocNetdev] ++ taken priv.rxDmaMem.base ++ taken priv.txDmaMem.base)
      true s) :
    wp R (fun _ _ => True) (ccatEthInitNetdev v o priv)
      (fun r t => (FailureUndone r t ↔ isValidEtherAddr o.mac = true) ∧ Bound I reg r t) s := by
  unfold ccatEthInitNetdev
  by_cases hvalid : isValidEtherAddr o.mac = true
  · rw [hvalid]
    refine wp_seq (wp_trace hv hs fun t ht => trace_netifCarrierOff ht) fun _ t ht => ?_
    -- the registration may fail, and is undone then
    by_cases hregister : o.register ≠ 0
    · rw [if_pos hregister]
      refine wp_seq (ccatEthPrivFree_spec hv hpriv ht) fun _ u hu => ?_
      refine wp_seq (wp_logHost hv hu .freeNetdev) fun _ x hx => ?_
      -- all that was taken is given back
      have hbalanced := balanced_taken_freed priv.rxDmaMem.base priv.txDmaMem.base balanced_nil
      rw [List.append_nil] at hbalanced
      have hnothing : LeavesNothing x := (leavesNothing_iff hx).mpr ⟨hbalanced, rfl⟩
      exact wp_pure ⟨iff_of_true (fun _ => hnothing) rfl, fun eth heth => nomatch heth⟩
    · rw [if_neg hregister]
      refine wp_seq (wp_logHost hv ht .registerNetdev) fun _ u hu => ?_
      refine wp_pure ⟨iff_of_true (fun h => absurd rfl h) rfl, ?_⟩
      rintro eth ⟨⟩
      exact ⟨hpriv, hu⟩
  · -- nothing at all is given back
    rw [eq_false_of_ne_true hvalid]
    refine wp_pure ⟨iff_of_false (fun h => ?_) (fun h => nomatch h), fun eth heth => nomatch heth⟩
    exact nomatch ((leavesNothing_iff hs).mp (h (by decide : -EADDRNOTAVAIL ≠ 0))).2

/-- Both probes. -/
theorem ccatEthProbe_spec {init : EthPriv → Prog (Machine δ) (Int × EthPriv)}
    {func : EthFunction} {o : Outcomes} {c : Prop}
    (hinit : ∀ t, Trace I [.allocNetdev] false t →
      wp R (fun _ _ => True) (init (ccatEthPrivInitReg func))
        (InitDone I reg c (isValidEtherAddr o.mac)) t)
    (hs : Trace I [] false s) :
    wp R (fun _ _ => True) (ccatEthProbe v init func o)
      (fun r t => (FailureUndone r t ↔ o.etherdev = false ∨ c) ∧ Bound I reg r t) s := by
  unfold ccatEthProbe ccatEthAllocNetdev
  by_cases hdev : o.etherdev = true
  · rw [if_pos hdev]
    refine wp_seq (wp_seq (wp_logHost hv hs .allocNetdev) fun _ t ht =>
      wp_pure (Q := fun p t => p = some (ccatEthPrivInitReg func) ∧
        Trace I [.allocNetdev] false t) ⟨rfl, ht⟩) fun p t hp => ?_
    obtain ⟨rfl, ht⟩ := hp
    refine wp_seq (hinit t ht) fun r u hr => ?_
    obtain ⟨status, priv⟩ := r
    have hfalse : ¬o.etherdev = false := fun h => nomatch hdev.symm.trans h
    rw [or_iff_right hfalse]
    rcases hr with ⟨hstatus, host, armed, hu, hiff⟩ | ⟨hstatus, hpriv, hiff, hu⟩
    · dsimp only
      rw [if_pos hstatus]
      refine wp_seq (wp_logHost hv hu .freeNetdev) fun _ x hx => wp_pure ⟨?_, ?_⟩
      · -- the probe frees the net device and nothing else
        rw [← hiff, ← leavesNothing_iff hx]
        exact ⟨fun h => h hstatus, fun h _ => h⟩
      · exact fun eth heth => nomatch heth
    · dsimp only
      rw [if_neg (not_not_intro hstatus), hiff]
      exact ccatEthInitNetdev_spec hv hpriv hu
  · rw [if_neg hdev]
    -- nothing was taken
    have hnothing : LeavesNothing s := (leavesNothing_iff hs).mpr ⟨balanced_nil, rfl⟩
    exact wp_pure ⟨iff_of_true (fun _ => hnothing) (Or.inl (eq_false_of_ne_true hdev)),
      fun eth heth => nomatch heth⟩

/-- Removing a device that was probed leaves nothing behind. -/
theorem ccatEthRemove_leavesNothing {r : Int × Option EthPriv} (hs : Bound I reg r s)
    (eth : EthPriv) (heth : r.2 = some eth) :
    wp R (fun _ _ => True) (ccatEthRemove v eth) (fun _ => LeavesNothing) s := by
  obtain ⟨hpriv, hs⟩ := hs eth heth
  unfold ccatEthRemove
  refine wp_seq (wp_logHost hv hs .unregisterNetdev) fun _ t ht => ?_
  refine wp_seq (ccatEthPrivFree_spec hv hpriv ht) fun _ u hu => ?_
  refine wp_mono (wp_logHost hv hu .freeNetdev) fun _ x hx => ?_
  refine (leavesNothing_iff hx).mpr ⟨?_, rfl⟩
  -- registering and unregistering take no memory
  rw [List.append_assoc _ [HostEvent.registerNetdev]]
  exact balanced_taken_freed _ _ ⟨by decide, fun base => by simp⟩

end Parts

/-! ## The DMA variant -/

section Dma

variable {reg : Nat} {host : List HostEvent} {armed : Bool}

/-- The hardware adds no access of the driver to the logs. -/
theorem dma_trace_stable : Stable Hw (Trace (fun d : DmaDev => d.txReg = reg) host armed) := by
  intro s t hs hR
  cases hR.effect with
  | lost p _ =>
    exact ⟨hs.dev, hs.host_eq, (rxArmed_concat_of_not _ rfl).trans hs.armed_eq, hs.no_queued⟩
  | stored p off queue _ _ =>
    exact ⟨hs.dev, hs.host_eq, (rxArmed_concat_of_not _ rfl).trans hs.armed_eq, hs.no_queued⟩
  | wire off queue _ _ =>
    exact ⟨hs.dev, hs.host_eq, hs.armed_eq, fun p hp => hs.no_queued p (by simpa using hp)⟩
  | done off queue _ _ => exact ⟨hs.dev, hs.host_eq, hs.armed_eq, hs.no_queued⟩
  | link w => exact ⟨hs.dev, hs.host_eq, hs.armed_eq, hs.no_queued⟩
  | nothing => exact hs

/-- The FIFO operations of the DMA variant. -/
theorem dma_traced (reg : Nat) : Traced dma Hw (fun d => d.txReg = reg) reg where
  stable _ _ := dma_trace_stable
  resetRx host armed s hs := by
    show Trace _ host false (dmaIowrite32 0 (reg + 0x10 + 0x8) s)
    rw [iowrite32_rxReset hs.dev]
    exact ⟨hs.dev, hs.host_eq, rxArmed_concat_reset _, hs.no_queued⟩
  resetTx host armed s hs := by
    show Trace _ host armed (dmaIowrite32 0 (reg + 0x8) s)
    rw [iowrite32_txReset hs.dev]
    exact ⟨hs.dev, hs.host_eq, hs.armed_eq, fun p hp => hs.no_queued p (by simpa using hp)⟩
  iowrite32 host armed s value addr haddr hs := by
    show Trace _ host armed (dmaIowrite32 value addr s)
    rw [iowrite32_other hs.dev value haddr]
    exact ⟨hs.dev, hs.host_eq, hs.armed_eq, hs.no_queued⟩
  iowrite8 host armed s value addr hs := ⟨hs.dev, hs.host_eq, hs.armed_eq, hs.no_queued⟩
  addRx host armed f s hf hs := by
    refine wp_seq (M := fun _ => Trace (fun d => d.txReg = reg) host armed) ?_ fun _ t ht => ?_
    · refine wp_modify dma_trace_stable hs fun t ht => ⟨trivial, ?_⟩
      exact ⟨ht.dev, ht.host_eq, ht.armed_eq, ht.no_queued⟩
    · -- the command arms the slot; clearing its flag did not
      refine wp_modify dma_trace_stable ht fun u hu => ⟨trivial, ?_⟩
      rw [hf, iowrite32_rx hu.dev]
      exact ⟨hu.dev, hu.host_eq, rxArmed_concat_armed _ _, hu.no_queued⟩
  addTx host armed f s hf hs := by
    refine wp_modify dma_trace_stable hs fun t ht => ⟨trivial, ?_⟩
    exact ⟨ht.dev, ht.host_eq, ht.armed_eq, ht.no_queued⟩

end Dma

/-! ## The EIM variant -/

section Eim

variable {reg : Nat} {host : List HostEvent} {armed : Bool}

/-- The hardware of the EIM variant keeps the trace. -/
theorem eim_trace_stable : Stable EimHw (Trace (fun d : EimDev => d.txReg = reg) host armed) := by
  rintro s t hs ⟨a, rfl⟩
  cases a with
  | rxArrive p hpos hle =>
    simp only [eimHwStep]
    unfold eimRxArrive
    split
    · exact ⟨hs.dev, hs.host_eq, (rxArmed_concat_of_not _ rfl).trans hs.armed_eq, hs.no_queued⟩
    · exact ⟨hs.dev, hs.host_eq, (rxArmed_concat_of_not _ rfl).trans hs.armed_eq, hs.no_queued⟩
  | txSent => exact ⟨hs.dev, hs.host_eq, hs.armed_eq, hs.no_queued⟩
  | link w => exact ⟨hs.dev, hs.host_eq, hs.armed_eq, hs.no_queued⟩

/-- The FIFO operations of the EIM variant. -/
theorem eim_traced (reg : Nat) : Traced eim EimHw (fun d => d.txReg = reg) reg where
  stable _ _ := eim_trace_stable
  resetRx host armed s hs := by
    have hreg : s.dev.txReg = reg := hs.dev
    show Trace _ host false (eimIowrite32 0 (reg + 0x10 + 0x8) s)
    unfold eimIowrite32
    rw [if_pos (by omega)]
    exact ⟨hs.dev, hs.host_eq, rxArmed_concat_reset _, hs.no_queued⟩
  resetTx host armed s hs := by
    have hreg : s.dev.txReg = reg := hs.dev
    show Trace _ host armed (eimIowrite32 0 (reg + 0x8) s)
    unfold eimIowrite32
    rw [if_neg (by omega), if_neg (by omega), if_pos (by omega)]
    exact ⟨hs.dev, hs.host_eq, hs.armed_eq, fun p hp => hs.no_queued p (by simpa using hp)⟩
  iowrite32 host armed s value addr haddr hs := by
    have hreg : s.dev.txReg = reg := hs.dev
    -- the address is none of the FIFO registers
    have h0 := haddr 0 (by decide)
    have h8 := haddr 0x8 (by decide)
    have h18 := haddr 0x18 (by decide)
    show Trace _ host armed (eimIowrite32 value addr s)
    unfold eimIowrite32
    rw [if_neg (by omega), if_neg (by omega), if_neg (by omega)]
    exact ⟨hs.dev, hs.host_eq, hs.armed_eq, hs.no_queued⟩
  iowrite8 host armed s value addr hs := ⟨hs.dev, hs.host_eq, hs.armed_eq, hs.no_queued⟩
  addRx host armed f s hf hs := by
    refine wp_modify eim_trace_stable hs fun t ht => ⟨trivial, ?_⟩
    exact ⟨ht.dev, ht.host_eq, rxArmed_concat_armed _ _, ht.no_queued⟩
  addTx host armed f s hf hs := wp_pure hs

end Eim

/-! ## Probes -/

/-- The machine before a probe of `func`, whose FIFO registers lie at `reg`: nothing has
    happened yet. -/
structure BeforeProbe {δ : Type} (func : EthFunction) (reg : Nat) (s : Machine δ) : Prop where
  reg_eq : reg = func.base + func.offsets.txFifo
  hostLog_eq : s.hostLog = []
  rxLog_eq : s.rxLog = []
  txLog_eq : s.txLog = []

/-- The DMA registers in BAR 2 are none of the FIFO registers in BAR 0. -/
def EthFunction.BarsDisjoint (func : EthFunction) : Prop :=
  ∀ j k, j < 0x20 → k < 8 * 256 → func.bar2 + 0x1000 + k ≠ func.base + func.offsets.txFifo + j

/-- The outcomes for which a probe in DMA mode that fails leaves nothing behind: it fails before
    it has taken more than the net device, or both buffers are usable and the address is
    valid. -/
def Outcomes.DmaUndone (o : Outcomes) : Prop :=
  o.etherdev = false ∨ o.rxDma.base = 0 ∨
    o.rxDma.Usable ∧ o.txDma.Usable ∧ isValidEtherAddr o.mac = true

/-- The same in EIM mode. -/
def Outcomes.EimUndone (o : Outcomes) : Prop :=
  o.etherdev = false ∨ isValidEtherAddr o.mac = true

/-- At first the trace is empty. -/
theorem BeforeProbe.trace {δ : Type} {func : EthFunction} {reg : Nat} {s : Machine δ}
    (h : BeforeProbe func reg s) {I : δ → Prop} (hI : I s.dev) : Trace I [] false s := by
  refine ⟨hI, h.hostLog_eq, ?_, ?_⟩
  · rw [h.rxLog_eq]
    rfl
  · rw [h.txLog_eq]
    exact fun p hp => nomatch hp

/-- The FIFOs are at the registers that the function names. -/
theorem attached_privInitReg (func : EthFunction) :
    Attached (func.base + func.offsets.txFifo) (ccatEthPrivInitReg func) := ⟨rfl, rfl⟩

/-- The probe of the DMA variant. -/
theorem ccatEthDmaProbe_spec (W : AddrWidth) {func : EthFunction} (o : Outcomes)
    (hbars : func.BarsDisjoint) {s : DmaMachine} (hs : BeforeProbe func s.dev.txReg s) :
    wp Hw (fun _ _ => True) (ccatEthDmaProbe W func o)
      (fun r t => (FailureUndone r t ↔ o.DmaUndone) ∧
        Bound (fun d => d.txReg = func.base + func.offsets.txFifo)
          (func.base + func.offsets.txFifo) r t) s := by
  have hv := dma_traced (func.base + func.offsets.txFifo)
  refine ccatEthProbe_spec hv (fun t ht => ?_) (hs.trace hs.reg_eq)
  exact ccatEthPrivInitDma_spec hv (attached_privInitReg func) hbars ht

/-- The probe of the EIM variant. -/
theorem ccatEthEimProbe_spec {func : EthFunction} (o : Outcomes) {s : EimMachine}
    (hs : BeforeProbe func s.dev.txReg s) :
    wp EimHw (fun _ _ => True) (ccatEthEimProbe func o)
      (fun r t => (FailureUndone r t ↔ o.EimUndone) ∧
        Bound (fun d => d.txReg = func.base + func.offsets.txFifo)
          (func.base + func.offsets.txFifo) r t) s := by
  have hv := eim_traced (func.base + func.offsets.txFifo)
  refine ccatEthProbe_spec hv (fun t ht => ?_) (hs.trace hs.reg_eq)
  exact ccatEthPrivInitEim_spec hv (attached_privInitReg func) rfl rfl ht

/-- For which outcomes a failing probe leaves nothing behind, whatever the hardware does
    meanwhile. -/
theorem failureUndone_iff (W : AddrWidth) (func : EthFunction) (o : Outcomes)
    (hbars : func.BarsDisjoint) (s : DmaMachine) (hs : BeforeProbe func s.dev.txReg s)
    (t : EimMachine) (ht : BeforeProbe func t.dev.txReg t) :
    (wp Hw (fun _ _ => True) (ccatEthDmaProbe W func o) FailureUndone s ↔ o.DmaUndone) ∧
      (wp EimHw (fun _ _ => True) (ccatEthEimProbe func o) FailureUndone t ↔ o.EimUndone) := by
  constructor
  · exact wp_iff (wp_mono (ccatEthDmaProbe_spec W o hbars hs) fun _ _ h => h.1)
  · exact wp_iff (wp_mono (ccatEthEimProbe_spec o ht) fun _ _ h => h.1)

/-- A device that was probed leaves nothing behind when it is removed. -/
theorem remove_leavesNothing (W : AddrWidth) (func : EthFunction) (o : Outcomes)
    (hbars : func.BarsDisjoint) (s : DmaMachine) (hs : BeforeProbe func s.dev.txReg s)
    (t : EimMachine) (ht : BeforeProbe func t.dev.txReg t) :
    wp Hw (fun _ _ => True) (ccatEthDmaProbe W func o)
        (fun r u => ∀ eth, r.2 = some eth →
          wp Hw (fun _ _ => True) (ccatEthDmaRemove eth) (fun _ => LeavesNothing) u) s ∧
      wp EimHw (fun _ _ => True) (ccatEthEimProbe func o)
        (fun r u => ∀ eth, r.2 = some eth →
          wp EimHw (fun _ _ => True) (ccatEthEimRemove eth) (fun _ => LeavesNothing) u) t := by
  constructor
  · refine wp_mono (ccatEthDmaProbe_spec W o hbars hs) fun r u h => ?_
    exact ccatEthRemove_leavesNothing (dma_traced _) h.2
  · refine wp_mono (ccatEthEimProbe_spec o ht) fun r u h => ?_
    exact ccatEthRemove_leavesNothing (eim_traced _) h.2

/-- A function at offset `0x1000` of BAR 0. -/
def EthFunction.atOffset : EthFunction where
  bar0 := 0x100000
  bar2 := 0x200000
  addr := 0x1000
  rxDmaChan := 0
  txDmaChan := 1
  txSize := 0x1000
  offsets := ⟨0x100, 0x200, 0x300, 0x1000, 0x2000, 0x400⟩

/-- The two BARs are far apart. -/
theorem barsDisjoint_atOffset : EthFunction.atOffset.BarsDisjoint := by
  intro j k hj hk
  show 0x200000 + 0x1000 + k ≠ 0x100000 + 0x1000 + 0x200 + j
  omega

/-- Both buffers are allocated, but the device holds no address. -/
def Outcomes.noAddress : Outcomes where
  etherdev := true
  rxDma := ⟨0x400000, 0x400000⟩
  txDma := ⟨0x500000, 0x500000⟩
  mac := Vector.replicate 6 0
  register := 0

/-- Buffers are granted, but the card has no valid address. -/
theorem failureUndone_iff_noAddress :
    (wp Hw (fun _ _ => True) (ccatEthDmaProbe ⟨.long64, .long64⟩ .atOffset .noAddress) FailureUndone
        (DmaMachine.zeroed 0x101200 0 0) ↔ Outcomes.noAddress.DmaUndone) ∧
      (wp EimHw (fun _ _ => True) (ccatEthEimProbe .atOffset .noAddress) FailureUndone
        (EimMachine.zeroed 0x101200 0) ↔ Outcomes.noAddress.EimUndone) :=
  failureUndone_iff ⟨.long64, .long64⟩ .atOffset .noAddress barsDisjoint_atOffset
    (DmaMachine.zeroed 0x101200 0 0) ⟨rfl, rfl, rfl, rfl⟩
    (EimMachine.zeroed 0x101200 0) ⟨rfl, rfl, rfl, rfl⟩

/-- Without an address, neither probe leaves nothing behind. -/
theorem not_failureUndone_noAddress :
    ¬ ∀ (W : AddrWidth) (func : EthFunction) (o : Outcomes), func.BarsDisjoint →
      ∀ (s : DmaMachine) (t : EimMachine), BeforeProbe func s.dev.txReg s →
        BeforeProbe func t.dev.txReg t →
        wp Hw (fun _ _ => True) (ccatEthDmaProbe W func o) FailureUndone s ∧
          wp EimHw (fun _ _ => True) (ccatEthEimProbe func o) FailureUndone t := by
  intro hall
  have hdma := (hall ⟨.long64, .long64⟩ .atOffset .noAddress barsDisjoint_atOffset
    (DmaMachine.zeroed 0x101200 0 0) (EimMachine.zeroed 0x101200 0) ⟨rfl, rfl, rfl, rfl⟩
    ⟨rfl, rfl, rfl, rfl⟩).1
  have hspec := ccatEthDmaProbe_spec ⟨.long64, .long64⟩ .noAddress barsDisjoint_atOffset
    (s := DmaMachine.zeroed 0x101200 0 0) ⟨rfl, rfl, rfl, rfl⟩
  rcases (wp_iff (wp_mono hspec fun _ _ h => h.1)).mp hdma with h | h | ⟨-, -, h⟩
  · exact nomatch h
  · exact nomatch h
  · exact absurd h (by decide)

end Ccat.Native.Eth
