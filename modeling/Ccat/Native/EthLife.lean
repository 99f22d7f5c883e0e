import Ccat.ForStd.History
import Ccat.Native.EthProbe

/-!
# DMA buffers over the life of a function (`netdev.c`)

A function in DMA mode is probed, polled and removed any number of times, and a probe
may fail at any step. The CCAT stores an arriving frame at the address in the base
register of its RX channel plus the offset in the descriptor, so it matters at every
point which buffers the function has: they are followed as a history of the run.
-/

namespace Ccat.Native.Eth

open Interleave

/-- A device in DMA mode and the buffers that are allocated to it. -/
abbrev DmaLife := DmaMachine × List Coherent

/-! ## Buffers -/

/-- `dma->size`. -/
def DMA_SIZE : Nat := 2 * CCAT_ALIGNMENT - 1

/-- The buffers after an event, `answers` being what `dma_alloc_coherent()` answers with. -/
def followBuffers (answers live : List Coherent) : HostEvent → List Coherent
  | .dmaAlloc base => answers.filter (·.base = base) ++ live
  | .dmaFree base => live.filter (·.base ≠ base)
  | _ => live

/-- The buffers after an update. -/
def observeBuffers (answers : List Coherent) (s t : DmaMachine) (live : List Coherent) :
    List Coherent :=
  (t.hostLog.drop s.hostLog.length).foldl (followBuffers answers) live

/-- What `dma_alloc_coherent()` promises: a buffer lies in the address space of the bus, and is
    none of those that are allocated. -/
structure Outcomes.Allocated (W : AddrWidth) (o : Outcomes) (live : List Coherent) : Prop where
  rxFits : o.rxDma.base ≠ 0 → o.rxDma.phys + DMA_SIZE ≤ 2 ^ W.dma.bits
  txFits : o.txDma.base ≠ 0 → o.txDma.phys + DMA_SIZE ≤ 2 ^ W.dma.bits
  rxNew : ∀ b ∈ live, b.base ≠ o.rxDma.base
  txNew : ∀ b ∈ live, b.base ≠ o.txDma.base
  distinct : o.rxDma.base ≠ 0 → o.rxDma.base ≠ o.txDma.base

/-! ## Base registers -/

/-- Address of the base register pair of a DMA channel. -/
def EthFunction.dmaBase (func : EthFunction) (channel : UInt8) : Nat :=
  func.bar2 + 0x1000 + 8 * channel.toNat

/-- The upper word for the bus address `phys`. -/
def baseHigh (W : AddrWidth) (phys : Nat) : Nat := if W.dma.bits > 32 then phys / 2 ^ 32 else 0

/-- The lower word; bit 0 enables 64 bit mode. -/
def baseLow (W : AddrWidth) (phys : Nat) : Nat :=
  phys % 2 ^ 32 ||| if baseHigh W phys > 0 then 1 else 0

/-! ## The life of a function -/

/-- The hardware. Nothing is assumed of the memory that frames are stored in, as that depends on
    the base register. -/
def LifeHw (x y : DmaLife) : Prop :=
  ∃ a mem, y = ({ hwStep a x.1 with dev.rx.mem := mem }, x.2)

/-- What happens to a function, `some eth` being its private data while it is bound. Probes are
    among those with outcomes in `C`. -/
inductive LifeCall (W : AddrWidth) (func : EthFunction) (C : Outcomes → DmaLife → Prop) :
    Option EthPriv → DmaLife → Prog DmaLife (Option EthPriv) → Prop where
  | probe {x} (o : Outcomes) (halloc : o.Allocated W x.2) (hmeets : C o x) :
      LifeCall W func C none x ((do
        let (_, eth) ← ccatEthDmaProbe W func o
        return eth).track (observeBuffers [o.rxDma, o.txDma]))
  | timer {x} (eth : EthPriv) :
      LifeCall W func C (some eth) x ((do
        let priv ← pollTimerCallback dma eth.toPriv
        return some { eth with toPriv := priv }).track (observeBuffers []))
  | startXmit {x} (eth : EthPriv) (skb : Skb) :
      LifeCall W func C (some eth) x ((do
        let (_, txFifo) ← ccatEthStartXmit dma eth.txFifo skb
        return some { eth with txFifo := txFifo }).track (observeBuffers []))
  | remove {x} (eth : EthPriv) :
      LifeCall W func C (some eth) x ((do
        ccatEthDmaRemove eth
        return none).track (observeBuffers []))

/-- A function in DMA mode from one probe to the next. -/
def lifeSystem (W : AddrWidth) (func : EthFunction) (C : Outcomes → DmaLife → Prop) :
    System DmaLife (Option EthPriv) where
  env := LifeHw
  enabled := LifeCall W func C

/-! ## The life of a function in either mode -/

/-- A function, and the net device while it is bound. -/
structure Owner where
  /-- `func->private_data`. -/
  eth : Option EthPriv
  /-- The net device is up: `ccat_eth_open()` has armed the poll timer. -/
  up : Bool
  /-- Ghost: what the probes so far were answered. -/
  probes : List Outcomes

section

variable {δ : Type}

/-- What happens to a function whose driver has the probe function `probe`. The stack transmits
    while the net device is up, and `unregister_netdev()` takes it down first. -/
inductive OwnerCall (v : Variant δ) (probe : Outcomes → Prog (Machine δ) (Int × Option EthPriv)) :
    Owner → Prog (Machine δ) Owner → Prop where
  | probe {os} (o : Outcomes) : OwnerCall v probe ⟨none, false, os⟩ (do
      let (_, eth) ← probe o
      return ⟨eth, false, os ++ [o]⟩)
  | ccatEthOpen {eth os} : OwnerCall v probe ⟨some eth, false, os⟩ (return ⟨some eth, true, os⟩)
  | timer {eth os} : OwnerCall v probe ⟨some eth, true, os⟩ (do
      let priv ← pollTimerCallback v eth.toPriv
      return ⟨some { eth with toPriv := priv }, true, os⟩)
  | startXmit {eth os} (skb : Skb) : OwnerCall v probe ⟨some eth, true, os⟩ (do
      let (_, txFifo) ← ccatEthStartXmit v eth.txFifo skb
      return ⟨some { eth with txFifo := txFifo }, true, os⟩)
  | ccatEthStop {eth os} : OwnerCall v probe ⟨some eth, true, os⟩ (do
      Prog.modify netifStopQueue
      return ⟨some eth, false, os⟩)
  | remove {eth os} : OwnerCall v probe ⟨some eth, false, os⟩ (do
      ccatEthRemove v eth
      return ⟨none, false, os⟩)

/-- A function among the steps `hw` of its hardware. -/
def ownerSystem (v : Variant δ) (hw : Machine δ → Machine δ → Prop)
    (probe : Outcomes → Prog (Machine δ) (Int × Option EthPriv)) :
    System (Machine δ) Owner where
  env := hw
  enabled p _ := OwnerCall v probe p

end

end Ccat.Native.Eth
