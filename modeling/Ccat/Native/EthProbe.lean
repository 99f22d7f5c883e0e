import Ccat.Native.EthDma
import Ccat.Native.EthEim

/-!
# Ethernet function block, probe and remove (`netdev.c`)

A probe allocates the net device, finds the registers of the function, sets up both
FIFOs and registers the device. What the kernel and the device answer on the way are
the `Outcomes` of the probe.
-/

namespace Ccat.Native.Eth

open Interleave

/-- `struct ccat_mac_infoblock`: offsets of the registers in the function. -/
structure MacInfoblock where
  mii : Nat
  txFifo : Nat
  mac : Nat
  rxMem : Nat
  txMem : Nat
  misc : Nat

/-- The parts of `struct ccat_function` (and its `struct ccat_device`) a probe looks at, with
    the info block found there. -/
structure EthFunction where
  bar0 : Nat
  bar2 : Nat
  addr : Nat
  rxDmaChan : UInt8
  txDmaChan : UInt8
  txSize : Nat
  offsets : MacInfoblock

def EthFunction.base (func : EthFunction) : Nat := func.bar0 + func.addr

/-- An answer of `dma_alloc_coherent()`: CPU-viewed and device-viewed address. -/
structure Coherent where
  base : Nat
  phys : Nat

/-- The answers to a probe. -/
structure Outcomes where
  /-- `alloc_etherdev()` does not return `NULL`. -/
  etherdev : Bool
  rxDma : Coherent
  txDma : Coherent
  /-- The bytes at `reg.mii + 8`. -/
  mac : Vector UInt8 6
  /-- The result of `register_netdev()`. -/
  register : Int

/-- `struct ccat_eth_register`. -/
structure EthRegister where
  mii : Nat
  mac : Nat
  rxMem : Nat
  txMem : Nat
  misc : Nat

/-- `struct ccat_dma_mem`. -/
structure DmaMem where
  size : Nat
  phys : Nat
  base : Nat

/-- `struct ccat_eth_priv`, with the `dma_mem` of both FIFOs. -/
structure EthPriv extends Priv where
  reg : EthRegister
  rxDmaMem : DmaMem
  txDmaMem : DmaMem

/-! ## Kernel services -/

section Kernel

variable {δ : Type}

def logHost (e : HostEvent) (s : Machine δ) : Machine δ := { s with hostLog := s.hostLog ++ [e] }

/-- `dma_alloc_coherent()`; a null pointer is no buffer. -/
def dmaAllocCoherent (a : Coherent) (s : Machine δ) : Machine δ :=
  if a.base ≠ 0 then logHost (.dmaAlloc a.base) s else s

end Kernel

/-- The widths of `unsigned long` and of `dma_addr_t`; a 32-bit kernel may have bus addresses of
    64 bits. -/
structure AddrWidth where
  long : LongWidth
  dma : LongWidth

/-- `PTR_ALIGN(phys, CCAT_ALIGNMENT)`. The address is cast to `unsigned long`, rounded up there
    and cast back to `dma_addr_t`. -/
def ptrAlign (W : AddrWidth) (phys : Nat) : Nat :=
  (phys % 2 ^ W.long.bits + (CCAT_ALIGNMENT - 1)) % 2 ^ W.long.bits / CCAT_ALIGNMENT *
    CCAT_ALIGNMENT % 2 ^ W.dma.bits

/-- `is_valid_ether_addr()`: neither a multicast address nor all zero. -/
def isValidEtherAddr (mac : Vector UInt8 6) : Bool :=
  !(mac[0] &&& 1 != 0) && !(mac.toList.all (· == 0))

section Common

variable {δ : Type} (v : Variant δ)

/-! ## DMA memory -/

/-- `ccat_dma_free()`: the cleared management data. -/
def ccatDmaFree (dma : DmaMem) : Prog (Machine δ) DmaMem :=
  if dma.base ≠ 0 then do
    Prog.modify (logHost (.dmaFree dma.base))
    return ⟨0, 0, 0⟩
  else return dma

/-- `ccat_dma_init()` with the answer `a`; `add` is the one of the FIFO's operations. -/
def ccatDmaInit (W : AddrWidth) (a : Coherent) (channel bar2 : Nat)
    (add : Fifo → Prog (Machine δ) Unit) (f : Fifo) : Prog (Machine δ) (Int × Fifo × DmaMem) := do
  Prog.modify (dmaAllocCoherent a)
  if a.base = 0 ∨ a.phys = 0 then
    -- also with a buffer at bus address 0, which stays with the FIFO
    return (-ENOMEM, f, ⟨2 * CCAT_ALIGNMENT - 1, a.phys, a.base⟩)
  else do
    let ioaddr := bar2 + 0x1000 + 8 * channel
    let phys := ptrAlign W a.phys
    let physHi := if W.dma.bits > 32 then phys / 2 ^ 32 else 0
    -- the difference is a `dma_addr_t`, the sum a pointer
    let distance := (phys + 2 ^ W.dma.bits - a.phys) % 2 ^ W.dma.bits
    let f := { f with start := (a.base + distance) % 2 ^ W.long.bits }
    let f ← fifoSetEnd v add f CCAT_ALIGNMENT
    -- bit 0 enables 64 bit mode on ccat
    Prog.modify (v.iowrite32 (phys % 2 ^ 32 ||| if physHi > 0 then 1 else 0) ioaddr)
    Prog.modify (v.iowrite32 physHi (ioaddr + 4))
    return (0, f, ⟨2 * CCAT_ALIGNMENT - 1, a.phys, a.base⟩)

/-! ## Private data -/

/-- `ccat_eth_priv_free()`. -/
def ccatEthPrivFree (priv : EthPriv) : Prog (Machine δ) EthPriv := do
  ccatEthFifoHwReset v priv.rxFifo
  ccatEthFifoHwReset v priv.txFifo
  let rxDmaMem ← ccatDmaFree priv.rxDmaMem
  let txDmaMem ← ccatDmaFree priv.txDmaMem
  return { priv with rxDmaMem := rxDmaMem, txDmaMem := txDmaMem }

/-- `ccat_hw_disable_mac_filter()`. -/
def ccatHwDisableMacFilter (priv : EthPriv) : Prog (Machine δ) Int := do
  Prog.modify (v.iowrite8 0 (priv.reg.mii + 0x8 + 6))
  return 0

/-- `ccat_eth_priv_init_dma()`. -/
def ccatEthPrivInitDma (W : AddrWidth) (func : EthFunction) (o : Outcomes) (priv : EthPriv) :
    Prog (Machine δ) (Int × EthPriv) := do
  let (status, rxFifo, rxDmaMem) ←
    ccatDmaInit v W o.rxDma func.rxDmaChan.toNat func.bar2 v.rxOps.add priv.rxFifo
  let priv := { priv with rxFifo := rxFifo, rxDmaMem := rxDmaMem }
  if status ≠ 0 then return (status, priv)
  else do
    let (status, txFifo, txDmaMem) ←
      ccatDmaInit v W o.txDma func.txDmaChan.toNat func.bar2 v.txOps.add priv.txFifo
    let priv := { priv with txFifo := txFifo, txDmaMem := txDmaMem }
    if status ≠ 0 then do
      -- the RX FIFO was set up before; only its memory is given back
      let rxDmaMem ← ccatDmaFree priv.rxDmaMem
      return (status, { priv with rxDmaMem := rxDmaMem })
    else do
      let status ← ccatHwDisableMacFilter v priv
      return (status, priv)

/-- `ccat_eth_priv_init_eim()`. -/
def ccatEthPrivInitEim (func : EthFunction) (priv : EthPriv) : Prog (Machine δ) (Int × EthPriv) :=
  do
    let rxFifo ← fifoSetEnd v v.rxOps.add { priv.rxFifo with start := priv.reg.rxMem } FRAME_SIZE
    let txFifo ← fifoSetEnd v v.txOps.add { priv.txFifo with start := priv.reg.txMem } func.txSize
    let priv := { priv with rxFifo := rxFifo, txFifo := txFifo }
    let status ← ccatHwDisableMacFilter v priv
    return (status, priv)

/-- `ccat_eth_priv_init_reg()`, on zeroed private data. -/
def ccatEthPrivInitReg (func : EthFunction) : EthPriv where
  rxFifo := ⟨func.base + func.offsets.txFifo + 0x10, 0, 0, 0⟩
  txFifo := ⟨func.base + func.offsets.txFifo, 0, 0, 0⟩
  reg :=
    { mii := func.base + func.offsets.mii
      mac := func.base + func.offsets.mac
      rxMem := func.base + func.offsets.rxMem
      txMem := func.base + func.offsets.txMem
      misc := func.base + func.offsets.misc }
  rxDmaMem := ⟨0, 0, 0⟩
  txDmaMem := ⟨0, 0, 0⟩

/-! ## Net device -/

/-- `ccat_eth_alloc_netdev()`. -/
def ccatEthAllocNetdev (func : EthFunction) (o : Outcomes) : Prog (Machine δ) (Option EthPriv) :=
  if o.etherdev then do
    Prog.modify (logHost .allocNetdev)
    return some (ccatEthPrivInitReg func)
  else return none

/-- `ccat_eth_init_netdev()`: the status and `func->private_data`. -/
def ccatEthInitNetdev (o : Outcomes) (priv : EthPriv) : Prog (Machine δ) (Int × Option EthPriv) :=
  -- the caller has set up everything, and leaves undoing it to this function
  if !isValidEtherAddr o.mac then return (-EADDRNOTAVAIL, none)
  else do
    Prog.modify netifCarrierOff
    if o.register ≠ 0 then do
      let _ ← ccatEthPrivFree v priv
      Prog.modify (logHost .freeNetdev)
      return (o.register, none)
    else do
      Prog.modify (logHost .registerNetdev)
      return (0, some priv)

/-- What follows the allocation of the net device in both probes; `init` sets up the FIFOs. -/
def ccatEthProbe (init : EthPriv → Prog (Machine δ) (Int × EthPriv)) (func : EthFunction)
    (o : Outcomes) : Prog (Machine δ) (Int × Option EthPriv) := do
  match ← ccatEthAllocNetdev func o with
  | none => return (-ENOMEM, none)
  | some priv => do
    let (status, priv) ← init priv
    if status ≠ 0 then do
      Prog.modify (logHost .freeNetdev)
      return (status, none)
    else ccatEthInitNetdev v o priv

/-- Both remove functions. -/
def ccatEthRemove (eth : EthPriv) : Prog (Machine δ) Unit := do
  Prog.modify (logHost .unregisterNetdev)
  let _ ← ccatEthPrivFree v eth
  Prog.modify (logHost .freeNetdev)

end Common

/-! ## Drivers -/

/-- `ccat_eth_dma_probe()`. -/
def ccatEthDmaProbe (W : AddrWidth) (func : EthFunction) (o : Outcomes) :
    Prog DmaMachine (Int × Option EthPriv) :=
  ccatEthProbe dma (ccatEthPrivInitDma dma W func o) func o

/-- `ccat_eth_dma_remove()`. -/
def ccatEthDmaRemove (eth : EthPriv) : Prog DmaMachine Unit := ccatEthRemove dma eth

/-- `ccat_eth_eim_probe()`. -/
def ccatEthEimProbe (func : EthFunction) (o : Outcomes) :
    Prog EimMachine (Int × Option EthPriv) :=
  ccatEthProbe eim (ccatEthPrivInitEim eim func) func o

/-- `ccat_eth_eim_remove()`. -/
def ccatEthEimRemove (eth : EthPriv) : Prog EimMachine Unit := ccatEthRemove eim eth

end Ccat.Native.Eth
