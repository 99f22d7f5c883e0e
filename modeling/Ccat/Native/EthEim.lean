import Ccat.ForStd.Memory
import Ccat.Native.Eth

/-!
# Ethernet function block, EIM variant (`netdev.c`)

Without DMA the frames lie in memory of the CCAT itself. There is one slot to receive
into: the CCAT stores a frame there when its length is 0, and the driver writes that 0
when it is done with the slot. To transmit, the driver fills a slot and writes its
offset to the register of the FIFO; the MAC counts the frames it has still to send.

Frames are kept by their address.
-/

namespace Ccat.Native.Eth

open Interleave Memory

def TX_FIFO_LEVEL_MASK : Nat := 0x3F

/-- `struct ccat_eim_frame`, the header field in use and the data. -/
structure EimFrame where
  length : Nat
  data : Nat → UInt8

/-- The `struct ccat_eim_frame` at `addr` of a memory of bytes. -/
def EimFrame.ofBytes (bytes : Nat → UInt8) (addr : Nat) : EimFrame where
  length := leNat (slice bytes addr 2)
  data i := bytes (addr + EIM_HDR_SIZE + i)

structure EimDev where
  /-- Address of `tx_fifo.reg`; `rx_fifo.reg` is `0x10` behind it. -/
  txReg : Nat
  /-- Address of the slot to receive into. -/
  rxBase : Nat
  rxMem : Nat → EimFrame
  txMem : Nat → EimFrame
  /-- The offset written to `tx_fifo.reg` last. -/
  txSlot : Nat
  /-- Number of frames to send, `tx_fifo_level` at `reg.mac + 0x20`. -/
  txLevel : Nat
  /-- The word at `reg.mii + 0xc`. -/
  mii : Nat
  /-- Last values written to other registers. -/
  regs : Nat → Nat

abbrev EimMachine := Machine EimDev

/-- Assignment to fields of the frame at `addr`. -/
def setEimFrame (mem : Nat → EimFrame) (addr : Nat) (g : EimFrame → EimFrame) : Nat → EimFrame :=
  fun p => if p = addr then g (mem p) else mem p

/-! ## The CCAT -/

/-- A register write, as the CCAT takes it. -/
def eimIowrite32 (value addr : Nat) (s : EimMachine) : EimMachine :=
  if addr = s.dev.txReg + 0x18 then { s with rxLog := s.rxLog ++ [.reset] }
  else if addr = s.dev.txReg then
    { s with dev.txSlot := value, dev.txLevel := s.dev.txLevel + 1 }
  else if addr = s.dev.txReg + 0x8 then
    -- frames that were not sent yet are given up
    { s with dev.txLevel := 0, txLog := s.txLog ++ [.reset] }
  else { s with dev.regs := fun p => if p = addr then value else s.dev.regs p }

def eimIowrite8 (value addr : Nat) (s : EimMachine) : EimMachine :=
  { s with dev.regs := fun p => if p = addr then value else s.dev.regs p }

/-- What the hardware can do on its own. -/
inductive EimHwStep where
  /-- A frame of 1 to 2032 bytes arrives. -/
  | rxArrive (payload : List UInt8) (hpos : 0 < payload.length) (hle : payload.length ≤ 2032)
  | txSent
  | link (word : Nat)

/-- An arriving frame is stored in the slot when that is free, or lost. -/
def eimRxArrive (p : List UInt8) (s : EimMachine) : EimMachine :=
  if (s.dev.rxMem s.dev.rxBase).length = 0 then
    { s with
      dev.rxMem := setEimFrame s.dev.rxMem s.dev.rxBase fun fr =>
        -- the hardware counts its header in
        ⟨p.length + EIM_HDR_SIZE, blit fr.data 0 p⟩
      rxLog := s.rxLog ++ [.stored p] }
  else { s with rxLog := s.rxLog ++ [.lost p] }

def eimHwStep : EimHwStep → EimMachine → EimMachine
  | .rxArrive p _ _, s => eimRxArrive p s
  | .txSent, s => { s with dev.txLevel := s.dev.txLevel - 1 }
  | .link w, s => { s with dev.mii := w }

/-- One step of the hardware. -/
def EimHw (s t : EimMachine) : Prop := ∃ a, t = eimHwStep a s

/-! ## FIFO operations -/

/-- `fifo_eim_tx_ready()`; `tx_fifo_level` has 7 bits. -/
def fifoEimTxReady (_ : Fifo) : Prog EimMachine Nat :=
  .read fun s => if s.dev.txLevel % 2 ^ 7 &&& TX_FIFO_LEVEL_MASK = 0 then 1 else 0

/-- `fifo_eim_rx_ready()`. -/
def fifoEimRxReady (f : Fifo) : Prog EimMachine Nat := do
  let len ← Prog.read fun s => (s.dev.rxMem f.next).length
  return if len < EIM_HDR_SIZE then 0 else len - EIM_HDR_SIZE

/-- `fifo_eim_rx_add()`. -/
def fifoEimRxAdd (f : Fifo) : Prog EimMachine Unit :=
  .modify fun s =>
    { s with
      dev.rxMem := setEimFrame s.dev.rxMem f.next fun fr => { fr with length := 0 }
      rxLog := s.rxLog ++ [.armed (f.next - f.start)] }

/-- `fifo_eim_tx_add()`. -/
def fifoEimTxAdd (_ : Fifo) : Prog EimMachine Unit := pure ()

/-- `fifo_eim_copy_to_linear_skb()`. -/
def fifoEimCopyToLinearSkb (f : Fifo) (len : Nat) : Prog EimMachine (List UInt8) :=
  .read fun s => slice (s.dev.rxMem f.next).data 0 len

/-- `fifo_eim_queue_skb()`. The log records the frame with the write that queues it. -/
def fifoEimQueueSkb (f : Fifo) (skb : Skb) : Prog EimMachine Unit := do
  Prog.modify fun s =>
    { s with
      dev.txMem := setEimFrame s.dev.txMem f.next fun fr =>
        { fr with length := skb.len % 2 ^ 16 } }
  Prog.modify fun s =>
    { s with
      dev.txMem := setEimFrame s.dev.txMem f.next fun fr =>
        { fr with data := blit fr.data 0 skb.data } }
  Prog.modify fun s =>
    eimIowrite32 ((f.next - f.start) % 2 ^ 32) f.reg
      { s with txLog := s.txLog ++ [.queued skb.data] }

def eimRxFifoOps : RxOps EimDev where
  ready := fifoEimRxReady
  add := fifoEimRxAdd
  copyToSkb := fifoEimCopyToLinearSkb

def eimTxFifoOps : TxOps EimDev where
  ready := fifoEimTxReady
  add := fifoEimTxAdd
  queueSkb := fifoEimQueueSkb

def eim : Variant EimDev where
  rxOps := eimRxFifoOps
  txOps := eimTxFifoOps
  iowrite32 := eimIowrite32
  iowrite8 := eimIowrite8
  readMii s := s.dev.mii

/-! ## The driver among hardware steps -/

/-- The driver's callbacks: the timer at any time, `ccat_eth_start_xmit()` while the transmit
    queue is awake. -/
inductive EimCallback (priv : Priv) (s : EimMachine) : Prog EimMachine Priv → Prop where
  | timer : EimCallback priv s (pollTimerCallback eim priv)
  | startXmit (skb : Skb) (hawake : s.net.awake = true) :
      EimCallback priv s (do
        let (_, txFifo) ← ccatEthStartXmit eim priv.txFifo skb
        return { priv with txFifo := txFifo })

/-- The driver in EIM mode with its hardware. -/
def eimSystem : System EimMachine Priv where
  env := EimHw
  enabled := EimCallback

/-- The FIFO set-up of `ccat_eth_priv_init_eim()`; `txSize` is `func->info.tx_size`. -/
def setUpEimFifos (rx tx : Fifo) (txSize : Nat) : Prog EimMachine Priv := do
  let rxFifo ← fifoSetEnd eim eim.rxOps.add rx FRAME_SIZE
  let txFifo ← fifoSetEnd eim eim.txOps.add tx txSize
  return ⟨rxFifo, txFifo⟩

/-- A machine with zeroed memory, the slot to receive into at `rxBase` and the TX register at
    `reg`. -/
def EimMachine.zeroed (reg rxBase : Nat) : EimMachine where
  net := ⟨true, false, 0, 0, 0, 0⟩
  dev :=
    { txReg := reg
      rxBase := rxBase
      rxMem := fun _ => ⟨0, fun _ => 0⟩
      txMem := fun _ => ⟨0, fun _ => 0⟩
      txSlot := 0
      txLevel := 0
      mii := 0
      regs := fun _ => 0 }
  rxLog := []
  txLog := []
  hostLog := []

end Ccat.Native.Eth
