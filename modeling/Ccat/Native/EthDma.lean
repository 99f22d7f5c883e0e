import Ccat.ForStd.Memory
import Ccat.Native.Eth

/-!
# Ethernet function block, DMA variant (`netdev.c`)

The driver and the CCAT share two rings of frames in DMA memory. To receive, the driver
hands the CCAT the offsets of empty slots; the CCAT takes the oldest for the next frame
that arrives, stores it and flags the slot. To transmit, the driver hands over the
offset of a slot it has filled; the CCAT sends the slots in order and flags each when
it is done. A write to the register next to a FIFO's drops all descriptors in it.

Frames are kept by their address in the memory of their ring.
-/

namespace Ccat.Native.Eth

open Interleave Memory

def CCAT_FRAME_RECEIVED : Nat := 0x1
def CCAT_FRAME_SENT : Nat := 0x1

/-- Offsets of `rx_flags` and `length` in `struct ccat_dma_frame_hdr`. -/
def OFFSET_RX_FLAGS : Nat := 4
def OFFSET_LENGTH : Nat := 8

/-- `struct ccat_dma_frame`, the header fields in use and the data. -/
structure DmaFrame where
  rxFlags : Nat
  length : Nat
  txFlags : Nat
  data : Nat → UInt8

/-- One DMA channel: its ring, the address at which the CCAT sees offset 0, and the
    descriptors queued, by slot offset. -/
structure DmaChannel where
  mem : Nat → DmaFrame
  base : Nat
  queue : List Nat

structure DmaDev where
  /-- Address of `tx_fifo.reg`; `rx_fifo.reg` is `0x10` behind it. -/
  txReg : Nat
  rx : DmaChannel
  tx : DmaChannel
  /-- The first frame in the TX queue was put on the wire but is not flagged yet. -/
  transmitting : Bool
  /-- The word at `reg.mii + 0xc`. -/
  mii : Nat
  /-- Last values written to other registers. -/
  regs : Nat → Nat

abbrev DmaMachine := Machine DmaDev

/-- Assignment to fields of the frame at `addr`. -/
def setFrame (mem : Nat → DmaFrame) (addr : Nat) (g : DmaFrame → DmaFrame) : Nat → DmaFrame :=
  fun p => if p = addr then g (mem p) else mem p

/-! ## The CCAT -/

/-- A register write, as the CCAT takes it. -/
def dmaIowrite32 (value addr : Nat) (s : DmaMachine) : DmaMachine :=
  if addr = s.dev.txReg + 0x10 then
    { s with
      dev.rx.queue := s.dev.rx.queue ++ [value % 2 ^ 31]
      rxLog := s.rxLog ++ [.armed (value % 2 ^ 31)] }
  else if addr = s.dev.txReg + 0x18 then
    { s with dev.rx.queue := [], rxLog := s.rxLog ++ [.reset] }
  else if addr = s.dev.txReg then
    -- the descriptor starts at the `length` field of the slot
    { s with dev.tx.queue := s.dev.tx.queue ++ [value % 2 ^ 24 - OFFSET_LENGTH] }
  else if addr = s.dev.txReg + 0x8 then
    -- a frame on the wire is given up with the others
    { s with dev.tx.queue := [], dev.transmitting := false, txLog := s.txLog ++ [.reset] }
  else
    { s with dev.regs := fun p => if p = addr then value else s.dev.regs p }

def dmaIowrite8 (value addr : Nat) (s : DmaMachine) : DmaMachine :=
  { s with dev.regs := fun p => if p = addr then value else s.dev.regs p }

/-- What the hardware can do on its own. -/
inductive HwStep where
  /-- A frame of 1 to 2024 bytes arrives. -/
  | rxArrive (payload : List UInt8) (hpos : 0 < payload.length) (hle : payload.length ≤ 2024)
  | txTransmit
  | txComplete
  | link (word : Nat)

/-- The slot after the hardware stored the frame `p` in it. -/
def DmaFrame.receive (p : List UInt8) (fr : DmaFrame) : DmaFrame :=
  { fr with
    rxFlags := fr.rxFlags ||| CCAT_FRAME_RECEIVED
    length := p.length + OFFSET_RX_FLAGS
    data := blit fr.data 0 p }

/-- An arriving frame is stored in the oldest armed slot, or lost. -/
def rxArrive (p : List UInt8) (s : DmaMachine) : DmaMachine :=
  match s.dev.rx.queue with
  -- no slot is armed
  | [] => { s with rxLog := s.rxLog ++ [.lost p] }
  | off :: queue =>
    { s with
      dev.rx.mem := setFrame s.dev.rx.mem (s.dev.rx.base + off) (DmaFrame.receive p)
      dev.rx.queue := queue
      rxLog := s.rxLog ++ [.stored p] }

/-- The frame the hardware transmits from a slot. -/
def DmaFrame.payload (fr : DmaFrame) : List UInt8 := slice fr.data 0 fr.length

/-- The slot after the hardware is done with it. -/
def DmaFrame.complete (fr : DmaFrame) : DmaFrame :=
  { fr with txFlags := fr.txFlags ||| CCAT_FRAME_SENT }

/-- The oldest queued frame goes on the wire. -/
def txTransmit (s : DmaMachine) : DmaMachine :=
  match s.dev.tx.queue, s.dev.transmitting with
  | off :: _, false =>
    { s with
      dev.transmitting := true
      txLog := s.txLog ++ [.wire (s.dev.tx.mem (s.dev.tx.base + off)).payload] }
  | _, _ => s

/-- The frame on the wire is done: it is flagged and leaves the queue. -/
def txComplete (s : DmaMachine) : DmaMachine :=
  match s.dev.tx.queue, s.dev.transmitting with
  | off :: queue, true =>
    { s with
      dev.tx.mem := setFrame s.dev.tx.mem (s.dev.tx.base + off) DmaFrame.complete
      dev.tx.queue := queue
      dev.transmitting := false }
  | _, _ => s

def hwStep : HwStep → DmaMachine → DmaMachine
  | .rxArrive p _ _, s => rxArrive p s
  | .txTransmit, s => txTransmit s
  | .txComplete, s => txComplete s
  | .link w, s => { s with dev.mii := w }

/-- One step of the hardware. -/
def Hw (s t : DmaMachine) : Prop := ∃ a, t = hwStep a s

/-! ## FIFO operations -/

/-- `fifo_dma_tx_ready()`. -/
def fifoDmaTxReady (f : Fifo) : Prog DmaMachine Nat :=
  .read fun s => (s.dev.tx.mem f.next).txFlags &&& CCAT_FRAME_SENT

/-- `fifo_dma_rx_ready()`. -/
def fifoDmaRxReady (f : Fifo) : Prog DmaMachine Nat := do
  let flags ← Prog.read fun s => (s.dev.rx.mem f.next).rxFlags
  if flags &&& CCAT_FRAME_RECEIVED ≠ 0 then do
    let len ← Prog.read fun s => (s.dev.rx.mem f.next).length
    -- the hardware counts the flags of the header in
    return if len < OFFSET_RX_FLAGS then 0 else len - OFFSET_RX_FLAGS
  else return 0

/-- `ccat_eth_rx_fifo_dma_add()`. -/
def ccatEthRxFifoDmaAdd (f : Fifo) : Prog DmaMachine Unit := do
  Prog.modify fun s =>
    { s with dev.rx.mem := setFrame s.dev.rx.mem f.next fun fr => { fr with rxFlags := 0 } }
  Prog.modify (dmaIowrite32 (2 ^ 31 ||| (f.next - f.start)) f.reg)

/-- `ccat_eth_tx_fifo_dma_add_free()`. -/
def ccatEthTxFifoDmaAddFree (f : Fifo) : Prog DmaMachine Unit :=
  .modify fun s =>
    { s with
      dev.tx.mem := setFrame s.dev.tx.mem f.next fun fr => { fr with txFlags := CCAT_FRAME_SENT } }

/-- `fifo_dma_copy_to_linear_skb()`. -/
def fifoDmaCopyToLinearSkb (f : Fifo) (len : Nat) : Prog DmaMachine (List UInt8) :=
  .read fun s => slice (s.dev.rx.mem f.next).data 0 len

/-- `addr_and_length` of `fifo_dma_queue_skb()`, a `u32`. -/
def addrAndLength (f : Fifo) (len : Nat) : Nat :=
  (OFFSET_LENGTH + (f.next - f.start) + (len + DMA_HDR_SIZE) / 8 * 2 ^ 24) % 2 ^ 32

/-- `fifo_dma_queue_skb()`. The log records the frame with the write that queues it. -/
def fifoDmaQueueSkb (f : Fifo) (skb : Skb) : Prog DmaMachine Unit := do
  Prog.modify fun s =>
    { s with dev.tx.mem := setFrame s.dev.tx.mem f.next fun fr => { fr with txFlags := 0 } }
  Prog.modify fun s =>
    { s with
      dev.tx.mem := setFrame s.dev.tx.mem f.next fun fr => { fr with length := skb.len % 2 ^ 16 } }
  Prog.modify fun s =>
    { s with
      dev.tx.mem := setFrame s.dev.tx.mem f.next fun fr =>
        { fr with data := blit fr.data 0 skb.data } }
  Prog.modify fun s =>
    dmaIowrite32 (addrAndLength f skb.len) f.reg
      { s with txLog := s.txLog ++ [.queued skb.data] }

def dmaRxFifoOps : RxOps DmaDev where
  ready := fifoDmaRxReady
  add := ccatEthRxFifoDmaAdd
  copyToSkb := fifoDmaCopyToLinearSkb

def dmaTxFifoOps : TxOps DmaDev where
  ready := fifoDmaTxReady
  add := ccatEthTxFifoDmaAddFree
  queueSkb := fifoDmaQueueSkb

def dma : Variant DmaDev where
  rxOps := dmaRxFifoOps
  txOps := dmaTxFifoOps
  iowrite32 := dmaIowrite32
  iowrite8 := dmaIowrite8
  readMii s := s.dev.mii

/-! ## The driver among hardware steps -/

/-- The driver's callbacks: the timer at any time, `ccat_eth_start_xmit()` while the transmit
    queue is awake. -/
inductive Callback (priv : Priv) (s : DmaMachine) : Prog DmaMachine Priv → Prop where
  | timer : Callback priv s (pollTimerCallback dma priv)
  | startXmit (skb : Skb) (hawake : s.net.awake = true) :
      Callback priv s (do
        let (_, txFifo) ← ccatEthStartXmit dma priv.txFifo skb
        return { priv with txFifo := txFifo })

/-- The driver in DMA mode with its hardware. -/
def dmaSystem : System DmaMachine Priv where
  env := Hw
  enabled := Callback

/-- The FIFO set-up that ends `ccat_dma_init()` of both channels. -/
def setUpFifos (rx tx : Fifo) : Prog DmaMachine Priv := do
  let rxFifo ← fifoSetEnd dma dma.rxOps.add rx CCAT_ALIGNMENT
  let txFifo ← fifoSetEnd dma dma.txOps.add tx CCAT_ALIGNMENT
  return ⟨rxFifo, txFifo⟩

/-- The machine when the FIFOs are set up: nothing is queued and nothing has happened yet; the
    contents of the rings are arbitrary. -/
structure Fresh (rx tx : Fifo) (s : DmaMachine) : Prop where
  txReg_eq : tx.reg = s.dev.txReg
  txReg_ne : s.dev.txReg ≠ 0
  rxReg_eq : rx.reg = s.dev.txReg + 0x10
  rxStart_eq : rx.start = s.dev.rx.base
  txStart_eq : tx.start = s.dev.tx.base
  rxQueue_eq : s.dev.rx.queue = []
  txQueue_eq : s.dev.tx.queue = []
  transmitting_eq : s.dev.transmitting = false
  rxLog_eq : s.rxLog = []
  txLog_eq : s.txLog = []

/-- A machine with zeroed rings at `rxBase` and `txBase` and the TX register at `reg`. -/
def DmaMachine.zeroed (reg rxBase txBase : Nat) : DmaMachine where
  net := ⟨true, false, 0, 0, 0, 0⟩
  dev :=
    { txReg := reg
      rx := ⟨fun _ => ⟨0, 0, 0, fun _ => 0⟩, rxBase, []⟩
      tx := ⟨fun _ => ⟨0, 0, 0, fun _ => 0⟩, txBase, []⟩
      transmitting := false
      mii := 0
      regs := fun _ => 0 }
  rxLog := []
  txLog := []
  hostLog := []

end Ccat.Native.Eth
