import Ccat.ForStd.Interleave
import Ccat.Native.Types

/-!
# Ethernet function block, common part (`netdev.c`)

The driver polls the CCAT from a timer: it looks for link changes, takes received
frames out of the RX FIFO and wakes the transmit queue when the TX FIFO is ready again.
The same code serves the DMA and the EIM variant, through tables of FIFO operations.

Every function is a program (`Interleave.Prog`) over the state `Machine`, so that the
hardware may step between any two stores or register accesses of it. A FIFO keeps
addresses as the source does; only the driver changes them, so they are passed along.
What the hardware and the stack see is recorded in the logs of the machine.
-/

namespace Ccat.Native.Eth

open Interleave

def FIFO_LENGTH : Nat := 64
def CCAT_ALIGNMENT : Nat := 128 * 1024

/-- `sizeof(struct ccat_eth_frame)`. -/
def FRAME_SIZE : Nat := 0x800

/-- `sizeof(struct ccat_dma_frame_hdr)` and `sizeof(struct ccat_eim_frame_hdr)`. -/
def DMA_HDR_SIZE : Nat := 24
def EIM_HDR_SIZE : Nat := 16

def MAX_PAYLOAD_SIZE : Nat := FRAME_SIZE - max DMA_HDR_SIZE EIM_HDR_SIZE

/-- EtherCAT frame to enable forwarding on EtherCAT Terminals. -/
def frameForwardEthernetFrames : List UInt8 :=
  [0x01, 0x01, 0x05, 0x01, 0x00, 0x00,
   0x00, 0x1b, 0x21, 0x36, 0x1b, 0xce,
   0x88, 0xa4, 0x0e, 0x10,
   0x08,
   0x00,
   0x00, 0x00,
   0x00, 0x01,
   0x02, 0x00,
   0x00, 0x00,
   0x00, 0x00,
   0x00, 0x00]

/-- The parts of a `struct sk_buff` the driver looks at. -/
structure Skb where
  nonlinear : Bool
  data : List UInt8

def Skb.len (skb : Skb) : Nat := skb.data.length

/-- `struct ccat_eth_fifo`: its register and the addresses of its memory. -/
structure Fifo where
  reg : Nat
  start : Nat
  next : Nat
  fifoEnd : Nat
  deriving DecidableEq, Repr

/-- `struct ccat_eth_priv`. -/
structure Priv where
  rxFifo : Fifo
  txFifo : Fifo

/-- The `struct net_device` and the counters of both FIFOs. -/
structure Net where
  /-- The transmit queue is not stopped. -/
  awake : Bool
  carrier : Bool
  rxBytes : Nat
  rxDropped : Nat
  txBytes : Nat
  txDropped : Nat

/-- What happens to the RX FIFO and the frames in it. -/
inductive RxEvent where
  | reset
  | armed (slot : Nat)
  | stored (payload : List UInt8)
  | lost (payload : List UInt8)
  | netifRx (payload : List UInt8)
  | noMem

/-- What happens to the TX FIFO and the frames in it. -/
inductive TxEvent where
  | reset
  | queued (payload : List UInt8)
  | wire (payload : List UInt8)
  | busy

/-- What the driver takes from the kernel and gives back. -/
inductive HostEvent where
  | allocNetdev
  | freeNetdev
  | registerNetdev
  | unregisterNetdev
  | dmaAlloc (base : Nat)
  | dmaFree (base : Nat)
  deriving DecidableEq, Repr

structure Machine (δ : Type) where
  net : Net
  dev : δ
  rxLog : List RxEvent
  txLog : List TxEvent
  hostLog : List HostEvent

/-- `struct ccat_eth_fifo_operations` of an RX FIFO. -/
structure RxOps (δ : Type) where
  ready : Fifo → Prog (Machine δ) Nat
  add : Fifo → Prog (Machine δ) Unit
  copyToSkb : Fifo → Nat → Prog (Machine δ) (List UInt8)

/-- `struct ccat_eth_fifo_operations` of a TX FIFO. -/
structure TxOps (δ : Type) where
  ready : Fifo → Prog (Machine δ) Nat
  add : Fifo → Prog (Machine δ) Unit
  queueSkb : Fifo → Skb → Prog (Machine δ) Unit

/-- One of the two variants of the function, with its register accesses. -/
structure Variant (δ : Type) where
  rxOps : RxOps δ
  txOps : TxOps δ
  /-- `iowrite32(value, address)`. -/
  iowrite32 : Nat → Nat → Machine δ → Machine δ
  /-- `iowrite8(value, address)`. -/
  iowrite8 : Nat → Nat → Machine δ → Machine δ
  /-- `ioread32(priv->reg.mii + 0x8 + 4)`. -/
  readMii : Machine δ → Nat

variable {δ : Type} (v : Variant δ)

/-! ## FIFOs -/

/-- `ccat_eth_fifo_inc()`. -/
def ccatEthFifoInc (f : Fifo) : Fifo :=
  if f.next + FRAME_SIZE > f.fifoEnd then { f with next := f.start }
  else { f with next := f.next + FRAME_SIZE }

/-- `ccat_eth_fifo_hw_reset()`. -/
def ccatEthFifoHwReset (f : Fifo) : Prog (Machine δ) Unit :=
  if f.reg ≠ 0 then .modify (v.iowrite32 0 (f.reg + 0x8)) else pure ()

/-- A FIFO that did not wrap around has come closer to its end. -/
theorem ccatEthFifoInc_lt (f : Fifo) (h : (ccatEthFifoInc f).next ≠ f.start) :
    (ccatEthFifoInc f).fifoEnd - (ccatEthFifoInc f).next < f.fifoEnd - f.next := by
  unfold ccatEthFifoInc at h ⊢
  by_cases hwrap : f.next + FRAME_SIZE > f.fifoEnd
  · rw [if_pos hwrap] at h
    exact absurd rfl h
  · rw [if_neg hwrap]
    simp only [FRAME_SIZE] at hwrap ⊢
    omega

/-- The loop of `ccat_eth_fifo_reset()`: add every slot, from `next` on. -/
def addSlots (add : Fifo → Prog (Machine δ) Unit) (f : Fifo) : Prog (Machine δ) Fifo := do
  add f
  if (ccatEthFifoInc f).next = f.start then return ccatEthFifoInc f
  else addSlots add (ccatEthFifoInc f)
termination_by f.fifoEnd - f.next
decreasing_by
  rename_i hne
  exact ccatEthFifoInc_lt f hne

/-- `ccat_eth_fifo_reset()`; every operations table has an `add`. -/
def ccatEthFifoReset (add : Fifo → Prog (Machine δ) Unit) (f : Fifo) : Prog (Machine δ) Fifo := do
  -- slots are handed out again only after the hardware forgot the old ones
  ccatEthFifoHwReset v f
  addSlots add { f with next := f.start }

/-- `fifo_set_end()`. -/
def fifoSetEnd (add : Fifo → Prog (Machine δ) Unit) (f : Fifo) (size : Nat) :
    Prog (Machine δ) Fifo :=
  ccatEthFifoReset v add { f with fifoEnd := f.start + size - FRAME_SIZE }

/-! ## The transmit queue -/

def netifStopQueue (s : Machine δ) : Machine δ := { s with net.awake := false }

/-- `netif_start_queue()` and `netif_wake_queue()`. -/
def netifWakeQueue (s : Machine δ) : Machine δ := { s with net.awake := true }

def netifCarrierOn (s : Machine δ) : Machine δ := { s with net.carrier := true }

def netifCarrierOff (s : Machine δ) : Machine δ := { s with net.carrier := false }

/-! ## Transmitting -/

/-- `netdev_tx_t`. -/
inductive NetdevTx where
  | ok
  | busy
  deriving DecidableEq, Repr

def txDrop (s : Machine δ) : Machine δ := { s with net.txDropped := s.net.txDropped + 1 }

/-- The branch that should not be reached: the ring is full with the queue awake. -/
def txRingFull (s : Machine δ) : Machine δ :=
  netifStopQueue { s with txLog := s.txLog ++ [.busy] }

/-- `ccat_eth_start_xmit()`: its result and the FIFO afterwards. -/
def ccatEthStartXmit (f : Fifo) (skb : Skb) : Prog (Machine δ) (NetdevTx × Fifo) :=
  if skb.nonlinear then do
    Prog.modify txDrop
    return (.ok, f)
  else if skb.len > MAX_PAYLOAD_SIZE then do
    Prog.modify txDrop
    return (.ok, f)
  else do
    let ready ← v.txOps.ready f
    if ready = 0 then do
      Prog.modify txRingFull
      return (.busy, f)
    else do
      v.txOps.queueSkb f skb
      Prog.modify fun s => { s with net.txBytes := s.net.txBytes + skb.len }
      -- the queue is stopped ahead of time: there must be room for the next frame
      let ready ← v.txOps.ready (ccatEthFifoInc f)
      if ready = 0 then do
        Prog.modify netifStopQueue
        return (.ok, ccatEthFifoInc f)
      else return (.ok, ccatEthFifoInc f)

/-- `ccat_eth_xmit_raw()`; the allocation of the buffer succeeds. -/
def ccatEthXmitRaw (f : Fifo) (data : List UInt8) : Prog (Machine δ) Fifo := do
  let (_, f) ← ccatEthStartXmit v f ⟨false, data⟩
  return f

/-! ## Receiving -/

/-- `ccat_eth_receive()` of `len` bytes. -/
def ccatEthReceive (f : Fifo) (len : Nat) : Prog (Machine δ) Unit := do
  let skb ← Prog.choose
  if skb then do
    let data ← v.rxOps.copyToSkb f len
    Prog.modify fun s => { s with net.rxBytes := s.net.rxBytes + len }
    Prog.modify fun s => { s with rxLog := s.rxLog ++ [.netifRx data] }
  else
    Prog.modify fun s =>
      { s with net.rxDropped := s.net.rxDropped + 1, rxLog := s.rxLog ++ [.noMem] }

/-! ## Polling -/

/-- `ccat_eth_link_down()`. -/
def ccatEthLinkDown : Prog (Machine δ) Unit := do
  Prog.modify netifStopQueue
  Prog.modify netifCarrierOff

/-- `ccat_eth_link_up()`. -/
def ccatEthLinkUp (priv : Priv) : Prog (Machine δ) Priv := do
  let rxFifo ← ccatEthFifoReset v v.rxOps.add priv.rxFifo
  let txFifo ← ccatEthFifoReset v v.txOps.add priv.txFifo
  -- the carrier is still off; the frame does not come from the stack
  let txFifo ← ccatEthXmitRaw v txFifo frameForwardEthernetFrames
  Prog.modify netifCarrierOn
  Prog.modify netifWakeQueue
  return ⟨rxFifo, txFifo⟩

/-- `ccat_eth_priv_read_link_state()`. -/
def ccatEthPrivReadLinkState : Prog (Machine δ) Bool :=
  .read fun s => (v.readMii s).testBit 24

/-- `poll_link()`. -/
def pollLink (priv : Priv) : Prog (Machine δ) Priv := do
  let link ← ccatEthPrivReadLinkState v
  let carrier ← Prog.read fun s => s.net.carrier
  if link ≠ carrier then
    if link then ccatEthLinkUp v priv
    else do
      ccatEthLinkDown
      return priv
  else return priv

/-- The loop of `poll_rx()`, `len` being the result of the last `ready` and `n` the value of
    `rx_per_poll`. -/
def pollRxLoop (f : Fifo) (len : Nat) : Nat → Prog (Machine δ) Fifo
  | 0 => return f
  | n + 1 =>
    -- `--rx_per_poll` leaves `n`
    if len ≠ 0 ∧ n ≠ 0 then do
      ccatEthReceive v f len
      v.rxOps.add f
      let len ← v.rxOps.ready (ccatEthFifoInc f)
      pollRxLoop (ccatEthFifoInc f) len n
    else return f

/-- `poll_rx()`. -/
def pollRx (f : Fifo) : Prog (Machine δ) Fifo := do
  let len ← v.rxOps.ready f
  pollRxLoop v f len (FIFO_LENGTH / 2)

/-- `poll_tx()`. -/
def pollTx (f : Fifo) : Prog (Machine δ) Unit := do
  let ready ← v.txOps.ready f
  if ready ≠ 0 then Prog.modify netifWakeQueue else return ()

/-- `poll_timer_callback()`. -/
def pollTimerCallback (priv : Priv) : Prog (Machine δ) Priv := do
  let priv ← pollLink v priv
  let rxFifo ← pollRx v priv.rxFifo
  pollTx v priv.txFifo
  return { priv with rxFifo := rxFifo }

end Ccat.Native.Eth
