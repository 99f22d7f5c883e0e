import Ccat.Native.EthDma

/-!
# Frames of the DMA rings as bytes (`netdev.c`)

The CCAT reads the TX ring as bytes: all it gets from the driver is the ring and the
word that `fifo_dma_queue_skb()` writes to the register of the FIFO. Here that function
is given on the bytes of the ring, with the layout of `struct ccat_dma_frame`.
-/

namespace Ccat.Native.Eth

open Interleave Memory

/-- Offset of `tx_flags` in `struct ccat_dma_frame_hdr`. -/
def OFFSET_TX_FLAGS : Nat := 12

/-- The `struct ccat_dma_frame` at `addr`. -/
def DmaFrame.ofBytes (bytes : Nat → UInt8) (addr : Nat) : DmaFrame where
  rxFlags := leNat (slice bytes (addr + OFFSET_RX_FLAGS) 4)
  length := leNat (slice bytes (addr + OFFSET_LENGTH) 2)
  txFlags := leNat (slice bytes (addr + OFFSET_TX_FLAGS) 4)
  data i := bytes (addr + DMA_HDR_SIZE + i)

/-- `fifo_dma_queue_skb()` on the bytes of the ring: the ring afterwards and the word written
    to `fifo->reg`. -/
def fifoDmaQueueSkbBytes (f : Fifo) (skb : Skb) (bytes : Nat → UInt8) : (Nat → UInt8) × Nat :=
  let bytes := blit bytes (f.next + OFFSET_TX_FLAGS) (leBytes 4 0)
  let bytes := blit bytes (f.next + OFFSET_LENGTH) (leBytes 2 skb.len)
  let bytes := blit bytes (f.next + DMA_HDR_SIZE) skb.data
  (bytes, addrAndLength f skb.len)

end Ccat.Native.Eth
