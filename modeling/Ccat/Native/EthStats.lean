import Ccat.Native.EthQueue

/-!
# Statistics of the net device (`netdev.c`)

`ccat_eth_get_stats64()` puts its report together from two kinds of counters: 64-bit
counters of the driver, which `ccat_eth_receive()` and `ccat_eth_start_xmit()` add to,
and registers of the MAC, which have 32 or 8 bits and count on their own. A counter is
modelled by all it has ever counted; a read gives as many bits of that as it has.

The kernel may ask for a report at any time, also while a callback runs, and counters
go on counting while the report is put together.
-/

namespace Ccat.Native.Eth

open Interleave

/-! ## Counters -/

/-- The counters of `struct ccat_mac_register` that are reported. -/
inductive MacCounter where
  | frameLenErr
  | rxErr
  | crcErr
  | rxMemFull
  | txFrames
  | rxFrames
  | txMemFull
  deriving DecidableEq, Repr

/-- Bits of the register. -/
def MacCounter.width : MacCounter → Nat
  | .frameLenErr => 8
  | .rxErr => 8
  | .crcErr => 8
  | .rxMemFull => 8
  | .txFrames => 32
  | .rxFrames => 32
  | .txMemFull => 8

/-- What a report is made of: registers of the MAC, and `bytes` and `dropped` of both FIFOs. -/
inductive StatItem where
  | mac (c : MacCounter)
  | rxBytes
  | txBytes
  | rxDropped
  | txDropped
  deriving DecidableEq, Repr

/-- Bits of the counter; those of the FIFOs are `atomic64_t`. -/
def StatItem.width : StatItem → Nat
  | .mac c => c.width
  | .rxBytes => 64
  | .txBytes => 64
  | .rxDropped => 64
  | .txDropped => 64

section

variable {δ : Type}

/-- The driver with its net device, and what the MAC has counted. -/
structure StatsConfig (δ : Type) where
  net : NetConfig δ
  mac : MacCounter → Nat

/-- What was counted so far. -/
def StatsConfig.total (x : StatsConfig δ) : StatItem → Nat
  | .mac c => x.mac c
  | .rxBytes => x.net.config.state.net.rxBytes
  | .txBytes => x.net.config.state.net.txBytes
  | .rxDropped => x.net.config.state.net.rxDropped
  | .txDropped => x.net.config.state.net.txDropped

/-- The value of a register of the MAC or of an `atomic64_t`. -/
def StatsConfig.read (x : StatsConfig δ) (item : StatItem) : Nat :=
  x.total item % 2 ^ item.width

/-! ## The report -/

/-- The fields of `struct rtnl_link_stats64` that are filled in. -/
structure RtnlLinkStats64 where
  rxPackets : Nat
  txPackets : Nat
  rxBytes : Nat
  txBytes : Nat
  rxErrors : Nat
  txErrors : Nat
  rxDropped : Nat
  txDropped : Nat
  rxLengthErrors : Nat
  rxOverErrors : Nat
  rxCrcErrors : Nat
  rxFrameErrors : Nat
  rxFifoErrors : Nat
  deriving DecidableEq, Repr

/-- `ccat_eth_get_stats64()`, `value` being what it reads from each counter. The sum of the
    error counters is an `int`, which four bytes do not overflow. -/
def ccatEthGetStats64 (value : StatItem → Nat) : RtnlLinkStats64 where
  rxPackets := value (.mac .rxFrames)
  txPackets := value (.mac .txFrames)
  rxBytes := value .rxBytes
  txBytes := value .txBytes
  rxErrors := value (.mac .frameLenErr) + value (.mac .rxMemFull) + value (.mac .crcErr) +
    value (.mac .rxErr)
  txErrors := value (.mac .txMemFull)
  rxDropped := value .rxDropped
  txDropped := value .txDropped
  rxLengthErrors := value (.mac .frameLenErr)
  rxOverErrors := value (.mac .rxMemFull)
  rxCrcErrors := value (.mac .crcErr)
  rxFrameErrors := value (.mac .rxErr)
  rxFifoErrors := value (.mac .rxMemFull)

/-! ## Runs -/

/-- A step of the driver, its net device or its hardware, or none; meanwhile a counter of the MAC
    may count one more frame. -/
def StatsStep (v : Variant δ) (hw : Machine δ → Machine δ → Prop) (x y : StatsConfig δ) : Prop :=
  (NetStep v hw x.net y.net ∨ y.net = x.net) ∧ ∀ c, y.mac c = x.mac c ∨ y.mac c = x.mac c + 1

/-- A run, from a driver whose counters have any values and that is not in a callback. -/
structure StatsRun (v : Variant δ) (hw : Machine δ → Machine δ → Prop) where
  config : Nat → StatsConfig δ
  start : ∃ priv, (config 0).net.config.control = .idle priv
  step : ∀ i, StatsStep v hw (config i) (config (i + 1))

/-- The report of a call that reads each counter at the moment `moment` tells. Each of them is read
    at once, those of the MAC by `memcpy_fromio()`. -/
def StatsRun.stats {v : Variant δ} {hw : Machine δ → Machine δ → Prop} (r : StatsRun v hw)
    (moment : StatItem → Nat) : RtnlLinkStats64 :=
  ccatEthGetStats64 fun item => (r.config (moment item)).read item

end

end Ccat.Native.Eth
