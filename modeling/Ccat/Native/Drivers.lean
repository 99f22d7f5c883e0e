import Ccat.Native.Functions
import Ccat.Native.Module
import Ccat.Native.Sram
import Ccat.Native.Systemtime
import Ccat.Native.Update

/-!
# The platform drivers of the functions

Every function of a CCAT becomes a platform device, and the driver of its name is probed
with it. The drivers of `sram.c`, `update.c`, `gpio.c` and `systemtime.c` publish what
they find: as a character device, a GPIO chip or a clocksource. All that is published, of
whichever CCAT, is the `Registry`. Of the drivers of `netdev.c` only the result of the
probe is seen here.
-/

namespace Ccat.Native.Functions

/-! ## Views of the union in `struct ccat_info_block` -/

def CcatInfoBlock.numGpios (b : CcatInfoBlock) : Nat := b.config % 2 ^ 8

def CcatInfoBlock.sramWidth (b : CcatInfoBlock) : Nat := b.config % 2 ^ 8

def CcatInfoBlock.sramSize (b : CcatInfoBlock) : Nat := b.config / 2 ^ 8 % 2 ^ 8

end Ccat.Native.Functions

namespace Ccat.Native.Device

open Functions (CcatDevice)
open Systemtime (Clocksource CcatSystemtime)

def ENODEV : Int := 19

deriving instance DecidableEq for Clocksource

deriving instance DecidableEq for CcatSystemtime

/-- Calls that do not return, or return nothing that the language defines. -/
inductive Fault where
  | oops (e : Oops)
  /-- `func->ccat->bar_0` of a function without its CCAT. -/
  | noDevice
  /-- `1 << n` where an `int` has no such value. -/
  | shift (n : Nat)
  /-- `iounmap()` of what is not mapped. -/
  | notMapped (addr : Nat)
  /-- Release of a region that is not requested. -/
  | notRequested
  /-- `pci_disable_device()` of a device that is not enabled. -/
  | notEnabled
  deriving DecidableEq, Repr

/-- `struct ccat_gpio`, as far as a probe fills it in. -/
structure CcatGpio where
  ioaddr : Nat
  ngpio : Nat
  deriving DecidableEq, Repr

/-- `func->private_data`, as the driver of the function sets it. -/
inductive PrivateData where
  | netdev
  | gpio (gpio : CcatGpio)
  | update (slot : Nat)
  | sram (slot : Nat)
  | systemtime (st : CcatSystemtime)
  deriving DecidableEq

/-- What the drivers have published. -/
structure Registry where
  /-- The class of `sram.c`. -/
  sram : World
  /-- The class of `update.c`. -/
  update : World
  chips : List CcatGpio
  clocks : List CcatSystemtime
  /-- `ccat_systemtime_cnt`. -/
  systemtimeCnt : Int
  /-- Ghost: how often it was counted up. -/
  systemtimeProbes : Nat
  netdevs : Nat

def CCAT_SRAM_DEVICES_MAX : Nat := 4
def CCAT_DEVICES_MAX : Nat := 5

/-- Nothing published yet. -/
def Registry.init : Registry where
  sram := World.init CCAT_SRAM_DEVICES_MAX (by decide)
  update := World.init CCAT_DEVICES_MAX (by decide)
  chips := []
  clocks := []
  systemtimeCnt := 0
  systemtimeProbes := 0
  netdevs := 0

/-- What the kernel answers to the probe of a driver. -/
structure DriverAnswers where
  cdev : ProbeEnv
  /-- `devm_kzalloc()` of `ccat_gpio_probe()` does not return `NULL`. -/
  gpioKzalloc : Bool
  /-- The result of `gpiochip_add_data()`. -/
  gpiochipAdd : Int
  systemtime : Systemtime.Answers
  /-- The result of the probe of `netdev.c`. -/
  eth : Int

/-- What a probe returns and leaves behind. -/
structure Probed where
  ret : Int
  privateData : Option PrivateData
  registry : Registry

/-! ## Probes -/

/-- `func->ccat`, which is dereferenced. -/
def ccatOf (func : Functions.CcatFunction) : Except Fault CcatDevice :=
  match func.ccat with
  | some dev => .ok dev
  | none => .error .noDevice

/-- `ccat_cdev_probe()` as the drivers call it. -/
def cdevProbe (env : ProbeEnv) (func : Functions.CcatFunction) (iosize : Nat) (w : World) :
    Except Fault ProbeResult := do
  let dev ← ccatOf func
  (ccatCdevProbe ⟨dev.bar0, func.info.addr⟩ iosize env w).mapError .oops

/-- `ccat_sram_probe()`. -/
def ccatSramProbe (env : ProbeEnv) (func : Functions.CcatFunction) (r : Registry) :
    Except Fault Probed := do
  let type := func.info.sramWidth &&& 0x3
  -- the shift comes first, also where no SRAM is connected
  if func.info.sramSize ≥ 31 then .error (.shift func.info.sramSize)
  else if type = 0 then return ⟨-ENODEV, none, r⟩
  else do
    let p ← cdevProbe env func (Sram.sramIosize func.info.sramSize) r.sram
    return ⟨p.status, p.privateData.map .sram, { r with sram := p.world }⟩

/-- `ccat_update_probe()`. -/
def ccatUpdateProbe (env : ProbeEnv) (func : Functions.CcatFunction) (r : Registry) :
    Except Fault Probed :=
  if 0x00 ≠ func.info.rev then return ⟨-ENODEV, none, r⟩
  else do
    let p ← cdevProbe env func Update.CCAT_FLASH_SIZE r.update
    return ⟨p.status, p.privateData.map .update, { r with update := p.world }⟩

/-- `ccat_gpio_probe()`. -/
def ccatGpioProbe (kzalloc : Bool) (gpiochipAdd : Int) (func : Functions.CcatFunction)
    (r : Registry) : Except Fault Probed :=
  if !kzalloc then return ⟨-ENOMEM, none, r⟩
  else do
    let dev ← ccatOf func
    let gpio : CcatGpio := ⟨dev.bar0 + func.info.addr, func.info.numGpios⟩
    if gpiochipAdd ≠ 0 then return ⟨gpiochipAdd, none, r⟩
    else return ⟨0, some (.gpio gpio), { r with chips := gpio :: r.chips }⟩

/-- `ccat_systemtime_probe()`, with what `clocksource_register_hz()` keeps. -/
def systemtimeProbe (a : Systemtime.Answers) (func : Functions.CcatFunction) (r : Registry) :
    Except Fault Probed :=
  if !a.kzalloc then return ⟨-ENOMEM, none, r⟩
  else do
    let dev ← ccatOf func
    let p := Systemtime.ccatSystemtimeProbe a dev.bar0 func.info.addr r.systemtimeCnt
    return ⟨p.ret, p.privateData.map .systemtime,
      { r with
        systemtimeCnt := p.cnt
        systemtimeProbes := r.systemtimeProbes + 1
        clocks := if p.registered.isSome then p.privateData.toList ++ r.clocks else r.clocks }⟩

/-- The probes of `netdev.c`. -/
def ethProbe (ret : Int) (r : Registry) : Except Fault Probed :=
  if ret ≠ 0 then return ⟨ret, none, r⟩
  else return ⟨0, some .netdev, { r with netdevs := r.netdevs + 1 }⟩

/-! ## Removes -/

/-- `ccat_gpio_remove()`. -/
def ccatGpioRemove (gpio : CcatGpio) (r : Registry) : Registry :=
  { r with chips := r.chips.erase gpio }

/-- `ccat_systemtime_remove()`. -/
def ccatSystemtimeRemove (st : CcatSystemtime) (r : Registry) : Registry :=
  { r with clocks := r.clocks.erase st }

/-- The remove of the driver that set the private data. -/
def PrivateData.remove (r : Registry) : PrivateData → Except Fault Registry
  | .netdev => return { r with netdevs := r.netdevs - 1 }
  | .gpio chip => return ccatGpioRemove chip r
  | .update slot => do
    let w ← (ccatCdevRemove slot r.update).mapError .oops
    return { r with update := w }
  | .sram slot => do
    let w ← (ccatCdevRemove slot r.sram).mapError .oops
    return { r with sram := w }
  | .systemtime st => return ccatSystemtimeRemove st r

/-! ## Platform devices -/

/-- The platform drivers of this repository. -/
inductive Driver where
  | ccatEthEim
  | ccatEthDma
  | ccatGpio
  | ccatUpdate
  | ccatSram
  | ccatSystemtime
  deriving DecidableEq, Repr

/-- `.driver.name`. -/
def Driver.name : Driver → String
  | .ccatEthEim => "ccat_eth_eim"
  | .ccatEthDma => "ccat_eth_dma"
  | .ccatGpio => "ccat_gpio"
  | .ccatUpdate => "ccat_update"
  | .ccatSram => "ccat_sram"
  | .ccatSystemtime => "ccat_systemtime"

def drivers : List Driver :=
  [.ccatEthEim, .ccatEthDma, .ccatGpio, .ccatUpdate, .ccatSram, .ccatSystemtime]

/-- The driver of a platform device, by its name. -/
def driverFor? (name : String) : Option Driver := drivers.find? fun d => d.name = name

def Driver.probe (a : DriverAnswers) (func : Functions.CcatFunction) (r : Registry) :
    Driver → Except Fault Probed
  | .ccatEthEim => ethProbe a.eth r
  | .ccatEthDma => ethProbe a.eth r
  | .ccatGpio => ccatGpioProbe a.gpioKzalloc a.gpiochipAdd func r
  | .ccatUpdate => ccatUpdateProbe a.cdev func r
  | .ccatSram => ccatSramProbe a.cdev func r
  | .ccatSystemtime => systemtimeProbe a.systemtime func r

/-- A child of the CCAT `card`: the platform device of a cell, with its copy of the function. -/
structure Child where
  card : Nat
  name : String
  func : Functions.CcatFunction
  /-- The private data while a driver is bound. -/
  bound : Option PrivateData
  deriving DecidableEq

/-- The driver of the child is probed, and is bound to it if the probe returns 0. -/
def attach (a : DriverAnswers) (c : Child) (r : Registry) : Except Fault (Child × Registry) :=
  match driverFor? c.name with
  | none => return (c, r)
  | some d => do
    let p ← d.probe a c.func r
    return (if p.ret = 0 then { c with bound := p.privateData } else c, p.registry)

/-- The driver is unbound from the child. -/
def detach (c : Child) (r : Registry) : Except Fault Registry :=
  match c.bound with
  | none => return r
  | some data => data.remove r

end Ccat.Native.Device
