import Ccat.Native.Drivers

/-!
# CCATs on their bus (`module.c`)

A CCAT is found on the PCI bus, or in the address space of the EIM when the driver is
built without PCI. Its probe takes the resources of the device, maps BAR 0 and hands the
functions it finds there to `mfd_add_devices()`; its remove gives all of it back. What the
kernel answers is a parameter, what it has granted is the state of the `Card`. The driver
core calls a remove for devices that are bound only, and forgets the driver data of a
device that is not. Which results of a probe count as bound is up to the bus: on the PCI
bus also those above 0, such as the PCIBIOS codes that `pci_read_config_byte()` returns.
-/

namespace Ccat.Native.Device

open Functions (CcatCell CcatDevice)

def EIO : Int := 5

/-- A CCAT with what the driver holds of it. -/
structure Card where
  /-- The bytes behind BAR 0. -/
  bar0 : Nat → UInt8
  /-- The driver data. -/
  ccatdev : Option CcatDevice
  /-- How often the device is enabled. -/
  enabled : Nat
  master : Bool
  /-- Its regions are requested. -/
  regions : Bool
  /-- The addresses of the mappings. -/
  maps : List Nat

structure Board where
  /-- The static table `ccat_cells`. -/
  cells : List CcatCell
  cards : Nat → Card
  children : List Child
  registry : Registry
  /-- The region from `CCAT_EIM_ADDR` on is requested. -/
  eimRegion : Bool

def Board.setCard (b : Board) (k : Nat) (card : Card) : Board :=
  { b with cards := fun j => if j = k then card else b.cards j }

/-! ## Children -/

/-- What the kernel does when `mfd_add_devices()` is called: it fails, or the child is added and
    the driver probed that is there for it. -/
structure MfdAnswer where
  ret : Int
  driver : Option DriverAnswers

/-- The child for a cell. -/
def childOf (k : Nat) (cell : CcatCell) : Child :=
  ⟨k, cell.name, cell.platformData.getD .zeroed, none⟩

/-- A call of `mfd_add_devices()`. -/
def mfdAddDevice (k : Nat) (a : MfdAnswer) (cell : CcatCell) (b : Board) : Except Fault Board :=
  if a.ret < 0 then return b
  else match a.driver with
    | none => return { b with children := b.children ++ [childOf k cell] }
    | some d => do
      let r ← attach d (childOf k cell) b.registry
      return { b with children := b.children ++ [r.1], registry := r.2 }

/-- The calls of `mfd_add_devices()`, from the `n`-th on. -/
def mfdAddDevices (k : Nat) (a : Nat → MfdAnswer) :
    (n : Nat) → List CcatCell → Board → Except Fault Board
  | _, [], b => return b
  | n, cell :: cells, b => do
    let b ← mfdAddDevice k (a n) cell b
    mfdAddDevices k a (n + 1) cells b

/-- `mfd_remove_devices()`, in the order in which the kernel goes through the children. -/
def mfdRemoveDevices (k : Nat) (order : List Child) (b : Board) : Except Fault Board := do
  let r ← order.foldlM (fun r c => detach c r) b.registry
  return { b with children := b.children.filter (·.card ≠ k), registry := r }

/-- What is answered to `ccat_functions_init()`. -/
structure InitAnswers where
  /-- The `n`-th `kzalloc()` does not return `NULL`. -/
  kzalloc : Nat → Bool
  mfd : Nat → MfdAnswer

/-- `ccat_functions_init()`, with what its calls do. Nothing of that is read by the loop. -/
def functionsInit (L : LongWidth) (a : InitAnswers) (k : Nat) (dev : CcatDevice) (b : Board) :
    Except Fault Board := do
  let r := Functions.ccatFunctionsInit L ⟨a.kzalloc, fun n => (a.mfd n).ret⟩ dev
    (fun p => (b.cards k).bar0 (p - dev.bar0)) ⟨b.cells, []⟩
  mfdAddDevices k a.mfd 0 r.2.calls { b with cells := r.2.cells }

/-! ## PCI services -/

/-- `pci_request_regions()`; what is requested is busy. -/
def pciRequestRegions (answer : Int) (c : Card) : Int × Card :=
  if c.regions then (-EBUSY, c)
  else if answer ≠ 0 then (answer, c)
  else (0, { c with regions := true })

def pciReleaseRegions (c : Card) : Except Fault Card :=
  if c.regions then return { c with regions := false } else .error .notRequested

/-- `pci_enable_device_mem()`. -/
def pciEnableDeviceMem (answer : Int) (c : Card) : Int × Card :=
  if answer ≠ 0 then (answer, c) else (0, { c with enabled := c.enabled + 1 })

/-- `pci_disable_device()`, which ends bus mastering with the last user. -/
def pciDisableDevice (c : Card) : Except Fault Card :=
  match c.enabled with
  | 0 => .error .notEnabled
  | 1 => return { c with enabled := 0, master := false }
  | n + 2 => return { c with enabled := n + 1 }

/-- `pci_iomap()` and `ioremap()`; there is no mapping at `NULL`. -/
def iomap (answer : Nat) (c : Card) : Card :=
  if answer ≠ 0 then { c with maps := answer :: c.maps } else c

/-- `pci_iounmap()` and `iounmap()`. -/
def iounmap (addr : Nat) (c : Card) : Except Fault Card :=
  if addr ∈ c.maps then return { c with maps := c.maps.erase addr } else .error (.notMapped addr)

/-- `if (addr) pci_iounmap(addr)`. -/
def iounmapMapped (addr : Nat) (c : Card) : Except Fault Card :=
  if addr ≠ 0 then iounmap addr c else return c

/-! ## PCI -/

structure PciAnswers where
  /-- `devm_kzalloc()` does not return `NULL`. -/
  kzalloc : Bool
  enableDeviceMem : Int
  readRevision : Int
  requestRegions : Int
  dmaMask64 : Int
  dmaMask32 : Int
  /-- The address of BAR 0, or 0. -/
  bar0 : Nat
  /-- The address of BAR 2, or 0. -/
  bar2 : Nat
  init : InitAnswers

/-- The label `disable_device`. -/
def disableDevice (status : Int) (k : Nat) (c : Card) (b : Board) : Except Fault (Int × Board) := do
  let c ← pciDisableDevice c
  return (status, b.setCard k c)

/-- The label `release_regions`. -/
def releaseRegions (status : Int) (k : Nat) (c : Card) (b : Board) :
    Except Fault (Int × Board) := do
  let c ← pciReleaseRegions c
  disableDevice status k c b

/-- `ccat_pci_probe()` of card `k`. -/
def ccatPciProbe (L : LongWidth) (a : PciAnswers) (k : Nat) (b : Board) :
    Except Fault (Int × Board) :=
  if !a.kzalloc then return (-ENOMEM, b)
  else
    let c := { b.cards k with ccatdev := some ⟨0, 0⟩ }
    let r := pciEnableDeviceMem a.enableDeviceMem c
    if r.1 ≠ 0 then return (r.1, b.setCard k r.2)
    else if a.readRevision ≠ 0 then disableDevice a.readRevision k r.2 b
    else
      let r := pciRequestRegions a.requestRegions r.2
      if r.1 ≠ 0 then disableDevice r.1 k r.2 b
      else if a.dmaMask64 ≠ 0 ∧ a.dmaMask32 ≠ 0 then releaseRegions a.dmaMask32 k r.2 b
      else if a.bar0 = 0 then releaseRegions (- EIO) k r.2 b
      else do
        -- BAR 2 is optional
        let dev : CcatDevice := ⟨a.bar0, a.bar2⟩
        let c := { iomap a.bar2 (iomap a.bar0 r.2) with ccatdev := some dev, master := true }
        let b ← functionsInit L a.init k dev (b.setCard k c)
        -- also when some functions couldn't be initialized
        return (0, b)

/-- `ccat_pci_remove()` of card `k`. -/
def ccatPciRemove (order : List Child) (k : Nat) (b : Board) : Except Fault Board :=
  match (b.cards k).ccatdev with
  | none => return b
  | some dev => do
    let b ← mfdRemoveDevices k order b
    let c ← iounmapMapped dev.bar2 (b.cards k)
    let c ← iounmap dev.bar0 c
    let c ← pciReleaseRegions c
    let c ← pciDisableDevice c
    return b.setCard k c

/-! ## EIM -/

structure EimAnswers where
  /-- `devm_kzalloc()` does not return `NULL`. -/
  kzalloc : Bool
  /-- Nobody else has the region. -/
  requestMemRegion : Bool
  /-- The address of the mapping, or 0. -/
  ioremap : Nat
  init : InitAnswers

/-- `ccat_eim_probe()` of card `k`. -/
def ccatEimProbe (L : LongWidth) (a : EimAnswers) (k : Nat) (b : Board) :
    Except Fault (Int × Board) :=
  if !a.kzalloc then return (-ENOMEM, b)
  else
    let c := { b.cards k with ccatdev := some ⟨0, 0⟩ }
    if b.eimRegion ∨ !a.requestMemRegion then return (- EIO, b.setCard k c)
    else
      let b := { b with eimRegion := true }
      -- the region stays requested
      if a.ioremap = 0 then return (- EIO, b.setCard k c)
      else do
        let dev : CcatDevice := ⟨a.ioremap, 0⟩
        let c := { iomap a.ioremap c with ccatdev := some dev }
        let b ← functionsInit L a.init k dev (b.setCard k c)
        return (0, b)

/-- `release_mem_region()`. -/
def releaseMemRegion (b : Board) : Except Fault Board :=
  if b.eimRegion then return { b with eimRegion := false } else .error .notRequested

/-- `ccat_eim_remove()` of card `k`. -/
def ccatEimRemove (order : List Child) (k : Nat) (b : Board) : Except Fault Board :=
  match (b.cards k).ccatdev with
  | none => return b
  | some dev => do
    let b ← mfdRemoveDevices k order b
    let c ← iounmap dev.bar0 (b.cards k)
    releaseMemRegion (b.setCard k c)

/-! ## The driver core -/

/-- The driver of a bus. -/
structure Bus where
  Answers : Type
  probe : LongWidth → Answers → Nat → Board → Except Fault (Int × Board)
  remove : List Child → Nat → Board → Except Fault Board
  /-- What is answered to `ccat_functions_init()`. -/
  init : Answers → InitAnswers
  /-- A device whose probe returned this is bound. -/
  binds : Int → Bool

/-- `local_pci_probe()` treats values above 0 as success. -/
def pci : Bus where
  Answers := PciAnswers
  probe := ccatPciProbe
  remove := ccatPciRemove
  init := PciAnswers.init
  binds ret := decide (0 ≤ ret)

def eim : Bus where
  Answers := EimAnswers
  probe := ccatEimProbe
  remove := ccatEimRemove
  init := EimAnswers.init
  binds ret := decide (ret = 0)

/-- The driver data of card `k` is forgotten. -/
def Board.forget (b : Board) (k : Nat) : Board :=
  b.setCard k { b.cards k with ccatdev := none }

/-- What happens to a board. -/
inductive Op (bus : Bus) where
  /-- A card is probed. -/
  | bind (k : Nat) (a : bus.Answers)
  /-- A card is removed, its children in the given order. -/
  | unbind (k : Nat) (order : List Child)
  /-- A driver is loaded for the `i`-th child. -/
  | attach (i : Nat) (a : DriverAnswers)
  /-- A driver is unloaded from the `i`-th child. -/
  | detach (i : Nat)
  /-- Another CCAT, or another configuration of it, where none is bound. -/
  | replace (k : Nat) (bar0 : Nat → UInt8)

/-- The result of an operation, with the status of a probe. -/
def Op.apply {bus : Bus} (L : LongWidth) (b : Board) : Op bus → Except Fault (Int × Board)
  | .bind k a => do
    let r ← bus.probe L a k b
    return if bus.binds r.1 then r else (r.1, r.2.forget k)
  | .unbind k order => do
    let b ← bus.remove order k b
    return (0, b.forget k)
  | .attach i a =>
    match b.children[i]? with
    | none => return (0, b)
    | some c => do
      let r ← Device.attach a c b.registry
      return (0, { b with children := b.children.set i r.1, registry := r.2 })
  | .detach i =>
    match b.children[i]? with
    | none => return (0, b)
    | some c => do
      let r ← Device.detach c b.registry
      return (0, { b with children := b.children.set i { c with bound := none }, registry := r })
  | .replace k bar0 => return (0, b.setCard k { b.cards k with bar0 := bar0 })

/-- A card that the driver never saw. -/
def Card.unseen (bar0 : Nat → UInt8) : Card := ⟨bar0, none, 0, false, false, []⟩

/-- The board when the drivers are loaded. -/
def Board.init (bar0 : Nat → Nat → UInt8) : Board where
  cells := Functions.ccatCells
  cards := fun k => .unseen (bar0 k)
  children := []
  registry := .init
  eimRegion := false

end Ccat.Native.Device
