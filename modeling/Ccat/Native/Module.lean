import Ccat.Native.Types

/-!
# Character devices and their class (`module.c`)

`update.c` and `sram.c` share the code that publishes a CCAT function as a
character device: a static table of `ccat_cdev` slots, a reference counted class
with its chrdev region, and exclusive `open`. What the kernel services answer is a
parameter (`ProbeEnv`), what they have registered is the `Kernel` component of the
state. A call that dereferences a pointer with nothing behind it does not return:
it is an `Oops`.
-/

namespace Ccat.Native

/-- A `struct class *`: null, an `ERR_PTR`, or the class object `id`. -/
inductive ClassPtr where
  | null
  | errPtr
  | cls (id : Nat)
  deriving DecidableEq, Repr

/-- The `struct ccat_class *` of a slot: unset, or the class owning the table. -/
inductive ClassRef where
  | null
  | owner
  deriving DecidableEq, Repr

/-- Accesses after which the call does not continue. -/
inductive Oops where
  /-- `class->name` through a null, `ERR_PTR` or already destroyed class. -/
  | classDeref (p : ClassPtr)
  /-- `&class->instances` through the unset class of a slot. -/
  | ccatClassNull
  deriving DecidableEq, Repr

/-- `struct ccat_cdev`. -/
structure CcatCdev where
  inUse : Int
  ioaddr : Nat
  iosize : Nat
  dev : Nat
  cls : ClassRef

/-- `struct cdev_buffer`: the slot it belongs to, the number of bytes staged and
    the data behind the header. -/
structure CdevBuffer where
  ccdev : Nat
  size : Nat
  data : Nat → UInt8

/-- `struct ccat_class` with its table of devices, which is never empty. -/
structure CcatClass where
  dev : Nat
  cls : ClassPtr
  instances : Int
  count : Nat
  devices : Nat → CcatCdev
  count_pos : 0 < count

/-- What is registered with the kernel: chrdev regions (by major), classes,
    device nodes (class and dev number) and cdevs (by dev number). -/
@[ext] structure Kernel where
  regions : List Nat
  classes : List Nat
  nodes : List (Nat × Nat)
  cdevs : List Nat
  deriving DecidableEq, Repr

structure World where
  base : CcatClass
  kernel : Kernel

/-- Answers of the kernel services during one probe. -/
structure ProbeEnv where
  /-- `alloc_chrdev_region()`: the major, or failure. -/
  region : Option Nat
  /-- `class_create()`: the new class, or an `ERR_PTR`. -/
  classCreate : Option Nat
  /-- `device_create()` returns a device. -/
  deviceCreate : Bool
  /-- `cdev_add()` returns 0. -/
  cdevAdd : Bool

/-- The parts of `struct ccat_function` a probe reads: `ccat->bar_0` and `info.addr`. -/
structure CcatFunction where
  bar0 : Nat
  addr : Nat

def MINORBITS : Nat := 20

def mkdev (major minor : Nat) : Nat := (major <<< MINORBITS) ||| minor

def major (dev : Nat) : Nat := dev >>> MINORBITS

/-! ## Kernel services -/

def registerRegion (m : Nat) (w : World) : World :=
  { w with base.dev := mkdev m 0, kernel.regions := m :: w.kernel.regions }

def unregisterChrdevRegion (w : World) : World :=
  { w with kernel.regions := w.kernel.regions.erase (major w.base.dev) }

/-- `base->class = class_create(base->name)`. -/
def classCreate (answer : Option Nat) (w : World) : World :=
  match answer with
  | none => { w with base.cls := .errPtr }
  | some id => { w with base.cls := .cls id, kernel.classes := id :: w.kernel.classes }

/-- `class_destroy()`, which ignores null and `ERR_PTR`. -/
def classDestroy (p : ClassPtr) (w : World) : World :=
  match p with
  | .cls id => { w with kernel.classes := w.kernel.classes.erase id }
  | _ => w

/-- `class->name`. -/
def className (p : ClassPtr) (w : World) : Except Oops Unit :=
  match p with
  | .cls id => if id ∈ w.kernel.classes then .ok () else .error (.classDeref p)
  | _ => .error (.classDeref p)

/-- The class object behind a pointer that was dereferenced before. -/
def ClassPtr.id : ClassPtr → Nat
  | .cls id => id
  | _ => 0

def deviceCreate (p : ClassPtr) (dev : Nat) (w : World) : World :=
  { w with kernel.nodes := (p.id, dev) :: w.kernel.nodes }

def deviceDestroy (p : ClassPtr) (dev : Nat) (w : World) : World :=
  { w with kernel.nodes := w.kernel.nodes.erase (p.id, dev) }

def cdevAdd (dev : Nat) (w : World) : World :=
  { w with kernel.cdevs := dev :: w.kernel.cdevs }

def cdevDel (dev : Nat) (w : World) : World :=
  { w with kernel.cdevs := w.kernel.cdevs.erase dev }

/-- Assignment to fields of slot `i`. -/
def setDevice (i : Nat) (f : CcatCdev → CcatCdev) (w : World) : World :=
  { w with base.devices := fun j => if j = i then f (w.base.devices j) else w.base.devices j }

/-! ## The class -/

/-- `ccat_class_init()`. -/
def ccatClassInit (env : ProbeEnv) (w : World) : Int × World :=
  let w := { w with base.instances := w.base.instances + 1 }
  if w.base.instances = 1 then
    match env.region with
    -- the counter stays incremented
    | none => (-1, w)
    | some m =>
      let w := classCreate env.classCreate (registerRegion m w)
      -- the source tests for a null pointer; an `ERR_PTR` is none
      if w.base.cls = .null then (-1, unregisterChrdevRegion w) else (0, w)
  else (0, w)

/-- `ccat_class_exit()`. -/
def ccatClassExit (w : World) : World :=
  let w := { w with base.instances := w.base.instances - 1 }
  if w.base.instances = 0 then unregisterChrdevRegion (classDestroy w.base.cls w) else w

/-- `free_ccat_cdev()`: the counter is reached through the slot's own class pointer. -/
def freeCcatCdev (i : Nat) (w : World) : Except Oops World :=
  match (w.base.devices i).cls with
  | .null => .error .ccatClassNull
  | .owner => .ok (setDevice i (fun d => { d with dev := 0 }) (ccatClassExit w))

/-- The scan of `alloc_ccat_cdev()` for the first slot with `dev == 0`. -/
def firstFree (base : CcatClass) : Option Nat :=
  (List.range base.count).find? (fun i => (base.devices i).dev == 0)

/-- `alloc_ccat_cdev()`. The result of `ccat_class_init()` is not looked at. -/
def allocCcatCdev (env : ProbeEnv) (w : World) : Except Oops (Option Nat × World) :=
  let w := (ccatClassInit env w).2
  match firstFree w.base with
  | some i => .ok (some i, setDevice i (fun d => { d with dev := mkdev (major w.base.dev) i }) w)
  | none => do
    -- the warning that the table is full prints the name of the class
    className w.base.cls w
    return (none, { w with base.instances := w.base.instances - 1 })

/-! ## The device -/

/-- `ccat_cdev_init()`. -/
def ccatCdevInit (env : ProbeEnv) (dev : Nat) (cls : ClassPtr) (w : World) :
    Except Oops (Int × World) := do
  className cls w
  if !env.deviceCreate then
    return (-1, w)
  let w := deviceCreate cls dev w
  if !env.cdevAdd then
    return (-1, deviceDestroy cls dev w)
  return (0, cdevAdd dev w)

/-- Outcome of `ccat_cdev_probe()`: the status, the slot stored in
    `func->private_data` and the state afterwards. -/
structure ProbeResult where
  status : Int
  privateData : Option Nat
  world : World

/-- `ccat_cdev_probe()`. The class pointer of the slot is assigned last. -/
def ccatCdevProbe (func : CcatFunction) (iosize : Nat) (env : ProbeEnv) (w : World) :
    Except Oops ProbeResult := do
  let (slot, w) ← allocCcatCdev env w
  match slot with
  | none => return ⟨-ENOMEM, none, w⟩
  | some i =>
    let w := setDevice i
      (fun d => { d with ioaddr := func.bar0 + func.addr, iosize := iosize, inUse := 1 }) w
    let (status, w) ← ccatCdevInit env (w.base.devices i).dev w.base.cls w
    if status ≠ 0 then
      -- undoes the claim through the class pointer of the slot, which is still to be set
      let w ← freeCcatCdev i w
      return ⟨-1, none, w⟩
    else
      return ⟨0, some i, setDevice i (fun d => { d with cls := .owner }) w⟩

/-- `ccat_cdev_remove()` of the function bound to slot `i`. -/
def ccatCdevRemove (i : Nat) (w : World) : Except Oops World :=
  let w := cdevDel (w.base.devices i).dev w
  match (w.base.devices i).cls with
  | .null => .error .ccatClassNull
  | .owner => freeCcatCdev i (deviceDestroy w.base.cls (w.base.devices i).dev w)

/-- `ccat_cdev_open()` on slot `i` of the table; `kzalloc` tells whether the
    allocation of the zeroed buffer succeeds. -/
def ccatCdevOpen (i : Nat) (kzalloc : Bool) (d : CcatCdev) : Int × Option CdevBuffer × CcatCdev :=
  let d := { d with inUse := d.inUse - 1 }
  if d.inUse ≠ 0 then
    -- `in_use` counts down from 1, so every further handle finds it at 0
    (-EBUSY, none, { d with inUse := d.inUse + 1 })
  else if !kzalloc then
    (-ENOMEM, none, { d with inUse := d.inUse + 1 })
  else
    (0, some ⟨i, 0, fun _ => 0⟩, d)

/-- `ccat_cdev_release()`. -/
def ccatCdevRelease (d : CcatCdev) : Int × CcatCdev :=
  (0, { d with inUse := d.inUse + 1 })

/-- The zero-initialised static table of a class with `count` slots. -/
def World.init (count : Nat) (h : 0 < count) : World where
  base := ⟨0, .null, 0, count, fun _ => ⟨0, 0, 0, 0, .null⟩, h⟩
  kernel := ⟨[], [], [], []⟩

end Ccat.Native
