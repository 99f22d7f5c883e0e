import Ccat.Native.Drivers

/-!
# SRAM devices and the files open on them

SRAM functions come and go with their CCATs, and files may stay open when a device is
removed. `ccat_cdev_open()` allocates the buffer of a file for the window that is there at
that time, while every later call looks window and size up in the slot of the device
table, whichever device that belongs to by then.

A call through a file has no result (`none`) if it moves more bytes through the buffer
than were allocated, or any bytes where the slot has no device.
-/

namespace Ccat.Native.Sram

open Device (Registry)

/-- An open file. -/
structure SramOpen where
  /-- `f->private_data`. -/
  buffer : CdevBuffer
  /-- The number of bytes allocated for `buffer->data`. -/
  capacity : Nat
  /-- `f->f_pos`. -/
  pos : Nat
  /-- Ghost: where the window was when the file was opened. -/
  ioaddr : Nat
  /-- Ghost: the device was removed since. -/
  orphan : Bool

/-- All SRAM devices. -/
structure SramBoard where
  registry : Registry
  /-- The slots that the private data of functions refers to. -/
  bound : List Nat
  /-- The memory of the CCATs, by address. -/
  io : Nat → UInt8
  /-- Open files, by descriptor. -/
  files : Nat → Option SramOpen

def SramBoard.device (s : SramBoard) (slot : Nat) : CcatCdev := s.registry.sram.base.devices slot

/-- The registry with slot `slot` of the class changed. -/
def updateSlot (r : Registry) (slot : Nat) (f : CcatCdev → CcatCdev) : Registry :=
  { r with sram := setDevice slot f r.sram }

def SramBoard.setFile (s : SramBoard) (fd : Nat) (f : Option SramOpen) : SramBoard :=
  { s with files := fun n => if n = fd then f else s.files n }

/-- A probe returned: its registry, and the slot it stored in `func->private_data`. -/
def SramBoard.probed (s : SramBoard) (p : Device.Probed) : SramBoard :=
  { s with
    registry := p.registry
    bound := match p.privateData with
      | some (.sram slot) => slot :: s.bound
      | _ => s.bound }

/-- The device in `slot` was removed. Files stay open. -/
def SramBoard.removed (s : SramBoard) (slot : Nat) (r : Registry) : SramBoard :=
  { s with
    registry := r
    bound := s.bound.erase slot
    files := fun fd => (s.files fd).map fun f =>
      if f.buffer.ccdev = slot then { f with orphan := true } else f }

/-- `open` of the device in `slot`, as descriptor `fd`. -/
def SramBoard.openFile (s : SramBoard) (fd slot : Nat) (kzalloc : Bool) : Int × SramBoard :=
  let d := s.device slot
  let opened :=
    { s with registry := updateSlot s.registry slot fun d => (ccatCdevOpen slot kzalloc d).2.2 }
  match ccatCdevOpen slot kzalloc d with
  | (ret, some buffer, _) =>
    (ret, opened.setFile fd (some ⟨buffer, d.iosize, 0, d.ioaddr, false⟩))
  | (ret, none, _) => (ret, opened)

/-- `close`: the slot is reached through the buffer. -/
def SramBoard.closeFile (s : SramBoard) (fd : Nat) (f : SramOpen) : Int × SramBoard :=
  let slot := f.buffer.ccdev
  let released :=
    { s with registry := updateSlot s.registry slot fun d => (ccatCdevRelease d).2 }
  ((ccatCdevRelease (s.device slot)).1, released.setFile fd none)

/-- How many bytes a call moves through the buffer, with a window of `iosize` bytes. -/
def Call.staged (iosize pos : Nat) : Call → Nat
  | .read off len _ =>
    if off.getD pos ≥ iosize then 0 else min len (iosize - off.getD pos)
  | .write off buf _ =>
    if (off.getD pos + buf.length) % 2 ^ 64 > iosize then 0 else buf.length
  | .seek _ _ => 0

/-- The file and the window behind the slot as it is now. -/
def SramBoard.sramFile (s : SramBoard) (f : SramOpen) : SramFile where
  iosize := (s.device f.buffer.ccdev).iosize
  sram := fun k => s.io ((s.device f.buffer.ccdev).ioaddr + k)
  buffer := f.buffer
  pos := f.pos

/-- A system call on an open file. -/
def SramBoard.call (llseek : Llseek) (s : SramBoard) (fd : Nat) (c : Call) :
    Option (Answer × SramBoard) := do
  let f ← s.files fd
  let d := s.device f.buffer.ccdev
  let n := c.staged d.iosize f.pos
  if n ≤ f.capacity ∧ (n = 0 ∨ f.buffer.ccdev ∈ s.bound) then
    let (a, file) ← (s.sramFile f).call llseek c
    return (a,
      { s with
        io := fun addr => if d.ioaddr ≤ addr then file.sram (addr - d.ioaddr) else s.io addr
      }.setFile fd (some { f with buffer := file.buffer, pos := file.pos }))
  else none

end Ccat.Native.Sram
