import Ccat.Native.Module
import Ccat.Native.Uaccess
import Ccat.ForStd.Memory

/-!
# SRAM function block (`sram.c`)

The SRAM is a character device: `read` and `write` move data between the SRAM
window and user space through the bounce buffer of the handle, which
`ccat_cdev_open()` allocates with the size of the window. A copy that leaves the
window or the buffer has no result (`none`).

Offsets are `loff_t` values that are not negative and lengths are `size_t`; the sum
of the two is formed in 64 bits.
-/

namespace Ccat.Native.Sram

open Memory

/-- An open handle together with the SRAM behind it. -/
structure SramFile where
  /-- `ccdev->iosize`. -/
  iosize : Nat
  /-- The bytes behind `ccdev->ioaddr`. -/
  sram : Nat → UInt8
  /-- `f->private_data`. -/
  buffer : CdevBuffer
  /-- `f->f_pos`. -/
  pos : Nat

/-- What a call returns: the return value, the bytes stored in the user's buffer and
    the offset afterwards. -/
structure Answer where
  ret : Int
  user : List UInt8
  off : Nat
  deriving DecidableEq, Repr

/-- `memcpy_fromio(buffer->data, ioaddr + off, len)`. -/
def memcpyFromio (f : SramFile) (off len : Nat) : Option SramFile :=
  if off + len ≤ f.iosize ∧ len ≤ f.iosize then
    some { f with buffer.data := blit f.buffer.data 0 (slice f.sram off len) }
  else none

/-- `memcpy_toio(ioaddr + off, buffer->data, len)`. -/
def memcpyToio (f : SramFile) (off len : Nat) : Option SramFile :=
  if off + len ≤ f.iosize ∧ len ≤ f.iosize then
    some { f with sram := blit f.sram off (slice f.buffer.data 0 len) }
  else none

/-- `copy_from_user(buffer->data, buf, len)`: the number of bytes missing. -/
def copyToBuffer (f : SramFile) (limit : Nat) (buf : List UInt8) : Option (Nat × SramFile) :=
  if buf.length ≤ f.iosize then
    some ((copyFromUser limit buf).2,
      { f with buffer.data := blit f.buffer.data 0 (copyFromUser limit buf).1 })
  else none

/-- `__sram_read()`. -/
def sramRead (f : SramFile) (limit len off : Nat) : Option (Answer × SramFile) := do
  let f ← memcpyFromio f off len
  let (user, missing) := copyToUser limit (slice f.buffer.data 0 len)
  if missing ≠ 0 then
    return (⟨-EFAULT, user, off⟩, f)
  return (⟨len, user, off + len⟩, f)

/-- `ccat_sram_read()` of `len` bytes at `off` into a user buffer of which `limit`
    bytes are accessible. -/
def ccatSramRead (f : SramFile) (limit len off : Nat) : Option (Answer × SramFile) :=
  if off ≥ f.iosize then
    some (⟨0, [], off⟩, f)
  else
    sramRead f limit (min len (f.iosize - off)) off

/-- `ccat_sram_write()` of the user bytes `buf` at `off`. -/
def ccatSramWrite (f : SramFile) (limit : Nat) (buf : List UInt8) (off : Nat) :
    Option (Answer × SramFile) :=
  if (off + buf.length) % 2 ^ 64 > f.iosize then
    some (⟨0, [], off⟩, f)
  else do
    let (missing, f) ← copyToBuffer f limit buf
    if missing ≠ 0 then
      return (⟨-EFAULT, [], off⟩, f)
    let f ← memcpyToio f off buf.length
    return (⟨buf.length, [], off + buf.length⟩, f)

/-- A system call on the handle. `off` is the position of `pread`/`pwrite`; without it
    the call uses and advances the file position. -/
inductive Call where
  | read (off : Option Nat) (len limit : Nat)
  | write (off : Option Nat) (buf : List UInt8) (limit : Nat)
  | seek (offset : Int) (whence : Nat)

/-- `fixed_size_llseek()`: the new position for a file position, an offset, a
    `whence` and the size of the device, or an error code. -/
abbrev Llseek := Nat → Int → Nat → Nat → Except Int Nat

/-- `ccat_cdev_llseek()`. -/
def ccatCdevLlseek (llseek : Llseek) (f : SramFile) (offset : Int) (whence : Nat) :
    Answer × SramFile :=
  match llseek f.pos offset whence f.iosize with
  | .ok p => (⟨p, [], p⟩, { f with pos := p })
  | .error e => (⟨-e, [], f.pos⟩, f)

/-- One system call. -/
def SramFile.call (llseek : Llseek) (f : SramFile) : Call → Option (Answer × SramFile)
  | .read none len limit => do
    let (a, f) ← ccatSramRead f limit len f.pos
    return (a, { f with pos := a.off })
  | .read (some off) len limit => ccatSramRead f limit len off
  | .write none buf limit => do
    let (a, f) ← ccatSramWrite f limit buf f.pos
    return (a, { f with pos := a.off })
  | .write (some off) buf limit => ccatSramWrite f limit buf off
  | .seek offset whence => some (ccatCdevLlseek llseek f offset whence)

/-- System calls made one after another. -/
def SramFile.run (llseek : Llseek) (f : SramFile) : List Call → Option (List Answer × SramFile)
  | [] => some ([], f)
  | c :: cs => do
    let (a, f) ← f.call llseek c
    let (as, f) ← f.run llseek cs
    return (a :: as, f)

/-- `iosize` as `ccat_sram_probe()` computes it from `info.sram_size`. -/
def sramIosize (sramSize : Nat) : Nat := 1 <<< sramSize

/-- A handle with its buffer, fresh from `ccat_cdev_open()`, on an SRAM of
    `2 ^ sramSize` bytes. -/
def SramFile.opened (sramSize : Nat) (sram : Nat → UInt8) (buffer : CdevBuffer) : SramFile where
  iosize := sramIosize sramSize
  sram := sram
  buffer := buffer
  pos := 0

end Ccat.Native.Sram
