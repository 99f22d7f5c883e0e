import Ccat.Native.Module
import Ccat.Native.Uaccess
import Ccat.Native.UpdateCmd
import Ccat.ForStd.Mealy
import Ccat.ForStd.Memory

/-!
# Update function block (`update.c`)

The update device stages a new configuration in the buffer of the handle: `write`
only copies into the buffer, and closing the handle erases the flash and programs
what was staged. `read` goes to the flash directly.

Offsets are `loff_t` values that are not negative; `u32` and `u16` parameters reduce
what is passed to them. The polling loops and the block loops are the source's own.
-/

namespace Ccat.Native.Update

open Memory

def CCAT_DATA_IN_4 : Nat := 0x038
def CCAT_DATA_IN_N : Nat := 0x7F0
def CCAT_DATA_OUT_4 : Nat := 0x030
def CCAT_DATA_BLOCK_SIZE : Nat := (CCAT_DATA_IN_N - CCAT_DATA_IN_4) / 8
def CCAT_WRITE_BLOCK_SIZE : Nat := 128
def CCAT_FLASH_SIZE : Nat := 0xE0000

/-! ## Reading -/

/-- A buffer in user space; storing at an address in `faults` fails. -/
structure UserBuf where
  bytes : Nat → UInt8
  faults : Nat → Bool

/-- `put_user()` to address `buf` of the buffer. Its callers drop the return value. -/
def UserBuf.putUser (u : UserBuf) (v : UInt8) (buf : Nat) : UserBuf :=
  if u.faults buf then u else { u with bytes := fun p => if p = buf then v else u.bytes p }

/-- The loop of `ccat_read_flash_block()`, from index `i` on with `n` bytes to go. -/
def putBlock (hw : FlashHw) (u : UserBuf) (buf i : Nat) : Nat → FlashHw × UserBuf
  | 0 => (hw, u)
  | n + 1 =>
    let (v, hw) := hw.ioread8 (CCAT_DATA_IN_4 + 8 * i)
    putBlock hw (u.putUser v (buf + i)) buf (i + 1) n

/-- `ccat_read_flash_block()`, which returns `len`. -/
def ccatReadFlashBlock (L : LongWidth) (hw : FlashHw) (addr len : Nat) (u : UserBuf) (buf : Nat) :
    FlashHw × UserBuf :=
  let clocks := 8 * len % 2 ^ 16
  let hw := ccatUpdateCmdAddr L hw (CCAT_READ_FLASH.addClocks clocks) addr
  putBlock hw u buf 0 len

/-- The loop of `ccat_read_flash()` with the last block; the result has the new
    `*off`. -/
def readBlocks (L : LongWidth) (hw : FlashHw) (u : UserBuf) (buf len off : Nat) :
    FlashHw × UserBuf × Nat :=
  if len > CCAT_DATA_BLOCK_SIZE then
    let (hw, u) := ccatReadFlashBlock L hw (off % 2 ^ 32) CCAT_DATA_BLOCK_SIZE u buf
    readBlocks L hw u (buf + CCAT_DATA_BLOCK_SIZE) (len - CCAT_DATA_BLOCK_SIZE)
      (off + CCAT_DATA_BLOCK_SIZE)
  else
    -- `addr` is a `u32`, `len` a `u16`
    let (hw, u) := ccatReadFlashBlock L hw (off % 2 ^ 32) (len % 2 ^ 16) u buf
    (hw, u, off + len % 2 ^ 16)
termination_by len
decreasing_by simp only [CCAT_DATA_BLOCK_SIZE, CCAT_DATA_IN_N, CCAT_DATA_IN_4] at *; omega

/-- What a `read` call leaves behind. -/
structure ReadResult where
  ret : Int
  off : Nat
  user : UserBuf
  hw : FlashHw

/-- `ccat_read_flash()`. -/
def ccatReadFlash (L : LongWidth) (hw : FlashHw) (u : UserBuf) (len off : Nat) : ReadResult :=
  let start := off
  let (hw, u, off) := readBlocks L hw u 0 (len % 2 ^ 32) off
  ⟨off - start, off, u, hw⟩

/-- `ccat_update_read()`. -/
def ccatUpdateRead (L : LongWidth) (d : CcatCdev) (hw : FlashHw) (u : UserBuf) (len off : Nat) :
    ReadResult :=
  if off ≥ d.iosize then
    ⟨0, off, u, hw⟩
  else
    ccatReadFlash L hw u (min len (d.iosize - off)) off

/-! ## Staging -/

/-- What a `write` call leaves behind. -/
structure WriteResult where
  ret : Int
  off : Nat
  buffer : CdevBuffer

/-- `ccat_update_write()` of the user bytes `buf`, of which `limit` are accessible. -/
def ccatUpdateWrite (d : CcatCdev) (buffer : CdevBuffer) (limit : Nat) (buf : List UInt8)
    (off : Nat) : WriteResult :=
  if (off + buf.length) % 2 ^ 64 > d.iosize then
    -- `*off + len` is computed in 64 bits and compared without sign
    ⟨0, off, buffer⟩
  else
    let (bytes, missing) := copyFromUser limit buf
    let buffer := { buffer with data := blit buffer.data off bytes }
    if missing ≠ 0 then
      -- what was copied before the fault stays in the buffer
      ⟨-EFAULT, off, buffer⟩
    else
      ⟨buf.length, off + buf.length, { buffer with size := off + buf.length }⟩

/-! ## Programming -/

/-- The loop of `ccat_write_flash_block()`, from index `i` on with `n` bytes to go. -/
def fillBlock (hw : FlashHw) (data : Nat → UInt8) (buf i : Nat) : Nat → FlashHw
  | 0 => hw
  | n + 1 => fillBlock (hw.iowrite8 (data (buf + i)) (CCAT_DATA_OUT_4 + 8 * i)) data buf (i + 1) n

/-- `ccat_write_flash_block()`. -/
def ccatWriteFlashBlock (L : LongWidth) (hw : FlashHw) (addr len : Nat) (data : Nat → UInt8)
    (buf : Nat) : FlashHw :=
  let clocks := 8 * len % 2 ^ 16
  let hw := ccatUpdateCmd hw CCAT_WRITE_ENABLE
  let hw := fillBlock hw data buf 0 len
  let hw := ccatUpdateCmdAddr L hw (CCAT_WRITE_FLASH.addClocks clocks) addr
  ccatWaitStatusCleared hw

/-- The loop of `ccat_write_flash()` with the last block. -/
def writeBlocks (L : LongWidth) (hw : FlashHw) (data : Nat → UInt8) (off buf len : Nat) : FlashHw :=
  if len > CCAT_WRITE_BLOCK_SIZE then
    let hw := ccatWriteFlashBlock L hw off CCAT_WRITE_BLOCK_SIZE data buf
    writeBlocks L hw data ((off + CCAT_WRITE_BLOCK_SIZE) % 2 ^ 32) (buf + CCAT_WRITE_BLOCK_SIZE)
      (len - CCAT_WRITE_BLOCK_SIZE)
  else
    ccatWriteFlashBlock L hw off (len % 2 ^ 16) data buf
termination_by len
decreasing_by simp only [CCAT_WRITE_BLOCK_SIZE] at *; omega

/-- `ccat_write_flash()`. -/
def ccatWriteFlash (L : LongWidth) (hw : FlashHw) (buffer : CdevBuffer) : FlashHw :=
  writeBlocks L hw buffer.data 0 0 buffer.size

/-- `ccat_update_release()`. -/
def ccatUpdateRelease (L : LongWidth) (d : CcatCdev) (buffer : CdevBuffer) (hw : FlashHw) :
    Int × CcatCdev × FlashHw :=
  let hw :=
    if buffer.size > 0 then
      let hw := ccatUpdateCmd hw CCAT_WRITE_ENABLE
      -- the latch set before the erase is cleared by it; every block sets it again
      let hw := ccatUpdateCmd hw CCAT_BULK_ERASE
      let hw := ccatWaitStatusCleared hw
      ccatWriteFlash L hw buffer
    else hw
  let (status, d) := ccatCdevRelease d
  (status, d, hw)

/-! ## System calls on a handle -/

/-- A `write` or `pwrite` call: the explicit position, if any, the bytes and how many of
    them are accessible. -/
structure WriteCall where
  off : Option Nat
  buf : List UInt8
  limit : Nat

/-- Write calls made one after another; the result has the return values, the file
    position and the buffer. -/
def writeCalls (d : CcatCdev) (pos : Nat) (buffer : CdevBuffer) :
    List WriteCall → List Int × Nat × CdevBuffer
  | [] => ([], pos, buffer)
  | c :: cs =>
    let r := ccatUpdateWrite d buffer c.limit c.buf (c.off.getD pos)
    -- `pwrite` leaves the file position alone
    let pos := if c.off.isNone then r.off else pos
    let (rets, pos, buffer) := writeCalls d pos r.buffer cs
    (r.ret :: rets, pos, buffer)

/-- A `read` call: the length asked for and the user's buffer. -/
structure ReadCall where
  len : Nat
  user : UserBuf

/-- A call that was made: the file position before it and what it left behind. -/
structure ReadStep where
  pos : Nat
  call : ReadCall
  result : ReadResult

/-- Read calls made one after another from file position `pos`. -/
def readCalls (L : LongWidth) (d : CcatCdev) (hw : FlashHw) (pos : Nat) :
    List ReadCall → List ReadStep × FlashHw
  | [] => ([], hw)
  | c :: cs =>
    let r := ccatUpdateRead L d hw c.user c.len pos
    let (steps, hw) := readCalls L d r.hw r.off cs
    (⟨pos, c, r⟩ :: steps, hw)

/-- The bytes a `read` reported as delivered. -/
def ReadResult.delivered (r : ReadResult) : List UInt8 := slice r.user.bytes 0 r.ret.toNat

/-- What a session ends with: what its calls returned, the status of `close` and the
    device. -/
structure Session (α : Type) where
  answers : List α
  status : Int
  ccdev : CcatCdev
  hw : FlashHw

/-- Open the device, write, close it; `none` when it cannot be opened. -/
def writeSession (L : LongWidth) (i : Nat) (d : CcatCdev) (hw : FlashHw) (calls : List WriteCall) :
    Option (Session Int) :=
  match ccatCdevOpen i true d with
  | (_, some buffer, d) =>
    let (rets, _, buffer) := writeCalls d 0 buffer calls
    let (status, d, hw) := ccatUpdateRelease L d buffer hw
    some ⟨rets, status, d, hw⟩
  | (_, none, _) => none

/-- Open the device, read, close it; `none` when it cannot be opened. -/
def readSession (L : LongWidth) (i : Nat) (d : CcatCdev) (hw : FlashHw) (calls : List ReadCall) :
    Option (Session ReadStep) :=
  match ccatCdevOpen i true d with
  | (_, some buffer, d) =>
    let (steps, hw) := readCalls L d hw 0 calls
    let (status, d, hw) := ccatUpdateRelease L d buffer hw
    some ⟨steps, status, d, hw⟩
  | (_, none, _) => none

/-- A call on a handle. Reads and writes have an explicit position or use the file's. -/
inductive FileCall where
  | read (off : Option Nat) (c : ReadCall)
  | write (c : WriteCall)

def FileCall.isWrite : FileCall → Bool
  | .read .. => false
  | .write _ => true

/-- Reads and writes made one after another on a handle; the result has the calls with their
    return values, the buffer and the device. -/
def fileCalls (L : LongWidth) (d : CcatCdev) (hw : FlashHw) (pos : Nat) (buffer : CdevBuffer) :
    List FileCall → List (FileCall × Int) × CdevBuffer × FlashHw
  | [] => ([], buffer, hw)
  | .read off c :: cs =>
    let r := ccatUpdateRead L d hw c.user c.len (off.getD pos)
    -- `pread` and `pwrite` leave the file position alone
    let pos := if off.isNone then r.off else pos
    let (answers, buffer, hw) := fileCalls L d r.hw pos buffer cs
    ((.read off c, r.ret) :: answers, buffer, hw)
  | .write c :: cs =>
    let r := ccatUpdateWrite d buffer c.limit c.buf (c.off.getD pos)
    let pos := if c.off.isNone then r.off else pos
    let (answers, buffer, hw) := fileCalls L d hw pos r.buffer cs
    ((.write c, r.ret) :: answers, buffer, hw)

/-- Open the device, read and write, close it; `none` when it cannot be opened. -/
def fileSession (L : LongWidth) (i : Nat) (d : CcatCdev) (hw : FlashHw) (calls : List FileCall) :
    Option (Session (FileCall × Int)) :=
  match ccatCdevOpen i true d with
  | (_, some buffer, d) =>
    let (answers, buffer, hw) := fileCalls L d hw 0 buffer calls
    let (status, d, hw) := ccatUpdateRelease L d buffer hw
    some ⟨answers, status, d, hw⟩
  | (_, none, _) => none

/-! ## The device and its file descriptors -/

/-- What a file descriptor refers to: the buffer of the handle and the file position. -/
structure OpenFile where
  buffer : CdevBuffer
  pos : Nat

/-- The device with the descriptors on it; `nextFd` is the one the next `open` gets. -/
structure UpdateDev where
  ccdev : CcatCdev
  hw : FlashHw
  files : Nat → Option OpenFile
  nextFd : Nat

/-- A system call. Reads and writes have an explicit position or use the file's. -/
inductive Request where
  | openFile (kzalloc : Bool)
  | readFile (fd : Nat) (off : Option Nat) (len : Nat) (user : UserBuf)
  | writeFile (fd : Nat) (off : Option Nat) (buf : List UInt8) (limit : Nat)
  | closeFile (fd : Nat)

inductive Answer where
  /-- The descriptor that `open` returns. -/
  | opened (fd : Nat)
  /-- What `read` returns and leaves in the user's buffer. -/
  | bytes (ret : Int) (user : UserBuf)
  | ret (ret : Int)
  /-- No such descriptor; the driver is not called. -/
  | badFile

/-- The device with the file behind `fd` replaced. -/
def UpdateDev.setFile (s : UpdateDev) (fd : Nat) (f : Option OpenFile) : UpdateDev :=
  { s with files := fun n => if n = fd then f else s.files n }

/-- `open`: the kernel drops the file again when `ccat_cdev_open()` fails. -/
def UpdateDev.openFile (i : Nat) (s : UpdateDev) (kzalloc : Bool) : Answer × UpdateDev :=
  match ccatCdevOpen i kzalloc s.ccdev with
  | (_, some buffer, d) =>
    (.opened s.nextFd,
      { s.setFile s.nextFd (some ⟨buffer, 0⟩) with ccdev := d, nextFd := s.nextFd + 1 })
  | (ret, none, d) => (.ret ret, { s with ccdev := d })

def UpdateDev.readFile (L : LongWidth) (s : UpdateDev) (fd : Nat) (off : Option Nat) (len : Nat)
    (user : UserBuf) : Answer × UpdateDev :=
  match s.files fd with
  | none => (.badFile, s)
  | some f =>
    let r := ccatUpdateRead L s.ccdev s.hw user len (off.getD f.pos)
    let pos := if off.isNone then r.off else f.pos
    (.bytes r.ret r.user, { s.setFile fd (some { f with pos := pos }) with hw := r.hw })

def UpdateDev.writeFile (s : UpdateDev) (fd : Nat) (off : Option Nat) (buf : List UInt8)
    (limit : Nat) : Answer × UpdateDev :=
  match s.files fd with
  | none => (.badFile, s)
  | some f =>
    let r := ccatUpdateWrite s.ccdev f.buffer limit buf (off.getD f.pos)
    let pos := if off.isNone then r.off else f.pos
    (.ret r.ret, s.setFile fd (some ⟨r.buffer, pos⟩))

/-- `close` of the last reference to the file. -/
def UpdateDev.closeFile (L : LongWidth) (s : UpdateDev) (fd : Nat) : Answer × UpdateDev :=
  match s.files fd with
  | none => (.badFile, s)
  | some f =>
    let r := ccatUpdateRelease L s.ccdev f.buffer s.hw
    (.ret r.1, { s.setFile fd none with ccdev := r.2.1, hw := r.2.2 })

/-- The update device in slot `i` as seen from its system calls. -/
def updateDev (L : LongWidth) (i : Nat) : Mealy UpdateDev Request Answer where
  step s
    | .openFile kzalloc => s.openFile i kzalloc
    | .readFile fd off len user => s.readFile L fd off len user
    | .writeFile fd off buf limit => s.writeFile fd off buf limit
    | .closeFile fd => s.closeFile L fd

end Ccat.Native.Update
