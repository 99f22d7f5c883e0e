import Mathlib.Logic.Function.Basic
import Ccat.Native.Update

/-!
# The update script (`scripts/update_ccat.sh`)

The script saves the flash, writes the new configuration through the update device,
reads it back and compares; when the comparison fails it writes the backup. It runs
`cat` on the device for every transfer. `cat` copies in chunks of a size of its own,
and stops with a non-zero status when a `write` does not accept the chunk; the device is
closed in either case.

A programming session may go wrong in the flash: what is left there instead of what
the driver prescribes is part of the environment. Files on the host are plain byte
lists, and storing them does not fail. The backup and the temporary file have the name of
the `*.rbf` with a suffix, so runs with different files do not share them.
-/

namespace Ccat.Native.UpdateScript

open Memory Update

/-- One programming session: the flash the driver prescribes and the flash it left. -/
structure Programming where
  prescribed : Nat → UInt8
  actual : Nat → UInt8

/-- What the script works on. -/
structure Host where
  long : LongWidth
  /-- The slot of the device in the table of `update.c`. -/
  slot : Nat
  ccdev : CcatCdev
  hw : FlashHw
  /-- The file `$rbf.~ccat_update_backup` for every `$rbf`. -/
  backup : String → Option (List UInt8)
  /-- The file `$rbf.~ccat_update_tmp` for every `$rbf`. -/
  tmp : String → Option (List UInt8)
  sessions : List Programming

/-- What a run of the script depends on. -/
structure Env where
  /-- `$#`. -/
  argc : Nat
  /-- `$rbf`. -/
  name : String
  /-- The contents of `$rbf`, if it can be read. -/
  rbf : Option (List UInt8)
  /-- `[ -c $update ]`. -/
  isCharDev : Bool
  /-- The chunk size of `cat`, a positive `ssize_t`. -/
  chunk : Nat
  chunk_pos : 0 < chunk
  chunk_lt : chunk < 2 ^ 63
  /-- What the n-th programming session leaves in place of the prescribed flash. -/
  program : Nat → (Nat → UInt8) → (Nat → UInt8)

/-! ## `cat` -/

/-- The write loop of `cat`: its status and the buffer of the handle. -/
def catWrite (d : CcatCdev) (c : Nat) (hc : 0 < c) (pos : Nat) (buffer : CdevBuffer)
    (bytes : List UInt8) : Nat × CdevBuffer :=
  if bytes = [] then (0, buffer)
  else
    let r := ccatUpdateWrite d buffer (bytes.take c).length (bytes.take c) pos
    -- a `write` that returns 0 ends `cat` as an error does
    if r.ret ≤ 0 then (1, r.buffer) else catWrite d c hc r.off r.buffer (bytes.drop c)
termination_by bytes.length
decreasing_by
  rename_i hne _
  have := List.length_pos_iff.mpr hne
  rw [List.length_drop]
  omega

/-- The read loop of `cat`, up to the first `read` that returns 0. Every other one
    delivers at least a byte, so `iosize + 1` calls are enough. -/
def catRead (L : LongWidth) (d : CcatCdev) (hw : FlashHw) (c pos : Nat) :
    Nat → List UInt8 × FlashHw
  | 0 => ([], hw)
  | fuel + 1 =>
    let r := ccatUpdateRead L d hw ⟨fun _ => 0, fun _ => false⟩ c pos
    if r.ret = 0 then ([], r.hw)
    else
      let (rest, hw) := catRead L d r.hw c r.off fuel
      (r.delivered ++ rest, hw)

/-- `cat FILE >$update` with the bytes of the file: open, write, close. -/
def catTo (env : Env) (h : Host) (bytes : List UInt8) : Nat × Host :=
  match ccatCdevOpen h.slot true h.ccdev with
  | (_, some buffer, d) =>
    let (status, buffer) := catWrite d env.chunk env.chunk_pos 0 buffer bytes
    let (_, d, hw) := ccatUpdateRelease h.long d buffer h.hw
    -- closing the device programs what was staged, also after `cat` failed
    let s : Programming := ⟨hw.flash, env.program h.sessions.length hw.flash⟩
    (status,
      { h with ccdev := d, hw := { hw with flash := s.actual }, sessions := h.sessions ++ [s] })
  | (_, none, _) => (1, h)

/-- `cat $update`: open, read to the end, close. -/
def catFrom (env : Env) (h : Host) : Nat × List UInt8 × Host :=
  match ccatCdevOpen h.slot true h.ccdev with
  | (_, some buffer, d) =>
    let (bytes, hw) := catRead h.long d h.hw env.chunk 0 (d.iosize + 1)
    let (_, d, hw) := ccatUpdateRelease h.long d buffer hw
    (0, bytes, { h with ccdev := d, hw := hw })
  | (_, none, _) => (1, [], h)

/-! ## The script -/

/-- `truncate -s`: cut, or extend with zero bytes. -/
def truncate (size : Nat) (bytes : List UInt8) : List UInt8 :=
  bytes.take size ++ List.replicate (size - bytes.length) 0

/-- `diff`: 0 for equal files. -/
def diff (a b : List UInt8) : Nat := if a = b then 0 else 1

/-- `$backup` is stored, or removed. -/
def Host.setBackup (h : Host) (env : Env) (bytes : Option (List UInt8)) : Host :=
  { h with backup := Function.update h.backup env.name bytes }

/-- `$tmp` is stored, or removed. -/
def Host.setTmp (h : Host) (env : Env) (bytes : Option (List UInt8)) : Host :=
  { h with tmp := Function.update h.tmp env.name bytes }

/-- The branch that restores the backup; the status is the exit status of the script. -/
def restore (env : Env) (h : Host) (backup : List UInt8) : Nat × Host :=
  let (status, h) := catTo env h backup
  if status ≠ 0 then (1, h)
  else
    let (status, bytes, h) := catFrom env h
    let h := h.setTmp env (some bytes)
    if status ≠ 0 then (1, h)
    else
      -- a backup that could not be restored is kept, but the script goes on
      let h := if diff backup bytes = 0 then h.setBackup env none else h
      -- the script ends with `rm -f $tmp`
      (0, h.setTmp env none)

/-- The script from the backup on, for an `*.rbf` with the contents `rbf`. -/
def flashAndVerify (env : Env) (h : Host) (rbf : List UInt8) : Nat × Host :=
  let bytes := rbf.length
  let (status, backup, h) := catFrom env h
  let h := h.setBackup env (some backup)
  if status ≠ 0 then (1, h)
  else
    let (status, h) := catTo env h rbf
    if status ≠ 0 then (1, h)
    else
      let (status, readback, h) := catFrom env h
      if status ≠ 0 then (1, h.setTmp env (some readback))
      else
        let tmp := truncate bytes readback
        let h := h.setTmp env (some tmp)
        if diff rbf tmp = 0 then (0, (h.setTmp env none).setBackup env none)
        else restore env h backup

/-- `update_ccat.sh`: the exit status and what it leaves behind. -/
def updateCcat (env : Env) (h : Host) : Nat × Host :=
  if env.argc ≠ 2 then (255, h)
  else
    match env.rbf with
    | none => (1, h)
    | some rbf =>
      if !env.isCharDev then (1, h)
      else flashAndVerify env h rbf

end Ccat.Native.UpdateScript
