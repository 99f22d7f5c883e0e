import Ccat.ForStd.Pool
import Ccat.Native.Sram

/-!
# Concurrent calls on one SRAM handle (`sram.c`)

`ccat_sram_read()` and `ccat_sram_write()` as their two copies, for threads that share
the handle and with it the bounce buffer. Nothing orders the copies of different calls.
The contents of SRAM over time and the writes that were completed are kept as ghost lists.
-/

namespace Ccat.Native.Sram

open Memory

/-- A call at an explicit position. -/
inductive SramCall where
  | read (off len limit : Nat)
  | write (off : Nat) (buf : List UInt8) (limit : Nat)

namespace SramCall

/-- Number of bytes that a call moves, once it is past its checks. -/
def count (iosize : Nat) : SramCall → Nat
  | read off len _ => min len (iosize - off)
  | write _ buf _ => buf.length

def off : SramCall → Nat
  | read off _ _ | write off _ _ => off

/-- The check ahead of the copies. -/
def refused (iosize : Nat) : SramCall → Bool
  | read off _ _ => decide (off ≥ iosize)
  | write off buf _ => decide ((off + buf.length) % 2 ^ 64 > iosize)

/-- The offsets and lengths that the kernel lets through to the driver. -/
def InRange : SramCall → Prop
  | read off len _ => off + len < 2 ^ 63
  | write off buf _ => off + buf.length < 2 ^ 63

/-- The call when nobody else uses the handle. -/
def run (f : SramFile) : SramCall → Option (Answer × SramFile)
  | read off len limit => ccatSramRead f limit len off
  | write off buf limit => ccatSramWrite f limit buf off

end SramCall

structure SramShared where
  file : SramFile
  /-- Ghost: what SRAM held so far, the present content last. -/
  contents : List (Nat → UInt8) := [file.sram]
  /-- Ghost: position and bytes of the writes that ended, in the order of their last copy. -/
  stored : List (Nat × List UInt8) := []

/-- The index of the present content. -/
def SramShared.now (s : SramShared) : Nat := s.contents.length - 1

/-- Where a caller is. `since` and `till` are the contents of SRAM between which it ran. -/
inductive SramTask where
  | calling (c : SramCall)
  /-- The copy into the buffer is to come. -/
  | entered (c : SramCall) (since : Nat)
  /-- The copy out of the buffer is to come. -/
  | staged (c : SramCall) (since : Nat)
  /-- Returned with its second copy done. -/
  | answered (c : SramCall) (since till : Nat) (a : Answer)
  /-- Returned ahead of its second copy. -/
  | failed (c : SramCall) (a : Answer)

namespace SramTask

/-- Copy into the buffer: from SRAM for a read, from the user for a write. -/
def stage (s : SramShared) (since : Nat) : SramCall → Option (SramShared × SramTask)
  | .read off len limit => do
    let f ← memcpyFromio s.file off (min len (s.file.iosize - off))
    return ({ s with file := f }, staged (.read off len limit) since)
  | .write off buf limit => do
    let (missing, f) ← copyToBuffer s.file limit buf
    if missing ≠ 0 then
      return ({ s with file := f }, failed (.write off buf limit) ⟨-EFAULT, [], off⟩)
    return ({ s with file := f }, staged (.write off buf limit) since)

/-- Copy out of the buffer: to the user for a read, to SRAM for a write. -/
def finish (s : SramShared) (since : Nat) : SramCall → Option (SramShared × SramTask)
  | .read off len limit =>
    let n := min len (s.file.iosize - off)
    let (user, missing) := copyToUser limit (slice s.file.buffer.data 0 n)
    let a : Answer := if missing ≠ 0 then ⟨-EFAULT, user, off⟩ else ⟨n, user, off + n⟩
    some (s, answered (.read off len limit) since s.now a)
  | .write off buf limit => do
    let f ← memcpyToio s.file off buf.length
    let s' : SramShared :=
      { file := f, contents := s.contents ++ [f.sram], stored := s.stored ++ [(off, buf)] }
    return (s', answered (.write off buf limit) since s'.now
      ⟨buf.length, [], off + buf.length⟩)

/-- The next step of a caller. -/
def next (s : SramShared) : SramTask → Option (SramShared × SramTask)
  | calling c =>
    if c.refused s.file.iosize then some (s, failed c ⟨0, [], c.off⟩)
    else some (s, entered c s.now)
  | entered c since => stage s since c
  | staged c since => finish s since c
  | answered _ _ _ _ | failed _ _ => none

/-- A caller that nobody interferes with, for at most `n` steps. -/
def alone : Nat → SramShared → SramTask → Option (SramShared × SramTask)
  | 0, s, t => some (s, t)
  | n + 1, s, t =>
    match t with
    | answered _ _ _ _ | failed _ _ => some (s, t)
    | _ => do
      let (s, t) ← t.next s
      alone n s t

/-- What the call returned. -/
def answer? : SramTask → Option Answer
  | answered _ _ _ a | failed _ a => some a
  | _ => none

end SramTask

/-- All the threads that use one handle. -/
def sramCallers : Pool SramShared SramTask where
  start t := ∃ c, t = .calling c ∧ c.InRange
  step s t s' t' := t.next s = some (s', t')
  env _ _ _ := False

end Ccat.Native.Sram
