import Ccat.ForStd.Pool
import Ccat.Native.Module

/-!
# Concurrent `open` and `close` (`module.c`)

`ccat_cdev_open()` and `ccat_cdev_release()` as their atomic operations on `in_use`, for
callers that run at the same time. `in_use` is an `atomic_t`; there are far fewer callers
than it has values, so it is an integer here.
-/

namespace Ccat.Native

/-- Where a caller of `ccat_cdev_open()` is. -/
inductive Opener where
  /-- Ahead of `atomic_dec_and_test()`. -/
  | calling
  /-- The result was not 0, `atomic_inc()` is to come. -/
  | busy
  /-- The result was 0, `kzalloc()` is to come. -/
  | allocating
  /-- There was no memory, `atomic_inc()` is to come. -/
  | noMem
  /-- The call returned 0: the handle is open. -/
  | opened
  | failed (ret : Int)
  /-- `ccat_cdev_release()` has run on the handle. -/
  | closed
  deriving DecidableEq, Repr

/-- The next atomic operation of `ccat_cdev_open()`, `kzalloc` being the outcome of the
    allocation; there is none once the call has returned. -/
def Opener.next (kzalloc : Bool) (d : CcatCdev) : Opener → Option (CcatCdev × Opener)
  | .calling =>
    let d := { d with inUse := d.inUse - 1 }
    some (d, if d.inUse ≠ 0 then .busy else .allocating)
  | .busy => some ({ d with inUse := d.inUse + 1 }, .failed (-EBUSY))
  | .allocating => some (d, if kzalloc then .opened else .noMem)
  | .noMem => some ({ d with inUse := d.inUse + 1 }, .failed (-ENOMEM))
  | _ => none

/-- A step of a caller: one of `ccat_cdev_open()`, or the release of its handle. -/
def openerStep (d : CcatCdev) (t : Opener) (d' : CcatCdev) (t' : Opener) : Prop :=
  (∃ kzalloc, t.next kzalloc d = some (d', t')) ∨
    t = .opened ∧ d' = (ccatCdevRelease d).2 ∧ t' = .closed

/-- All the callers of one device. -/
def openers : Pool CcatCdev Opener where
  start t := t = .calling
  step := openerStep
  env _ _ _ := False

/-- A caller that nobody interferes with, for at most `n` operations. -/
def Opener.alone (kzalloc : Bool) : Nat → CcatCdev → Opener → CcatCdev × Opener
  | 0, d, t => (d, t)
  | n + 1, d, t =>
    match t.next kzalloc d with
    | some (d', t') => t'.alone kzalloc n d'
    | none => (d, t)

/-- How a call to `ccat_cdev_open()` ended. -/
def Opener.ended (ret : Int) (buf : Option CdevBuffer) : Opener :=
  if buf.isSome then .opened else .failed ret

end Ccat.Native
