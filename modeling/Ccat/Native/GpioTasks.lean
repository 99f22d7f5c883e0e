import Ccat.ForStd.Pool
import Ccat.Native.Gpio

/-!
# Concurrent GPIO calls (`gpio.c`)

The calls on one chip as the steps other callers can come between: `mutex_lock()`, the
first register read, the second register access and `mutex_unlock()`. The order in which
the mutex is taken and the values returned are kept as ghost lists.
-/

namespace Ccat.Native.Gpio

/-- The calls that take the chip's mutex. -/
inductive GpioCall where
  | set (nr : Nat) (val : Int)
  | directionInput (nr : Nat)
  | directionOutput (nr : Nat) (val : Int)
  | get (nr : Nat)
  deriving DecidableEq, Repr

namespace GpioCall

def nr : GpioCall → Nat
  | set nr _ | directionInput nr | directionOutput nr _ | get nr => nr

def isGet : GpioCall → Bool
  | get _ => true
  | _ => false

/-- A call that nobody interferes with: its result and the registers after it. -/
def run (L : LongWidth) (regs : Regs) : GpioCall → Option (Int × Regs)
  | set nr val => (ccatGpioSet L regs nr val).map fun regs => (0, regs)
  | directionInput nr => ccatGpioDirectionInput L regs nr
  | directionOutput nr val => ccatGpioDirectionOutput L regs nr val
  | get nr => some (ccatGpioGet regs nr, regs)

/-- The register that a call reads first: the one it changes, or the pin's direction. -/
def firstRead : GpioCall → Nat
  | set _ _ => 0
  | directionInput _ | directionOutput _ _ => 0x8
  | get nr => 4 * (nr / 32) + 0x8

end GpioCall

/-- What the chip is given, in the order in which it takes effect. -/
inductive GpioEvent where
  /-- A call takes the mutex. -/
  | call (c : GpioCall)
  /-- The input pins change to these two words. -/
  | inputs (lo hi : BitVec 32)

/-- The chip's input words. -/
def setInputs (lo hi : BitVec 32) (regs : Regs) : Regs :=
  iowrite32 hi 0x14 (iowrite32 lo 0x10 regs)

structure GpioShared where
  regs : Regs
  locked : Bool := false
  /-- Ghost: the calls as they took the mutex, and the changes of the inputs. -/
  history : List GpioEvent := []
  /-- Ghost: the calls that gave the mutex back, with their results. -/
  returned : List (GpioCall × Int) := []

/-- Where a caller is. -/
inductive GpioTask where
  /-- Ahead of `mutex_lock()`. -/
  | waiting (c : GpioCall)
  /-- The first register read is to come. -/
  | locked (c : GpioCall)
  /-- `word` has been read, the second register access is to come. -/
  | loaded (c : GpioCall) (word : BitVec 32)
  /-- `mutex_unlock()` is to come. -/
  | accessed (c : GpioCall) (ret : Int)
  | returned (c : GpioCall) (ret : Int)

namespace GpioTask

def call : GpioTask → GpioCall
  | waiting c | locked c | loaded c _ | accessed c _ | returned c _ => c

/-- The caller holds the mutex. -/
def inside : GpioTask → Bool
  | locked _ | loaded _ _ | accessed _ _ => true
  | _ => false

/-- The second half of `set_bit_in_register()`. -/
def writeBack (L : LongWidth) (word : BitVec 32) (ioaddr nr : Nat) (val : Int) (regs : Regs) :
    Option (Int × Regs) := do
  let old ← changeBit nr val (word.setWidth L.bits)
  let old ← changeBit nr val old
  return (0, iowrite32 (old.setWidth 32) ioaddr regs)

/-- The second register access of a call that has read `word`. -/
def access (L : LongWidth) (word : BitVec 32) (regs : Regs) : GpioCall → Option (Int × Regs)
  | .set nr val => writeBack L word 0 nr val regs
  | .directionInput nr => writeBack L word 0x8 nr 0 regs
  | .directionOutput nr _ => writeBack L word 0x8 nr 1 regs
  | .get nr =>
    let mask : BitVec 32 := 1#32 <<< (nr % 32)
    let dirOff := 0x10 * if mask &&& word = 0 then 1 else 0
    some (if mask &&& ioread32 regs (4 * (nr / 32) + dirOff) = 0 then 1 else 0, regs)

/-- The next step of a caller; `mutex_lock()` waits while the mutex is taken. -/
def next (L : LongWidth) (s : GpioShared) : GpioTask → Option (GpioShared × GpioTask)
  | waiting c =>
    if s.locked then none
    else some ({ s with locked := true, history := s.history ++ [.call c] }, locked c)
  | locked c => some (s, loaded c (ioread32 s.regs c.firstRead))
  | loaded c word =>
    (access L word s.regs c).map fun (ret, regs) => ({ s with regs }, accessed c ret)
  | accessed c ret =>
    some ({ s with locked := false, returned := s.returned ++ [(c, ret)] }, returned c ret)
  | returned _ _ => none

end GpioTask

/-- All the callers of one chip, for pins of the first word. The input pins change at any
    moment but between the two reads of a `ccat_gpio_get()`. -/
def gpioCallers (L : LongWidth) : Pool GpioShared GpioTask where
  start t := ∃ c, t = .waiting c ∧ c.nr < 32
  step s t s' t' := t.next L s = some (s', t')
  env ts s s' := (∀ t ∈ ts, t.inside → t.call.isGet = false) ∧
    ∃ lo hi, s' = { s with
      regs := setInputs lo hi s.regs
      history := s.history ++ [.inputs lo hi] }

/-! ### One call after another -/

/-- One event of a serial run, on the registers and the results so far. -/
def GpioEvent.run (L : LongWidth) :
    Regs × List (GpioCall × Int) → GpioEvent → Option (Regs × List (GpioCall × Int))
  | (regs, rets), .call c => (c.run L regs).map fun (ret, regs) => (regs, rets ++ [(c, ret)])
  | (regs, rets), .inputs lo hi => some (setInputs lo hi regs, rets)

/-- The events of a history one after another. -/
def serialRun (L : LongWidth) (regs : Regs) (history : List GpioEvent) :
    Option (Regs × List (GpioCall × Int)) :=
  history.foldlM (GpioEvent.run L) (regs, [])

end Ccat.Native.Gpio
