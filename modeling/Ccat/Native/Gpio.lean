import Ccat.Native.Types

/-!
# GPIO function block (`gpio.c`)

The chip's registers are 32-bit words addressed by their byte offset from
`gdev->ioaddr`. All writes go through `setBitInRegister`, a read-modify-write
under the chip's mutex whose local `old` is an `unsigned long`.
-/

namespace Ccat.Native.Gpio

/-- The 32-bit words behind `gdev->ioaddr`, by byte offset. -/
abbrev Regs := Nat → BitVec 32

def ioread32 (regs : Regs) (off : Nat) : BitVec 32 := regs off

def iowrite32 (v : BitVec 32) (off : Nat) (regs : Regs) : Regs :=
  fun o => if o = off then v else regs o

/-- `set_bit(nr, &old)` on the one-word object `old`: the kernel's bit operations
    address word `nr / BITS_PER_LONG`, so the result is `none` when that word is
    not `old` itself. -/
def setBit (nr : Nat) (old : BitVec w) : Option (BitVec w) :=
  if nr / w = 0 then some (old ||| (1#w <<< (nr % w))) else none

/-- `clear_bit(nr, &old)`, with the same addressing as `setBit`. -/
def clearBit (nr : Nat) (old : BitVec w) : Option (BitVec w) :=
  if nr / w = 0 then some (old &&& ~~~(1#w <<< (nr % w))) else none

/-- `val ? set_bit(nr, &old) : clear_bit(nr, &old)`. -/
def changeBit (nr : Nat) (val : Int) (old : BitVec w) : Option (BitVec w) :=
  if val ≠ 0 then setBit nr old else clearBit nr old

/-- `set_bit_in_register()`. The source performs the bit operation twice, once
    through the conditional expression and once through the `if`. -/
def setBitInRegister (L : LongWidth) (regs : Regs) (ioaddr nr : Nat) (val : Int) :
    Option (Int × Regs) := do
  let old : BitVec L.bits := (ioread32 regs ioaddr).setWidth L.bits
  -- `val ? set_bit() : clear_bit()`, then the `if` that does the same
  let old ← changeBit nr val old
  let old ← changeBit nr val old
  return (0, iowrite32 (old.setWidth 32) ioaddr regs)

/-- `ccat_gpio_get_direction()`: 1 for an input, 0 for an output. -/
def ccatGpioGetDirection (regs : Regs) (nr : Nat) : Nat :=
  let byteOffset := 4 * (nr / 32) + 0x8
  let mask : BitVec 32 := 1#32 <<< (nr % 32)
  if mask &&& ioread32 regs byteOffset = 0 then 1 else 0

def ccatGpioDirectionInput (L : LongWidth) (regs : Regs) (nr : Nat) : Option (Int × Regs) :=
  setBitInRegister L regs 0x8 nr 0

/-- `ccat_gpio_direction_output()`; the requested level `_val` is not used. -/
def ccatGpioDirectionOutput (L : LongWidth) (regs : Regs) (nr : Nat) (_val : Int) :
    Option (Int × Regs) :=
  setBitInRegister L regs 0x8 nr 1

/-- `ccat_gpio_get()`: the negated bit of the output or the input bank, depending
    on the direction of the pin. -/
def ccatGpioGet (regs : Regs) (nr : Nat) : Nat :=
  let byteOff := 4 * (nr / 32)
  let mask : BitVec 32 := 1#32 <<< (nr % 32)
  let dirOff := 0x10 * ccatGpioGetDirection regs nr
  -- outputs are read from the bank at 0, inputs from the one at `0x10`
  if mask &&& ioread32 regs (byteOff + dirOff) = 0 then 1 else 0

def ccatGpioSet (L : LongWidth) (regs : Regs) (nr : Nat) (val : Int) : Option Regs :=
  (setBitInRegister L regs 0 nr val).map (·.2)

end Ccat.Native.Gpio
