import Mathlib.Algebra.Ring.Nat

/-!
# C types and kernel constants shared by the CCAT drivers

The drivers are built for 32- and 64-bit kernels, so the width of `unsigned long`
is a parameter of every function that manipulates one. Error codes are the
(negated) `errno` values the drivers return.
-/

namespace Ccat.Native

/-- Width of `unsigned long` on the target. -/
inductive LongWidth where
  | long32
  | long64
  deriving DecidableEq, Repr

/-- `BITS_PER_LONG`. -/
def LongWidth.bits : LongWidth → Nat
  | .long32 => 32
  | .long64 => 64

/-- On a 32-bit kernel. -/
@[simp] theorem LongWidth.bits_long32 : LongWidth.long32.bits = 32 := rfl

/-- On a 64-bit kernel. -/
@[simp] theorem LongWidth.bits_long64 : LongWidth.long64.bits = 64 := rfl

/-- An `unsigned long` holds a register. -/
theorem LongWidth.le_bits (L : LongWidth) : 32 ≤ L.bits := by
  cases L <;> simp

def ENOMEM : Int := 12
def EFAULT : Int := 14
def EBUSY : Int := 16
def EADDRNOTAVAIL : Int := 99

end Ccat.Native
