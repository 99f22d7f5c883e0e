/-!
# Copies between kernel and user space (`linux/uaccess.h`)

A user buffer is accessible for its first `limit` bytes; a copy that reaches the
first byte behind them faults there. Both functions return the number of bytes that
could not be copied.
-/

namespace Ccat.Native

/-- `copy_to_user()` of the bytes `src`: what arrived in user space, and the number
    of bytes that did not. -/
def copyToUser (limit : Nat) (src : List UInt8) : List UInt8 × Nat :=
  (src.take limit, src.length - limit)

/-- `copy_from_user()` of the user bytes `src`: what is stored in the kernel buffer,
    and the number of bytes that could not be read. The kernel pads the part of the
    destination it could not fill with zero bytes. -/
def copyFromUser (limit : Nat) (src : List UInt8) : List UInt8 × Nat :=
  (src.take limit ++ List.replicate (src.length - limit) 0, src.length - limit)

/-- What is not copied is filled up with zeros. -/
@[simp] theorem length_copyFromUser (limit : Nat) (src : List UInt8) :
    (copyFromUser limit src).1.length = src.length := by
  simp only [copyFromUser, List.length_append, List.length_take, List.length_replicate]
  omega

/-- A copy that does not fault stores exactly the user's bytes. -/
theorem copyFromUser_of_le {limit : Nat} {src : List UInt8} (h : src.length ≤ limit) :
    copyFromUser limit src = (src, 0) := by
  have hzero : src.length - limit = 0 := by omega
  simp only [copyFromUser, hzero, List.take_of_length_le h, List.replicate_zero, List.append_nil]

end Ccat.Native
