import Mathlib.Algebra.Ring.Nat

/-!
# Memory as a function of addresses

Reading a range of a memory `m : Nat → α` as a list (`slice`) and writing a list
over a range of it (`blit`), with the laws by which the two undo each other. Numbers
in a memory of bytes are little-endian (`leBytes`, `leNat`).
-/

namespace Memory

variable {α : Type u}

/-- The cells `[off, off + len)` of `m`. -/
def slice (m : Nat → α) (off len : Nat) : List α :=
  (List.range len).map fun i => m (off + i)

/-- `m` with the cells from `off` on overwritten by `xs`. -/
def blit (m : Nat → α) (off : Nat) (xs : List α) : Nat → α :=
  fun p => if off ≤ p then (xs[p - off]?).getD (m p) else m p

/-! ### Slices -/

/-- A slice has the length asked for. -/
@[simp] theorem length_slice (m : Nat → α) (off len : Nat) : (slice m off len).length = len := by
  simp only [slice, List.length_map, List.length_range]

/-- A slice of no cells. -/
@[simp] theorem slice_zero (m : Nat → α) (off : Nat) : slice m off 0 = [] := rfl

/-- A slice of a constant memory. -/
theorem slice_const (x : α) (off len : Nat) :
    slice (fun _ => x) off len = List.replicate len x := by
  rw [slice, List.map_const', List.length_range]

/-- The cells of a slice. -/
theorem getElem?_slice (m : Nat → α) (off len i : Nat) :
    (slice m off len)[i]? = if i < len then some (m (off + i)) else none := by
  by_cases h : i < len
  · simp [slice, h]
  · simp [slice, h]

/-- A slice is cut in two. -/
theorem slice_add (m : Nat → α) (off a b : Nat) :
    slice m off (a + b) = slice m off a ++ slice m (off + a) b := by
  simp only [slice, List.range_add, List.map_append, List.map_map]
  congr 1
  apply List.map_congr_left
  intro i _
  simp only [Function.comp_apply, Nat.add_assoc]

/-- A slice is its first cell and the rest. -/
theorem slice_succ (m : Nat → α) (off n : Nat) :
    slice m off (n + 1) = m off :: slice m (off + 1) n := by
  rw [Nat.add_comm n 1, slice_add]
  rfl

/-- Slices agree when their cells do. -/
theorem slice_congr {m m' : Nat → α} {off off' len : Nat}
    (h : ∀ i, i < len → m (off + i) = m' (off' + i)) : slice m off len = slice m' off' len := by
  apply List.map_congr_left
  intro i hi
  exact h i (List.mem_range.mp hi)

/-- The front of a slice is a shorter slice. -/
theorem take_slice (m : Nat → α) (off len k : Nat) :
    (slice m off len).take k = slice m off (min k len) := by
  unfold slice
  rw [← List.map_take, List.take_range]

/-- The back of a slice is a slice further on. -/
theorem drop_slice (m : Nat → α) (off len k : Nat) :
    (slice m off len).drop k = slice m (off + k) (len - k) := by
  apply List.ext_getElem?
  intro i
  rw [List.getElem?_drop, getElem?_slice, getElem?_slice, Nat.add_assoc]
  split <;> split <;> first | rfl | omega

/-! ### Overwriting a range -/

/-- A write leaves the cells ahead of it alone. -/
theorem blit_of_lt (m : Nat → α) {off p : Nat} (xs : List α) (h : p < off) :
    blit m off xs p = m p := if_neg (Nat.not_le.mpr h)

/-- A write leaves the cells behind it alone. -/
theorem blit_of_ge (m : Nat → α) {off p : Nat} (xs : List α) (h : off + xs.length ≤ p) :
    blit m off xs p = m p := by
  have hnone : xs[p - off]? = none := List.getElem?_eq_none (by omega)
  simp only [blit, hnone, Option.getD_none, ite_self]

/-- The cells that were written. -/
theorem blit_add (m : Nat → α) (off : Nat) (xs : List α) {i : Nat} (h : i < xs.length) :
    blit m off xs (off + i) = xs[i] := by
  simp only [blit, Nat.le_add_right, if_true, Nat.add_sub_cancel_left,
    List.getElem?_eq_getElem h, Option.getD_some]

/-- Writing nothing. -/
@[simp] theorem blit_nil (m : Nat → α) (off : Nat) : blit m off [] = m := by
  funext p
  simp [blit]

/-- Writing two adjacent ranges is writing their concatenation. -/
theorem blit_blit (m : Nat → α) (off : Nat) (xs ys : List α) :
    blit (blit m off xs) (off + xs.length) ys = blit m off (xs ++ ys) := by
  funext p
  -- ahead of both, in the first, or behind the first
  rcases Nat.lt_or_ge p off with hlt | hge
  · rw [blit_of_lt _ _ (by omega), blit_of_lt _ _ hlt, blit_of_lt _ _ hlt]
  · obtain ⟨i, rfl⟩ := Nat.exists_eq_add_of_le hge
    rcases Nat.lt_or_ge i xs.length with hi | hi
    · rw [blit_of_lt _ _ (by omega), blit_add _ _ _ hi,
        blit_add _ _ _ (by rw [List.length_append]; omega), List.getElem_append_left hi]
    · simp only [blit, Nat.le_add_right, if_true, Nat.add_sub_cancel_left,
        List.getElem?_append_right hi, List.getElem?_eq_none hi, Option.getD_none,
        show off + xs.length ≤ off + i from by omega,
        show off + i - (off + xs.length) = i - xs.length from by omega]

/-- A range just written reads back. -/
@[simp] theorem slice_blit (m : Nat → α) (off : Nat) (xs : List α) :
    slice (blit m off xs) off xs.length = xs := by
  apply List.ext_getElem?
  intro i
  rw [getElem?_slice]
  by_cases h : i < xs.length
  · rw [if_pos h, blit_add _ _ _ h, List.getElem?_eq_getElem h]
  · rw [if_neg h, List.getElem?_eq_none (by omega)]

/-- A range that a write does not reach reads as before. -/
theorem slice_blit_disjoint (m : Nat → α) {off p n : Nat} (xs : List α)
    (h : p + n ≤ off ∨ off + xs.length ≤ p) : slice (blit m off xs) p n = slice m p n := by
  apply slice_congr
  intro i hi
  cases h with
  | inl h => exact blit_of_lt m xs (by omega)
  | inr h => exact blit_of_ge m xs (by omega)

/-- A memory of `n` cells after a write inside it, as a list. -/
theorem slice_blit_of_le (m : Nat → α) {off n : Nat} (xs : List α) (h : off + xs.length ≤ n) :
    slice (blit m off xs) 0 n =
      (slice m 0 n).take off ++ xs ++ (slice m 0 n).drop (off + xs.length) := by
  have hsplit : n = off + xs.length + (n - (off + xs.length)) := by omega
  rw [take_slice, drop_slice, Nat.min_eq_left (by omega)]
  -- only the part in the middle is written
  have hleft : slice (blit m off xs) 0 off = slice m 0 off :=
    slice_congr fun i hi => blit_of_lt _ _ (by omega)
  have hright : slice (blit m off xs) (off + xs.length) (n - (off + xs.length)) =
      slice m (off + xs.length) (n - (off + xs.length)) :=
    slice_congr fun i _ => blit_of_ge _ _ (by omega)
  calc slice (blit m off xs) 0 n
      = slice (blit m off xs) 0 (off + xs.length + (n - (off + xs.length))) := by rw [← hsplit]
    _ = slice m 0 off ++ xs ++ slice m (off + xs.length) (n - (off + xs.length)) := by
      rw [slice_add, slice_add, Nat.zero_add, Nat.zero_add, slice_blit, hleft, hright]
    _ = _ := by rw [Nat.zero_add]

/-! ### Little-endian numbers -/

/-- The low `width` bytes of `n`. -/
def leBytes : Nat → Nat → List UInt8
  | 0, _ => []
  | width + 1, n => UInt8.ofNat n :: leBytes width (n / 256)

/-- The number whose bytes these are. -/
def leNat : List UInt8 → Nat
  | [] => 0
  | b :: bs => b.toNat + 256 * leNat bs

/-- As many bytes as asked for. -/
@[simp] theorem length_leBytes (width n : Nat) : (leBytes width n).length = width := by
  induction width generalizing n with
  | zero => rfl
  | succ width ih => simp only [leBytes, List.length_cons, ih]

/-- The bytes of a number read back as the number, cut to their width. -/
@[simp] theorem leNat_leBytes (width n : Nat) : leNat (leBytes width n) = n % 256 ^ width := by
  induction width generalizing n with
  | zero => simp only [leBytes, leNat, Nat.pow_zero, Nat.mod_one]
  | succ width ih =>
    have hbyte : (UInt8.ofNat n).toNat = n % 256 := UInt8.toNat_ofNat'
    simp only [leBytes, leNat, ih, hbyte]
    rw [Nat.pow_succ, Nat.mul_comm (256 ^ width) 256, Nat.mod_mul]

end Memory
