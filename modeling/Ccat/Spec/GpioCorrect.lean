import Ccat.Native.Gpio

/-!
# GPIO writes and reads address the same pin

The read side of `gpio.c` splits a pin number into word `nr / 32` and bit
`nr % 32`; the write side passes the whole pin number to the bit operation of
`setBitInRegister` and always addresses the first word of a bank. The two agree
exactly on the pins of the first word.

## Key results

- `setBitInRegister_bit`: the effect of one register write, bit by bit, for pins below 32
- `setBitInRegister_high`: the effect of a pin above 31, for both widths of `unsigned long`
- `pinAddressed_iff`: the three write operations address pin `nr` iff `nr < 32`
-/

namespace Ccat.Native.Gpio

/-- `regs'` is `regs` with exactly bit `nr % 32` of the word at byte offset
    `bank + 4 * (nr / 32)` set to `b`, the word the read side uses for pin `nr`. -/
def PinChanged (regs regs' : Regs) (bank nr : Nat) (b : Bool) : Prop :=
  ∀ off k, k < 32 → (regs' off).getLsbD k =
    if off = bank + 4 * (nr / 32) ∧ k = nr % 32 then b else (regs off).getLsbD k

/-- The three write operations address pin `nr`: each stays inside its local word
    (the result is not `none`), changes exactly the bit the read side looks at, and
    the direction reads back. -/
def PinAddressed (L : LongWidth) (regs : Regs) (nr : Nat) (val : Int) : Prop :=
  (∃ regs', ccatGpioSet L regs nr val = some regs' ∧ PinChanged regs regs' 0 nr (val ≠ 0)) ∧
  (∃ r regs', ccatGpioDirectionOutput L regs nr val = some (r, regs') ∧
    PinChanged regs regs' 0x8 nr true ∧ ccatGpioGetDirection regs' nr = 0) ∧
  (∃ r regs', ccatGpioDirectionInput L regs nr = some (r, regs') ∧
    PinChanged regs regs' 0x8 nr false ∧ ccatGpioGetDirection regs' nr = 1)

/-! ### The bit operations -/

/-- `set_bit()` on a word. -/
private theorem getLsbD_or_one_shiftLeft (old : BitVec w) (nr k : Nat) (hk : k < w) :
    (old ||| (1#w <<< nr)).getLsbD k = (if k = nr then true else old.getLsbD k) := by
  rw [BitVec.getLsbD_or, BitVec.getLsbD_shiftLeft, BitVec.getLsbD_one]
  by_cases h : k = nr
  · subst h; simp [hk]; omega
  · simp [hk, h]; omega

/-- `clear_bit()` on a word. -/
private theorem getLsbD_and_not_one_shiftLeft (old : BitVec w) (nr k : Nat) (hk : k < w) :
    (old &&& ~~~(1#w <<< nr)).getLsbD k = (if k = nr then false else old.getLsbD k) := by
  rw [BitVec.getLsbD_and, BitVec.getLsbD_not, BitVec.getLsbD_shiftLeft, BitVec.getLsbD_one]
  by_cases h : k = nr
  · subst h; simp [hk]; omega
  · simp [hk, h]; omega

/-- `changeBit` on a bit inside the word. -/
private theorem changeBit_some (old : BitVec w) (nr : Nat) (val : Int) (hnr : nr < w) :
    ∃ new : BitVec w, changeBit nr val old = some new ∧
      ∀ k, k < w → new.getLsbD k = if k = nr then decide (val ≠ 0) else old.getLsbD k := by
  have hdiv : nr / w = 0 := Nat.div_eq_of_lt hnr
  have hmod : nr % w = nr := Nat.mod_eq_of_lt hnr
  by_cases hval : val ≠ 0
  · refine ⟨old ||| (1#w <<< nr), ?_, fun k hk => ?_⟩
    · simp only [changeBit, if_pos hval, setBit, hdiv, hmod, if_true]
    · rw [getLsbD_or_one_shiftLeft old nr k hk, decide_eq_true hval]
  · refine ⟨old &&& ~~~(1#w <<< nr), ?_, fun k hk => ?_⟩
    · simp only [changeBit, if_neg hval, clearBit, hdiv, hmod, if_true]
    · rw [getLsbD_and_not_one_shiftLeft old nr k hk, decide_eq_false hval]

/-- `changeBit` on a bit outside the word. -/
private theorem changeBit_none (old : BitVec w) (nr : Nat) (val : Int) (hnr : nr / w ≠ 0) :
    changeBit nr val old = none := by
  simp only [changeBit, setBit, clearBit, if_neg hnr, ite_self]

/-! ### The register write -/

/-- A write through a bit inside `old` sets bit `nr` of the word at `ioaddr` as far
    as that word reaches, and nothing else. -/
private theorem setBitInRegister_spec (L : LongWidth) (regs : Regs) (ioaddr nr : Nat)
    (val : Int) (hnr : nr < L.bits) :
    ∃ regs', setBitInRegister L regs ioaddr nr val = some (0, regs') ∧
      ∀ off k, k < 32 → (regs' off).getLsbD k =
        if off = ioaddr ∧ k = nr then decide (val ≠ 0) else (regs off).getLsbD k := by
  obtain ⟨new, hnew, hbit⟩ :=
    changeBit_some ((ioread32 regs ioaddr).setWidth L.bits) nr val hnr
  -- the second operation finds the bit as the first left it
  obtain ⟨new', hnew', hbit'⟩ := changeBit_some new nr val hnr
  refine ⟨iowrite32 (new'.setWidth 32) ioaddr regs, ?_, fun off k hk => ?_⟩
  · simp only [setBitInRegister, hnew, hnew', Option.bind_eq_bind, Option.bind_some,
      Option.pure_def]
  · -- bits above 31 of `old` are cut off by the write
    have hkL : k < L.bits := Nat.lt_of_lt_of_le hk L.le_bits
    simp only [iowrite32]
    by_cases hoff : off = ioaddr
    · subst hoff
      rw [if_pos rfl, BitVec.getLsbD_setWidth, hbit' k hkL, hbit k hkL, BitVec.getLsbD_setWidth]
      by_cases hkn : k = nr
      · rw [if_pos hkn, if_pos ⟨rfl, hkn⟩, decide_eq_true hk, Bool.true_and]
      · rw [if_neg hkn, if_neg hkn, if_neg (fun h => hkn h.2), decide_eq_true hk,
          decide_eq_true hkL, Bool.true_and, Bool.true_and, ioread32]
    · rw [if_neg hoff, if_neg (fun h => hoff h.1)]

/-- What a write did when it returned: bit `nr` of the word at `ioaddr`, as far as that word
    reaches, and nothing else. -/
theorem setBitInRegister_of_some {L : LongWidth} {regs regs' : Regs} {ioaddr nr : Nat} {val r : Int}
    (h : setBitInRegister L regs ioaddr nr val = some (r, regs')) :
    ∀ off k, k < 32 → (regs' off).getLsbD k =
      if off = ioaddr ∧ k = nr then decide (val ≠ 0) else (regs off).getLsbD k := by
  by_cases hnr : nr < L.bits
  · obtain ⟨regs₁, hset, hbit⟩ := setBitInRegister_spec L regs ioaddr nr val hnr
    rw [hset, Option.some.injEq, Prod.mk.injEq] at h
    obtain ⟨-, rfl⟩ := h
    exact hbit
  · -- the bit operation left `old`, so there was no result
    have hdiv : nr / L.bits ≠ 0 := by
      have hpos : 0 < L.bits := Nat.lt_of_lt_of_le (by omega) L.le_bits
      have := Nat.div_pos (Nat.not_lt.mp hnr) hpos
      omega
    simp only [setBitInRegister, changeBit_none _ nr val hdiv, Option.bind_eq_bind,
      Option.bind_none, reduceCtorEq] at h

/-- Pins of the first word: exactly bit `nr` of the word at `ioaddr` changes. -/
theorem setBitInRegister_bit (L : LongWidth) (regs : Regs) (ioaddr nr : Nat) (val : Int)
    (hnr : nr < 32) :
    ∃ regs', setBitInRegister L regs ioaddr nr val = some (0, regs') ∧
      PinChanged regs regs' ioaddr nr (val ≠ 0) := by
  obtain ⟨regs', hset, hbit⟩ :=
    setBitInRegister_spec L regs ioaddr nr val (Nat.lt_of_lt_of_le hnr L.le_bits)
  refine ⟨regs', hset, fun off k hk => ?_⟩
  rw [hbit off k hk, Nat.div_eq_of_lt hnr, Nat.mod_eq_of_lt hnr, Nat.mul_zero, Nat.add_zero]

/-- Pins above the first word: a 32-bit `unsigned long` is left, a 64-bit one
    absorbs the change in its upper half, which `iowrite32` cuts off. -/
theorem setBitInRegister_high (L : LongWidth) (regs : Regs) (ioaddr nr : Nat) (val : Int)
    (hnr : 32 ≤ nr) (hnr' : nr < 64) :
    setBitInRegister L regs ioaddr nr val =
      match L with
      | .long32 => none
      | .long64 => some (0, regs) := by
  cases L with
  | long32 =>
    -- the bit operation addresses the word behind `old`
    have hdiv : nr / LongWidth.long32.bits ≠ 0 := by
      rw [LongWidth.bits_long32]; omega
    simp only [setBitInRegister, changeBit_none _ nr val hdiv, Option.bind_eq_bind,
      Option.bind_none]
  | long64 =>
    obtain ⟨regs', hset, hbit⟩ := setBitInRegister_spec .long64 regs ioaddr nr val hnr'
    have hregs : regs' = regs := by
      funext off
      apply BitVec.eq_of_getLsbD_eq
      intro k hk
      rw [hbit off k hk, if_neg (by omega)]
    rw [hset, hregs]

/-- A mask with one bit is disjoint from `x` iff that bit of `x` is clear. -/
theorem mask_and_eq_zero_iff {n : Nat} (hn : n < 32) (x : BitVec 32) :
    ((1#32 <<< n) &&& x = 0) ↔ x.getLsbD n = false := by
  constructor
  · intro h
    have hbit := congrArg (fun y => BitVec.getLsbD y n) h
    simpa [BitVec.getLsbD_and, hn] using hbit
  · intro h
    apply BitVec.eq_of_getLsbD_eq
    intro k hk
    rw [BitVec.getLsbD_and, BitVec.getLsbD_shiftLeft, BitVec.getLsbD_one]
    by_cases hkn : k = n
    · simp [hkn, h]
    · simp; omega

/-- The direction read back is decided by the pin's own bit. -/
theorem ccatGpioGetDirection_eq (regs : Regs) (nr : Nat) :
    ccatGpioGetDirection regs nr =
      if (regs (0x8 + 4 * (nr / 32))).getLsbD (nr % 32) then 0 else 1 := by
  have hlt : nr % 32 < 32 := Nat.mod_lt _ (by omega)
  simp only [ccatGpioGetDirection, ioread32, mask_and_eq_zero_iff hlt,
    Nat.add_comm (4 * (nr / 32))]
  cases (regs (0x8 + 4 * (nr / 32))).getLsbD (nr % 32) <;> simp

/-- An output reads back as the negation of its bit in the output register. -/
theorem ccatGpioGet_output {regs : Regs} {nr : Nat} (hnr : nr < 32)
    (hout : ccatGpioGetDirection regs nr = 0) :
    ccatGpioGet regs nr = if (regs 0).getLsbD nr then 0 else 1 := by
  have hdiv : nr / 32 = 0 := Nat.div_eq_of_lt hnr
  have hmod : nr % 32 = nr := Nat.mod_eq_of_lt hnr
  simp only [ccatGpioGet, hout, ioread32, hdiv, hmod, Nat.mul_zero, Nat.add_zero,
    mask_and_eq_zero_iff hnr]
  cases (regs 0).getLsbD nr <;> simp

/-- After a change of the pin's direction bit the pin reads back as set. -/
private theorem getDirection_of_pinChanged {regs regs' : Regs} {nr : Nat} {b : Bool}
    (h : PinChanged regs regs' 0x8 nr b) :
    ccatGpioGetDirection regs' nr = if b then 0 else 1 := by
  have hbit := h (0x8 + 4 * (nr / 32)) (nr % 32) (Nat.mod_lt _ (by omega))
  rw [if_pos ⟨rfl, rfl⟩] at hbit
  rw [ccatGpioGetDirection_eq, hbit]

/-! ### Both directions of the correspondence -/

/-- On a pin below 32 the word and the bit are the right ones. -/
private theorem pinAddressed_of_lt (L : LongWidth) (regs : Regs) (nr : Nat) (val : Int)
    (hnr : nr < 32) : PinAddressed L regs nr val := by
  obtain ⟨r₁, hset, hpin₁⟩ := setBitInRegister_bit L regs 0 nr val hnr
  obtain ⟨r₂, hout, hpin₂⟩ := setBitInRegister_bit L regs 0x8 nr 1 hnr
  obtain ⟨r₃, hin, hpin₃⟩ := setBitInRegister_bit L regs 0x8 nr 0 hnr
  refine ⟨⟨r₁, ?_, hpin₁⟩, ⟨0, r₂, hout, hpin₂, getDirection_of_pinChanged hpin₂⟩,
    ⟨0, r₃, hin, hpin₃, getDirection_of_pinChanged hpin₃⟩⟩
  simp only [ccatGpioSet, hset, Option.map_some]

/-- Above the first word a pin would have to be an output and an input at once:
    neither direction call changes anything. -/
private theorem not_pinAddressed_of_ge (L : LongWidth) (regs : Regs) (nr : Nat) (val : Int)
    (hnr : 32 ≤ nr) (hnr' : nr < 64) : ¬ PinAddressed L regs nr val := by
  rintro ⟨-, ⟨r₂, regs₂, hout, -, hdir₂⟩, ⟨r₃, regs₃, hin, -, hdir₃⟩⟩
  rw [ccatGpioDirectionOutput, setBitInRegister_high L regs 0x8 nr 1 hnr hnr'] at hout
  rw [ccatGpioDirectionInput, setBitInRegister_high L regs 0x8 nr 0 hnr hnr'] at hin
  cases L with
  | long32 => exact nomatch hout
  | long64 =>
    simp only [Option.some.injEq, Prod.mk.injEq] at hout hin
    obtain ⟨-, rfl⟩ := hout
    obtain ⟨-, rfl⟩ := hin
    omega

/-- On a chip of at most 64 pins the write operations address the pin the read
    operations address exactly for the pins of the first word. -/
theorem pinAddressed_iff (L : LongWidth) (ngpio : Nat) (regs : Regs) (nr : Nat) (val : Int)
    (hngpio : ngpio ≤ 64) (hnr : nr < ngpio) :
    PinAddressed L regs nr val ↔ nr < 32 := by
  constructor
  · intro h
    rcases Nat.lt_or_ge nr 32 with hlt | hge
    · exact hlt
    · exact absurd h (not_pinAddressed_of_ge L regs nr val hge (by omega))
  · exact pinAddressed_of_lt L regs nr val

/-- The last pin of a chip with 32 pins, on a 64-bit kernel. -/
theorem pinAddressed_iff_pin31 : PinAddressed .long64 (fun _ => 0) 31 1 ↔ 31 < 32 :=
  pinAddressed_iff .long64 32 (fun _ => 0) 31 1 (by decide) (by decide)

/-- Pin 32 of a 64-pin chip is not addressed by its write operations. -/
theorem not_pinAddressed_pin32 :
    ¬ ∀ (L : LongWidth) (ngpio : Nat) (regs : Regs) (nr : Nat) (val : Int),
      ngpio ≤ 64 → nr < ngpio → PinAddressed L regs nr val := by
  intro h
  exact not_pinAddressed_of_ge .long64 (fun _ => 0) 32 1 (by decide) (by decide)
    (h .long64 64 (fun _ => 0) 32 1 (by decide) (by decide))

end Ccat.Native.Gpio
