import Ccat.Native.Systemtime
import Mathlib.Order.Fin.Basic

/-!
# The clocksource measures what the counter counts

A read of the counter may be torn: when the low word wraps around between the two reads,
the value is off by `2 ^ 32`. The registered mask keeps the low word of a difference
only, and the low word of a read is that of the counter at the moment it was read, so
differences of the masked clocksource are exact.

## Key results

- `readq_low`: the low word of a read
- `clocksourceDelta_mod`: the time between two reads, modulo `2 ^ 32`
- `clocksourceDelta_exact`: the time between two reads
- `elapsed_exact_iff`: the time added up over any number of reads
-/

namespace Ccat.Native.Systemtime

/-- The words at `addr` are those of the counter `c`, which is never set back. -/
structure CounterAt {T : Type} [Preorder T] (io : Words T) (addr : Nat) (c : T → BitVec 64) :
    Prop where
  low : ∀ t, io addr t = (c t).setWidth 32
  high : ∀ t, io (addr + 4) t = (c t >>> 32).setWidth 32
  mono : ∀ ⦃t t'⦄, t ≤ t' → (c t).toNat ≤ (c t').toNat

/-- How the kernel takes the time between two values of a clocksource. -/
def clocksourceDelta (clock : Clocksource) (now last : BitVec 64) : BitVec 64 :=
  (now - last) &&& clock.mask

section

variable {T : Type} [Preorder T] {io : Words T} {addr : Nat} {c : T → BitVec 64}

/-- The high word does not reach the low half of a read. -/
theorem readq_low (h : CounterAt io addr c) (lo hi : T) :
    (readq io addr lo hi).toNat % 2 ^ 32 = (c lo).toNat % 2 ^ 32 := by
  rw [readq, h.low, h.high]
  simp only [BitVec.toNat_setWidth, BitVec.toNat_add, BitVec.toNat_shiftLeft, Nat.shiftLeft_eq]
  omega

/-- Masking with 32 bits keeps the low word. -/
theorem toNat_and_mask32 (x : BitVec 64) :
    (x &&& CLOCKSOURCE_MASK 32).toNat = x.toNat % 2 ^ 32 := by
  have hmask : (CLOCKSOURCE_MASK 32).toNat = 2 ^ 32 - 1 := rfl
  rw [BitVec.toNat_and, hmask, Nat.and_two_pow_sub_one_eq_mod]

end

/-- A probe maps the block of its function and registers a mask of 32 bits. -/
theorem ccatSystemtimeProbe_privateData {a : Answers} {bar0 addr : Nat} {cnt : Int}
    {st : CcatSystemtime} (h : (ccatSystemtimeProbe a bar0 addr cnt).privateData = some st) :
    st.ioaddr = bar0 + addr ∧ st.clock.mask = CLOCKSOURCE_MASK 32 := by
  simp only [ccatSystemtimeProbe] at h
  split at h
  · rw [← Option.some.inj h]
    exact ⟨rfl, rfl⟩
  · cases h

section

variable {T : Type} [Preorder T] {io : Words T} {addr : Nat} {c : T → BitVec 64}

/-- The low words of a clocksource that a probe set up. -/
theorem ccatSystemtimeGet_low {a : Answers} {bar0 : Nat} {cnt : Int} {st : CcatSystemtime}
    (hprobe : (ccatSystemtimeProbe a bar0 addr cnt).privateData = some st)
    (hcounter : CounterAt io (bar0 + addr) c) (lo hi : T) :
    (ccatSystemtimeGet io st lo hi).toNat % 2 ^ 32 = (c lo).toNat % 2 ^ 32 := by
  rw [ccatSystemtimeGet, (ccatSystemtimeProbe_privateData hprobe).1]
  exact readq_low hcounter lo hi

/-- What passes between two reads is taken modulo `2 ^ 32`. -/
theorem clocksourceDelta_mod {a : Answers} {bar0 : Nat} {cnt : Int} {st : CcatSystemtime}
    (hprobe : (ccatSystemtimeProbe a bar0 addr cnt).privateData = some st)
    (hcounter : CounterAt io (bar0 + addr) c) (r r' : T × T) (hle : r.1 ≤ r'.1) :
    (clocksourceDelta st.clock (ccatSystemtimeGet io st r'.1 r'.2)
      (ccatSystemtimeGet io st r.1 r.2)).toNat = ((c r'.1).toNat - (c r.1).toNat) % 2 ^ 32 := by
  have hmono := hcounter.mono hle
  have h := ccatSystemtimeGet_low hprobe hcounter r.1 r.2
  have h' := ccatSystemtimeGet_low hprobe hcounter r'.1 r'.2
  have hlt := (ccatSystemtimeGet io st r.1 r.2).isLt
  rw [clocksourceDelta, (ccatSystemtimeProbe_privateData hprobe).2, toNat_and_mask32,
    BitVec.toNat_sub]
  omega

end

/-- Two reads of a clocksource that a probe set up are apart by what the counter counted between
    the reads of their low words, wherever their high words were read. -/
theorem clocksourceDelta_exact {T : Type} [Preorder T] (io : Words T) (c : T → BitVec 64)
    (a : Answers) (bar0 addr : Nat) (cnt : Int) (st : CcatSystemtime)
    (hprobe : (ccatSystemtimeProbe a bar0 addr cnt).privateData = some st)
    (hcounter : CounterAt io (bar0 + addr) c) (t₁ t₂ hi₁ hi₂ : T) (ht : t₁ ≤ t₂)
    (hlt : (c t₂).toNat - (c t₁).toNat < 2 ^ 32) :
    (clocksourceDelta st.clock (ccatSystemtimeGet io st t₂ hi₂)
      (ccatSystemtimeGet io st t₁ hi₁)).toNat = (c t₂).toNat - (c t₁).toNat := by
  -- the counter's difference has a low word only
  have hmod := clocksourceDelta_mod hprobe hcounter (t₁, hi₁) (t₂, hi₂) ht
  rw [hmod]
  exact Nat.mod_eq_of_lt hlt

/-- A counter that wraps its low word around, read at four moments. -/
private def carry (t : Fin 4) : BitVec 64 := BitVec.ofNat 64 (2 ^ 32 - 1 + t)

private def carryWords : Words (Fin 4) := fun addr t =>
  if addr = 0 then (carry t).setWidth 32 else (carry t >>> 32).setWidth 32

/-- The words of the witness are those of a counter. -/
private theorem counterAt_carry : CounterAt carryWords 0 carry where
  low _ := rfl
  high _ := rfl
  mono t t' h := by
    simp only [carry, BitVec.toNat_ofNat]
    omega

private def Answers.granted : Answers := ⟨true, true, 0⟩

/-- The first read is torn: its low word is from before the carry, its high word from behind it. -/
theorem clocksourceDelta_exact_torn :
    ∃ st, (ccatSystemtimeProbe .granted 0 0 0).privateData = some st ∧
      (ccatSystemtimeGet carryWords st 0 1).toNat = (carry 0).toNat + 2 ^ 32 ∧
      (clocksourceDelta st.clock (ccatSystemtimeGet carryWords st 2 3)
        (ccatSystemtimeGet carryWords st 0 1)).toNat = (carry 2).toNat - (carry 0).toNat :=
  ⟨_, rfl, rfl, clocksourceDelta_exact carryWords carry .granted 0 0 0 _ rfl counterAt_carry
    0 2 1 3 (by decide) (by decide)⟩

/-! ## Keeping time

The kernel keeps time by adding up what passed between one read of the clocksource and
the next. A read is a pair of moments, those of the low and of the high word. -/

/-- The time from read `r` on, over the reads `rs`. -/
def elapsed {T : Type} (io : Words T) (st : CcatSystemtime) : T × T → List (T × T) → Nat
  | _, [] => 0
  | r, r' :: rs =>
    (clocksourceDelta st.clock (ccatSystemtimeGet io st r'.1 r'.2)
      (ccatSystemtimeGet io st r.1 r.2)).toNat + elapsed io st r' rs

section

variable {T : Type} [Preorder T] {io : Words T} {addr : Nat} {c : T → BitVec 64}

/-- The counter does not run backwards over a sequence of reads. -/
theorem CounterAt.le_last (hcounter : CounterAt io addr c) {r : T × T} {rs : List (T × T)}
    (hsorted : (r :: rs).IsChain fun r r' => r.1 ≤ r'.1) :
    (c r.1).toNat ≤ (c (rs.getLastD r).1).toNat := by
  induction rs generalizing r with
  | nil => exact Nat.le_refl _
  | cons r' rs ih =>
    obtain ⟨hle, hrest⟩ := List.isChain_cons_cons.mp hsorted
    rw [List.getLastD_cons]
    exact Nat.le_trans (hcounter.mono hle) (ih hrest)

end

/-- **Keeping time.** Over any number of reads, torn or not, the time that is added up falls short
    of what the counter counted by a multiple of `2 ^ 32`, and it is exact iff no two successive
    reads are `2 ^ 32` or more apart. -/
theorem elapsed_exact_iff {T : Type} [Preorder T] (io : Words T) (c : T → BitVec 64) (a : Answers)
    (bar0 addr : Nat) (cnt : Int) (st : CcatSystemtime)
    (hprobe : (ccatSystemtimeProbe a bar0 addr cnt).privateData = some st)
    (hcounter : CounterAt io (bar0 + addr) c) (r : T × T) (rs : List (T × T))
    (hsorted : (r :: rs).IsChain fun r r' => r.1 ≤ r'.1) :
    (∃ k, elapsed io st r rs + 2 ^ 32 * k = (c (rs.getLastD r).1).toNat - (c r.1).toNat) ∧
    (elapsed io st r rs = (c (rs.getLastD r).1).toNat - (c r.1).toNat ↔
      (r :: rs).IsChain fun r r' => (c r'.1).toNat - (c r.1).toNat < 2 ^ 32) := by
  induction rs generalizing r with
  | nil => exact ⟨⟨0, by simp [elapsed]⟩, by simp [elapsed]⟩
  | cons r' rs ih =>
    obtain ⟨hle, hrest⟩ := List.isChain_cons_cons.mp hsorted
    have hmono := hcounter.mono hle
    have hlast := hcounter.le_last hrest
    obtain ⟨⟨k, hk⟩, hiff⟩ := ih r' hrest
    -- one difference is right up to multiples of `2 ^ 32`
    rw [elapsed, clocksourceDelta_mod hprobe hcounter r r' hle, List.getLastD_cons,
      List.isChain_cons_cons, ← hiff]
    constructor
    · -- the multiples of this gap and of the later ones
      exact ⟨k + ((c r'.1).toNat - (c r.1).toNat) / 2 ^ 32, by omega⟩
    · omega

/-- The first of three reads is torn. -/
theorem elapsed_exact_iff_torn :
    ∃ st, (ccatSystemtimeProbe .granted 0 0 0).privateData = some st ∧
      elapsed carryWords st (0, 1) [(1, 2), (3, 3)] = (carry 3).toNat - (carry 0).toNat :=
  ⟨_, rfl, (elapsed_exact_iff carryWords carry .granted 0 0 0 _ rfl counterAt_carry (0, 1)
    [(1, 2), (3, 3)] (by decide)).2.mpr (by decide)⟩

end Ccat.Native.Systemtime
