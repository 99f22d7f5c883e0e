import Mathlib.Algebra.Order.Group.Multiset

/-!
# Ledgers

A log of resources that are taken and given back, the same one possibly several times.
The balance of a log is what is held after it, and there is none for a log in which
something is given back that is not held at that point.
-/

namespace Ledger

variable {ρ : Type}

inductive Entry (ρ : Type) where
  | take (r : ρ)
  | give (r : ρ)

variable [DecidableEq ρ]

/-- What is held after an entry. -/
def enter (held : Multiset ρ) : Entry ρ → Option (Multiset ρ)
  | .take r => some ({r} + held)
  | .give r => if r ∈ held then some (held.erase r) else none

/-- What is held after a log. -/
def balance (log : List (Entry ρ)) : Option (Multiset ρ) := log.foldlM enter 0

/-- What is taken is held. -/
theorem balance_take {log : List (Entry ρ)} {held : Multiset ρ} (h : balance log = some held)
    (r : ρ) : balance (log ++ [.take r]) = some ({r} + held) := by
  rw [balance, List.foldlM_append, ← balance, h]
  rfl

/-- What is held can be given back. -/
theorem balance_give {log : List (Entry ρ)} {held : Multiset ρ} {r : ρ}
    (h : balance log = some ({r} + held)) : balance (log ++ [.give r]) = some held := by
  have hmem : r ∈ {r} + held := Multiset.mem_add.mpr (.inl (Multiset.mem_singleton_self r))
  have herase : ({r} + held).erase r = held := by
    rw [Multiset.singleton_add, Multiset.erase_cons_head]
  rw [balance, List.foldlM_append, ← balance, h]
  simp only [Option.bind_eq_bind, Option.bind_some, List.foldlM_cons, List.foldlM_nil, enter,
    if_pos hmem, herase, Option.pure_def]

end Ledger
