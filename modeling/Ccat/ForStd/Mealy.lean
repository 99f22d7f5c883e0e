/-!
# Machines that answer requests

A Mealy machine takes requests one at a time; each gives an answer and the next state.
A simulation relates the states of two machines that give the same answers to the same
requests.

## Key results

- `Mealy.Simulates.run`: a simulation carries over to whole runs
-/

/-- A machine with states `S` that answers requests `R` with `A`. -/
structure Mealy (S R A : Type) where
  step : S → R → A × S

namespace Mealy

variable {S T R A : Type}

/-- Requests made one after another: their answers and the last state. -/
def run (m : Mealy S R A) (s : S) : List R → List A × S
  | [] => ([], s)
  | r :: rs => ((m.step s r).1 :: (m.run (m.step s r).2 rs).1, (m.run (m.step s r).2 rs).2)

/-- The first answer and the run from the state behind it. -/
theorem run_cons (m : Mealy S R A) (s : S) (r : R) (rs : List R) :
    m.run s (r :: rs) =
      ((m.step s r).1 :: (m.run (m.step s r).2 rs).1, (m.run (m.step s r).2 rs).2) := rfl

/-- To requests that are `ok`, related states give the same answer and stay related. -/
structure Simulates (m : Mealy S R A) (n : Mealy T R A) (ok : R → Prop) (rel : S → T → Prop) :
    Prop where
  step : ∀ s t r, ok r → rel s t →
    (m.step s r).1 = (n.step t r).1 ∧ rel (m.step s r).2 (n.step t r).2

/-- A simulation gives the same answers over whole runs. -/
theorem Simulates.run {m : Mealy S R A} {n : Mealy T R A} {ok : R → Prop} {rel : S → T → Prop}
    (h : m.Simulates n ok rel) {s : S} {t : T} (hst : rel s t) {rs : List R}
    (hok : ∀ r ∈ rs, ok r) :
    (m.run s rs).1 = (n.run t rs).1 ∧ rel (m.run s rs).2 (n.run t rs).2 := by
  induction rs generalizing s t with
  | nil => exact ⟨rfl, hst⟩
  | cons r rs ih =>
    obtain ⟨hanswer, hnext⟩ := h.step s t r (hok r List.mem_cons_self) hst
    obtain ⟨hanswers, hend⟩ := ih hnext fun r' hr' => hok r' (List.mem_cons_of_mem r hr')
    rw [run_cons, run_cons, hanswer, hanswers]
    exact ⟨rfl, hend⟩

end Mealy
