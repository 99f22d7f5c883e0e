/-!
# Last-writer folds and logs

A fold whose steps either overwrite what is observed or leave it alone shows, in the
end, what the last overwriting element wrote. A log that is cut at certain entries is
read from the last of them on.
-/

namespace List

variable {α : Type u} {β : Type v} {γ : Type w}

/-- What the last element that passes wrote, or the initial observation. -/
theorem foldl_eq_last {step : β → α → β} (obs : β → γ) (pass : α → Bool) (val : α → γ)
    (as : List α) (b : β)
    (h : ∀ a ∈ as, ∀ b, obs (step b a) = if pass a then val a else obs b) :
    obs (as.foldl step b) = ((as.filter pass).getLast?).elim (obs b) val := by
  induction as generalizing b with
  | nil => rfl
  | cons a as ih =>
    have hhead := h a (mem_cons_self ..) b
    have hrest := ih (step b a) fun a' ha' => h a' (mem_cons_of_mem _ ha')
    rw [foldl_cons, hrest]
    cases hlast : (as.filter pass).getLast? with
    | none =>
      -- nothing behind `a` passes, so `a` decides
      have hnil : as.filter pass = [] := getLast?_eq_none_iff.mp hlast
      by_cases hp : pass a = true
      · simp only [filter_cons_of_pos hp, hnil, getLast?_singleton, Option.elim_none,
          Option.elim_some, hhead, hp, if_true]
      · simp only [filter_cons_of_neg hp, hnil, getLast?_nil, Option.elim_none, hhead, hp,
          Bool.false_eq_true, if_false]
    -- the last that passes is behind `a`, and `a` does not matter
    | some c =>
      by_cases hp : pass a = true
      · simp only [filter_cons_of_pos hp, getLast?_cons, hlast, Option.getD_some,
          Option.elim_some]
      · simp only [filter_cons_of_neg hp, hlast, Option.elim_some]

/-- The last element that passes `p`, when it passes `q` too. -/
theorem getLast?_filter_and {p q : α → Bool} {l : List α} {a : α}
    (h : (l.filter p).getLast? = some a) (hq : q a = true) :
    (l.filter fun x => q x && p x).getLast? = some a := by
  obtain ⟨ys, hys⟩ := getLast?_eq_some_iff.mp h
  rw [← filter_filter, hys, filter_append, filter_cons_of_pos hq]
  exact getLast?_concat

/-- Nothing passes both when nothing passes `p`. -/
theorem getLast?_filter_and_none {p : α → Bool} (q : α → Bool) {l : List α}
    (h : (l.filter p).getLast? = none) : (l.filter fun x => q x && p x).getLast? = none := by
  rw [← filter_filter, getLast?_eq_none_iff.mp h]
  rfl

/-- The part of a log behind the last entry at which it is cut. -/
def since (cut : α → Bool) (l : List α) : List α :=
  l.foldl (fun acc a => if cut a then [] else acc ++ [a]) []

/-- Behind a cut there is nothing yet. -/
theorem since_concat_of_pos {cut : α → Bool} (l : List α) {a : α} (h : cut a = true) :
    (l ++ [a]).since cut = [] := by
  simp only [since, foldl_append, foldl_cons, foldl_nil, h, if_true]

/-- Anything else adds to what came since the last cut. -/
theorem since_concat_of_neg {cut : α → Bool} (l : List α) {a : α} (h : cut a = false) :
    (l ++ [a]).since cut = l.since cut ++ [a] := by
  simp only [since, foldl_append, foldl_cons, foldl_nil, h, Bool.false_eq_true, if_false]

end List
