import Ccat.ForStd.Interleave

/-!
# History variables

`Prog.track g` is a program with a value beside its state that it does not look at: with
every update, `g` computes the new value from the states before and after it. The rules
for weakest preconditions carry over.
-/

namespace Interleave

variable {σ γ α β : Type}

/-- An update with what it does to the history. -/
def tracked (g : σ → σ → γ → γ) (upd : σ → σ) (x : σ × γ) : σ × γ :=
  (upd x.1, g x.1 (upd x.1) x.2)

/-- The program with its history. -/
def Prog.track (g : σ → σ → γ → γ) : Prog σ α → Prog (σ × γ) α
  | .ret a => .ret a
  | .act upd k => .act (tracked g upd) fun x => (k x.1).track g
  | .pick k => .pick fun b => (k b).track g

variable {g : σ → σ → γ → γ}

/-- Tracking goes through sequences. -/
theorem Prog.track_bind (p : Prog σ α) (q : α → Prog σ β) :
    (p >>= q).track g = p.track g >>= fun a => (q a).track g := by
  induction p with
  | ret a => rfl
  | act upd k ih => exact congrArg (Prog.act (tracked g upd)) (funext fun x => ih x.1)
  | pick k ih => exact congrArg Prog.pick (funext ih)

section Wp

variable {R G : σ × γ → σ × γ → Prop} {x : σ × γ}

/-- A program that returns at once tracks nothing. -/
theorem wp_track_pure {a : α} {Q : α → σ × γ → Prop} (h : Q a x) :
    wp R G ((pure a : Prog σ α).track g) Q x := h

/-- The condition of a tracked sequence is that of its first part, with the condition of the second
    part as its aim. -/
theorem wp_track_bind {p : Prog σ α} {q : α → Prog σ β} {Q : β → σ × γ → Prop} :
    wp R G ((p >>= q).track g) Q x ↔ wp R G (p.track g) (fun a => wp R G ((q a).track g) Q) x := by
  rw [Prog.track_bind]
  exact wp_bind

/-- A tracked sequence, by way of what holds between its parts. -/
theorem wp_track_seq {p : Prog σ α} {q : α → Prog σ β} {M : α → σ × γ → Prop}
    {Q : β → σ × γ → Prop} (hp : wp R G (p.track g) M x)
    (hq : ∀ a y, M a y → wp R G ((q a).track g) Q y) : wp R G ((p >>= q).track g) Q x :=
  wp_track_bind.mpr (wp_mono hp hq)

/-- A tracked update: what the environment keeps holds ahead of it. -/
theorem wp_track_modify {P : σ × γ → Prop} (hP : Stable R P) {upd : σ → σ}
    {Q : Unit → σ × γ → Prop} (hx : P x)
    (h : ∀ y, P y → G y (tracked g upd y) ∧ Q () (tracked g upd y)) :
    wp R G ((Prog.modify upd).track g) Q x :=
  wp_modify hP hx h

/-- What an update does when the environment does nothing. -/
theorem wp_track_modify_now {upd : σ → σ} {Q : Unit → σ × γ → Prop}
    (h : wp R G ((Prog.modify upd).track g) Q x) : G x (tracked g upd x) ∧ Q () (tracked g upd x) :=
  h x Relation.ReflTransGen.refl

/-- A program all of whose updates keep a stable assertion keeps it. -/
theorem wp_track_of_all {P : σ × γ → Prop} (hP : Stable R P) {ψ : α → Prop} {p : Prog σ α}
    (hx : P x)
    (hall : p.All (fun upd => ∀ y, P y → G y (tracked g upd y) ∧ P (tracked g upd y)) ψ) :
    wp R G (p.track g) (fun a y => ψ a ∧ P y) x := by
  induction p generalizing x with
  | ret a => exact ⟨hall, hx⟩
  | act upd k ih =>
    intro y hxy
    have hupd := hall.1 y (hP.star hx hxy)
    exact ⟨hupd.1, ih y.1 hupd.2 (hall.2 y.1)⟩
  | pick k ih => exact fun b => ih b hx (hall b)

end Wp

end Interleave
