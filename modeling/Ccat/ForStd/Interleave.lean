import Mathlib.Logic.Relation

/-!
# Sequential programs under interference

A `Prog` is a sequential program over a shared state `σ` whose steps are atomic
updates; between any two of them an environment may change the state. `wp R G` is the
weakest precondition of a program under the rely `R`, a step relation of the
environment: it promises that every update of the program is in the guarantee `G` and
that the program ends in the postcondition.

A `System` starts programs one after another from an idle state. From a
postcondition that the environment keeps and that every program restores, `System`
results follow for all configurations that can be reached, in whatever order programs
are started and wherever the environment steps.

## Key results

- `wp_bind`, `wp_act`, `wp_read`, `wp_modify`, `wp_choose`: rules for programs
- `wp_of_all`: a program all of whose updates keep an assertion keeps it
- `wp_iff`: when a postcondition depends on a condition alone
- `System.reach_ok`: what holds of every reachable configuration
- `System.step_rel`: every step is one of the environment or in the guarantee
- `System.rounds_ok`: what a number of rounds leads to
- `System.fed_ok`: what the inputs of a run lead to
- `System.reachIf_ok`: the same for the runs whose updates meet an assumption
-/

namespace Interleave

open Relation

/-! ## Programs -/

/-- A program: done, an atomic update whose continuation sees the state before it, or a
    choice that is not under the program's control. -/
inductive Prog (σ : Type) (α : Type) where
  | ret (a : α)
  | act (upd : σ → σ) (k : σ → Prog σ α)
  | pick (k : Bool → Prog σ α)

namespace Prog

variable {σ α β : Type}

def bind : Prog σ α → (α → Prog σ β) → Prog σ β
  | .ret a, q => q a
  | .act upd k, q => .act upd fun s => (k s).bind q
  | .pick k, q => .pick fun b => (k b).bind q

instance : Monad (Prog σ) where
  pure := .ret
  bind := .bind

/-- Sequences of programs are associative. -/
theorem bind_assoc {γ : Type} (p : Prog σ α) (q : α → Prog σ β) (r : β → Prog σ γ) :
    (p.bind q).bind r = p.bind fun a => (q a).bind r := by
  induction p with
  | ret a => rfl
  | act upd k ih => exact congrArg (Prog.act upd) (funext ih)
  | pick k ih => exact congrArg Prog.pick (funext ih)

/-- Returning at the end changes nothing. -/
theorem bind_ret (p : Prog σ α) : p.bind .ret = p := by
  induction p with
  | ret a => rfl
  | act upd k ih => exact congrArg (Prog.act upd) (funext ih)
  | pick k ih => exact congrArg Prog.pick (funext ih)

instance : LawfulMonad (Prog σ) := .mk' (Prog σ) bind_ret (fun _ _ => rfl) bind_assoc

/-- Look at the state. -/
def read (g : σ → α) : Prog σ α := .act id fun s => .ret (g s)

/-- Update the state. -/
def modify (upd : σ → σ) : Prog σ Unit := .act upd fun _ => .ret ()

/-- An answer from outside. -/
def choose : Prog σ Bool := .pick .ret

/-- Every update of the program has the property `φ`, every result the property `ψ`. -/
def All (φ : (σ → σ) → Prop) (ψ : α → Prop) : Prog σ α → Prop
  | .ret a => ψ a
  | .act upd k => φ upd ∧ ∀ s, (k s).All φ ψ
  | .pick k => ∀ b, (k b).All φ ψ

section All

variable {φ : (σ → σ) → Prop} {ψ : α → Prop} {χ : β → Prop}

/-- The updates of a sequence are those of its parts; the second part may use what the first one
    returns. -/
theorem all_bind {p : Prog σ α} {q : α → Prog σ β} (hp : p.All φ ψ)
    (hq : ∀ a, ψ a → (q a).All φ χ) : (p >>= q).All φ χ := by
  induction p with
  | ret a => exact hq a hp
  | act upd k ih => exact ⟨hp.1, fun s => ih s (hp.2 s)⟩
  | pick k ih => exact fun b => ih b (hp b)

/-- A weaker condition on the updates. -/
theorem all_mono {φ' : (σ → σ) → Prop} {p : Prog σ α} (hp : p.All φ ψ)
    (hφ : ∀ upd, φ upd → φ' upd) : p.All φ' ψ := by
  induction p with
  | ret a => exact hp
  | act upd k ih => exact ⟨hφ upd hp.1, fun s => ih s (hp.2 s)⟩
  | pick k ih => exact fun b => ih b (hp b)

/-- A weaker condition on the result. -/
theorem all_imp {ψ' : α → Prop} {p : Prog σ α} (hp : p.All φ ψ) (hψ : ∀ a, ψ a → ψ' a) :
    p.All φ ψ' := by
  induction p with
  | ret a => exact hψ a hp
  | act upd k ih => exact ⟨hp.1, fun s => ih s (hp.2 s)⟩
  | pick k ih => exact fun b => ih b (hp b)

/-- A program without updates. -/
theorem all_pure {a : α} (h : ψ a) : (pure a : Prog σ α).All φ ψ := h

/-- A read is an update that changes nothing. -/
theorem all_read (hid : φ id) {g : σ → α} (h : ∀ s, ψ (g s)) : (read g).All φ ψ :=
  ⟨hid, h⟩

/-- A single update. -/
theorem all_modify {upd : σ → σ} (h : φ upd) : (modify upd).All φ fun _ => True :=
  ⟨h, fun _ => trivial⟩

/-- An update ahead of the rest of a program. -/
theorem all_modify_bind {upd : σ → σ} {q : Unit → Prog σ β} (h : φ upd)
    (hq : (q ()).All φ χ) : (modify upd >>= q).All φ χ :=
  ⟨h, fun _ => hq⟩

/-- A branch has the updates of one of its sides. -/
theorem all_ite {c : Prop} [Decidable c] {p q : Prog σ α} (hp : p.All φ ψ) (hq : q.All φ ψ) :
    (if c then p else q).All φ ψ := by
  split
  · exact hp
  · exact hq

end All

/-- The run of a program that nobody interferes with; `oracle` answers its choices. -/
def exec (oracle : Nat → Bool) : Prog σ α → Nat → σ → α × σ
  | .ret a, _, s => (a, s)
  | .act upd k, n, s => (k s).exec oracle n (upd s)
  | .pick k, n, s => (k (oracle n)).exec oracle (n + 1) s

/-- Executing a read. -/
@[simp] theorem exec_read_bind (oracle : Nat → Bool) (g : σ → α) (k : α → Prog σ β) (n : Nat)
    (s : σ) : (read g >>= k).exec oracle n s = (k (g s)).exec oracle n s := rfl

/-- Executing an update. -/
@[simp] theorem exec_modify_bind (oracle : Nat → Bool) (upd : σ → σ) (k : Unit → Prog σ β)
    (n : Nat) (s : σ) : (modify upd >>= k).exec oracle n s = (k ()).exec oracle n (upd s) := rfl

/-- Executing a last update. -/
@[simp] theorem exec_map_modify (oracle : Nat → Bool) (upd : σ → σ) (g : Unit → α) (n : Nat)
    (s : σ) : (g <$> modify upd).exec oracle n s = (g (), upd s) := rfl

/-- A run with the environment doing `env n` ahead of the `n`-th update; all choices are `true`.
    There is none when an update does not pass the check `ok`. -/
def execIf (ok : (σ → σ) → σ → Bool) (env : Nat → σ → σ) : Prog σ α → Nat → σ → Option (α × σ)
  | .ret a, _, s => some (a, s)
  | .act upd k, n, s =>
    if ok upd (env n s) then (k (env n s)).execIf ok env (n + 1) (upd (env n s)) else none
  | .pick k, n, s => (k true).execIf ok env n s

/-- A program is not its own rest. -/
theorem rest_ne (upd : σ → σ) (k : σ → Prog σ α) (s : σ) : k s ≠ .act upd k := by
  have hrest : ∀ (p : Prog σ α) (upd : σ → σ) (k : σ → Prog σ α) (s : σ),
      p = .act upd k → k s ≠ p := by
    intro p
    -- the rest of a program is smaller than the program
    induction p with
    | ret a => exact fun _ _ _ h => nomatch h
    | act upd' k' ih =>
      intro upd k s h heq
      cases h
      exact ih s upd' k' s heq rfl
    | pick k' ih => exact fun _ _ _ h => nomatch h
  exact hrest _ upd k s rfl

end Prog

/-! ## Weakest preconditions -/

section Wp

variable {σ α β : Type} {R G : σ → σ → Prop}

/-- The environment keeps the assertion. -/
def Stable (R : σ → σ → Prop) (P : σ → Prop) : Prop := ∀ ⦃s t⦄, P s → R s t → P t

/-- A stable property survives any number of steps of the environment. -/
theorem Stable.star {P : σ → Prop} (hP : Stable R P) {s t : σ} (hs : P s)
    (h : ReflTransGen R s t) : P t := by
  induction h with
  | refl => exact hs
  | tail _ hstep ih => exact hP ih hstep

/-- From `s`, whatever the environment does, all updates are in `G` and the program ends with
    `Q`. -/
def wp (R G : σ → σ → Prop) : Prog σ α → (α → σ → Prop) → σ → Prop
  | .ret a, Q, s => Q a s
  | .act upd k, Q, s => ∀ t, ReflTransGen R s t → G t (upd t) ∧ wp R G (k t) Q (upd t)
  | .pick k, Q, s => ∀ b, wp R G (k b) Q s

/-- The condition of a sequence is that of its first part, with the condition of the second part as
    its aim. -/
theorem wp_bind {p : Prog σ α} {q : α → Prog σ β} {Q : β → σ → Prop} {s : σ} :
    wp R G (p >>= q) Q s ↔ wp R G p (fun a => wp R G (q a) Q) s := by
  induction p generalizing s with
  | ret a => exact Iff.rfl
  | act upd k ih =>
    constructor
    · exact fun h t hst => ⟨(h t hst).1, (ih t).mp (h t hst).2⟩
    · exact fun h t hst => ⟨(h t hst).1, (ih t).mpr (h t hst).2⟩
  | pick k ih => exact ⟨fun h b => (ih b).mp (h b), fun h b => (ih b).mpr (h b)⟩

/-- A program that returns at once. -/
theorem wp_pure {a : α} {Q : α → σ → Prop} {s : σ} (h : Q a s) : wp R G (pure a) Q s := h

/-- Consequence. -/
theorem wp_mono {p : Prog σ α} {Q Q' : α → σ → Prop} {s : σ} (h : wp R G p Q s)
    (hQ : ∀ a s, Q a s → Q' a s) : wp R G p Q' s := by
  induction p generalizing s with
  | ret a => exact hQ a s h
  | act upd k ih => exact fun t hst => ⟨(h t hst).1, ih t (h t hst).2⟩
  | pick k ih => exact fun b => ih b (h b)

/-- Sequential composition with an assertion in between. -/
theorem wp_seq {p : Prog σ α} {q : α → Prog σ β} {M : α → σ → Prop} {Q : β → σ → Prop} {s : σ}
    (hp : wp R G p M s) (hq : ∀ a s, M a s → wp R G (q a) Q s) : wp R G (p >>= q) Q s :=
  wp_bind.mpr (wp_mono hp hq)

/-- An atomic update from a stable assertion. -/
theorem wp_act {P : σ → Prop} (hP : Stable R P) {upd : σ → σ} {k : σ → Prog σ α}
    {Q : α → σ → Prop} {s : σ} (hs : P s)
    (h : ∀ t, P t → G t (upd t) ∧ wp R G (k t) Q (upd t)) : wp R G (.act upd k) Q s :=
  fun t hst => h t (hP.star hs hst)

/-- An update: what the environment keeps holds ahead of it. -/
theorem wp_modify {P : σ → Prop} (hP : Stable R P) {upd : σ → σ} {Q : Unit → σ → Prop} {s : σ}
    (hs : P s) (h : ∀ t, P t → G t (upd t) ∧ Q () (upd t)) : wp R G (.modify upd) Q s :=
  wp_act hP hs h

/-- A read, which the environment may precede as well. -/
theorem wp_read {P : σ → Prop} (hP : Stable R P) {g : σ → α} {Q : α → σ → Prop} {s : σ}
    (hs : P s) (h : ∀ t, P t → G t t ∧ Q (g t) t) : wp R G (.read g) Q s :=
  wp_act hP hs h

/-- A choice has to be fine both ways. -/
theorem wp_choose {Q : Bool → σ → Prop} {s : σ} (h : ∀ b, Q b s) : wp R G .choose Q s := h

/-- Every program ends. -/
theorem wp_end (hG : ∀ s t, G s t) (p : Prog σ α) (s : σ) : wp R G p (fun _ _ => True) s := by
  induction p generalizing s with
  | ret a => trivial
  | act upd k ih => exact fun t _ => ⟨hG _ _, ih t _⟩
  | pick k ih => exact fun b => ih b s

/-- A program all of whose updates keep a stable assertion keeps it. -/
theorem wp_of_all {P : σ → Prop} (hP : Stable R P) {ψ : α → Prop} {p : Prog σ α} {s : σ}
    (hs : P s) (hall : p.All (fun upd => ∀ t, P t → G t (upd t) ∧ P (upd t)) ψ) :
    wp R G p (fun a t => ψ a ∧ P t) s := by
  induction p generalizing s with
  | ret a => exact ⟨hall, hs⟩
  | act upd k ih =>
    intro t hst
    -- the environment keeps `P` until the update, which keeps it too
    have hupd := hall.1 t (hP.star hs hst)
    exact ⟨hupd.1, ih t hupd.2 (hall.2 t)⟩
  | pick k ih => exact fun b => ih b hs (hall b)

/-- Some run of the program ends. -/
theorem wp_exists {p : Prog σ α} {Q : α → σ → Prop} {s : σ} (h : wp R G p Q s) :
    ∃ a t, Q a t := by
  induction p generalizing s with
  | ret a => exact ⟨a, s, h⟩
  -- the environment may also do nothing
  | act upd k ih => exact ih s (h s ReflTransGen.refl).2
  | pick k ih => exact ih true (h true)

/-- Two aims of the same program are met together. -/
theorem wp_and {p : Prog σ α} {Q Q' : α → σ → Prop} {s : σ} (h : wp R G p Q s)
    (h' : wp R G p Q' s) : wp R G p (fun a t => Q a t ∧ Q' a t) s := by
  induction p generalizing s with
  | ret a => exact ⟨h, h'⟩
  | act upd k ih => exact fun t hst => ⟨(h t hst).1, ih t (h t hst).2 (h' t hst).2⟩
  | pick k ih => exact fun b => ih b (h b) (h' b)

/-- A postcondition that depends on a condition alone holds exactly under that condition. -/
theorem wp_iff {p : Prog σ α} {Q : α → σ → Prop} {c : Prop} {s : σ}
    (h : wp R G p (fun a t => Q a t ↔ c) s) : wp R G p Q s ↔ c := by
  constructor
  · intro hQ
    -- some run ends, and both postconditions hold there
    obtain ⟨a, t, hq, hiff⟩ := wp_exists (wp_and hQ h)
    exact hiff.mp hq
  · exact fun hc => wp_mono h fun a t hiff => hiff.mpr hc

/-- A step of the environment does not spoil the rest of a program. -/
theorem wp_env {p : Prog σ α} {Q : α → σ → Prop} (hQ : ∀ a, Stable R (Q a)) {s t : σ}
    (h : wp R G p Q s) (hR : R s t) : wp R G p Q t := by
  induction p with
  | ret a => exact hQ a h hR
  | act upd k _ => exact fun u htu => h u (ReflTransGen.head hR htu)
  | pick k ih => exact fun b => ih b (h b)

/-- A whole run of a program among steps of the environment, with its result. -/
inductive RunsTo (R : σ → σ → Prop) : Prog σ α → σ → α → σ → Prop where
  | ret {a s} : RunsTo R (.ret a) s a s
  | env {p s t a u} : R s t → RunsTo R p t a u → RunsTo R p s a u
  | act {upd k s a u} : RunsTo R (k s) (upd s) a u → RunsTo R (.act upd k) s a u
  | pick {k s a u} (b : Bool) : RunsTo R (k b) s a u → RunsTo R (.pick k) s a u

/-- A run ends in the postcondition. -/
theorem wp_runsTo {p : Prog σ α} {Q : α → σ → Prop} (hQ : ∀ a, Stable R (Q a)) {s t : σ} {a : α}
    (h : wp R G p Q s) (hrun : RunsTo R p s a t) : Q a t := by
  induction hrun with
  | ret => exact h
  | env hR _ ih => exact ih (wp_env hQ h hR)
  | act _ ih => exact ih (h _ ReflTransGen.refl).2
  | pick b _ ih => exact ih (h b)

/-- An undisturbed run. -/
theorem runsTo_exec (oracle : Nat → Bool) (p : Prog σ α) (n : Nat) (s : σ) :
    RunsTo R p s (p.exec oracle n s).1 (p.exec oracle n s).2 := by
  induction p generalizing n s with
  | ret a => exact .ret
  | act upd k ih => exact .act (ih s n (upd s))
  | pick k ih => exact .pick (oracle n) (ih (oracle n) (n + 1) s)

end Wp

/-! ## Runs under an assumption

`wpIf A` is `wp` for runs in which `A upd t` holds whenever the program is about to do the
update `upd` in the state `t`. -/

section WpIf

variable {σ α β : Type} {A : (σ → σ) → σ → Prop} {R G : σ → σ → Prop}

def wpIf (A : (σ → σ) → σ → Prop) (R G : σ → σ → Prop) :
    Prog σ α → (α → σ → Prop) → σ → Prop
  | .ret a, Q, s => Q a s
  | .act upd k, Q, s =>
    ∀ t, ReflTransGen R s t → A upd t → G t (upd t) ∧ wpIf A R G (k t) Q (upd t)
  | .pick k, Q, s => ∀ b, wpIf A R G (k b) Q s

/-- What holds of all runs holds of those that meet the assumption. -/
theorem wpIf_of_wp {p : Prog σ α} {Q : α → σ → Prop} {s : σ} (h : wp R G p Q s) :
    wpIf A R G p Q s := by
  induction p generalizing s with
  | ret a => exact h
  | act upd k ih => exact fun t hst _ => ⟨(h t hst).1, ih t (h t hst).2⟩
  | pick k ih => exact fun b => ih b (h b)

/-- The same of a sequence, by way of what holds between its parts. -/
theorem wpIf_seq {p : Prog σ α} {q : α → Prog σ β} {M : α → σ → Prop} {Q : β → σ → Prop} {s : σ}
    (hp : wpIf A R G p M s) (hq : ∀ a s, M a s → wpIf A R G (q a) Q s) :
    wpIf A R G (p >>= q) Q s := by
  induction p generalizing s with
  | ret a => exact hq a s hp
  | act upd k ih => exact fun t hst hA => ⟨(hp t hst hA).1, ih t (hp t hst hA).2⟩
  | pick k ih => exact fun b => ih b (hp b)

/-- A program that returns at once meets any condition on its updates. -/
theorem wpIf_pure {a : α} {Q : α → σ → Prop} {s : σ} (h : Q a s) : wpIf A R G (pure a) Q s := h

/-- An update, which may be assumed to meet the condition. -/
theorem wpIf_modify {P : σ → Prop} (hP : Stable R P) {upd : σ → σ} {Q : Unit → σ → Prop} {s : σ}
    (hs : P s) (h : ∀ t, P t → A upd t → G t (upd t) ∧ Q () (upd t)) :
    wpIf A R G (.modify upd) Q s :=
  fun t hst hA => h t (hP.star hs hst) hA

/-- The environment may step ahead of the program. -/
theorem wpIf_env {p : Prog σ α} {Q : α → σ → Prop} (hQ : ∀ a, Stable R (Q a)) {s t : σ}
    (h : wpIf A R G p Q s) (hR : R s t) : wpIf A R G p Q t := by
  induction p with
  | ret a => exact hQ a h hR
  | act upd k _ => exact fun u htu => h u (ReflTransGen.head hR htu)
  | pick k ih => exact fun b => ih b (h b)

end WpIf

/-! ## Systems -/

/-- Programs started one after another among steps of an environment. Between programs the
    system keeps a value of type `π`, which the last program returned. -/
structure System (σ π : Type) where
  env : σ → σ → Prop
  /-- The programs that may be started. -/
  enabled : π → σ → Prog σ π → Prop

/-- What the system is doing. -/
inductive Control (σ π : Type) where
  | idle (p : π)
  | running (prog : Prog σ π)

structure Config (σ π : Type) where
  control : Control σ π
  state : σ

namespace System

variable {σ π : Type} (sys : System σ π)

inductive Step : Config σ π → Config σ π → Prop where
  | env {c s t} : sys.env s t → Step ⟨c, s⟩ ⟨c, t⟩
  | start {p s prog} : sys.enabled p s prog → Step ⟨.idle p, s⟩ ⟨.running prog, s⟩
  | act {upd k s} : Step ⟨.running (.act upd k), s⟩ ⟨.running (k s), upd s⟩
  | pick {k s} (b : Bool) : Step ⟨.running (.pick k), s⟩ ⟨.running (k b), s⟩
  | done {p s} : Step ⟨.running (.ret p), s⟩ ⟨.idle p, s⟩

/-- Configurations that a run from `c` reaches. -/
def Reach (c c' : Config σ π) : Prop := ReflTransGen sys.Step c c'

/-- The idle invariant `J` is kept by the environment, and every program restores it. -/
structure Correct (J : π → σ → Prop) (G : σ → σ → Prop) : Prop where
  stable : ∀ p, Stable sys.env (J p)
  restores : ∀ p s prog, J p s → sys.enabled p s prog → wp sys.env G prog J s

/-- The idle invariant holds, or the running program is about to establish it. -/
def Ok (J : π → σ → Prop) (G : σ → σ → Prop) (c : Config σ π) : Prop :=
  match c.control with
  | .idle p => J p c.state
  | .running prog => wp sys.env G prog J c.state

variable {sys} {J : π → σ → Prop} {G : σ → σ → Prop}

/-- One step keeps a correct system in order. -/
theorem step_ok (h : sys.Correct J G) {c c' : Config σ π} (hc : sys.Ok J G c)
    (hstep : sys.Step c c') : sys.Ok J G c' := by
  cases hstep with
  | @env c s t hR =>
    cases c with
    | idle p => exact h.stable p hc hR
    | running prog => exact wp_env h.stable hc hR
  | start hen => exact h.restores _ _ _ hc hen
  | act => exact (hc _ ReflTransGen.refl).2
  | pick b => exact hc b
  | done => exact hc

/-- Every reachable configuration is `Ok`. -/
theorem reach_ok (h : sys.Correct J G) {c c' : Config σ π} (hc : sys.Ok J G c)
    (hreach : sys.Reach c c') : sys.Ok J G c' := by
  induction hreach with
  | refl => exact hc
  | tail _ hstep ih => exact step_ok h ih hstep

/-- What a step of an `Ok` configuration does to the state. -/
theorem step_rel {c c' : Config σ π} (hc : sys.Ok J G c) (hstep : sys.Step c c') :
    sys.env c.state c'.state ∨ G c.state c'.state ∨ c'.state = c.state := by
  cases hstep with
  | env hR => exact .inl hR
  | start _ => exact .inr (.inr rfl)
  | act => exact .inr (.inl (hc _ ReflTransGen.refl).1)
  | pick b => exact .inr (.inr rfl)
  | done => exact .inr (.inr rfl)

/-- A program that nobody interferes with runs to its end. -/
theorem reach_exec (oracle : Nat → Bool) (prog : Prog σ π) (n : Nat) (s : σ) :
    sys.Reach ⟨.running prog, s⟩ ⟨.idle (prog.exec oracle n s).1, (prog.exec oracle n s).2⟩ := by
  induction prog generalizing n s with
  | ret p => exact .single .done
  | act upd k ih => exact .head .act (ih s n (upd s))
  | pick k ih => exact .head (.pick (oracle n)) (ih (oracle n) (n + 1) s)

/-- Conversely, a property of every reachable state is guaranteed by a running program. -/
theorem wp_of_reach {A : σ → Prop} {prog : Prog σ π} {s : σ}
    (h : ∀ c, sys.Reach ⟨.running prog, s⟩ c → A c.state) :
    wp sys.env (fun _ t => A t) prog (fun _ _ => True) s := by
  induction prog generalizing s with
  | ret p => trivial
  | act upd k ih =>
    intro t hst
    -- the environment steps up to the moment of the update
    have henv : sys.Reach ⟨.running (.act upd k), s⟩ ⟨.running (.act upd k), t⟩ := by
      induction hst with
      | refl => exact .refl
      | tail _ hR ih => exact ih.tail (.env hR)
    have hact : sys.Reach ⟨.running (.act upd k), s⟩ ⟨.running (k t), upd t⟩ := henv.tail .act
    exact ⟨h _ hact, ih t fun c hc => h c (hact.trans hc)⟩
  | pick k ih => exact fun b => ih b fun c hc => h c (.head (.pick b) hc)

/-- A property that the environment and the guarantee keep holds of every reachable state. -/
theorem reach_always (h : sys.Correct J G) {A : σ → Prop}
    (henv : ∀ s t, A s → sys.env s t → A t) (hG : ∀ s t, A s → G s t → A t)
    {c c' : Config σ π} (hc : sys.Ok J G c) (hA : A c.state) (hreach : sys.Reach c c') :
    A c'.state := by
  induction hreach with
  | refl => exact hA
  | tail hreach' hstep ih =>
    -- a step is one of the environment, one in the guarantee, or changes nothing
    rcases step_rel (reach_ok h hc hreach') hstep with hR | hG' | heq
    · exact henv _ _ ih hR
    · exact hG _ _ ih hG'
    · rw [heq]
      exact ih

/-! ### Rounds -/

variable (sys) in
/-- Runs from `c` with `n` rounds in them: a round is a whole run of one of the programs that
    count as such. -/
inductive Rounds (round : π → Prog σ π → Prop) (c : Config σ π) : Nat → Config σ π → Prop where
  | refl : Rounds round c 0 c
  | step {n c₁ c₂} : Rounds round c n c₁ → sys.Step c₁ c₂ → Rounds round c n c₂
  | round {n p s prog q t} : Rounds round c n ⟨.idle p, s⟩ → sys.enabled p s prog →
      round p prog → RunsTo sys.env prog s q t → Rounds round c (n + 1) ⟨.idle q, t⟩

/-- When every program keeps each `J n` and a round leads from `J n` to `J (n + 1)`, `n` rounds
    lead to `J n`. -/
theorem rounds_ok {J : Nat → π → σ → Prop} {round : π → Prog σ π → Prop}
    (h : ∀ n, sys.Correct (J n) G)
    (hround : ∀ n p s prog, J n p s → round p prog → wp sys.env G prog (J (n + 1)) s)
    {c c' : Config σ π} {n : Nat} (hc : sys.Ok (J 0) G c) (hrun : sys.Rounds round c n c') :
    sys.Ok (J n) G c' := by
  induction hrun with
  | refl => exact hc
  | step _ hstep ih => exact step_ok (h _) ih hstep
  | round _ _ hprog hruns ih => exact wp_runsTo (h _).stable (hround _ _ _ _ ih hprog) hruns

/-! ### Inputs -/

section Inputs

variable {ι : Type} {feed : π → Prog σ π → List ι → Prop} {c c' : Config σ π}

variable (sys) in
/-- Runs from `c` that take these inputs. `feed p prog js` says that `prog`, started at `p`, takes
    the inputs `js`; no program is started without a record of what it takes. -/
inductive Fed (feed : π → Prog σ π → List ι → Prop) (c : Config σ π) :
    List ι → Config σ π → Prop where
  | refl : Fed feed c [] c
  | step {is c₁ c₂} : Fed feed c is c₁ → sys.Step c₁ c₂ →
      (∀ p, c₁.control = .idle p → c₂.control = .idle p) → Fed feed c is c₂
  | start {is p s prog js} : Fed feed c is ⟨.idle p, s⟩ → sys.enabled p s prog →
      feed p prog js → Fed feed c (is ++ js) ⟨.running prog, s⟩

/-- Every run takes some inputs. -/
theorem exists_fed (hfeed : ∀ p s prog, sys.enabled p s prog → ∃ js, feed p prog js)
    (hreach : sys.Reach c c') : ∃ is, sys.Fed feed c is c' := by
  induction hreach with
  | refl => exact ⟨[], .refl⟩
  | tail _ hstep ih =>
    obtain ⟨is, ih⟩ := ih
    cases hstep with
    | env hR => exact ⟨is, .step ih (.env hR) fun _ h => h⟩
    -- only the start of a program takes inputs
    | start hen =>
      obtain ⟨js, hjs⟩ := hfeed _ _ _ hen
      exact ⟨is ++ js, .start ih hen hjs⟩
    | act => exact ⟨is, .step ih .act nofun⟩
    | pick b => exact ⟨is, .step ih (.pick b) nofun⟩
    | done => exact ⟨is, .step ih .done nofun⟩

/-- When every program leads from `J is` to `J` with its inputs added, so does the run. -/
theorem fed_ok {J : List ι → π → σ → Prop} (hstable : ∀ is p, Stable sys.env (J is p))
    (hstart : ∀ is p s prog js, J is p s → sys.enabled p s prog → feed p prog js →
      wp sys.env G prog (J (is ++ js)) s)
    {is : List ι} (hc : sys.Ok (J []) G c) (hrun : sys.Fed feed c is c') :
    sys.Ok (J is) G c' := by
  induction hrun with
  | refl => exact hc
  -- a step that takes no input is a step of a correct system
  | @step is c₁ c₂ _ hstep hidle ih =>
    cases hstep with
    | @env control s t hR =>
      cases control with
      | idle p => exact hstable is p ih hR
      | running prog => exact wp_env (hstable is) ih hR
    -- programs are started by the other constructor
    | start hen => cases hidle _ rfl
    | act => exact (ih _ ReflTransGen.refl).2
    | pick b => exact ih b
    | done => exact ih
  | start _ hen hfeed ih => exact hstart _ _ _ _ _ ih hen hfeed

/-- A program that nobody interferes with runs to its end and takes no more inputs. -/
theorem fed_exec (oracle : Nat → Bool) {prog : Prog σ π} {s : σ} {is : List ι} (n : Nat)
    (hrun : sys.Fed feed c is ⟨.running prog, s⟩) :
    sys.Fed feed c is ⟨.idle (prog.exec oracle n s).1, (prog.exec oracle n s).2⟩ := by
  induction prog generalizing n s with
  | ret p => exact .step hrun .done nofun
  | act upd k ih => exact ih s n (.step hrun .act nofun)
  | pick k ih => exact ih (oracle n) (n + 1) (.step hrun (.pick (oracle n)) nofun)

end Inputs

/-! ### Runs under an assumption -/

variable (sys) in
/-- The steps of the system, each update under the assumption `A`. -/
def StepIf (A : (σ → σ) → σ → Prop) (c c' : Config σ π) : Prop :=
  sys.Step c c' ∧ ∀ upd k, c.control = .running (.act upd k) →
    c' = ⟨.running (k c.state), upd c.state⟩ → A upd c.state

variable (sys) in
/-- Configurations that a run whose updates meet `A` reaches from `c`. -/
def ReachIf (A : (σ → σ) → σ → Prop) (c c' : Config σ π) : Prop :=
  ReflTransGen (sys.StepIf A) c c'

variable (sys) in
/-- `Ok` for runs whose updates meet `A`. -/
def OkIf (A : (σ → σ) → σ → Prop) (J : π → σ → Prop) (G : σ → σ → Prop) (c : Config σ π) : Prop :=
  match c.control with
  | .idle p => J p c.state
  | .running prog => wpIf A sys.env G prog J c.state

variable {A : (σ → σ) → σ → Prop}

/-- Every configuration that such a run reaches is `OkIf`. -/
theorem reachIf_ok (hstable : ∀ p, Stable sys.env (J p))
    (hrestores : ∀ p s prog, J p s → sys.enabled p s prog → wpIf A sys.env G prog J s)
    {c c' : Config σ π} (hc : sys.OkIf A J G c) (hreach : sys.ReachIf A c c') :
    sys.OkIf A J G c' := by
  induction hreach with
  | refl => exact hc
  | tail _ hstep ih =>
    obtain ⟨hstep, hA⟩ := hstep
    cases hstep with
    | @env c s t hR =>
      cases c with
      | idle p => exact hstable p ih hR
      | running prog => exact wpIf_env hstable ih hR
    | start hen => exact hrestores _ _ _ ih hen
    -- the condition is met by the update that is made
    | act => exact (ih _ ReflTransGen.refl (hA _ _ rfl rfl)).2
    | pick b => exact ih b
    | done => exact ih

/-- Steps of such a run are steps of the environment, in the guarantee, or change nothing. -/
theorem stepIf_rel {c c' : Config σ π} (hc : sys.OkIf A J G c) (hstep : sys.StepIf A c c') :
    sys.env c.state c'.state ∨ G c.state c'.state ∨ c'.state = c.state := by
  obtain ⟨hstep, hA⟩ := hstep
  cases hstep with
  | env hR => exact .inl hR
  | start _ => exact .inr (.inr rfl)
  | act => exact .inr (.inl (hc _ ReflTransGen.refl (hA _ _ rfl rfl)).1)
  | pick b => exact .inr (.inr rfl)
  | done => exact .inr (.inr rfl)

/-- A property that the environment and the guarantee keep holds all along such a run. -/
theorem reachIf_always (hstable : ∀ p, Stable sys.env (J p))
    (hrestores : ∀ p s prog, J p s → sys.enabled p s prog → wpIf A sys.env G prog J s)
    {P : σ → Prop} (henv : ∀ s t, P s → sys.env s t → P t) (hG : ∀ s t, P s → G s t → P t)
    {c c' : Config σ π} (hc : sys.OkIf A J G c) (hP : P c.state) (hreach : sys.ReachIf A c c') :
    P c'.state := by
  induction hreach with
  | refl => exact hP
  | tail hreach' hstep ih =>
    -- a step is one of the environment, or guaranteed, or no change
    rcases stepIf_rel (reachIf_ok hstable hrestores hc hreach') hstep with hR | hG' | heq
    · exact henv _ _ ih hR
    · exact hG _ _ ih hG'
    · rw [heq]
      exact ih

/-- A run that passes the check is one whose updates meet `A`. -/
theorem reachIf_execIf {ok : (σ → σ) → σ → Bool} (hA : ∀ upd s, ok upd s = true → A upd s)
    {env : Nat → σ → σ} (henv : ∀ n s, env n s = s ∨ sys.env s (env n s)) {prog : Prog σ π}
    {n : Nat} {s t : σ} {p : π} (h : prog.execIf ok env n s = some (p, t)) :
    sys.ReachIf A ⟨.running prog, s⟩ ⟨.idle p, t⟩ := by
  induction prog generalizing n s with
  | ret p' =>
    obtain ⟨rfl, rfl⟩ := Prod.mk.inj (Option.some.inj h)
    exact .single ⟨.done, fun _ _ h => nomatch h⟩
  | act upd k ih =>
    unfold Prog.execIf at h
    obtain ⟨hok, hrest⟩ := Option.ite_none_right_eq_some.mp h
    -- the update passed the check, so it meets the condition
    have hact : sys.ReachIf A ⟨.running (.act upd k), env n s⟩ ⟨.idle p, t⟩ := by
      refine .head ⟨.act, fun upd' k' hcontrol _ => ?_⟩ (ih (env n s) hrest)
      cases hcontrol
      exact hA upd _ hok
    rcases henv n s with heq | hstep
    · rwa [heq] at hact
    · -- a step of the environment is no update
      refine .head ⟨.env hstep, fun upd' k' hcontrol hconfig => ?_⟩ hact
      cases hcontrol
      injection hconfig with hcontrol _
      injection hcontrol with hprog
      exact absurd hprog.symm (Prog.rest_ne upd k s)
  | pick k ih => exact .head ⟨.pick true, fun _ _ h => nomatch h⟩ (ih true h)

end System

end Interleave
