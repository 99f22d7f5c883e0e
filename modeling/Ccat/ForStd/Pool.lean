import Mathlib.Data.Multiset.Count
import Mathlib.Logic.Relation

/-!
# Pools of threads

Any number of threads that share a state: at every moment one of them takes a step,
which may change the shared state and its own local state, or a new thread begins, or
the environment changes the shared state. Threads have no names, so the threads of a
configuration form a multiset of local states.

## Key results

- `Pool.reach_inv`: what every step keeps holds of every reachable configuration
- `Pool.reachIf_inv`: the same in runs all of whose steps meet a condition
-/

open Relation

/-- Threads over a shared state of type `σ`, with local states of type `τ`. -/
structure Pool (σ τ : Type) where
  /-- Local states in which a thread begins. -/
  start : τ → Prop
  /-- The steps of one thread. -/
  step : σ → τ → σ → τ → Prop
  /-- The steps of the environment, in view of the threads. -/
  env : Multiset τ → σ → σ → Prop

namespace Pool

variable {σ τ : Type} (pool : Pool σ τ)

structure Config (σ τ : Type) where
  shared : σ
  threads : Multiset τ

inductive Step : Config σ τ → Config σ τ → Prop where
  | spawn {s ts t} : pool.start t → Step ⟨s, ts⟩ ⟨s, t ::ₘ ts⟩
  | run {s s' ts t t'} : pool.step s t s' t' → Step ⟨s, t ::ₘ ts⟩ ⟨s', t' ::ₘ ts⟩
  | env {s s' ts} : pool.env ts s s' → Step ⟨s, ts⟩ ⟨s', ts⟩

/-- Runs all of whose steps meet the condition `ok`. -/
def ReachIf (ok : Config σ τ → Config σ τ → Prop) (c c' : Config σ τ) : Prop :=
  ReflTransGen (fun a b => pool.Step a b ∧ ok a b) c c'

/-- Configurations that a run from `c` reaches. -/
def Reach (c c' : Config σ τ) : Prop := ReflTransGen pool.Step c c'

variable {pool}

/-- A step of the thread behind the first. -/
theorem Step.run_second {s s' : σ} {t t' u : τ} {ts : Multiset τ} (h : pool.step s t s' t') :
    pool.Step ⟨s, u ::ₘ t ::ₘ ts⟩ ⟨s', u ::ₘ t' ::ₘ ts⟩ := by
  rw [Multiset.cons_swap u t, Multiset.cons_swap u t']
  exact .run h

/-- What every step that meets the condition keeps holds in every state of such a run. -/
theorem reachIf_inv {ok : Config σ τ → Config σ τ → Prop} {I : Config σ τ → Prop}
    (hstep : ∀ a b, I a → pool.Step a b → ok a b → I b) {c c' : Config σ τ} (hc : I c)
    (hreach : pool.ReachIf ok c c') : I c' := by
  induction hreach with
  | refl => exact hc
  | tail _ hab ih => exact hstep _ _ ih hab.1 hab.2

/-- What every step keeps holds in every state of a run. -/
theorem reach_inv {I : Config σ τ → Prop} (hstep : ∀ a b, I a → pool.Step a b → I b)
    {c c' : Config σ τ} (hc : I c) (hreach : pool.Reach c c') : I c' := by
  induction hreach with
  | refl => exact hc
  | tail _ hab ih => exact hstep _ _ ih hab

end Pool
