import Mathlib.Data.List.Forall2
import Mathlib.Data.List.Induction

/-!
# Queues of slots

A producer and a consumer share a queue of `cap` slots. The consumer hands out free
slots, the producer puts items into them, and an item for which no slot is free is
lost. The consumer takes the oldest item into its hand, delivers it or drops it, and
hands its slot out again. Clearing the queue starts it anew: the slots are handed out
one after another before anything is taken.

`run` decides whether a sequence of events is one of such a queue.

## Key results

- `run_concat`: one more event
- `run_length_le`: there are never more items than slots
- `run_lose`: an item is lost only when the queue is full
- `run_conserved`: what was put and what was taken since the slots were handed out
-/

namespace SlotQueue

variable {α : Type u}

inductive Event (α : Type u) where
  | clear
  /-- A slot is handed to the producer. -/
  | free
  | put (a : α)
  | lose (a : α)
  /-- The oldest item is taken out, and delivered if it is shown. -/
  | take (o : Option α)

inductive Phase where
  /-- The queue was cleared, and `k` slots have been handed out since. -/
  | filling (k : Nat)
  | ready
  /-- The slot of the item taken last has still to be handed out again. -/
  | inHand
  deriving DecidableEq, Repr

structure State (α : Type u) where
  phase : Phase
  pending : List α
  deriving DecidableEq, Repr

def State.init : State α := ⟨.filling 0, []⟩

/-- The phase with `k` slots handed out. -/
def filled (cap k : Nat) : Phase := if k = cap then .ready else .filling k

/-- How many items there can be. -/
def Phase.room (cap : Nat) : Phase → Nat
  | .inHand => cap - 1
  | _ => cap

/-- An item may be lost: the slots are not all handed out yet, or all of them are in use. -/
def State.Full (cap : Nat) (st : State α) : Prop :=
  (∃ k, st.phase = .filling k) ∨ st.pending.length = st.phase.room cap

instance (cap : Nat) (st : State α) : Decidable (st.Full cap) :=
  match st with
  | ⟨.filling k, _⟩ => .isTrue (.inl ⟨k, rfl⟩)
  | ⟨.ready, as⟩ =>
    decidable_of_iff (as.length = cap) ⟨.inr, fun h => h.elim (fun ⟨_, h⟩ => nomatch h) id⟩
  | ⟨.inHand, as⟩ =>
    decidable_of_iff (as.length = cap - 1) ⟨.inr, fun h => h.elim (fun ⟨_, h⟩ => nomatch h) id⟩

/-- What is taken out is the item, or nothing. -/
def Delivered (o : Option α) (a : α) : Prop := o = none ∨ o = some a

instance [DecidableEq α] (o : Option α) (a : α) : Decidable (Delivered o a) :=
  inferInstanceAs (Decidable (o = none ∨ o = some a))

/-- One event of a queue of `cap` slots, if it may happen. -/
def step [DecidableEq α] (cap : Nat) (st : State α) : Event α → Option (State α)
  | .clear => some .init
  | .free =>
    match st.phase with
    -- whatever is in the slots goes with the first that is handed out
    | .filling 0 => some ⟨filled cap 1, []⟩
    | .filling k => some ⟨filled cap (k + 1), st.pending⟩
    | .inHand => some ⟨.ready, st.pending⟩
    | .ready => none
  | .put a =>
    if st.pending.length < st.phase.room cap then some ⟨st.phase, st.pending ++ [a]⟩ else none
  | .lose _ => if st.Full cap then some st else none
  | .take o =>
    match st.phase, st.pending with
    | .ready, a :: as => if Delivered o a then some ⟨.inHand, as⟩ else none
    | _, _ => none

/-- The state after the events, if they are those of a queue. -/
def run [DecidableEq α] (cap : Nat) (evs : List (Event α)) : Option (State α) :=
  evs.foldlM (step cap) .init

/-! ## What was put and what was taken -/

section Conserved

variable {evs : List (Event α)} {e : Event α}

/-- The items put. -/
def puts (evs : List (Event α)) : List α :=
  evs.filterMap fun | .put a => some a | _ => none

/-- What became of the items taken out. -/
def takes (evs : List (Event α)) : List (Option α) :=
  evs.filterMap fun | .take o => some o | _ => none

/-- What one event does to the events that count. -/
def sinceFirst.add (acc : Option (List (Event α))) : Event α → Option (List (Event α))
  | .clear => none
  | .free => some (acc.elim [] (· ++ [.free]))
  | e => acc.map (· ++ [e])

/-- The events since the first slot was handed out after the queue was cleared last. -/
def sinceFirst (evs : List (Event α)) : Option (List (Event α)) :=
  evs.foldl sinceFirst.add none

/-- One more event. -/
theorem sinceFirst_concat (evs : List (Event α)) (e : Event α) :
    sinceFirst (evs ++ [e]) = sinceFirst.add (sinceFirst evs) e := by
  unfold sinceFirst
  rw [List.foldl_append]
  rfl

/-- The items taken out, and those pending after them, are the items put. -/
def Conserved (evs : List (Event α)) (pending : List α) : Prop :=
  ∃ taken, puts evs = taken ++ pending ∧ List.Forall₂ Delivered (takes evs) taken

/-- An event that neither puts nor takes. -/
theorem Conserved.other {pending : List α} (h : Conserved evs pending) (hput : puts [e] = [])
    (htake : takes [e] = []) : Conserved (evs ++ [e]) pending := by
  obtain ⟨taken, hputs, htakes⟩ := h
  refine ⟨taken, ?_, ?_⟩
  · show List.filterMap _ (evs ++ [e]) = _
    rw [List.filterMap_append]
    show puts evs ++ puts [e] = _
    rw [hput, List.append_nil, hputs]
  · show List.Forall₂ Delivered (List.filterMap _ (evs ++ [e])) taken
    rw [List.filterMap_append]
    show List.Forall₂ Delivered (takes evs ++ takes [e]) taken
    rw [htake, List.append_nil]
    exact htakes

/-- An item that is put is pending behind the others. -/
theorem Conserved.put {pending : List α} (h : Conserved evs pending) (a : α) :
    Conserved (evs ++ [.put a]) (pending ++ [a]) := by
  obtain ⟨taken, hputs, htakes⟩ := h
  refine ⟨taken, ?_, ?_⟩
  · show List.filterMap _ (evs ++ [.put a]) = _
    rw [List.filterMap_append]
    show puts evs ++ [a] = _
    rw [hputs, List.append_assoc]
  · show List.Forall₂ Delivered (List.filterMap _ (evs ++ [.put a])) taken
    rw [List.filterMap_append]
    show List.Forall₂ Delivered (takes evs ++ []) taken
    rw [List.append_nil]
    exact htakes

/-- The oldest of the pending items is taken. -/
theorem Conserved.take {a : α} {pending : List α} (h : Conserved evs (a :: pending))
    {o : Option α} (ho : Delivered o a) : Conserved (evs ++ [.take o]) pending := by
  obtain ⟨taken, hputs, htakes⟩ := h
  refine ⟨taken ++ [a], ?_, ?_⟩
  · show List.filterMap _ (evs ++ [.take o]) = _
    rw [List.filterMap_append]
    show puts evs ++ [] = _
    rw [List.append_nil, hputs, List.append_assoc, List.singleton_append]
  · show List.Forall₂ Delivered (List.filterMap _ (evs ++ [.take o])) (taken ++ [a])
    rw [List.filterMap_append]
    exact List.rel_append htakes (.cons ho .nil)

end Conserved

/-! ## Sequences of events -/

section Run

variable [DecidableEq α] {cap : Nat} {st st' : State α} {evs : List (Event α)} {e : Event α}

/-- One more event is one more step. -/
theorem run_concat (h : run cap evs = some st) : run cap (evs ++ [e]) = step cap st e := by
  unfold run at h ⊢
  rw [List.foldlM_append, h]
  show List.foldlM (step cap) st [e] = _
  rw [List.foldlM_cons]
  exact bind_pure _

/-- The events before are those of a queue too. -/
theorem run_of_append {evs' : List (Event α)} (h : run cap (evs ++ evs') = some st) :
    ∃ st₁, run cap evs = some st₁ ∧ evs'.foldlM (step cap) st₁ = some st := by
  unfold run at h ⊢
  rw [List.foldlM_append] at h
  exact Option.bind_eq_some_iff.mp h

/-- A property that every event keeps holds after every sequence of events. -/
theorem run_induction {P : List (Event α) → State α → Prop} (hinit : P [] .init)
    (hstep : ∀ evs st e st', P evs st → step cap st e = some st' → P (evs ++ [e]) st')
    (h : run cap evs = some st) : P evs st := by
  induction evs using List.reverseRecOn generalizing st with
  | nil =>
    obtain rfl : State.init = st := Option.some.inj h
    exact hinit
  -- the last event is a step from what the others led to
  | append_singleton evs e ih =>
    cases hevs : run cap evs with
    | none =>
      unfold run at h hevs
      rw [List.foldlM_append, hevs] at h
      exact nomatch h
    | some st₁ =>
      rw [run_concat hevs] at h
      exact hstep evs st₁ e st (ih hevs) h

/-! ## What an event does -/

/-- Clearing the queue is always possible. -/
@[simp] theorem step_clear : step cap st .clear = some .init := rfl

/-- The slot in the hand goes back. -/
theorem step_free_inHand (h : st.phase = .inHand) :
    step cap st .free = some ⟨.ready, st.pending⟩ := by
  simp only [step, h]

/-- The `k`-th slot is handed out to an empty queue, or to one that has some already. -/
theorem step_free_filling {k : Nat} (h : st.phase = .filling k) (hk : k = 0 → st.pending = []) :
    step cap st .free = some ⟨filled cap (k + 1), st.pending⟩ := by
  cases k with
  | zero => simp only [step, h, hk rfl, Nat.zero_add]
  | succ k => simp only [step, h]

/-- The first slot is handed out. -/
theorem step_free_first (h : st.phase = .filling 0) :
    step cap st .free = some ⟨filled cap 1, []⟩ := by
  simp only [step, h]

/-- An item is put into a slot that is free. -/
theorem step_put {a : α} (h : st.pending.length < st.phase.room cap) :
    step cap st (.put a) = some ⟨st.phase, st.pending ++ [a]⟩ := if_pos h

/-- An item is lost only when no slot is free. -/
theorem step_lose {a : α} (h : st.Full cap) : step cap st (.lose a) = some st := if_pos h

/-- The oldest item is taken out, into the hand. -/
theorem step_take {a : α} {as : List α} {o : Option α} (h : Delivered o a) :
    step cap ⟨.ready, a :: as⟩ (.take o) = some ⟨.inHand, as⟩ := if_pos h

/-- All that an event can do. -/
inductive Effect (cap : Nat) (st : State α) : Event α → State α → Prop where
  | clear : Effect cap st .clear .init
  | first : st.phase = .filling 0 → Effect cap st .free ⟨filled cap 1, []⟩
  | free (ph : Phase) : st.phase ≠ .filling 0 → ph ≠ .inHand → ph ≠ .filling 0 →
      Effect cap st .free ⟨ph, st.pending⟩
  | put (a : α) : st.pending.length < st.phase.room cap →
      Effect cap st (.put a) ⟨st.phase, st.pending ++ [a]⟩
  | lose (a : α) : st.Full cap → Effect cap st (.lose a) st
  | take (a : α) (as : List α) (o : Option α) : st.phase = .ready → st.pending = a :: as →
      Delivered o a → Effect cap st (.take o) ⟨.inHand, as⟩

/-- Handing out a slot leads neither back to the start nor to a slot in the hand. -/
theorem filled_succ_ne (cap k : Nat) : filled cap (k + 1) ≠ .inHand ∧
    filled cap (k + 1) ≠ .filling 0 := by
  unfold filled
  split
  · exact ⟨nofun, nofun⟩
  · refine ⟨nofun, ?_⟩
    simp only [ne_eq, Phase.filling.injEq, Nat.add_eq_zero_iff]
    omega

/-- The inversion of a step: every event that is accepted has one of the effects. -/
theorem step_effect (h : step cap st e = some st') : Effect cap st e st' := by
  obtain ⟨phase, pending⟩ := st
  cases e with
  | clear =>
    obtain rfl := Option.some.inj h
    exact .clear
  -- what a free slot means depends on the phase
  | free =>
    cases phase with
    | filling k =>
      cases k with
      | zero =>
        obtain rfl := Option.some.inj h
        exact .first rfl
      | succ k =>
        obtain rfl := Option.some.inj h
        obtain ⟨hne, hne'⟩ := filled_succ_ne cap (k + 1)
        exact .free _ (by simp) hne hne'
    | ready => simp [step] at h
    | inHand =>
      obtain rfl := Option.some.inj h
      exact .free .ready (by simp) (by simp) (by simp)
  -- there has to be room, and for a loss there must be none
  | put a =>
    simp only [step] at h
    split at h
    · obtain rfl := Option.some.inj h
      exact .put a (by assumption)
    · simp at h
  | lose a =>
    simp only [step] at h
    split at h
    · obtain rfl := Option.some.inj h
      exact .lose a (by assumption)
    · simp at h
  -- the answer must be that of the oldest item
  | take o =>
    simp only [step] at h
    split at h
    · rename_i a as
      split at h
      · obtain rfl := Option.some.inj h
        exact .take a as o rfl rfl (by assumption)
      · simp at h
    · simp at h

/-! ## What holds after any events -/

/-- There are never more items pending than there are slots for them. -/
theorem run_length_le (h : run cap evs = some st) : st.pending.length ≤ st.phase.room cap := by
  refine run_induction (P := fun _ st => st.pending.length ≤ st.phase.room cap)
    (Nat.zero_le _) ?_ h
  intro evs st e st' hle hstep
  cases step_effect hstep with
  | clear => exact Nat.zero_le _
  | first => exact Nat.zero_le _
  | free ph _ hne _ =>
    -- a slot that is handed out only makes room
    have hroom : st.phase.room cap ≤ ph.room cap := by
      cases ph with
      | inHand => exact absurd rfl hne
      | filling k | ready =>
        cases st.phase with
        | filling k | ready => exact Nat.le_refl _
        | inHand => exact Nat.sub_le cap 1
    exact Nat.le_trans hle hroom
  | put a hlt =>
    rw [List.length_append]
    exact hlt
  | lose a _ => exact hle
  -- the slot in hand takes its room with it
  | take a as o hphase hpending _ =>
    rw [hphase, hpending, List.length_cons] at hle
    exact Nat.le_sub_one_of_lt hle

/-- An item is lost only when the queue is full. -/
theorem run_lose {a : α} {evs' : List (Event α)} (h : run cap (evs ++ .lose a :: evs') = some st) :
    ∃ st₁, run cap evs = some st₁ ∧ st₁.Full cap := by
  obtain ⟨st₁, hrun, hrest⟩ := run_of_append h
  rw [List.foldlM_cons] at hrest
  obtain ⟨st₂, hstep, -⟩ := Option.bind_eq_some_iff.mp hrest
  cases step_effect hstep with
  | lose a hfull => exact ⟨st₁, hrun, hfull⟩

/-- Since the first slot was handed out, the items taken and those pending are the items put, in
    their order. Before that nothing is taken. -/
theorem run_conserved (h : run cap evs = some st) :
    (sinceFirst evs = none ↔ st.phase = .filling 0) ∧
      ∀ l, sinceFirst evs = some l → Conserved l st.pending := by
  refine run_induction (P := fun evs st => (sinceFirst evs = none ↔ st.phase = .filling 0) ∧
    ∀ l, sinceFirst evs = some l → Conserved l st.pending) ⟨by simp [sinceFirst, State.init],
      by simp [sinceFirst]⟩ ?_ h
  intro evs st e st' hP hstep
  rw [sinceFirst_concat]
  cases hsince : sinceFirst evs with
  -- before the first slot only a free slot changes the phase
  | none =>
    have hphase : st.phase = .filling 0 := hP.1.mp hsince
    cases step_effect hstep with
    | clear => exact ⟨by simp [sinceFirst.add, State.init], by simp [sinceFirst.add]⟩
    | first _ =>
      refine ⟨by simp [sinceFirst.add, (filled_succ_ne cap 0).2], fun l hl => ?_⟩
      obtain rfl : [] = l := Option.some.inj hl
      exact ⟨[], rfl, .nil⟩
    | free ph hne _ _ => exact absurd hphase hne
    | put a _ => exact ⟨by simp [sinceFirst.add, hphase], by simp [sinceFirst.add]⟩
    | lose a _ => exact ⟨by simp [sinceFirst.add, hphase], by simp [sinceFirst.add]⟩
    | take a as o hready _ _ =>
      rw [hphase] at hready
      exact nomatch hready
  -- from then on the events add to the list
  | some l =>
    have hcons := hP.2 l hsince
    have hphase : st.phase ≠ .filling 0 := fun hph => by simp [hP.1.mpr hph] at hsince
    cases step_effect hstep with
    | clear => exact ⟨by simp [sinceFirst.add, State.init], by simp [sinceFirst.add]⟩
    | first hfirst => exact absurd hfirst hphase
    | free ph _ _ hne =>
      refine ⟨by simp [sinceFirst.add, hne], fun l' hl => ?_⟩
      obtain rfl : l ++ [Event.free] = l' := Option.some.inj hl
      exact hcons.other rfl rfl
    | put a _ =>
      refine ⟨by simp [sinceFirst.add, hphase], fun l' hl => ?_⟩
      obtain rfl : l ++ [Event.put a] = l' := Option.some.inj hl
      exact hcons.put a
    | lose a _ =>
      refine ⟨by simp [sinceFirst.add, hphase], fun l' hl => ?_⟩
      obtain rfl : l ++ [Event.lose a] = l' := Option.some.inj hl
      exact hcons.other rfl rfl
    | take a as o _ hpending ho =>
      refine ⟨by simp [sinceFirst.add], fun l' hl => ?_⟩
      obtain rfl : l ++ [Event.take o] = l' := Option.some.inj hl
      rw [hpending] at hcons
      exact hcons.take ho

end Run

end SlotQueue
