import Mathlib.Data.Multiset.AddSub
import Ccat.Spec.CdevTable

/-!
# Handles across removals

A handle refers to a slot of the static device table. When its device is removed while
the handle is open, the slot may carry another device by the time the handle is
released, and the release counts for that device. So `in_use` of a probed slot is 1 less
the handles opened since its probe, plus the releases of older ones.

A run mixes probes, removes, opens and releases in any order. It numbers the probes of
each slot, so that handles know under which probe they were opened, and it counts the
releases that came too late.

## Key results

- `HandleStep.inv`: the account of `in_use`, by steps
- `accounted_iff`: when `in_use` counts the handles of the device alone
-/

namespace Ccat.Native

/-- An open handle: its slot, and which probe of the slot it was opened under. -/
structure Handle where
  slot : Nat
  epoch : Nat
  deriving DecidableEq, Repr

/-- The state of a run. -/
structure HandleRun where
  world : World
  /-- Slots whose probe succeeded and that were not removed. -/
  bound : List Nat
  /-- Number of successful probes of each slot. -/
  epoch : Nat → Nat
  /-- Handles that were opened and not released. -/
  handles : Multiset Handle
  /-- Releases of handles from before the latest probe of the slot, since that probe. -/
  late : Nat → Nat

/-- The number of handles opened since the latest probe of slot `i` and not released. -/
def HandleRun.current (s : HandleRun) (i : Nat) : Nat := s.handles.count ⟨i, s.epoch i⟩

/-- `epoch` and `late` after a probe that stored `slot` in `func->private_data`. -/
def HandleRun.probed (s : HandleRun) (w : World) (slot : Option Nat) : HandleRun where
  world := w
  bound := slot.toList ++ s.bound
  epoch j := if slot = some j then s.epoch j + 1 else s.epoch j
  handles := s.handles
  late j := if slot = some j then 0 else s.late j

/-- `ccat_cdev_open()` of the device in slot `i`. -/
def HandleRun.opened (s : HandleRun) (i : Nat) (kzalloc : Bool) : HandleRun :=
  { s with
    world := setDevice i (fun d => (ccatCdevOpen i kzalloc d).2.2) s.world
    handles :=
      if (ccatCdevOpen i kzalloc (s.world.base.devices i)).2.1.isSome then
        ⟨i, s.epoch i⟩ ::ₘ s.handles
      else s.handles }

/-- `ccat_cdev_release()` of a handle, which reaches the slot through the handle's buffer. -/
def HandleRun.released (s : HandleRun) (h : Handle) : HandleRun :=
  { s with
    world := setDevice h.slot (fun d => (ccatCdevRelease d).2) s.world
    handles := s.handles.erase h
    late := fun j => if j = h.slot ∧ h.epoch ≠ s.epoch j then s.late j + 1 else s.late j }

/-- One call. A device can be opened while it is bound; its handles can be released at any
    time. -/
inductive HandleStep : HandleRun → HandleRun → Prop where
  | probe {s} (func : CcatFunction) (iosize : Nat) (env : ProbeEnv) (r : ProbeResult) :
      env.Documented → ccatCdevProbe func iosize env s.world = .ok r →
      HandleStep s (s.probed r.world r.privateData)
  | remove {s} (i : Nat) (w : World) : i ∈ s.bound → ccatCdevRemove i s.world = .ok w →
      HandleStep s { s with world := w, bound := s.bound.erase i }
  | openDevice {s} (i : Nat) (kzalloc : Bool) : i ∈ s.bound → HandleStep s (s.opened i kzalloc)
  | release {s} (h : Handle) : h ∈ s.handles → HandleStep s (s.released h)

/-- Runs from the zero-initialised table of a class with `count` slots. -/
inductive HandleReach (count : Nat) (h : 0 < count) : HandleRun → Prop where
  | init : HandleReach count h ⟨World.init count h, [], fun _ => 0, 0, fun _ => 0⟩
  | step {s s'} : HandleReach count h s → HandleStep s s' → HandleReach count h s'

/-! ## The account -/

structure HandleInv (s : HandleRun) : Prop where
  table : TableInv s.world s.bound
  /-- Handles were opened under probes that took place. -/
  epoch_le : ∀ h ∈ s.handles, h.epoch ≤ s.epoch h.slot
  account : ∀ i ∈ s.bound,
    (s.world.base.devices i).inUse = 1 - s.current i + s.late i

/-- Only `dev` and `class` of a slot matter to the table. -/
theorem TableInv.setDevice {w : World} {bound : List Nat} (hinv : TableInv w bound) (i : Nat)
    {f : CcatCdev → CcatCdev} (hdev : ∀ d, (f d).dev = d.dev) (hcls : ∀ d, (f d).cls = d.cls) :
    TableInv (setDevice i f w) bound := by
  -- both fields are as they were in every slot
  have hslot : ∀ j, ((Native.setDevice i f w).base.devices j).dev = (w.base.devices j).dev ∧
      ((Native.setDevice i f w).base.devices j).cls = (w.base.devices j).cls := by
    intro j
    by_cases hj : j = i
    · subst hj
      rw [setDevice_devices_self]
      exact ⟨hdev _, hcls _⟩
    · rw [setDevice_devices_ne hj]
      exact ⟨rfl, rfl⟩
  constructor
  · exact hinv.nodup
  · exact hinv.lt_count
  · intro j
    rw [(hslot j).1]
    exact hinv.dev_ne_zero j
  · intro j hj
    rw [(hslot j).2]
    exact hinv.owner j hj
  · exact hinv.instances
  · exact hinv.idle
  · -- class and region are not in the slots
    intro hne
    obtain ⟨m, id, hm, hbase, hptr, hregions, hclasses⟩ := hinv.ready hne
    exact ⟨m, id, hm, hbase, hptr, hregions, hclasses⟩

/-- `ccat_cdev_open()` changes neither `dev` nor `class`. -/
theorem ccatCdevOpen_dev (i : Nat) (kzalloc : Bool) (d : CcatCdev) :
    (ccatCdevOpen i kzalloc d).2.2.dev = d.dev ∧ (ccatCdevOpen i kzalloc d).2.2.cls = d.cls := by
  by_cases hzero : d.inUse - 1 ≠ 0
  · simp [ccatCdevOpen, hzero]
  · cases kzalloc <;> simp [ccatCdevOpen, hzero]

/-- An open takes one off `in_use` when it hands out a handle, and nothing otherwise. -/
theorem ccatCdevOpen_inUse (i : Nat) (kzalloc : Bool) (d : CcatCdev) :
    (ccatCdevOpen i kzalloc d).2.2.inUse =
      if (ccatCdevOpen i kzalloc d).2.1.isSome then d.inUse - 1 else d.inUse := by
  by_cases hzero : d.inUse - 1 ≠ 0
  · simp [ccatCdevOpen, hzero]
  · cases kzalloc <;> simp [ccatCdevOpen, hzero]

/-- At first there are neither devices nor handles. -/
theorem HandleInv.init (count : Nat) (h : 0 < count) :
    HandleInv ⟨World.init count h, [], fun _ => 0, 0, fun _ => 0⟩ := by
  constructor
  · exact TableInv.init count h
  · intro h hmem
    exact absurd hmem (Multiset.notMem_zero h)
  · exact fun i hi => nomatch hi

/-- A new device starts with no handles and no late releases. -/
theorem HandleInv.probe {s : HandleRun} (hinv : HandleInv s) {func : CcatFunction} {iosize : Nat}
    {env : ProbeEnv} {r : ProbeResult} (hdoc : env.Documented)
    (hprobe : ccatCdevProbe func iosize env s.world = .ok r) :
    HandleInv (s.probed r.world r.privateData) := by
  have htable : TableInv r.world (r.privateData.toList ++ s.bound) := hinv.table.probe hdoc hprobe
  rcases ccatCdevProbe_cases hinv.table hdoc hprobe with
    ⟨rfl, -⟩ | ⟨m, id, i, hm, hready, hfree, rfl | rfl⟩
  · -- a full table
    refine ⟨htable, ?_, ?_⟩
    · simpa [HandleRun.probed] using hinv.epoch_le
    · simpa [HandleRun.probed, HandleRun.current] using hinv.account
  · refine ⟨htable, ?_, ?_⟩
    · intro h hmem
      have hle := hinv.epoch_le h hmem
      simp only [HandleRun.probed]
      split <;> omega
    · intro j hj
      have hdevices := published_devices func iosize m id i
        (s.world.withClass m id (s.bound.length + 1)) j
      by_cases hji : j = i
      · subst hji
        -- no handle was opened under the new probe yet
        have hnone : s.handles.count ⟨j, s.epoch j + 1⟩ = 0 := by
          apply Multiset.count_eq_zero.mpr
          intro hmem
          have hle := hinv.epoch_le _ hmem
          simp only at hle
          omega
        simp [HandleRun.probed, HandleRun.current, hdevices, hnone]
      · have hmem : j ∈ s.bound := (List.mem_cons.mp hj).resolve_left hji
        have hne : some i ≠ some j := fun heq => hji (Option.some.inj heq).symm
        have hold := hinv.account j hmem
        simp only [HandleRun.probed, HandleRun.current, hdevices, if_neg hji, if_neg hne] at hold ⊢
        exact hold
  · -- the failed probe had claimed a free slot
    refine ⟨htable, ?_, ?_⟩
    · simpa [HandleRun.probed] using hinv.epoch_le
    · intro j hj
      have hmem : j ∈ s.bound := hj
      have hji : j ≠ i := by
        rintro rfl
        exact (hinv.table.dev_ne_zero j).mpr hmem (firstFree_some hfree).2
      have hold := hinv.account j hmem
      have hdevices := undone_devices_ne func iosize m i
        (s.world.withClass m id (s.bound.length + 1)) hji
      simp only [HandleRun.probed, HandleRun.current, hdevices, reduceCtorEq, if_false] at hold ⊢
      exact hold

/-- A remove leaves the handles of its device open. -/
theorem HandleInv.remove {s : HandleRun} (hinv : HandleInv s) {i : Nat} {w : World}
    (hi : i ∈ s.bound) (hremove : ccatCdevRemove i s.world = .ok w) :
    HandleInv { s with world := w, bound := s.bound.erase i } := by
  obtain ⟨w', heq, -, -, hdevices⟩ := ccatCdevRemove_spec hinv.table hi
  rw [hremove] at heq
  cases heq
  refine ⟨hinv.table.remove hi hremove, hinv.epoch_le, ?_⟩
  intro j hj
  obtain ⟨hji, hmem⟩ := hinv.table.nodup.mem_erase_iff.mp hj
  show (w.base.devices j).inUse = _
  rw [hdevices, if_neg hji]
  exact hinv.account j hmem

/-- An open that succeeds adds a handle and takes `in_use` down; one that fails changes neither. -/
theorem HandleInv.opened {s : HandleRun} (hinv : HandleInv s) {i : Nat} (kzalloc : Bool)
    (hi : i ∈ s.bound) : HandleInv (s.opened i kzalloc) := by
  have htable := hinv.table.setDevice i (fun d => (ccatCdevOpen_dev i kzalloc d).1)
    fun d => (ccatCdevOpen_dev i kzalloc d).2
  have hinUse := ccatCdevOpen_inUse i kzalloc (s.world.base.devices i)
  -- the open succeeds iff it returns a buffer
  by_cases hbuf : (ccatCdevOpen i kzalloc (s.world.base.devices i)).2.1.isSome = true
  · refine ⟨htable, ?_, ?_⟩
    · intro h hmem
      simp only [HandleRun.opened, hbuf, if_true, Multiset.mem_cons] at hmem
      cases hmem with
      | inl heq => rw [heq]; exact Nat.le_refl _
      | inr hmem => exact hinv.epoch_le h hmem
    · intro j hj
      have hold := hinv.account j hj
      by_cases hji : j = i
      · subst hji
        simp only [HandleRun.opened, HandleRun.current, hbuf, if_true, setDevice_devices_self,
          Multiset.count_cons_self] at hold hinUse ⊢
        omega
      · -- the new handle is one of another slot
        have hne : (⟨j, s.epoch j⟩ : Handle) ≠ ⟨i, s.epoch i⟩ := by
          intro heq
          exact hji (congrArg Handle.slot heq)
        simp only [HandleRun.opened, HandleRun.current, hbuf, if_true,
          Multiset.count_cons_of_ne hne]
        rw [setDevice_devices_ne hji]
        exact hold
  · refine ⟨htable, ?_, ?_⟩
    · intro h hmem
      simp only [HandleRun.opened, if_neg hbuf] at hmem
      exact hinv.epoch_le h hmem
    · intro j hj
      have hold := hinv.account j hj
      simp only [HandleRun.opened, HandleRun.current, if_neg hbuf]
      by_cases hji : j = i
      · subst hji
        rw [setDevice_devices_self, hinUse, if_neg hbuf]
        exact hold
      · rw [setDevice_devices_ne hji]
        exact hold

/-- A release counts for the device that is in the slot now. -/
theorem HandleInv.released {s : HandleRun} (hinv : HandleInv s) {h : Handle}
    (hmem : h ∈ s.handles) : HandleInv (s.released h) := by
  have htable := hinv.table.setDevice h.slot (f := fun d => (ccatCdevRelease d).2) (fun _ => rfl)
    fun _ => rfl
  refine ⟨htable, ?_, ?_⟩
  · intro h' hmem'
    exact hinv.epoch_le h' (Multiset.mem_of_mem_erase hmem')
  · intro j hj
    have hold := hinv.account j hj
    by_cases hslot : j = h.slot
    · subst hslot
      by_cases hepoch : h.epoch = s.epoch h.slot
      · -- one handle of the device less
        have heq : (⟨h.slot, s.epoch h.slot⟩ : Handle) = h := by rw [← hepoch]
        have hpos : 0 < s.handles.count h := Multiset.count_pos.mpr hmem
        simp only [HandleRun.released, HandleRun.current, setDevice_devices_self, hepoch, ne_eq,
          not_true_eq_false, and_false, if_false, heq, Multiset.count_erase_self,
          ccatCdevRelease] at hold ⊢
        omega
      · -- the handle is of an earlier device, and its release is a late one
        have hne : (⟨h.slot, s.epoch h.slot⟩ : Handle) ≠ h := by
          intro heq
          exact hepoch (congrArg Handle.epoch heq).symm
        simp only [HandleRun.released, HandleRun.current, setDevice_devices_self, ne_eq, hepoch,
          not_false_eq_true, and_self, if_true, Multiset.count_erase_of_ne hne,
          ccatCdevRelease] at hold ⊢
        omega
    · -- the other slots do not notice
      have hne : (⟨j, s.epoch j⟩ : Handle) ≠ h := by
        intro heq
        exact hslot (congrArg Handle.slot heq)
      simp only [HandleRun.released, HandleRun.current, hslot, false_and, if_false,
        Multiset.count_erase_of_ne hne]
      rw [setDevice_devices_ne hslot]
      exact hold

/-- Every step keeps the account. -/
theorem HandleStep.inv {s s' : HandleRun} (hinv : HandleInv s) (hstep : HandleStep s s') :
    HandleInv s' := by
  cases hstep with
  | probe func iosize env r hdoc hprobe => exact hinv.probe hdoc hprobe
  | remove i w hi hremove => exact hinv.remove hi hremove
  | openDevice i kzalloc hi => exact hinv.opened kzalloc hi
  | release h hmem => exact hinv.released hmem

/-- The account holds in every state of every run. -/
theorem HandleReach.inv {count : Nat} {h : 0 < count} {s : HandleRun}
    (hreach : HandleReach count h s) : HandleInv s := by
  induction hreach with
  | init => exact HandleInv.init count h
  | step _ hstep ih => exact hstep.inv ih

/-! ## Counting the handles of the device alone -/

/-- `in_use` of every device that is there is 1 less the handles opened since its probe. -/
def HandleRun.Accounted (s : HandleRun) : Prop :=
  ∀ i ∈ s.bound, (s.world.base.devices i).inUse = 1 - s.current i

/-- In every state of every run, `in_use` counts the handles of the devices that are there
    exactly when no older handle was released since their probes. -/
theorem accounted_iff (count : Nat) (h : 0 < count) (s : HandleRun)
    (hreach : HandleReach count h s) : s.Accounted ↔ ∀ i ∈ s.bound, s.late i = 0 := by
  have hinv := hreach.inv
  constructor
  · intro hacc i hi
    have hone := hacc i hi
    have hall := hinv.account i hi
    omega
  · intro hlate i hi
    rw [hinv.account i hi, hlate i hi]
    exact Int.add_zero _

/-- A class with one slot, probed for the first time. -/
def HandleRun.probedOnce : HandleRun :=
  HandleRun.probed ⟨World.init 1 (by decide), [], fun _ => 0, 0, fun _ => 0⟩
    (published ⟨0, 0⟩ 16 240 1 0 ((World.init 1 (by decide)).withClass 240 1 1)) (some 0)

/-- This is a state of a run. -/
theorem probedOnce_reach : HandleReach 1 (by decide) HandleRun.probedOnce := by
  have hprobe : ccatCdevProbe ⟨0, 0⟩ 16 ⟨some 240, some 1, true, true⟩
      (World.init 1 (by decide)) = .ok ⟨0, some 0,
        published ⟨0, 0⟩ 16 240 1 0 ((World.init 1 (by decide)).withClass 240 1 1)⟩ := by
    rw [ccatCdevProbe_slot ⟨0, 0⟩ 16 (i := 0) (m := 240) (n := 1) rfl (by decide)]
    exact if_pos ⟨rfl, rfl⟩
  have hdoc : (ProbeEnv.mk (some 240) (some 1) true true).Documented := by
    rintro m ⟨⟩
    decide
  exact .step .init (HandleStep.probe ⟨0, 0⟩ 16 _ ⟨0, some 0, _⟩ hdoc hprobe)

/-- Probe, open, remove, probe again: the slot carries a second device, with the handle of the first
    one still open. -/
theorem reprobed_reach : ∃ s, HandleReach 1 (by decide) s ∧ s.bound = [0] ∧ s.epoch 0 = 2 ∧
    s.handles = {⟨0, 1⟩} ∧ s.late 0 = 0 := by
  have hbound : 0 ∈ HandleRun.probedOnce.bound := List.mem_cons_self
  have hopen := HandleReach.step probedOnce_reach (.openDevice 0 true hbound)
  have hhandles : (HandleRun.probedOnce.opened 0 true).handles = {⟨0, 1⟩} := by decide
  -- the device is removed with the handle open
  obtain ⟨w, hremove, hcount, -, hdevices⟩ := ccatCdevRemove_spec hopen.inv.table hbound
  have hgone := HandleReach.step hopen (.remove 0 w hbound hremove)
  have hdev : (w.base.devices 0).dev = 0 := by rw [hdevices, if_pos rfl]
  have hfree : firstFree w.base = some 0 := by
    have hone : w.base.count = 1 := hcount
    simp [firstFree, hone, hdev, List.range_succ]
  -- the next probe finds the same slot
  have hdoc : (ProbeEnv.mk (some 241) (some 2) true true).Documented := by
    rintro m ⟨⟩
    decide
  obtain ⟨m, id, -, hinit, -⟩ := ccatClassInit_ready hgone.inv.table hdoc
    fun _ => ⟨⟨241, rfl⟩, 2, rfl⟩
  have hprobe := ccatCdevProbe_slot ⟨0, 0⟩ 16 hinit hfree
  rw [if_pos ⟨rfl, rfl⟩] at hprobe
  have hagain := HandleReach.step hgone (.probe ⟨0, 0⟩ 16 _ _ hdoc hprobe)
  exact ⟨_, hagain, rfl, rfl, hhandles, rfl⟩

/-- The second device is opened, and `in_use` counts its handle alone. Then the handle of the first
    device is released, and it does not any more. -/
theorem accounted_iff_reprobed : ∃ s, HandleReach 1 (by decide) s ∧ s.handles = {⟨0, 2⟩, ⟨0, 1⟩} ∧
    s.current 0 = 1 ∧ s.Accounted ∧ (s.world.base.devices 0).inUse = 0 ∧
    ¬(s.released ⟨0, 1⟩).Accounted := by
  obtain ⟨s, hreach, hbound, hepoch, hhandles, hlate⟩ := reprobed_reach
  have hmem : 0 ∈ s.bound := by
    rw [hbound]
    exact List.mem_singleton_self 0
  -- the second device has no handle yet, so it can be opened
  have hinUse : (s.world.base.devices 0).inUse = 1 := by
    rw [hreach.inv.account 0 hmem, HandleRun.current, hhandles, hepoch, hlate]
    decide
  have hopened : (s.opened 0 true).handles = {⟨0, 2⟩, ⟨0, 1⟩} := by
    simp [HandleRun.opened, ccatCdevOpen, hinUse, hhandles, hepoch]
  have hreach₂ := HandleReach.step hreach (.openDevice 0 true hmem)
  have hcurrent : (s.opened 0 true).current 0 = 1 := by
    rw [HandleRun.current, hopened]
    show Multiset.count (⟨0, s.epoch 0⟩ : Handle) _ = 1
    rw [hepoch]
    decide
  have hacc : (s.opened 0 true).Accounted := by
    refine (accounted_iff 1 (by decide) _ hreach₂).mpr fun i hi => ?_
    obtain rfl : i = 0 := List.mem_singleton.mp (hbound ▸ hi)
    exact hlate
  refine ⟨_, hreach₂, hopened, hcurrent, hacc, ?_, fun hlater => ?_⟩
  · rw [hacc 0 hmem, hcurrent]
    decide
  · have hold : (⟨0, 1⟩ : Handle) ∈ (s.opened 0 true).handles := by
      rw [hopened]
      decide
    -- the release comes too late
    have hzero := (accounted_iff 1 (by decide) _ (.step hreach₂ (.release ⟨0, 1⟩ hold))).mp hlater 0
      hmem
    simp [HandleRun.released, HandleRun.opened, hepoch] at hzero

/-- Open, remove, probe again, release: the second device is left with `in_use` at 2. -/
theorem late_reach : ∃ s, HandleReach 1 (by decide) s ∧ 0 ∈ s.bound ∧ s.late 0 ≠ 0 := by
  obtain ⟨s, hreach, hbound, hepoch, hhandles, -⟩ := reprobed_reach
  have hhandle : (⟨0, 1⟩ : Handle) ∈ s.handles := by
    rw [hhandles]
    decide
  refine ⟨_, .step hreach (.release ⟨0, 1⟩ hhandle), ?_, ?_⟩
  · show 0 ∈ s.bound
    rw [hbound]
    exact List.mem_singleton_self 0
  · simp [HandleRun.released, hepoch]

/-- After a late release `in_use` does not count the handles of the device. -/
theorem not_accounted_late :
    ¬ ∀ (count : Nat) (h : 0 < count) (s : HandleRun), HandleReach count h s → s.Accounted := by
  intro hall
  obtain ⟨s, hreach, hbound, hlate⟩ := late_reach
  have hacc := hall 1 (by decide) s hreach 0 hbound
  have haccount := hreach.inv.account 0 hbound
  omega

end Ccat.Native
