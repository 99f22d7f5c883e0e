import Ccat.Spec.CdevTable

/-!
# Failing probes of a character device

Two ways a probe can fail once it has claimed a slot. While the device is being
published (`device_create()`, `cdev_add()`), `free_ccat_cdev()` undoes the probe
through the class pointer of the slot, which the probe itself would only have set
at its end: the undo works on a slot that carried a device before and hits a null
pointer on a fresh one. While the class is being set up, the failure is not looked
at and the probe goes on to use the class.

## Key results

- `publishFailureUndone_iff`: a failed publication is undone iff the slot was used before
- `not_setupFailureUndone`: a failed class set-up is never reported and undone
-/

namespace Ccat.Native

/-- A probe returns an error and leaves the counter, the `dev` numbers and everything
    registered as before. -/
def PublishFailureUndone (func : CcatFunction) (iosize : Nat) (env : ProbeEnv) (w : World) :
    Prop :=
  ∃ r, ccatCdevProbe func iosize env w = .ok r ∧ r.status ≠ 0 ∧
    r.world.base.instances = w.base.instances ∧
    (∀ j, (r.world.base.devices j).dev = (w.base.devices j).dev) ∧
    r.world.kernel = w.kernel

/-- `ccat_cdev_init()` reports a failure when it is called. -/
def ProbeEnv.PublishFails (env : ProbeEnv) : Prop :=
  env.deviceCreate = false ∨ env.cdevAdd = false

/-- Publishing fails, so not both of its calls succeed. -/
theorem ProbeEnv.PublishFails.not_and {env : ProbeEnv} (h : env.PublishFails) :
    ¬(env.deviceCreate = true ∧ env.cdevAdd = true) := by
  rintro ⟨hdev, hadd⟩
  cases h with
  | inl h => rw [h] at hdev; exact nomatch hdev
  | inr h => rw [h] at hadd; exact nomatch hadd

/-- In every reachable state, a probe that claims slot `i` and fails while publishing
    is undone completely exactly when slot `i` carried a device before. -/
theorem publishFailureUndone_iff {count : Nat} {h : 0 < count} {w : World}
    {bound used : List Nat} (hr : Reachable count h w bound used) (func : CcatFunction)
    (iosize : Nat) (env : ProbeEnv) (hdoc : env.Documented) (hsetup : env.SetupSucceeds bound)
    (hfail : env.PublishFails) (i : Nat) (hfree : firstFree w.base = some i) :
    PublishFailureUndone func iosize env w ↔ i ∈ used := by
  obtain ⟨m, id, -, hinit, hready⟩ := ccatClassInit_ready hr.inv hdoc hsetup
  have hprobe := ccatCdevProbe_slot func iosize hinit hfree
  rw [if_neg hfail.not_and] at hprobe
  rw [← hr.cls_eq_owner_iff i, PublishFailureUndone, hprobe]
  -- whether the undo works is decided by the class pointer of the slot
  cases hcls : (w.base.devices i).cls with
  | null =>
    constructor
    · rintro ⟨r, hr, -⟩
      exact nomatch hr
    · intro hnull
      exact nomatch hnull
  | owner =>
    -- the slot was used before: its class pointer leads to the counter
    obtain ⟨hinst, -, hdev, -, hkernel, -⟩ :=
      undone_spec func iosize i hr.inv hready (firstFree_some hfree).2
    exact ⟨fun _ => rfl, fun _ => ⟨_, rfl, (by decide : (-1 : Int) ≠ 0), hinst, hdev, hkernel⟩⟩

/-- Kernel services with every answer as wanted. -/
def ProbeEnv.allGood : ProbeEnv := ⟨some 240, some 1, true, true⟩

/-- The very first probe, with `device_create()` failing, is not undone: the slot was
    never used. -/
theorem publishFailureUndone_iff_first :
    PublishFailureUndone ⟨0, 0⟩ 16 { ProbeEnv.allGood with deviceCreate := false }
      (World.init 4 (by decide)) ↔ 0 ∈ ([] : List Nat) :=
  publishFailureUndone_iff (.init) ⟨0, 0⟩ 16 { ProbeEnv.allGood with deviceCreate := false }
    (by rintro m ⟨⟩; decide) (fun _ => ⟨⟨240, rfl⟩, 1, rfl⟩) (Or.inl rfl) 0 (by decide)

/-- On the first slot that is ever used the clean-up finds no class. -/
theorem not_publishFailureUndone_first :
    ¬ ∀ (count : Nat) (h : 0 < count) (w : World) (bound used : List Nat)
      (func : CcatFunction) (iosize : Nat) (env : ProbeEnv) (i : Nat),
      Reachable count h w bound used → env.Documented → env.SetupSucceeds bound →
      env.PublishFails → firstFree w.base = some i → PublishFailureUndone func iosize env w := by
  intro hall
  obtain ⟨r, hr, -⟩ := hall 4 (by decide) (World.init 4 (by decide)) [] [] ⟨0, 0⟩ 16
    { ProbeEnv.allGood with deviceCreate := false } 0 .init (by rintro m ⟨⟩; decide)
    (fun _ => ⟨⟨240, rfl⟩, 1, rfl⟩) (Or.inl rfl) (by decide)
  have hoops : ccatCdevProbe ⟨0, 0⟩ 16 { ProbeEnv.allGood with deviceCreate := false }
      (World.init 4 (by decide)) = .error .ccatClassNull := by rfl
  rw [hoops] at hr
  exact nomatch hr

/-! ### Failures of the class set-up -/

/-- A probe returns an error, leaves no slot allocated and the counter as before, and
    the next probe for which the kernel services succeed yields a live device. -/
def SetupFailureUndone (func : CcatFunction) (iosize : Nat) (env : ProbeEnv) (w : World) :
    Prop :=
  ∃ r, ccatCdevProbe func iosize env w = .ok r ∧ r.status ≠ 0 ∧
    (∀ j, (r.world.base.devices j).dev = 0) ∧
    r.world.base.instances = w.base.instances ∧
    ∀ (func' : CcatFunction) (iosize' : Nat) (env' : ProbeEnv), env'.Documented →
      env'.SetupSucceeds [] → ¬ env'.PublishFails →
      ∃ r' i, ccatCdevProbe func' iosize' env' r.world = .ok r' ∧ r'.status = 0 ∧
        r'.privateData = some i

/-- From no reachable state without live devices is a failed class set-up reported:
    the probe dereferences the class that was not created. -/
theorem not_setupFailureUndone {count : Nat} {h : 0 < count} {w : World} {used : List Nat}
    (hr : Reachable count h w [] used) (func : CcatFunction) (iosize : Nat) (env : ProbeEnv)
    (hfail : env.SetupFails) : ¬ SetupFailureUndone func iosize env w := by
  obtain ⟨e, he⟩ := ccatCdevProbe_setupFails func iosize hr.inv hfail
  rintro ⟨r, hok, -⟩
  rw [he] at hok
  exact nomatch hok

/-- The first probe of a class with four slots, `class_create()` answering `ERR_PTR`. -/
theorem not_setupFailureUndone_first :
    ¬ SetupFailureUndone ⟨0, 0⟩ 16 { ProbeEnv.allGood with classCreate := none }
      (World.init 4 (by decide)) :=
  not_setupFailureUndone .init ⟨0, 0⟩ 16 { ProbeEnv.allGood with classCreate := none }
    (Or.inr rfl)

/-- A class that cannot be set up leaves its traces already at the first probe. -/
theorem not_forall_setupFailureUndone :
    ¬ ∀ (count : Nat) (h : 0 < count) (w : World) (used : List Nat) (func : CcatFunction)
      (iosize : Nat) (env : ProbeEnv), Reachable count h w [] used → env.SetupFails →
      SetupFailureUndone func iosize env w := by
  intro hall
  obtain ⟨r, hr, -⟩ := hall 4 (by decide) (World.init 4 (by decide)) [] ⟨0, 0⟩ 16
    { ProbeEnv.allGood with region := none } .init (Or.inl rfl)
  have hoops : ccatCdevProbe ⟨0, 0⟩ 16 { ProbeEnv.allGood with region := none }
      (World.init 4 (by decide)) = .error (.classDeref .null) := by rfl
  rw [hoops] at hr
  exact nomatch hr

end Ccat.Native
