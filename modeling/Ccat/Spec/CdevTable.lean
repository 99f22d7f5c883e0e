import Ccat.Native.Module

/-!
# The device table of a class

A run is any sequence of probes and removes that starts from the zero-initialised
table; `Reachable` pairs each state with the slots whose probe succeeded and that
were not removed since (`bound`), and with all slots any probe succeeded on
(`used`). `TableInv` is the invariant of all of them: the reference count, the
`dev` markers and the registrations of the class all describe the same set of
bound slots.

## Key results

- `ccatClassInit_ready`: the class after a set-up that succeeds or was not needed
- `ccatCdevProbe_cases`: everything a probe that returns can do
- `Reachable.inv`: `TableInv` holds in every reachable state
- `Reachable.cls_eq_owner_iff`: which class pointers are set
-/

namespace Ccat.Native

/-! ### Device numbers -/

@[simp] theorem major_mkdev_zero (m : Nat) : major (mkdev m 0) = m := by
  simp only [major, mkdev, Nat.or_zero, Nat.shiftRight_eq_div_pow, Nat.shiftLeft_eq]
  exact Nat.mul_div_cancel m (Nat.two_pow_pos _)

/-- A device number with a major is not 0. -/
theorem mkdev_pos {m : Nat} (hm : 0 < m) (i : Nat) : 0 < mkdev m i := by
  have hle : m <<< MINORBITS ≤ mkdev m i := Nat.left_le_or
  have hpos : 0 < m <<< MINORBITS := by
    rw [Nat.shiftLeft_eq]
    exact Nat.mul_pos hm (Nat.two_pow_pos _)
  omega

/-! ### Runs and their invariant -/

/-- What `alloc_chrdev_region()` documents: a dynamic major is never 0. -/
def ProbeEnv.Documented (env : ProbeEnv) : Prop := ∀ m, env.region = some m → 0 < m

/-- States reached by probes and removes, with the slots currently bound and the
    slots ever bound. -/
inductive Reachable (count : Nat) (h : 0 < count) : World → List Nat → List Nat → Prop where
  | init : Reachable count h (World.init count h) [] []
  | probe {w bound used} (func : CcatFunction) (iosize : Nat) (env : ProbeEnv)
      (r : ProbeResult) :
      Reachable count h w bound used → env.Documented →
      ccatCdevProbe func iosize env w = .ok r →
      Reachable count h r.world (r.privateData.toList ++ bound) (r.privateData.toList ++ used)
  | remove {w bound used} (i : Nat) (w' : World) :
      Reachable count h w bound used → i ∈ bound → ccatCdevRemove i w = .ok w' →
      Reachable count h w' (bound.erase i) used

/-- The class is registered under major `m` with the class object `id`. -/
structure ClassReady (w : World) (m id : Nat) : Prop where
  major_pos : 0 < m
  dev : w.base.dev = mkdev m 0
  cls : w.base.cls = .cls id
  regions : w.kernel.regions = [m]
  classes : w.kernel.classes = [id]

/-- The counter, the `dev` markers and the registrations agree on the bound slots. -/
structure TableInv (w : World) (bound : List Nat) : Prop where
  nodup : bound.Nodup
  lt_count : ∀ i ∈ bound, i < w.base.count
  dev_ne_zero : ∀ i, (w.base.devices i).dev ≠ 0 ↔ i ∈ bound
  owner : ∀ i ∈ bound, (w.base.devices i).cls = .owner
  instances : w.base.instances = bound.length
  idle : bound = [] → w.kernel.regions = [] ∧ w.kernel.classes = []
  ready : bound ≠ [] → ∃ m id, ClassReady w m id

theorem TableInv.init (count : Nat) (h : 0 < count) : TableInv (World.init count h) [] := by
  constructor <;> simp [World.init]

/-- No slot in use means the whole table is free. -/
theorem TableInv.dev_eq_zero {w : World} (hinv : TableInv w []) (i : Nat) :
    (w.base.devices i).dev = 0 := by
  by_cases hdev : (w.base.devices i).dev = 0
  · exact hdev
  · exact nomatch (hinv.dev_ne_zero i).mp hdev

/-! ### The first free slot -/

/-- The slot that is found is free. -/
theorem firstFree_some {base : CcatClass} {i : Nat} (h : firstFree base = some i) :
    i < base.count ∧ (base.devices i).dev = 0 := by
  have hmem := List.mem_of_find?_eq_some h
  have hdev := List.find?_some h
  exact ⟨List.mem_range.mp hmem, by simpa using hdev⟩

/-- When none is found all slots are in use. -/
theorem firstFree_none {base : CcatClass} (h : firstFree base = none) :
    ∀ i, i < base.count → (base.devices i).dev ≠ 0 := by
  intro i hi
  -- the scan ended behind the last slot
  have hnot := List.find?_eq_none.mp h i (List.mem_range.mpr hi)
  simpa using hnot

/-- A full table has at least one bound slot. -/
theorem TableInv.bound_ne_nil {w : World} {bound : List Nat} (hinv : TableInv w bound)
    (hfull : firstFree w.base = none) : bound ≠ [] := by
  intro hnil
  subst hnil
  exact firstFree_none hfull 0 w.base.count_pos (hinv.dev_eq_zero 0)

/-! ### The class during a probe -/

/-- `w` with the class registered under major `m` and the counter at `n`. -/
def World.withClass (w : World) (m id : Nat) (n : Int) : World :=
  { w with
    base.dev := mkdev m 0, base.cls := .cls id, base.instances := n
    kernel.regions := [m], kernel.classes := [id] }

/-- The class set-up of a probe succeeds, if it is attempted at all. -/
def ProbeEnv.SetupSucceeds (env : ProbeEnv) (bound : List Nat) : Prop :=
  bound = [] → (∃ m, env.region = some m) ∧ ∃ id, env.classCreate = some id

/-- The class set-up of a probe on an idle class fails. -/
def ProbeEnv.SetupFails (env : ProbeEnv) : Prop :=
  env.region = none ∨ env.classCreate = none

/-- A class that is set up stays as it is. -/
private theorem withClass_of_ready {w : World} {m id : Nat} (hready : ClassReady w m id)
    (n : Int) : { w with base.instances := n } = w.withClass m id n := by
  obtain ⟨_, hdev, hcls, hregions, hclasses⟩ := hready
  simp only [World.withClass, ← hdev, ← hcls, ← hregions, ← hclasses]

/-- After a set-up that succeeds, or that an earlier probe did, the class is
    registered and counts one more instance. -/
theorem ccatClassInit_ready {w : World} {bound : List Nat} {env : ProbeEnv}
    (hinv : TableInv w bound) (hdoc : env.Documented) (hok : env.SetupSucceeds bound) :
    ∃ m id, 0 < m ∧ (ccatClassInit env w).2 = w.withClass m id (bound.length + 1) ∧
      (bound ≠ [] → ClassReady w m id) := by
  cases hb : bound with
  | nil =>
    subst hb
    -- the first instance: the class is set up now
    obtain ⟨⟨m, hm⟩, id, hid⟩ := hok rfl
    obtain ⟨hregions, hclasses⟩ := hinv.idle rfl
    refine ⟨m, id, hdoc m hm, ?_, fun hne => absurd rfl hne⟩
    simp [ccatClassInit, hinv.instances, hm, hid, classCreate, registerRegion,
      World.withClass, hregions, hclasses]
  | cons i rest =>
    -- a further instance: the class is the one that is there
    obtain ⟨m, id, hready⟩ := hinv.ready (by rw [hb]; exact List.cons_ne_nil i rest)
    refine ⟨m, id, hready.major_pos, ?_, fun _ => hready⟩
    rw [← hb, ← withClass_of_ready hready]
    have hlen : (bound.length : Int) + 1 ≠ 1 := by
      rw [hb, List.length_cons]; omega
    simp only [ccatClassInit, hinv.instances, if_neg hlen]

/-- A failed set-up leaves a class pointer with no class behind it. -/
theorem ccatClassInit_failed {w : World} {env : ProbeEnv} (hinv : TableInv w [])
    (hfail : env.SetupFails) :
    ∃ e, className (ccatClassInit env w).2.base.cls (ccatClassInit env w).2 = .error e := by
  obtain ⟨hregions, hclasses⟩ := hinv.idle rfl
  cases hm : env.region with
  | none =>
    -- `base->class` keeps its old value, and no class is registered
    cases hcls : w.base.cls <;>
      simp [ccatClassInit, hinv.instances, hm, hcls, className, hclasses]
  | some m =>
    have hid : env.classCreate = none := by
      cases hfail with
      | inl h => rw [hm] at h; exact nomatch h
      | inr h => exact h
    simp [ccatClassInit, hinv.instances, hm, hid, classCreate, registerRegion, className]

/-! ### Slot assignments -/

@[simp] theorem setDevice_cls (i : Nat) (f : CcatCdev → CcatCdev) (w : World) :
    (setDevice i f w).base.cls = w.base.cls := rfl

@[simp] theorem setDevice_instances (i : Nat) (f : CcatCdev → CcatCdev) (w : World) :
    (setDevice i f w).base.instances = w.base.instances := rfl

@[simp] theorem setDevice_count (i : Nat) (f : CcatCdev → CcatCdev) (w : World) :
    (setDevice i f w).base.count = w.base.count := rfl

@[simp] theorem setDevice_devices_self (i : Nat) (f : CcatCdev → CcatCdev) (w : World) :
    (setDevice i f w).base.devices i = f (w.base.devices i) := if_pos rfl

theorem setDevice_devices_ne {i j : Nat} (h : j ≠ i) (f : CcatCdev → CcatCdev) (w : World) :
    (setDevice i f w).base.devices j = w.base.devices j := if_neg h

/-- Two assignments to one slot are one. -/
@[simp] theorem setDevice_setDevice (i : Nat) (f g : CcatCdev → CcatCdev) (w : World) :
    setDevice i f (setDevice i g w) = setDevice i (fun d => f (g d)) w := by
  simp only [setDevice]
  congr 2
  funext j
  split <;> rfl

/-! ### What a probe does -/

/-- The state in which `ccat_cdev_init()` is called: slot `i` is claimed and filled
    in, except for its class pointer. -/
def claimed (func : CcatFunction) (iosize m i : Nat) (w : World) : World :=
  setDevice i (fun d => ⟨1, func.bar0 + func.addr, iosize, mkdev m i, d.cls⟩) w

/-- The state after a successful probe of slot `i`. -/
def published (func : CcatFunction) (iosize m id i : Nat) (w : World) : World :=
  setDevice i (fun d => { d with cls := .owner })
    (cdevAdd (mkdev m i) (deviceCreate (.cls id) (mkdev m i) (claimed func iosize m i w)))

/-- The state after `free_ccat_cdev()` undid a probe of slot `i`. -/
def undone (func : CcatFunction) (iosize m i : Nat) (w : World) : World :=
  setDevice i (fun d => { d with dev := 0 }) (ccatClassExit (claimed func iosize m i w))

section Ready

variable {w : World} {m id i : Nat} {n : Int} {env : ProbeEnv}

/-- The name of a class that is set up can be read. -/
private theorem className_ready {w' : World} (hcls : w'.kernel.classes = [id]) :
    className (.cls id) w' = .ok () := by
  simp only [className, hcls, List.mem_singleton, if_true]

/-- `alloc_ccat_cdev()` of a full table takes the counter down again. -/
private theorem allocCcatCdev_none (hinit : (ccatClassInit env w).2 = w.withClass m id n)
    (hfree : firstFree w.base = none) :
    allocCcatCdev env w = .ok (none, w.withClass m id (n - 1)) := by
  have hfree' : firstFree (w.withClass m id n).base = none := hfree
  have hname : className (w.withClass m id n).base.cls (w.withClass m id n) = .ok () :=
    className_ready rfl
  simp only [allocCcatCdev, hinit, hfree', hname, bind, Except.bind, pure, Except.pure]
  rfl

/-- `alloc_ccat_cdev()` numbers the free slot it finds. -/
private theorem allocCcatCdev_some (hinit : (ccatClassInit env w).2 = w.withClass m id n)
    (hfree : firstFree w.base = some i) :
    allocCcatCdev env w =
      .ok (some i, setDevice i (fun d => { d with dev := mkdev m i }) (w.withClass m id n)) := by
  have hfree' : firstFree (w.withClass m id n).base = some i := hfree
  have hmajor : major (w.withClass m id n).base.dev = m := major_mkdev_zero m
  simp only [allocCcatCdev, hinit, hfree', hmajor]

/-- `ccat_cdev_init()` on a registered class: either everything succeeds, or the
    device node is gone again. -/
private theorem ccatCdevInit_ready (dev : Nat) {w' : World} (hcls : w'.kernel.classes = [id]) :
    ccatCdevInit env dev (.cls id) w' =
      if env.deviceCreate = true ∧ env.cdevAdd = true then
        .ok (0, cdevAdd dev (deviceCreate (.cls id) dev w'))
      else .ok (-1, w') := by
  have hundo : deviceDestroy (.cls id) dev (deviceCreate (.cls id) dev w') = w' := by
    simp only [deviceDestroy, deviceCreate, List.erase_cons_head]
  cases hd : env.deviceCreate <;> cases ha : env.cdevAdd <;>
    simp [ccatCdevInit, className_ready hcls, hd, ha, hundo, bind, Except.bind, pure, Except.pure]

variable (func : CcatFunction) (iosize : Nat)

/-- A probe that finds no free slot only counts up and down again. -/
theorem ccatCdevProbe_full (hinit : (ccatClassInit env w).2 = w.withClass m id n)
    (hfree : firstFree w.base = none) :
    ccatCdevProbe func iosize env w = .ok ⟨-ENOMEM, none, w.withClass m id (n - 1)⟩ := by
  simp only [ccatCdevProbe, allocCcatCdev_none hinit hfree, bind, Except.bind, pure, Except.pure]

/-- A probe that finds slot `i`: publishing succeeds, or `free_ccat_cdev()` runs on a
    slot whose class pointer is still the one from before. -/
theorem ccatCdevProbe_slot (hinit : (ccatClassInit env w).2 = w.withClass m id n)
    (hfree : firstFree w.base = some i) :
    ccatCdevProbe func iosize env w =
      if env.deviceCreate = true ∧ env.cdevAdd = true then
        .ok ⟨0, some i, published func iosize m id i (w.withClass m id n)⟩
      else match (w.base.devices i).cls with
        | .null => .error .ccatClassNull
        | .owner => .ok ⟨-1, none, undone func iosize m i (w.withClass m id n)⟩ := by
  have hcls : (claimed func iosize m i (w.withClass m id n)).kernel.classes = [id] := rfl
  have hptr : (claimed func iosize m i (w.withClass m id n)).base.cls = .cls id := rfl
  have hdev : ((claimed func iosize m i (w.withClass m id n)).base.devices i).dev = mkdev m i := by
    simp only [claimed, setDevice_devices_self]
  have hslot : ((claimed func iosize m i (w.withClass m id n)).base.devices i).cls =
      (w.base.devices i).cls := by
    simp only [claimed, setDevice_devices_self]; rfl
  simp only [ccatCdevProbe, allocCcatCdev_some hinit hfree, bind, Except.bind, pure, Except.pure,
    setDevice_setDevice]
  -- the world handed to `ccat_cdev_init` is `claimed`
  rw [show setDevice i (fun d => (⟨1, func.bar0 + func.addr, iosize, mkdev m i, d.cls⟩ : CcatCdev))
    (w.withClass m id n) = claimed func iosize m i (w.withClass m id n) from rfl]
  rw [hdev, hptr, ccatCdevInit_ready (mkdev m i) hcls]
  -- without both calls the clean-up looks at the old class pointer
  by_cases hok : env.deviceCreate = true ∧ env.cdevAdd = true
  · simp [hok, published]
  · rw [if_neg hok, if_neg hok]
    cases hc : (w.base.devices i).cls <;>
      simp [freeCcatCdev, hslot, hc, undone]

/-- A probe on an idle class whose set-up fails runs into the missing class. -/
theorem ccatCdevProbe_setupFails (hinv : TableInv w []) (hfail : env.SetupFails) :
    ∃ e, ccatCdevProbe func iosize env w = .error e := by
  obtain ⟨e, he⟩ := ccatClassInit_failed hinv hfail
  refine ⟨e, ?_⟩
  cases hfree : firstFree (ccatClassInit env w).2.base with
  | none => simp only [ccatCdevProbe, allocCcatCdev, hfree, he, bind, Except.bind]
  | some i =>
    have hinit : ∀ dev f, ccatCdevInit env dev (ccatClassInit env w).2.base.cls
        (setDevice i f (ccatClassInit env w).2) = .error e := by
      intro dev f
      have hname : className (ccatClassInit env w).2.base.cls
          (setDevice i f (ccatClassInit env w).2) = .error e := he
      simp only [ccatCdevInit, hname, bind, Except.bind]
    simp only [ccatCdevProbe, allocCcatCdev, hfree, bind, Except.bind, setDevice_setDevice,
      setDevice_cls, hinit]

end Ready

/-- A probe that is undone leaves the counter, the `dev` markers and the class
    pointers of the slots and everything registered as they were. -/
theorem undone_spec (func : CcatFunction) (iosize i : Nat) {w : World} {bound : List Nat}
    {m id : Nat} (hinv : TableInv w bound) (hready : bound ≠ [] → ClassReady w m id)
    (hfree : (w.base.devices i).dev = 0) :
    let w' := undone func iosize m i (w.withClass m id (bound.length + 1))
    w'.base.instances = w.base.instances ∧ w'.base.count = w.base.count ∧
    (∀ j, (w'.base.devices j).dev = (w.base.devices j).dev) ∧
    (∀ j, (w'.base.devices j).cls = (w.base.devices j).cls) ∧
    w'.kernel = w.kernel ∧
    (bound ≠ [] → w'.base.dev = w.base.dev ∧ w'.base.cls = w.base.cls) := by
  -- whatever happened to the class, clearing `dev` again restores the slot
  have hslots : ∀ v : World, v.base.devices = (claimed func iosize m i w).base.devices →
      (∀ j, ((setDevice i (fun d => { d with dev := 0 }) v).base.devices j).dev =
        (w.base.devices j).dev) ∧
      ∀ j, ((setDevice i (fun d => { d with dev := 0 }) v).base.devices j).cls =
        (w.base.devices j).cls := by
    intro v hv
    constructor <;> intro j <;> by_cases hj : j = i
    · subst hj; rw [setDevice_devices_self, hfree]
    · rw [setDevice_devices_ne hj, hv, claimed, setDevice_devices_ne hj]
    · subst hj; rw [setDevice_devices_self, hv, claimed, setDevice_devices_self]
    · rw [setDevice_devices_ne hj, hv, claimed, setDevice_devices_ne hj]
  cases hb : bound with
  | nil =>
    subst hb
    obtain ⟨hregions, hclasses⟩ := hinv.idle rfl
    obtain ⟨hdev, hcls⟩ := hslots (ccatClassExit (claimed func iosize m i
      (w.withClass m id (([] : List Nat).length + 1)))) rfl
    refine ⟨?_, rfl, hdev, hcls, ?_, fun hne => absurd rfl hne⟩
    · rw [hinv.instances]; rfl
    · -- the last instance takes the class and the region down again
      apply Kernel.ext <;>
        simp [undone, ccatClassExit, claimed, World.withClass, setDevice, classDestroy,
          unregisterChrdevRegion, hregions, hclasses]
  | cons k rest =>
    have hne : bound ≠ [] := by rw [hb]; exact List.cons_ne_nil k rest
    have hr := hready hne
    rw [← hb]
    have hlen : (bound.length : Int) + 1 - 1 ≠ 0 := by
      rw [hb, List.length_cons]; omega
    -- there are other instances, so the class stays
    have hexit : ccatClassExit (claimed func iosize m i (w.withClass m id (bound.length + 1))) =
        claimed func iosize m i (w.withClass m id bound.length) := by
      have hinst : (claimed func iosize m i (w.withClass m id (bound.length + 1))).base.instances =
          (bound.length : Int) + 1 := rfl
      simp only [ccatClassExit, hinst, if_neg hlen]
      simp [claimed, World.withClass, setDevice]
    have hw : w.withClass m id bound.length = w := by
      rw [← withClass_of_ready hr, ← hinv.instances]
    rw [undone, hexit, hw]
    obtain ⟨hdev, hcls⟩ := hslots (claimed func iosize m i w) rfl
    exact ⟨rfl, rfl, hdev, hcls, rfl, fun _ => ⟨rfl, rfl⟩⟩

/-- `ccat_class_exit()` does not touch the slots. -/
theorem ccatClassExit_devices (w : World) : (ccatClassExit w).base.devices = w.base.devices := by
  simp only [ccatClassExit]
  split
  · cases hcls : w.base.cls <;> simp [unregisterChrdevRegion, classDestroy]
  · rfl

theorem undone_devices_ne (func : CcatFunction) (iosize m i : Nat) (w : World) {j : Nat}
    (hj : j ≠ i) : (undone func iosize m i w).base.devices j = w.base.devices j := by
  rw [undone, setDevice_devices_ne hj, ccatClassExit_devices, claimed, setDevice_devices_ne hj]

/-- Everything a probe that returns can do to a table in good order. -/
theorem ccatCdevProbe_cases {func : CcatFunction} {iosize : Nat} {env : ProbeEnv} {w : World}
    {bound : List Nat} {r : ProbeResult} (hinv : TableInv w bound) (hdoc : env.Documented)
    (h : ccatCdevProbe func iosize env w = .ok r) :
    (r = ⟨-ENOMEM, none, w⟩ ∧ firstFree w.base = none) ∨
    ∃ m id i, 0 < m ∧ (bound ≠ [] → ClassReady w m id) ∧ firstFree w.base = some i ∧
      (r = ⟨0, some i, published func iosize m id i (w.withClass m id (bound.length + 1))⟩ ∨
       r = ⟨-1, none, undone func iosize m i (w.withClass m id (bound.length + 1))⟩) := by
  by_cases hok : env.SetupSucceeds bound
  · obtain ⟨m, id, hm, hinit, hready⟩ := ccatClassInit_ready hinv hdoc hok
    cases hfree : firstFree w.base with
    | none =>
      -- a full table: the counter goes up and down again
      have hr := hready (hinv.bound_ne_nil hfree)
      rw [ccatCdevProbe_full func iosize hinit hfree] at h
      left
      refine ⟨?_, rfl⟩
      have hw : w.withClass m id ((bound.length : Int) + 1 - 1) = w := by
        rw [Int.add_sub_cancel, ← withClass_of_ready hr, ← hinv.instances]
      rw [hw] at h
      exact (Except.ok.inj h).symm
    | some i =>
      right
      refine ⟨m, id, i, hm, hready, rfl, ?_⟩
      -- published, undone, or ended in the release of a class that is not there
      rw [ccatCdevProbe_slot func iosize hinit hfree] at h
      split at h
      · exact Or.inl (Except.ok.inj h).symm
      · split at h
        · exact nomatch h
        · exact Or.inr (Except.ok.inj h).symm
  · -- the set-up was attempted and failed: the probe does not return
    have hb : bound = [] := by
      cases bound with
      | nil => rfl
      | cons k rest => exact absurd (fun hnil => nomatch hnil) hok
    subst hb
    have hfail : env.SetupFails := by
      cases hm : env.region with
      | none => exact Or.inl hm
      | some m =>
        cases hid : env.classCreate with
        | none => exact Or.inr hid
        | some id => exact absurd (fun _ => ⟨⟨m, hm⟩, id, hid⟩) hok
    obtain ⟨e, he⟩ := ccatCdevProbe_setupFails func iosize hinv hfail
    rw [he] at h
    exact nomatch h

/-! ### The invariant over whole runs -/

/-- A successful probe fills in its slot and touches no other. -/
theorem published_devices (func : CcatFunction) (iosize m id i : Nat) (w : World) (j : Nat) :
    (published func iosize m id i w).base.devices j =
      if j = i then ⟨1, func.bar0 + func.addr, iosize, mkdev m i, .owner⟩
      else w.base.devices j := by
  by_cases hj : j = i
  · subst hj; simp [published, claimed, setDevice, cdevAdd, deviceCreate]
  · rw [if_neg hj, published, setDevice_devices_ne hj]
    exact setDevice_devices_ne hj
      (fun d => ⟨1, func.bar0 + func.addr, iosize, mkdev m i, d.cls⟩) w

/-- Publishing a slot that was free binds it. -/
private theorem tableInv_published {w : World} {bound : List Nat} {m id i : Nat}
    (func : CcatFunction) (iosize : Nat) (hinv : TableInv w bound) (hm : 0 < m)
    (hfree : firstFree w.base = some i) :
    TableInv (published func iosize m id i (w.withClass m id (bound.length + 1))) (i :: bound) := by
  obtain ⟨hlt, hzero⟩ := firstFree_some hfree
  -- a free slot is not bound, so the slots stay distinct
  have hi : i ∉ bound := fun hmem => (hinv.dev_ne_zero i).mpr hmem hzero
  have hdev := published_devices func iosize m id i (w.withClass m id (bound.length + 1))
  have hself : (published func iosize m id i (w.withClass m id (bound.length + 1))).base.devices i =
      ⟨1, func.bar0 + func.addr, iosize, mkdev m i, .owner⟩ := by
    rw [hdev, if_pos rfl]
  -- the other slots are as they were
  have hne : ∀ j, j ≠ i →
      (published func iosize m id i (w.withClass m id (bound.length + 1))).base.devices j =
        w.base.devices j := by
    intro j hj
    rw [hdev, if_neg hj]; rfl
  refine ⟨List.nodup_cons.mpr ⟨hi, hinv.nodup⟩, ?_, ?_, ?_, ?_, (fun h => nomatch h),
    fun _ => ⟨m, id, hm, rfl, rfl, rfl, rfl⟩⟩
  · intro j hj
    rcases List.mem_cons.mp hj with rfl | hj
    · exact hlt
    · exact hinv.lt_count j hj
  · intro j
    by_cases hj : j = i
    · subst hj
      rw [hself]
      -- the `dev` marker is not zero because the major is not
      exact ⟨fun _ => List.mem_cons_self, fun _ => Nat.ne_of_gt (mkdev_pos hm j)⟩
    · rw [hne j hj, hinv.dev_ne_zero j, List.mem_cons]
      exact ⟨Or.inr, fun h => h.resolve_left hj⟩
  · intro j hj
    by_cases hji : j = i
    · subst hji; rw [hself]
    · rw [hne j hji]
      exact hinv.owner j ((List.mem_cons.mp hj).resolve_left hji)
  · rw [List.length_cons, Int.natCast_add]; rfl

/-- A probe that is undone binds nothing. -/
private theorem tableInv_undone {w : World} {bound : List Nat} {m id i : Nat}
    (func : CcatFunction) (iosize : Nat) (hinv : TableInv w bound)
    (hready : bound ≠ [] → ClassReady w m id) (hfree : firstFree w.base = some i) :
    TableInv (undone func iosize m i (w.withClass m id (bound.length + 1))) bound := by
  obtain ⟨hinst, hcount, hdev, hcls, hkernel, hbase⟩ :=
    undone_spec func iosize i hinv hready (firstFree_some hfree).2
  -- each part of the order is about something that was put back
  refine ⟨hinv.nodup, ?_, ?_, ?_, ?_, ?_, fun hne => ⟨m, id, ?_⟩⟩
  · intro j hj; rw [hcount]; exact hinv.lt_count j hj
  · intro j; rw [hdev j]; exact hinv.dev_ne_zero j
  · intro j hj; rw [hcls j]; exact hinv.owner j hj
  · rw [hinst]; exact hinv.instances
  · rw [hkernel]; exact hinv.idle
  · obtain ⟨hm, hd, hc, hr, hcl⟩ := hready hne
    obtain ⟨hdev', hcls'⟩ := hbase hne
    rw [← hkernel] at hr hcl
    exact ⟨hm, hdev'.trans hd, hcls'.trans hc, hr, hcl⟩

/-- A probe that returns keeps the table in good order. -/
theorem TableInv.probe {func : CcatFunction} {iosize : Nat} {env : ProbeEnv} {w : World}
    {bound : List Nat} {r : ProbeResult} (hinv : TableInv w bound) (hdoc : env.Documented)
    (h : ccatCdevProbe func iosize env w = .ok r) :
    TableInv r.world (r.privateData.toList ++ bound) := by
  rcases ccatCdevProbe_cases hinv hdoc h with
    ⟨rfl, -⟩ | ⟨m, id, i, hm, hready, hfree, rfl | rfl⟩
  · exact hinv
  · exact tableInv_published func iosize hinv hm hfree
  · exact tableInv_undone func iosize hinv hready hfree

/-- The state in which `ccat_cdev_remove()` hands slot `i` to `free_ccat_cdev()`. -/
private def retracted (i : Nat) (w : World) : World :=
  deviceDestroy w.base.cls (w.base.devices i).dev (cdevDel (w.base.devices i).dev w)

/-- `ccat_cdev_remove()` of a slot whose class pointer is set. -/
private theorem ccatCdevRemove_owner {w : World} {i : Nat}
    (howner : (w.base.devices i).cls = .owner) :
    ccatCdevRemove i w =
      .ok (setDevice i (fun d => { d with dev := 0 }) (ccatClassExit (retracted i w))) := by
  have hcls : ((cdevDel (w.base.devices i).dev w).base.devices i).cls = .owner := howner
  have hcls' : ((retracted i w).base.devices i).cls = .owner := howner
  simp only [ccatCdevRemove, hcls]
  change freeCcatCdev i (retracted i w) = _
  simp only [freeCcatCdev, hcls']

/-- `ccat_class_exit()` takes the registrations down with the last instance and
    leaves them alone otherwise. -/
private theorem ccatClassExit_spec {w : World} {m id : Nat} (hready : ClassReady w m id) :
    (ccatClassExit w).base.devices = w.base.devices ∧
    (ccatClassExit w).base.count = w.base.count ∧
    (ccatClassExit w).base.instances = w.base.instances - 1 ∧
    (w.base.instances = 1 →
      (ccatClassExit w).kernel.regions = [] ∧ (ccatClassExit w).kernel.classes = []) ∧
    (w.base.instances ≠ 1 → ClassReady (ccatClassExit w) m id) := by
  obtain ⟨hm, hdev, hcls, hregions, hclasses⟩ := hready
  by_cases hlast : w.base.instances = 1
  · -- the last instance
    have hzero : w.base.instances - 1 = 0 := by omega
    simp [ccatClassExit, hlast, classDestroy, hcls, unregisterChrdevRegion, hdev, hregions,
      hclasses]
  · have hzero : w.base.instances - 1 ≠ 0 := by omega
    simp only [ccatClassExit, if_neg hzero]
    exact ⟨trivial, trivial, trivial, fun h => absurd h hlast,
      fun _ => ⟨hm, hdev, hcls, hregions, hclasses⟩⟩

/-- Removing a bound slot keeps the table in good order. -/
theorem TableInv.remove {w w' : World} {bound : List Nat} {i : Nat} (hinv : TableInv w bound)
    (hi : i ∈ bound) (h : ccatCdevRemove i w = .ok w') : TableInv w' (bound.erase i) := by
  obtain ⟨m, id, hm, hdev, hcls, hregions, hclasses⟩ := hinv.ready (List.ne_nil_of_mem hi)
  -- taking down the node and the cdev does not touch the class
  have hready : ClassReady (retracted i w) m id := ⟨hm, hdev, hcls, hregions, hclasses⟩
  obtain ⟨hdevices, hcount, hinst, hlast, hmore⟩ := ccatClassExit_spec hready
  have hinst₀ : (retracted i w).base.instances = bound.length := hinv.instances
  have hpos : 0 < bound.length := List.length_pos_of_mem hi
  have hlen : (bound.erase i).length = bound.length - 1 := List.length_erase_of_mem hi
  rw [ccatCdevRemove_owner (hinv.owner i hi), Except.ok.injEq] at h
  subst h
  -- of the slots only `dev` of slot `i` changes
  have hne : ∀ j, j ≠ i → (setDevice i (fun d => { d with dev := 0 })
      (ccatClassExit (retracted i w))).base.devices j = w.base.devices j := by
    intro j hj
    rw [setDevice_devices_ne hj, hdevices]
    rfl
  refine ⟨hinv.nodup.erase i, ?_, ?_, ?_, ?_, ?_, ?_⟩
  · intro j hj
    rw [setDevice_count, hcount]
    exact hinv.lt_count j (List.mem_of_mem_erase hj)
  · intro j
    rw [hinv.nodup.mem_erase_iff]
    by_cases hj : j = i
    · subst hj
      rw [setDevice_devices_self]
      exact ⟨fun hdev => absurd rfl hdev, fun hmem => absurd rfl hmem.1⟩
    · rw [hne j hj, hinv.dev_ne_zero j]
      exact ⟨fun hmem => ⟨hj, hmem⟩, fun hmem => hmem.2⟩
  · intro j hj
    obtain ⟨hji, hmem⟩ := hinv.nodup.mem_erase_iff.mp hj
    rw [hne j hji]
    exact hinv.owner j hmem
  · rw [setDevice_instances, hinst, hinst₀, hlen]; omega
  · intro hnil
    -- nothing is bound any more, so this was the last instance
    have hone : (retracted i w).base.instances = 1 := by
      have hzero : (bound.erase i).length = 0 := by rw [hnil]; rfl
      rw [hinst₀]; omega
    exact hlast hone
  · -- another slot is bound, so the class stays
    intro hcons
    have hone : (retracted i w).base.instances ≠ 1 := by
      have hpos' : 0 < (bound.erase i).length := List.length_pos_iff.mpr hcons
      rw [hinst₀]; omega
    obtain ⟨h₁, h₂, h₃, h₄, h₅⟩ := hmore hone
    exact ⟨m, id, h₁, h₂, h₃, h₄, h₅⟩

/-- `ccat_class_exit()` does not touch the first device number. -/
private theorem ccatClassExit_dev (w : World) : (ccatClassExit w).base.dev = w.base.dev := by
  simp only [ccatClassExit]
  split
  · cases hcls : w.base.cls <;> simp [unregisterChrdevRegion, classDestroy]
  · rfl

/-- Removing a bound slot returns, and of the table it changes the `dev` marker of the slot. -/
theorem ccatCdevRemove_spec {w : World} {bound : List Nat} {i : Nat} (hinv : TableInv w bound)
    (hi : i ∈ bound) : ∃ w', ccatCdevRemove i w = .ok w' ∧ w'.base.count = w.base.count ∧
      w'.base.dev = w.base.dev ∧
      ∀ j, w'.base.devices j =
        if j = i then { w.base.devices j with dev := 0 } else w.base.devices j := by
  obtain ⟨m, id, hm, hdev, hcls, hregions, hclasses⟩ := hinv.ready (List.ne_nil_of_mem hi)
  have hready : ClassReady (retracted i w) m id := ⟨hm, hdev, hcls, hregions, hclasses⟩
  obtain ⟨hdevices, hcount, -⟩ := ccatClassExit_spec hready
  refine ⟨_, ccatCdevRemove_owner (hinv.owner i hi), hcount, ccatClassExit_dev (retracted i w), ?_⟩
  intro j
  by_cases hj : j = i
  · subst hj
    rw [if_pos rfl, setDevice_devices_self, hdevices]
    rfl
  · rw [if_neg hj, setDevice_devices_ne hj, hdevices]
    rfl

/-- The table is in good order in every reachable state. -/
theorem Reachable.inv {count : Nat} {h : 0 < count} {w : World} {bound used : List Nat}
    (hr : Reachable count h w bound used) : TableInv w bound := by
  induction hr with
  | init => exact TableInv.init count h
  | probe func iosize env r _ hdoc hprobe ih => exact ih.probe hdoc hprobe
  | remove i w' _ hi hrem ih => exact ih.remove hi hrem

/-- The class pointer of a slot is set by the first successful probe of the slot and
    never cleared. -/
theorem Reachable.cls_eq_owner_iff {count : Nat} {h : 0 < count} {w : World}
    {bound used : List Nat} (hr : Reachable count h w bound used) (j : Nat) :
    (w.base.devices j).cls = .owner ↔ j ∈ used := by
  induction hr with
  | init => simp [World.init]
  -- only a probe that succeeds sets a class pointer
  | @probe w bound used func iosize env r hprev hdoc hprobe ih =>
    rcases ccatCdevProbe_cases hprev.inv hdoc hprobe with
      ⟨rfl, -⟩ | ⟨m, id, i, hm, hready, hfree, rfl | rfl⟩
    · exact ih
    · have hdev := published_devices func iosize m id i (w.withClass m id (bound.length + 1)) j
      simp only [Option.toList_some, List.singleton_append, List.mem_cons]
      by_cases hj : j = i
      · rw [hdev, if_pos hj]
        exact ⟨fun _ => Or.inl hj, fun _ => rfl⟩
      · rw [hdev, if_neg hj]
        exact ih.trans ⟨Or.inr, fun hmem => hmem.resolve_left hj⟩
    · obtain ⟨-, -, -, hcls, -, -⟩ :=
        undone_spec func iosize i hprev.inv hready (firstFree_some hfree).2
      rw [hcls j]
      exact ih
  | @remove w bound used i w' hprev hi hrem ih =>
    have hinv := hprev.inv
    obtain ⟨m, id, hm, hdev, hcls, hregions, hclasses⟩ := hinv.ready (List.ne_nil_of_mem hi)
    have hready : ClassReady (retracted i w) m id := ⟨hm, hdev, hcls, hregions, hclasses⟩
    rw [ccatCdevRemove_owner (hinv.owner i hi), Except.ok.injEq] at hrem
    subst hrem
    -- removing a slot clears its `dev` but not its class pointer
    rw [← ih]
    by_cases hj : j = i
    · subst hj
      rw [setDevice_devices_self, (ccatClassExit_spec hready).1]; rfl
    · rw [setDevice_devices_ne hj, (ccatClassExit_spec hready).1]; rfl

end Ccat.Native
