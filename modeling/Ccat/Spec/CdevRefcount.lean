import Ccat.Spec.CdevTable

/-!
# Reference counting of a class

Runs of probes and removes for which the kernel services do what they are asked for.
All that such a run does is decided by the slots in use: a probe takes the first slot
that is not (`freeSlot`), and the class lives as long as there are any. The table of the
driver follows this abstract table, so that a run can be repeated whenever all devices
are gone.

## Key results

- `CdevOp.apply_spec`: an operation does what it does on the abstract table
- `Runs.inv`: what holds after every run
- `cdev_refcount`: the counter, the registrations and the `dev` numbers
-/

namespace Ccat.Native

/-! ## Runs -/

/-- Every service asked by a probe of a class with `count` slots succeeds.
    `alloc_chrdev_region()` hands out a dynamic major, which is not 0, and only ranges of minors
    that fit the bits of a minor. -/
structure ProbeEnv.Serves (env : ProbeEnv) (count : Nat) : Prop where
  region : ∃ m, env.region = some m ∧ 0 < m
  minors : count ≤ 2 ^ MINORBITS
  cls : ∃ id, env.classCreate = some id
  deviceCreate : env.deviceCreate = true
  cdevAdd : env.cdevAdd = true

inductive CdevOp where
  | probe (func : CcatFunction) (iosize : Nat) (env : ProbeEnv)
  | remove (i : Nat)

inductive CdevOutcome where
  | probed (status : Int) (slot : Option Nat)
  | removed
  deriving DecidableEq, Repr

/-- The state of a run, with the slots whose probe succeeded and that were not removed. -/
structure CdevRun where
  world : World
  bound : List Nat

/-- Only devices that are there are removed. -/
def CdevOp.Allowed (count : Nat) (bound : List Nat) : CdevOp → Prop
  | .probe _ _ env => env.Serves count
  | .remove i => i ∈ bound

def CdevOp.apply (s : CdevRun) : CdevOp → Except Oops (CdevOutcome × CdevRun)
  | .probe func iosize env => do
    let r ← ccatCdevProbe func iosize env s.world
    return (.probed r.status r.privateData, ⟨r.world, r.privateData.toList ++ s.bound⟩)
  | .remove i => do
    let w ← ccatCdevRemove i s.world
    return (.removed, ⟨w, s.bound.erase i⟩)

/-- Operations one after another, with their outcomes. -/
inductive Runs (count : Nat) (s : CdevRun) : List (CdevOp × CdevOutcome) → CdevRun → Prop where
  | nil : Runs count s [] s
  | snoc {ops s' s'' op out} : Runs count s ops s' → op.Allowed count s'.bound →
      op.apply s' = .ok (out, s'') → Runs count s (ops ++ [(op, out)]) s''

/-! ## The abstract table -/

/-- The first slot that is not bound. -/
def freeSlot (count : Nat) (bound : List Nat) : Option Nat :=
  (List.range count).find? fun i => decide (i ∉ bound)

/-- An operation on the abstract table: its outcome and the slots bound afterwards. -/
def CdevOp.abstract (count : Nat) (bound : List Nat) : CdevOp → CdevOutcome × List Nat
  | .probe _ _ _ =>
    match freeSlot count bound with
    | some i => (.probed 0 (some i), i :: bound)
    | none => (.probed (-ENOMEM) none, bound)
  | .remove i => (.removed, bound.erase i)

/-- The table in good order, with the `dev` numbers of the bound slots. -/
structure RefInv (count : Nat) (s : CdevRun) : Prop where
  table : TableInv s.world s.bound
  count_eq : s.world.base.count = count
  dev_eq : ∀ i ∈ s.bound, (s.world.base.devices i).dev = mkdev (major s.world.base.dev) i
  minors : s.bound ≠ [] → count ≤ 2 ^ MINORBITS

theorem RefInv.init (count : Nat) (h : 0 < count) : RefInv count ⟨World.init count h, []⟩ :=
  ⟨TableInv.init count h, rfl, (fun _ hi => nomatch hi), fun hne => absurd rfl hne⟩

/-- The slot that the driver finds is the one of the abstract table. -/
theorem RefInv.firstFree_eq {count : Nat} {s : CdevRun} (hinv : RefInv count s) :
    firstFree s.world.base = freeSlot count s.bound := by
  unfold firstFree freeSlot
  rw [hinv.count_eq]
  congr 1
  funext i
  have hdev := hinv.table.dev_ne_zero i
  by_cases hmem : i ∈ s.bound
  · have hne := hdev.mpr hmem
    simp [hmem, hne]
  · have hzero : (s.world.base.devices i).dev = 0 := by
      by_cases h0 : (s.world.base.devices i).dev = 0
      · exact h0
      · exact absurd (hdev.mp h0) hmem
    simp [hmem, hzero]

/-- Services that succeed answer as documented. -/
theorem ProbeEnv.Serves.documented {env : ProbeEnv} {count : Nat} (h : env.Serves count) :
    env.Documented := by
  obtain ⟨m, hm, hpos⟩ := h.region
  intro m' hm'
  rw [hm] at hm'
  cases hm'
  exact hpos

/-- The class can be set up when all services succeed. -/
theorem ProbeEnv.Serves.setupSucceeds {env : ProbeEnv} {count : Nat} (h : env.Serves count)
    (bound : List Nat) : env.SetupSucceeds bound := by
  obtain ⟨m, hm, -⟩ := h.region
  exact fun _ => ⟨⟨m, hm⟩, h.cls⟩

/-- A probe takes the first free slot, or finds none and leaves everything as it was. -/
theorem ccatCdevProbe_serves {count : Nat} {s : CdevRun} (hinv : RefInv count s)
    (func : CcatFunction) (iosize : Nat) {env : ProbeEnv} (henv : env.Serves count) :
    match freeSlot count s.bound with
    | some i => ∃ w', ccatCdevProbe func iosize env s.world = .ok ⟨0, some i, w'⟩ ∧
        RefInv count ⟨w', i :: s.bound⟩
    | none => ccatCdevProbe func iosize env s.world = .ok ⟨-ENOMEM, none, s.world⟩ := by
  obtain ⟨m, id, hm, hinit, hready⟩ :=
    ccatClassInit_ready hinv.table henv.documented (henv.setupSucceeds s.bound)
  rw [← hinv.firstFree_eq]
  cases hfree : firstFree s.world.base with
  -- of the cases of a probe only a full table is left
  | none =>
    have hprobe := ccatCdevProbe_full func iosize hinit hfree
    rcases ccatCdevProbe_cases hinv.table henv.documented hprobe with
      ⟨hr, -⟩ | ⟨_, _, i, _, _, hi, _⟩
    · rw [hprobe, hr]
    · rw [hfree] at hi
      exact nomatch hi
  -- every service succeeds, so the slot is published
  | some i =>
    have hprobe := ccatCdevProbe_slot func iosize hinit hfree
    rw [if_pos ⟨henv.deviceCreate, henv.cdevAdd⟩] at hprobe
    have htable := hinv.table.probe henv.documented hprobe
    refine ⟨_, hprobe, htable, hinv.count_eq, ?_, fun _ => henv.minors⟩
    intro j hj
    have hmajor : major (published func iosize m id i
        (s.world.withClass m id (s.bound.length + 1))).base.dev = m := major_mkdev_zero m
    have hdevices := published_devices func iosize m id i
      (s.world.withClass m id (s.bound.length + 1)) j
    dsimp only
    rw [hmajor, hdevices]
    by_cases hji : j = i
    · rw [if_pos hji, hji]
    · -- the other bound slots are numbered under the same major
      have hmem : j ∈ s.bound := (List.mem_cons.mp hj).resolve_left hji
      have hold := hinv.dev_eq j hmem
      rw [(hready (List.ne_nil_of_mem hmem)).dev, major_mkdev_zero] at hold
      rw [if_neg hji]
      exact hold

/-- Removing a bound device returns, and the slot is free again. -/
theorem ccatCdevRemove_serves {count : Nat} {s : CdevRun} (hinv : RefInv count s) {i : Nat}
    (hi : i ∈ s.bound) : ∃ w', ccatCdevRemove i s.world = .ok w' ∧
      RefInv count ⟨w', s.bound.erase i⟩ := by
  obtain ⟨w', hremove, hcount, hdev, hdevices⟩ := ccatCdevRemove_spec hinv.table hi
  refine ⟨w', hremove, hinv.table.remove hi hremove, hcount.trans hinv.count_eq, ?_, ?_⟩
  · intro j hj
    obtain ⟨hji, hmem⟩ := hinv.table.nodup.mem_erase_iff.mp hj
    show (w'.base.devices j).dev = mkdev (major w'.base.dev) j
    rw [hdevices, if_neg hji, hdev]
    exact hinv.dev_eq j hmem
  · intro _
    exact hinv.minors (List.ne_nil_of_mem hi)

/-- An operation that is allowed returns, does what it does on the abstract table and keeps the
    driver's table in step with it. -/
theorem CdevOp.apply_spec {count : Nat} {s : CdevRun} (hinv : RefInv count s) {op : CdevOp}
    (hop : op.Allowed count s.bound) : ∃ w', op.apply s =
      .ok ((op.abstract count s.bound).1, ⟨w', (op.abstract count s.bound).2⟩) ∧
      RefInv count ⟨w', (op.abstract count s.bound).2⟩ := by
  cases op with
  | probe func iosize env =>
    have hprobe := ccatCdevProbe_serves hinv func iosize hop
    -- the table is full, or slot `i` is taken
    cases hfree : freeSlot count s.bound with
    | none =>
      rw [hfree] at hprobe
      simp only [CdevOp.apply, CdevOp.abstract, hfree, hprobe, bind, Except.bind, pure,
        Except.pure, Option.toList_none, List.nil_append]
      exact ⟨s.world, rfl, hinv⟩
    | some i =>
      rw [hfree] at hprobe
      obtain ⟨w', hprobe, hinv'⟩ := hprobe
      simp only [CdevOp.apply, CdevOp.abstract, hfree, hprobe, bind, Except.bind, pure,
        Except.pure, Option.toList_some, List.singleton_append]
      exact ⟨w', rfl, hinv'⟩
  | remove i =>
    obtain ⟨w', hremove, hinv'⟩ := ccatCdevRemove_serves hinv hop
    refine ⟨w', ?_, hinv'⟩
    simp only [CdevOp.apply, CdevOp.abstract, hremove, bind, Except.bind, pure, Except.pure]

/-! ## Runs -/

/-- A run keeps the driver in step with the abstract table. -/
theorem Runs.inv {count : Nat} {s s' : CdevRun} {ops : List (CdevOp × CdevOutcome)}
    (hrun : Runs count s ops s') (hinv : RefInv count s) : RefInv count s' := by
  induction hrun with
  | nil => exact hinv
  | snoc _ hop happly ih =>
    obtain ⟨w', heq, hinv'⟩ := CdevOp.apply_spec ih hop
    rw [happly] at heq
    cases heq
    exact hinv'

/-- A run can be repeated, with the same outcomes, from every state with the same slots bound. -/
theorem Runs.again {count : Nat} {s s' t : CdevRun} {ops : List (CdevOp × CdevOutcome)}
    (hrun : Runs count s ops s') (hs : RefInv count s) (ht : RefInv count t)
    (hbound : t.bound = s.bound) : ∃ t', Runs count t ops t' ∧ t'.bound = s'.bound := by
  induction hrun with
  | nil => exact ⟨t, .nil, hbound⟩
  | @snoc ops s' s'' op out hprev hop happly ih =>
    obtain ⟨t', hrun', hbound'⟩ := ih
    -- both tables do what the abstract one does
    obtain ⟨w, heq, -⟩ := CdevOp.apply_spec (hprev.inv hs) hop
    have hop' : op.Allowed count t'.bound := by rw [hbound']; exact hop
    obtain ⟨w', heq', -⟩ := CdevOp.apply_spec (hrun'.inv ht) hop'
    rw [happly] at heq
    cases heq
    rw [hbound'] at heq'
    exact ⟨_, .snoc hrun' hop' heq', rfl⟩

/-! ## What the driver's table looks like -/

/-- Minors that fit their bits can be told apart. -/
theorem mkdev_inj {m i j : Nat} (hi : i < 2 ^ MINORBITS) (hj : j < 2 ^ MINORBITS)
    (h : mkdev m i = mkdev m j) : i = j := by
  unfold mkdev at h
  rw [← Nat.shiftLeft_add_eq_or_of_lt hi, ← Nat.shiftLeft_add_eq_or_of_lt hj] at h
  exact Nat.add_left_cancel h

/-- Number of slots in use, by their `dev` numbers. -/
def devicesUsed (base : CcatClass) : Nat :=
  ((List.range base.count).filter fun i => (base.devices i).dev ≠ 0).length

/-- The slots with a `dev` number are the bound ones. -/
theorem TableInv.devicesUsed_eq {w : World} {bound : List Nat} (hinv : TableInv w bound) :
    devicesUsed w.base = bound.length := by
  apply List.Perm.length_eq
  rw [List.perm_ext_iff_of_nodup (List.nodup_range.filter _) hinv.nodup]
  intro i
  rw [List.mem_filter, List.mem_range]
  constructor
  · intro h
    exact (hinv.dev_ne_zero i).mp (of_decide_eq_true h.2)
  · intro h
    exact ⟨hinv.lt_count i h, decide_eq_true ((hinv.dev_ne_zero i).mpr h)⟩

/-- The counter, the registrations and the `dev` numbers of a class agree. -/
structure Refcounted (w : World) : Prop where
  instances_eq : w.base.instances = devicesUsed w.base
  /-- The region and the class are registered once while there are devices. -/
  registered : 0 < w.base.instances → ∃ m id, w.kernel.regions = [m] ∧ w.kernel.classes = [id] ∧
    w.base.dev = mkdev m 0 ∧ w.base.cls = .cls id
  /-- They are not registered when the next probe is going to register them. -/
  unregistered : w.base.instances = 0 → w.kernel.regions = [] ∧ w.kernel.classes = []
  /-- What the removal of the last device is going to release is registered. -/
  releases : w.base.instances = 1 → major w.base.dev ∈ w.kernel.regions ∧
    ∃ id, w.base.cls = .cls id ∧ id ∈ w.kernel.classes
  dev_eq : ∀ i, (w.base.devices i).dev ≠ 0 →
    ∃ m, w.kernel.regions = [m] ∧ (w.base.devices i).dev = mkdev m i
  distinct : ∀ i j, (w.base.devices i).dev ≠ 0 →
    (w.base.devices i).dev = (w.base.devices j).dev → i = j

/-- In step with the abstract table, the counter and the registrations agree. -/
theorem RefInv.refcounted {count : Nat} {s : CdevRun} (hinv : RefInv count s) :
    Refcounted s.world := by
  obtain ⟨hnodup, hlt, hdev, howner, hinst, hidle, hready⟩ := hinv.table
  have hne : 0 < s.world.base.instances → s.bound ≠ [] := by
    intro hpos hnil
    rw [hinst, hnil] at hpos
    exact absurd hpos (by decide)
  -- a slot in use is numbered under the major of the region
  have hdev_eq : ∀ i, (s.world.base.devices i).dev ≠ 0 →
      ∃ m, s.world.kernel.regions = [m] ∧ (s.world.base.devices i).dev = mkdev m i := by
    intro i hi
    have hmem := (hdev i).mp hi
    obtain ⟨m, id, -, hbase, -, hregions, -⟩ := hready (List.ne_nil_of_mem hmem)
    refine ⟨m, hregions, ?_⟩
    rw [hinv.dev_eq i hmem, hbase, major_mkdev_zero]
  constructor
  · rw [hinst, hinv.table.devicesUsed_eq]
  · -- with instances there is one region and one class
    intro hpos
    obtain ⟨m, id, -, hbase, hcls, hregions, hclasses⟩ := hready (hne hpos)
    exact ⟨m, id, hregions, hclasses, hbase, hcls⟩
  · -- without instances there is nothing
    intro hzero
    apply hidle
    rw [hinst] at hzero
    exact List.length_eq_zero_iff.mp (Int.ofNat_eq_zero.mp hzero)
  · -- the last remove finds what it has to take down
    intro hone
    obtain ⟨m, id, -, hbase, hcls, hregions, hclasses⟩ := hready (hne (by omega))
    rw [hbase, major_mkdev_zero, hregions, hclasses]
    exact ⟨List.mem_singleton_self m, id, hcls, List.mem_singleton_self id⟩
  · exact hdev_eq
  · intro i j hi hij
    have hj : (s.world.base.devices j).dev ≠ 0 := by rw [← hij]; exact hi
    have hmem := (hdev i).mp hi
    have hmem' := (hdev j).mp hj
    -- both are numbered under the major of the one region
    obtain ⟨m, hregions, hi'⟩ := hdev_eq i hi
    obtain ⟨m', hregions', hj'⟩ := hdev_eq j hj
    rw [hregions] at hregions'
    cases hregions'
    have hcount := hinv.minors (List.ne_nil_of_mem hmem)
    have hi'' := hlt i hmem
    have hj'' := hlt j hmem'
    rw [hinv.count_eq] at hi'' hj''
    exact mkdev_inj (by omega) (by omega) (hi'.symm.trans (hij.trans hj'))

/-- After every run of probes and removes: the counter, the registrations and the `dev` numbers
    agree; what is allowed returns; a probe of a full table changes nothing; and with all devices
    gone, whatever was possible in the beginning is possible again. -/
theorem cdev_refcount (count : Nat) (h : 0 < count) (ops : List (CdevOp × CdevOutcome))
    (s : CdevRun) (hrun : Runs count ⟨World.init count h, []⟩ ops s) :
    Refcounted s.world ∧
      (∀ op : CdevOp, op.Allowed count s.bound → ∃ out s', op.apply s = .ok (out, s')) ∧
      (∀ (func : CcatFunction) (iosize : Nat) (env : ProbeEnv), env.Serves count →
        (∀ i, i < count → (s.world.base.devices i).dev ≠ 0) →
        ccatCdevProbe func iosize env s.world = .ok ⟨-ENOMEM, none, s.world⟩) ∧
      (s.bound = [] → ∀ ops' s', Runs count ⟨World.init count h, []⟩ ops' s' →
        ∃ s'', Runs count s ops' s'' ∧ s''.bound = s'.bound) := by
  have hinv := hrun.inv (RefInv.init count h)
  refine ⟨hinv.refcounted, ?_, ?_, ?_⟩
  · intro op hop
    obtain ⟨w', happly, -⟩ := CdevOp.apply_spec hinv hop
    exact ⟨_, _, happly⟩
  · intro func iosize env henv hfull
    have hprobe := ccatCdevProbe_serves hinv func iosize henv
    -- every slot is in use, so there is no free one
    have hnone : freeSlot count s.bound = none := by
      unfold freeSlot
      rw [List.find?_eq_none]
      intro i hi
      have hmem := (hinv.table.dev_ne_zero i).mp (hfull i (List.mem_range.mp hi))
      simpa using hmem
    rw [hnone] at hprobe
    exact hprobe
  · -- with all devices removed the table is as good as new
    intro hnil ops' s' hrun'
    exact hrun'.again (RefInv.init count h) hinv hnil

/-- A probe and a remove of a class with four slots, after which the class is gone. -/
theorem cdev_refcount_probe_remove :
    ∃ s out out', Runs 4 ⟨World.init 4 (by decide), []⟩
        [(.probe ⟨0, 0⟩ 16 ⟨some 240, some 1, true, true⟩, out), (.remove 0, out')] s ∧
      Refcounted s.world := by
  have hprobe : (CdevOp.probe ⟨0, 0⟩ 16 ⟨some 240, some 1, true, true⟩).Allowed 4 [] :=
    ⟨⟨240, rfl, by decide⟩, by decide, ⟨1, rfl⟩, rfl, rfl⟩
  have hremove : (CdevOp.remove 0).Allowed 4 [0] := List.mem_cons_self
  obtain ⟨w, happly, hinv⟩ := CdevOp.apply_spec (RefInv.init 4 (by decide)) hprobe
  obtain ⟨w', happly', -⟩ := CdevOp.apply_spec hinv hremove
  have hrun := Runs.snoc (.snoc .nil hprobe happly) hremove happly'
  exact ⟨_, _, _, hrun, (cdev_refcount 4 (by decide) _ _ hrun).1⟩

end Ccat.Native
