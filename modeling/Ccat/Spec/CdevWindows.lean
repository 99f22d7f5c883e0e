import Ccat.Spec.CdevTable
import Mathlib.Data.List.Perm.Basic

/-!
# The windows of a class

Beyond the bound slots, `CdevInv` follows what is behind them: the window of the device
that each of them gives access to, and the device nodes and cdevs by which user space
gets there.

## Key results

- `CdevInv.probe`: a probe publishes one window more, or leaves everything as it was
- `CdevInv.remove`: a remove returns and takes back the window it is asked for
-/

namespace Ccat.Native

/-- A slot with the window of the device behind it. -/
structure Window where
  slot : Nat
  ioaddr : Nat
  iosize : Nat
  deriving DecidableEq, Repr

/-- A class publishes the windows `ws`, each in a slot of its own, and no others. -/
structure CdevInv (w : World) (ws : List Window) : Prop where
  table : TableInv w (ws.map Window.slot)
  window : ∀ x ∈ ws, (w.base.devices x.slot).ioaddr = x.ioaddr ∧
    (w.base.devices x.slot).iosize = x.iosize
  nodes : w.kernel.nodes.Perm
    (ws.map fun x => (w.base.cls.id, (w.base.devices x.slot).dev))
  cdevs : w.kernel.cdevs.Perm (ws.map fun x => (w.base.devices x.slot).dev)

/-- At first there are no windows. -/
theorem CdevInv.init (count : Nat) (h : 0 < count) : CdevInv (World.init count h) [] where
  table := TableInv.init count h
  window := by simp
  nodes := .refl _
  cdevs := .refl _

/-- The order in which slots were bound does not matter. -/
theorem TableInv.perm {w : World} {bound bound' : List Nat} (hinv : TableInv w bound)
    (h : bound.Perm bound') : TableInv w bound' where
  nodup := h.nodup_iff.mp hinv.nodup
  lt_count i hi := hinv.lt_count i (h.mem_iff.mpr hi)
  dev_ne_zero i := (hinv.dev_ne_zero i).trans h.mem_iff
  owner i hi := hinv.owner i (h.mem_iff.mpr hi)
  instances := by rw [hinv.instances, h.length_eq]
  idle hnil := hinv.idle (h.trans (.of_eq hnil)).eq_nil
  ready hne := hinv.ready fun hnil => hne (h.symm.trans (.of_eq hnil)).eq_nil

/-- The order of the windows does not matter. -/
theorem CdevInv.perm {w : World} {ws ws' : List Window} (hinv : CdevInv w ws)
    (h : ws.Perm ws') : CdevInv w ws' where
  table := hinv.table.perm (h.map _)
  window x hx := hinv.window x (h.mem_iff.mpr hx)
  nodes := hinv.nodes.trans (h.map _)
  cdevs := hinv.cdevs.trans (h.map _)

/-- Slots that are looked up alike carry the same nodes and cdevs. -/
private theorem CdevInv.congr {w w' : World} {ws : List Window} (hinv : CdevInv w ws)
    (htable : TableInv w' (ws.map Window.slot)) (hkernel : w'.kernel.nodes = w.kernel.nodes ∧
      w'.kernel.cdevs = w.kernel.cdevs) (hcls : ws ≠ [] → w'.base.cls = w.base.cls)
    (hdevices : ∀ x ∈ ws, w'.base.devices x.slot = w.base.devices x.slot) : CdevInv w' ws where
  table := htable
  window x hx := by
    rw [hdevices x hx]
    exact hinv.window x hx
  nodes := by
    rw [hkernel.1]
    apply hinv.nodes.trans
    apply List.Perm.of_eq
    apply List.map_congr_left
    intro x hx
    rw [hdevices x hx, hcls (List.ne_nil_of_mem hx)]
  cdevs := by
    rw [hkernel.2]
    apply hinv.cdevs.trans
    apply List.Perm.of_eq
    apply List.map_congr_left
    intro x hx
    rw [hdevices x hx]

section Probe

variable {w : World} {ws : List Window} {env : ProbeEnv}

/-- A free slot is none of the windows. -/
theorem CdevInv.slot_ne (hinv : CdevInv w ws) {i : Nat} (hfree : (w.base.devices i).dev = 0)
    {x : Window} (hx : x ∈ ws) : x.slot ≠ i := by
  intro heq
  have hdev := (hinv.table.dev_ne_zero x.slot).mpr (List.mem_map_of_mem hx)
  rw [heq] at hdev
  exact hdev hfree

/-- A probe that returns 0 publishes the window of its function in a slot of its own; one that
    returns an error leaves what is published as it was. -/
theorem CdevInv.probe {func : CcatFunction} {iosize : Nat} {r : ProbeResult}
    (hinv : CdevInv w ws) (hdoc : env.Documented)
    (h : ccatCdevProbe func iosize env w = .ok r) :
    (r.status = 0 ∧ ∃ i, r.privateData = some i ∧
      CdevInv r.world (⟨i, func.bar0 + func.addr, iosize⟩ :: ws)) ∨
    (r.status ≠ 0 ∧ r.privateData = none ∧ CdevInv r.world ws) := by
  have htable := hinv.table.probe hdoc h
  rcases ccatCdevProbe_cases hinv.table hdoc h with
    ⟨rfl, -⟩ | ⟨m, id, i, hm, hready, hfree, hr⟩
  · exact .inr ⟨by show -ENOMEM ≠ 0; decide, rfl, hinv⟩
  · have hzero := (firstFree_some hfree).2
    have hready' : ws ≠ [] → ClassReady w m id := fun hne => hready (by simpa using hne)
    rcases hr with rfl | rfl
    · left
      -- the slot is new, the others are as before
      have hdevices := published_devices func iosize m id i
        (w.withClass m id ((ws.map Window.slot).length + 1))
      have hself := (hdevices i).trans (if_pos rfl)
      have hne : ∀ x ∈ ws, _ := fun x hx => (hdevices x.slot).trans (if_neg (hinv.slot_ne hzero hx))
      refine ⟨rfl, i, rfl, htable, ?_, ?_, ?_⟩
      · intro x hx
        rcases List.mem_cons.mp hx with rfl | hx
        · dsimp only
          rw [hself]
          exact ⟨rfl, rfl⟩
        · dsimp only
          rw [hne x hx]
          exact hinv.window x hx
      · -- the node and the cdev of the new slot come ahead of the old ones
        have hnodes : (ws.map fun x => (w.base.cls.id, (w.base.devices x.slot).dev)) =
            ws.map fun x => (id, ((published func iosize m id i
              (w.withClass m id ((ws.map Window.slot).length + 1))).base.devices x.slot).dev) := by
          apply List.map_congr_left
          intro x hx
          rw [hne x hx, (hready' (List.ne_nil_of_mem hx)).cls]
          rfl
        rw [List.map_cons]
        dsimp only
        rw [hself]
        exact (hinv.nodes.trans (.of_eq hnodes)).cons _
      · have hcdevs : (ws.map fun x => (w.base.devices x.slot).dev) =
            ws.map fun x => ((published func iosize m id i
              (w.withClass m id ((ws.map Window.slot).length + 1))).base.devices x.slot).dev := by
          apply List.map_congr_left
          intro x hx
          rw [hne x hx]
          rfl
        rw [List.map_cons]
        dsimp only
        rw [hself]
        exact (hinv.cdevs.trans (.of_eq hcdevs)).cons _
    · right
      -- a probe that fails has put everything back
      obtain ⟨-, -, -, -, hkernel, hbase⟩ := undone_spec func iosize i hinv.table hready hzero
      refine ⟨by show (-1 : Int) ≠ 0; decide, rfl, hinv.congr htable ?_ ?_ ?_⟩
      · rw [hkernel]
        exact ⟨rfl, rfl⟩
      · intro hne
        exact (hbase (by simpa using hne)).2
      · intro x hx
        exact undone_devices_ne func iosize m i _ (hinv.slot_ne hzero hx)

end Probe

section Remove

variable {w : World} {ws : List Window}

/-- `ccat_class_exit()` touches neither nodes nor cdevs. -/
theorem ccatClassExit_nodes (w : World) :
    (ccatClassExit w).kernel.nodes = w.kernel.nodes ∧
      (ccatClassExit w).kernel.cdevs = w.kernel.cdevs ∧
      (ccatClassExit w).base.cls = w.base.cls := by
  simp only [ccatClassExit]
  split
  · cases hcls : w.base.cls <;> simp [unregisterChrdevRegion, classDestroy]
  · exact ⟨rfl, rfl, rfl⟩

/-- A remove takes down the node and the cdev of its slot. -/
theorem ccatCdevRemove_nodes {w' : World} {i : Nat} (h : ccatCdevRemove i w = .ok w') :
    w'.kernel.nodes = w.kernel.nodes.erase (w.base.cls.id, (w.base.devices i).dev) ∧
      w'.kernel.cdevs = w.kernel.cdevs.erase (w.base.devices i).dev ∧
      w'.base.cls = w.base.cls := by
  simp only [ccatCdevRemove] at h
  split at h
  · cases h
  · simp only [freeCcatCdev] at h
    split at h
    · cases h
    · cases h
      exact ccatClassExit_nodes _

/-- Removing a window returns, and the others are as before. -/
theorem CdevInv.remove {x : Window} (hinv : CdevInv w (x :: ws)) :
    ∃ w', ccatCdevRemove x.slot w = .ok w' ∧ CdevInv w' ws := by
  have hmem : x.slot ∈ (x :: ws).map Window.slot := List.mem_map_of_mem List.mem_cons_self
  obtain ⟨w', hremove, -, -, hdevices⟩ := ccatCdevRemove_spec hinv.table hmem
  obtain ⟨hnodes, hcdevs, hcls⟩ := ccatCdevRemove_nodes hremove
  have htable := hinv.table.remove hmem hremove
  rw [List.map_cons, List.erase_cons_head] at htable
  have hnodup := hinv.table.nodup
  rw [List.map_cons, List.nodup_cons] at hnodup
  -- slots are different, so only that of `x` is freed
  have hne : ∀ y ∈ ws, w'.base.devices y.slot = w.base.devices y.slot := by
    intro y hy
    have hslot : y.slot ≠ x.slot := by
      intro heq
      exact hnodup.1 (heq ▸ List.mem_map_of_mem hy)
    rw [hdevices, if_neg hslot]
  refine ⟨w', hremove, htable, ?_, ?_, ?_⟩
  · intro y hy
    rw [hne y hy]
    exact hinv.window y (List.mem_cons_of_mem x hy)
  · -- its node goes, and its cdev
    have hold := hinv.nodes.erase (w.base.cls.id, (w.base.devices x.slot).dev)
    rw [List.map_cons, List.erase_cons_head, ← hnodes] at hold
    apply hold.trans
    apply List.Perm.of_eq
    apply List.map_congr_left
    intro y hy
    rw [hne y hy, hcls]
  · have hold := hinv.cdevs.erase (w.base.devices x.slot).dev
    rw [List.map_cons, List.erase_cons_head, ← hcdevs] at hold
    apply hold.trans
    apply List.Perm.of_eq
    apply List.map_congr_left
    intro y hy
    rw [hne y hy]

end Remove

/-- A class that publishes nothing has nothing registered. -/
theorem CdevInv.nil {w : World} (hinv : CdevInv w []) :
    w.base.instances = 0 ∧ (∀ i, (w.base.devices i).dev = 0) ∧ w.kernel = ⟨[], [], [], []⟩ := by
  obtain ⟨hregions, hclasses⟩ := hinv.table.idle rfl
  refine ⟨hinv.table.instances, hinv.table.dev_eq_zero, ?_⟩
  ext1
  · exact hregions
  · exact hclasses
  · exact hinv.nodes.eq_nil
  · exact hinv.cdevs.eq_nil

end Ccat.Native
