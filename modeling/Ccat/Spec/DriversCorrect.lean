import Mathlib
import Ccat.ForStd.Except
import Ccat.Native.Drivers
import Ccat.Spec.CdevWindows

/-!
# What the drivers publish

A `Binding` is a function with the private data of the driver that is bound to it. All
that is published belongs to bindings (`RegInv`): a character device, a GPIO chip, a
clocksource or a net device each, with the window that the block of the function
describes.

## Key results

- `attach_spec`: a driver that is probed publishes one binding more, or nothing
- `detach_spec`: a driver that is removed takes back what it published, and returns
-/

namespace Ccat.Native.Device

open Systemtime (CcatSystemtime)

/-- A function and what its driver made of it. -/
structure Binding where
  func : Functions.CcatFunction
  data : PrivateData

namespace Binding

/-- `func->ccat->bar_0 + func->info.addr`. -/
def ioaddr (x : Binding) : Nat := (x.func.ccat.elim 0 (·.bar0)) + x.func.info.addr

/-- The window of an SRAM. -/
def sram? (x : Binding) : Option Window :=
  match x.data with
  | .sram slot => some ⟨slot, x.ioaddr, 1 <<< x.func.info.sramSize⟩
  | _ => none

/-- The window of a configuration flash. -/
def update? (x : Binding) : Option Window :=
  match x.data with
  | .update slot => some ⟨slot, x.ioaddr, Update.CCAT_FLASH_SIZE⟩
  | _ => none

def chip? (x : Binding) : Option CcatGpio :=
  match x.data with
  | .gpio gpio => some gpio
  | _ => none

def clock? (x : Binding) : Option CcatSystemtime :=
  match x.data with
  | .systemtime st => some st
  | _ => none

def isNetdev (x : Binding) : Bool :=
  match x.data with
  | .netdev => true
  | _ => false

/-- The driver serves functions like this one. -/
def Served (x : Binding) : Prop :=
  match x.data with
  | .netdev => True
  | .gpio gpio => gpio = ⟨x.ioaddr, x.func.info.numGpios⟩
  | .update _ => x.func.info.rev = 0
  | .sram _ => x.func.info.sramWidth &&& 0x3 ≠ 0
  | .systemtime st => st.ioaddr = x.ioaddr

end Binding

/-- The value of `ccat_systemtime_cnt` after `n` probes. -/
def probeCount (n : Nat) : Int := (n : Int).bmod (2 ^ 32)

theorem probeCount_zero : probeCount 0 = 0 := by
  unfold probeCount
  rw [Nat.cast_zero, Int.zero_bmod]

theorem probeCount_succ (n : Nat) : probeCount (n + 1) = Systemtime.intInc (probeCount n) := by
  unfold probeCount Systemtime.intInc
  rw [Int.bmod_add_bmod, Nat.cast_succ]

/-- The counter takes each of its values once before it wraps around to where it began. -/
theorem probeCount_inj {m n : Nat} (hm : m < 2 ^ 32) (hn : n < 2 ^ 32)
    (h : probeCount m = probeCount n) : m = n := by
  have hmod : (m : Int) % (2 ^ 32 : Nat) = (n : Int) % (2 ^ 32 : Nat) := by
    rw [← Int.bmod_emod, ← Int.bmod_emod (x := (n : Int))]
    exact congrArg (· % ((2 ^ 32 : Nat) : Int)) h
  omega

/-- The name of the clocksource of the `n`-th probe. -/
def clockName (n : Nat) : String := "ccat" ++ toString (probeCount n)

theorem clockName_inj {m n : Nat} (hm : m < 2 ^ 32) (hn : n < 2 ^ 32)
    (h : clockName m = clockName n) : m = n :=
  probeCount_inj hm hn (Int.repr_inj.mp ((String.append_right_inj _).mp h))

/-- All that is published belongs to the bindings `bs`, and each of them has published what its
    function describes. -/
structure RegInv (bs : List Binding) (r : Registry) : Prop where
  sram : CdevInv r.sram (bs.filterMap Binding.sram?)
  update : CdevInv r.update (bs.filterMap Binding.update?)
  chips : r.chips.Perm (bs.filterMap Binding.chip?)
  clocks : r.clocks.Perm (bs.filterMap Binding.clock?)
  netdevs : r.netdevs = bs.countP Binding.isNetdev
  served : ∀ x ∈ bs, x.Served
  counted : r.systemtimeCnt = probeCount r.systemtimeProbes
  /-- Every name is the one of an earlier probe. -/
  named : ∀ st ∈ r.clocks, ∀ s, st.clock.name = some s →
    ∃ n < r.systemtimeProbes, s = clockName n
  /-- The names are different until the counter has wrapped around. -/
  distinct : r.systemtimeProbes ≤ 2 ^ 32 → (r.clocks.filterMap (·.clock.name)).Nodup

/-- At first nothing is bound and nothing registered. -/
theorem RegInv.init : RegInv [] .init where
  sram := CdevInv.init _ _
  update := CdevInv.init _ _
  chips := .refl _
  clocks := .refl _
  netdevs := rfl
  served := by simp
  counted := probeCount_zero.symm
  named := by simp [Registry.init]
  distinct := by simp [Registry.init]

/-- The order of the bindings does not matter. -/
theorem RegInv.perm {bs bs' : List Binding} {r : Registry} (hinv : RegInv bs r)
    (h : bs.Perm bs') : RegInv bs' r where
  sram := hinv.sram.perm (h.filterMap _)
  update := hinv.update.perm (h.filterMap _)
  chips := hinv.chips.trans (h.filterMap _)
  clocks := hinv.clocks.trans (h.filterMap _)
  netdevs := hinv.netdevs.trans (h.countP_eq _)
  served x hx := hinv.served x (h.mem_iff.mpr hx)
  counted := hinv.counted
  named := hinv.named
  distinct := hinv.distinct

/-! ## Probes -/

/-- The binding that a probe makes. -/
def Probed.binding? (func : Functions.CcatFunction) (p : Probed) : Option Binding :=
  if p.ret = 0 then p.privateData.map fun data => ⟨func, data⟩ else none

section Probe

variable {bs : List Binding} {r : Registry} {func : Functions.CcatFunction} {env : ProbeEnv}
  {p : Probed}

/-- A probe that fails and publishes nothing. -/
theorem RegInv.refused (hinv : RegInv bs r) {ret : Int} (hret : ret ≠ 0)
    {data : Option PrivateData} :
    RegInv ((Probed.binding? func ⟨ret, data, r⟩).toList ++ bs) r := by
  rw [Probed.binding?, if_neg hret]
  exact hinv

/-- The device of a function, where it is set. -/
theorem ccatOf_eq_ok {dev : Functions.CcatDevice} (h : ccatOf func = .ok dev) :
    func.ccat = some dev := by
  rw [ccatOf] at h
  split at h
  · rw [← Except.ok.inj h]
    assumption
  · cases h

/-- `ccat_cdev_probe()` of a function of a CCAT. -/
theorem cdevProbe_spec {iosize : Nat} {w : World} {ws : List Window} {q : ProbeResult}
    (hinv : CdevInv w ws) (hdoc : env.Documented) (h : cdevProbe env func iosize w = .ok q) :
    (q.status = 0 ∧ ∃ i, q.privateData = some i ∧
      CdevInv q.world (⟨i, func.ccat.elim 0 (·.bar0) + func.info.addr, iosize⟩ :: ws)) ∨
    (q.status ≠ 0 ∧ q.privateData = none ∧ CdevInv q.world ws) := by
  obtain ⟨dev, hdev, h⟩ := Except.bind_eq_ok_iff.mp h
  rw [ccatOf_eq_ok hdev]
  exact hinv.probe hdoc (Except.mapError_eq_ok_iff.mp h)

/-- The probe of an SRAM publishes its slot, or nothing. -/
theorem ccatSramProbe_spec (hinv : RegInv bs r) (hdoc : env.Documented)
    (h : ccatSramProbe env func r = .ok p) :
    RegInv ((p.binding? func).toList ++ bs) p.registry := by
  simp only [ccatSramProbe] at h
  split at h
  · -- a shift that is not defined does not return
    cases h
  · split at h
    · rw [← Except.pure_eq_ok_iff.mp h]
      exact hinv.refused (by decide)
    · rename_i hwidth
      obtain ⟨q, hq, h⟩ := Except.bind_eq_ok_iff.mp h
      rw [← Except.pure_eq_ok_iff.mp h]
      rcases cdevProbe_spec hinv.sram hdoc hq with ⟨hstatus, i, hi, hcdev⟩ | ⟨hstatus, -, hcdev⟩
      · simp only [Probed.binding?, hstatus, hi, if_true, Option.map_some, Option.toList_some,
          List.singleton_append]
        exact { hinv with
          sram := hcdev
          served := List.forall_mem_cons.mpr ⟨hwidth, hinv.served⟩ }
      · -- a failed probe may leave traces in its slot, but publishes nothing
        simp only [Probed.binding?, if_neg hstatus, Option.toList_none, List.nil_append]
        exact { hinv with sram := hcdev }

/-- The probe of a flash publishes its slot, or nothing. -/
theorem ccatUpdateProbe_spec (hinv : RegInv bs r) (hdoc : env.Documented)
    (h : ccatUpdateProbe env func r = .ok p) :
    RegInv ((p.binding? func).toList ++ bs) p.registry := by
  simp only [ccatUpdateProbe] at h
  split at h
  · rw [← Except.pure_eq_ok_iff.mp h]
    exact hinv.refused (by decide)
  · rename_i hrev
    obtain ⟨q, hq, h⟩ := Except.bind_eq_ok_iff.mp h
    rw [← Except.pure_eq_ok_iff.mp h]
    rcases cdevProbe_spec hinv.update hdoc hq with ⟨hstatus, i, hi, hcdev⟩ | ⟨hstatus, -, hcdev⟩
    · simp only [Probed.binding?, hstatus, hi, if_true, Option.map_some, Option.toList_some,
        List.singleton_append]
      exact { hinv with
        update := hcdev
        served := List.forall_mem_cons.mpr ⟨(not_not.mp hrev).symm, hinv.served⟩ }
    · simp only [Probed.binding?, if_neg hstatus, Option.toList_none, List.nil_append]
      exact { hinv with update := hcdev }

/-- The probe of a GPIO publishes its chip, or nothing. -/
theorem ccatGpioProbe_spec {kzalloc : Bool} {gpiochipAdd : Int} (hinv : RegInv bs r)
    (h : ccatGpioProbe kzalloc gpiochipAdd func r = .ok p) :
    RegInv ((p.binding? func).toList ++ bs) p.registry := by
  simp only [ccatGpioProbe] at h
  split at h
  · rw [← Except.pure_eq_ok_iff.mp h]
    exact hinv.refused (by decide)
  · obtain ⟨dev, hdev, h⟩ := Except.bind_eq_ok_iff.mp h
    split at h
    · rename_i hadd
      rw [← Except.pure_eq_ok_iff.mp h]
      exact hinv.refused hadd
    · rw [← Except.pure_eq_ok_iff.mp h]
      exact { hinv with
        chips := hinv.chips.cons _
        served := List.forall_mem_cons.mpr
          ⟨by simp [Binding.Served, Binding.ioaddr, ccatOf_eq_ok hdev], hinv.served⟩ }

/-- A net device is published when its probe returns 0. -/
theorem ethProbe_spec {ret : Int} (hinv : RegInv bs r) (h : ethProbe ret r = .ok p) :
    RegInv ((p.binding? func).toList ++ bs) p.registry := by
  simp only [ethProbe] at h
  split at h
  · rename_i hret
    rw [← Except.pure_eq_ok_iff.mp h]
    exact hinv.refused hret
  · rw [← Except.pure_eq_ok_iff.mp h]
    exact { hinv with
      netdevs := by
        show r.netdevs + 1 = (⟨func, .netdev⟩ :: bs).countP Binding.isNetdev
        rw [hinv.netdevs]
        exact (List.countP_cons_of_pos rfl).symm
      served := List.forall_mem_cons.mpr ⟨trivial, hinv.served⟩ }

/-- The clocksource of a probe has a name of its own, until the counter has wrapped around. -/
theorem systemtimeProbe_spec {a : Systemtime.Answers} (hinv : RegInv bs r)
    (h : systemtimeProbe a func r = .ok p) :
    RegInv ((p.binding? func).toList ++ bs) p.registry := by
  simp only [systemtimeProbe] at h
  split at h
  · rw [← Except.pure_eq_ok_iff.mp h]
    exact hinv.refused (by decide)
  · rename_i hkzalloc
    have hkzalloc : a.kzalloc = true := by simpa using hkzalloc
    obtain ⟨dev, hdev, h⟩ := Except.bind_eq_ok_iff.mp h
    rw [← Except.pure_eq_ok_iff.mp h]
    -- the counter goes up whether or not the clocksource is registered
    have hold : ∀ st ∈ r.clocks, ∀ s, st.clock.name = some s →
        ∃ n < r.systemtimeProbes + 1, s = clockName n := by
      intro st hst s hs
      obtain ⟨n, hn, hname⟩ := hinv.named st hst s hs
      exact ⟨n, by omega, hname⟩
    -- the counter is that of one more probe
    have hcounted : Systemtime.intInc r.systemtimeCnt = probeCount (r.systemtimeProbes + 1) := by
      rw [hinv.counted, probeCount_succ]
    by_cases hreg : a.register = 0
    · simp only [Systemtime.ccatSystemtimeProbe, hkzalloc, hreg, if_true, Probed.binding?,
        Option.map_some, Option.toList_some, List.singleton_append, Option.isSome_some]
      exact { hinv with
        clocks := hinv.clocks.cons _
        served := List.forall_mem_cons.mpr
          ⟨by simp [Binding.Served, Binding.ioaddr, ccatOf_eq_ok hdev], hinv.served⟩
        counted := hcounted
        -- the new name is that of this probe
        named := by
          intro st hst s hs
          rcases List.mem_cons.mp hst with rfl | hst
          · refine ⟨r.systemtimeProbes, Nat.lt_succ_self _, ?_⟩
            split at hs
            · rw [← Option.some.inj hs, hinv.counted]
              rfl
            · cases hs
          · exact hold st hst s hs
        distinct := by
          intro hle
          replace hle : r.systemtimeProbes + 1 ≤ 2 ^ 32 := hle
          have hdistinct := hinv.distinct (by omega)
          by_cases hname : a.kasprintf = true
          · rw [List.filterMap_cons_some (b := clockName r.systemtimeProbes)
              (by simp [hname, hinv.counted, clockName]), List.nodup_cons]
            refine ⟨fun hmem => ?_, hdistinct⟩
            -- the names before are those of earlier probes
            obtain ⟨st, hst, hs⟩ := List.mem_filterMap.mp hmem
            obtain ⟨n, hn, hname⟩ := hinv.named st hst _ hs
            have := clockName_inj (by omega) (by omega) hname
            omega
          · -- without memory for it there is no name
            rw [List.filterMap_cons_none (by simp [hname])]
            exact hdistinct }
    · simp only [Systemtime.ccatSystemtimeProbe, hkzalloc, hreg, if_true, if_false, Probed.binding?,
        Option.toList_none, List.nil_append, Option.isSome_none, Bool.false_eq_true]
      exact { hinv with
        counted := hcounted
        named := hold
        distinct := fun hle => hinv.distinct (Nat.le_of_succ_le hle) }

/-- The private data that a driver sets. -/
def Driver.sets : Driver → PrivateData → Bool
  | .ccatEthEim, .netdev => true
  | .ccatEthDma, .netdev => true
  | .ccatGpio, .gpio _ => true
  | .ccatUpdate, .update _ => true
  | .ccatSram, .sram _ => true
  | .ccatSystemtime, .systemtime _ => true
  | _, _ => false

/-- Each driver sets private data of its own kind only. -/
theorem Driver.probe_sets {a : DriverAnswers} {d : Driver} (h : d.probe a func r = .ok p)
    {data : PrivateData} (hdata : p.privateData = some data) : d.sets data = true := by
  cases d with
  | ccatEthEim =>
    simp only [Driver.probe, ethProbe] at h
    split at h <;> cases h <;> cases hdata
    rfl
  | ccatEthDma =>
    simp only [Driver.probe, ethProbe] at h
    split at h <;> cases h <;> cases hdata
    rfl
  -- a probe that fails sets no data
  | ccatGpio =>
    simp only [Driver.probe, ccatGpioProbe] at h
    split at h
    · cases h
      cases hdata
    · obtain ⟨dev, -, h⟩ := Except.bind_eq_ok_iff.mp h
      split at h <;> cases h <;> cases hdata
      rfl
  | ccatUpdate =>
    simp only [Driver.probe, ccatUpdateProbe] at h
    split at h
    · cases h
      cases hdata
    · obtain ⟨q, -, h⟩ := Except.bind_eq_ok_iff.mp h
      cases h
      obtain ⟨i, -, rfl⟩ := Option.map_eq_some_iff.mp hdata
      rfl
  | ccatSram =>
    simp only [Driver.probe, ccatSramProbe] at h
    split at h
    · cases h
    · split at h
      · cases h
        cases hdata
      · obtain ⟨q, -, h⟩ := Except.bind_eq_ok_iff.mp h
        cases h
        obtain ⟨i, -, rfl⟩ := Option.map_eq_some_iff.mp hdata
        rfl
  | ccatSystemtime =>
    simp only [Driver.probe, systemtimeProbe] at h
    split at h
    · cases h
      cases hdata
    · obtain ⟨dev, -, h⟩ := Except.bind_eq_ok_iff.mp h
      cases h
      obtain ⟨st, -, rfl⟩ := Option.map_eq_some_iff.mp hdata
      rfl

/-- A driver that is probed publishes what its private data says, or nothing. -/
theorem Driver.probe_spec {a : DriverAnswers} {d : Driver} (hinv : RegInv bs r)
    (hdoc : a.cdev.Documented) (h : d.probe a func r = .ok p) :
    RegInv ((p.binding? func).toList ++ bs) p.registry := by
  cases d with
  | ccatEthEim => exact ethProbe_spec hinv h
  | ccatEthDma => exact ethProbe_spec hinv h
  | ccatGpio => exact ccatGpioProbe_spec hinv h
  | ccatUpdate => exact ccatUpdateProbe_spec hinv hdoc h
  | ccatSram => exact ccatSramProbe_spec hinv hdoc h
  | ccatSystemtime => exact systemtimeProbe_spec hinv h

end Probe

/-! ## Removes -/

/-- A list of which one element is taken away. -/
private theorem perm_of_cons {α : Type} [DecidableEq α] {l l' : List α} {a : α}
    (h : l.Perm (a :: l')) : (l.erase a).Perm l' := by
  have herase := h.erase a
  rwa [List.erase_cons_head] at herase

/-- The remove of a driver takes back what it published, and returns. -/
theorem PrivateData.remove_spec {bs : List Binding} {r : Registry} {x : Binding}
    (hinv : RegInv (x :: bs) r) : ∃ r', x.data.remove r = .ok r' ∧ RegInv bs r' := by
  have hserved : ∀ y ∈ bs, y.Served := fun y hy => hinv.served y (List.mem_cons_of_mem x hy)
  obtain ⟨func, data⟩ := x
  cases data with
  -- one net device less
  | netdev =>
    refine ⟨_, rfl, { hinv with netdevs := ?_, served := hserved }⟩
    have hcount : r.netdevs = bs.countP Binding.isNetdev + 1 :=
      hinv.netdevs.trans (List.countP_cons_of_pos rfl)
    show r.netdevs - 1 = _
    omega
  | gpio gpio =>
    exact ⟨_, rfl, { hinv with chips := perm_of_cons hinv.chips, served := hserved }⟩
  -- the table takes its window back
  | update slot =>
    obtain ⟨w, hremove, hcdev⟩ := hinv.update.remove
    refine ⟨{ r with update := w }, ?_, { hinv with update := hcdev, served := hserved }⟩
    show (ccatCdevRemove slot r.update).mapError Fault.oops >>= _ = _
    rw [hremove]
    rfl
  | sram slot =>
    obtain ⟨w, hremove, hcdev⟩ := hinv.sram.remove
    refine ⟨{ r with sram := w }, ?_, { hinv with sram := hcdev, served := hserved }⟩
    show (ccatCdevRemove slot r.sram).mapError Fault.oops >>= _ = _
    rw [hremove]
    rfl
  | systemtime st =>
    -- fewer names, and the counter does not go down
    have hsub : (r.clocks.erase st).Sublist r.clocks := List.erase_sublist
    exact ⟨_, rfl, { hinv with
      clocks := perm_of_cons hinv.clocks
      served := hserved
      named := fun st' hst' => hinv.named st' (hsub.mem hst')
      distinct := fun hle => (hinv.distinct hle).sublist (hsub.filterMap _) }⟩

/-! ## Children -/

/-- The binding of a child. -/
def Child.binding? (c : Child) : Option Binding := c.bound.map fun data => ⟨c.func, data⟩

/-- The private data of a child is of its driver. -/
def Child.Driven (c : Child) : Prop :=
  ∀ data, c.bound = some data → ∃ d, driverFor? c.name = some d ∧ d.sets data = true

/-- Probing the driver of a child that has none adds at most the binding of the child. -/
theorem attach_spec {a : DriverAnswers} {c : Child} {bs : List Binding} {r : Registry}
    {s : Child × Registry} (hinv : RegInv bs r) (hdoc : a.cdev.Documented) (hc : c.bound = none)
    (h : attach a c r = .ok s) :
    s.1 = { c with bound := s.1.bound } ∧ s.1.Driven ∧
      RegInv (s.1.binding?.toList ++ bs) s.2 := by
  have hdriven : c.Driven := by
    intro data hdata
    rw [hc] at hdata
    cases hdata
  have hnone : RegInv (c.binding?.toList ++ bs) r := by
    simpa [Child.binding?, hc] using hinv
  rw [attach] at h
  -- a child whose name no driver has stays as it is
  split at h
  · rw [← Except.pure_eq_ok_iff.mp h]
    exact ⟨rfl, hdriven, hnone⟩
  · rename_i d hd
    obtain ⟨p, hp, h⟩ := Except.bind_eq_ok_iff.mp h
    rw [← Except.pure_eq_ok_iff.mp h]
    have hprobe := Driver.probe_spec hinv hdoc hp
    -- the binding is that of the probe
    by_cases hret : p.ret = 0
    · rw [Probed.binding?, if_pos hret] at hprobe
      simp only [if_pos hret, true_and]
      exact ⟨fun data hdata => ⟨d, hd, Driver.probe_sets hp hdata⟩, hprobe⟩
    · -- the kernel does not bind a driver whose probe failed
      rw [Probed.binding?, if_neg hret] at hprobe
      simp only [if_neg hret]
      refine ⟨trivial, hdriven, ?_⟩
      rw [Child.binding?, hc]
      exact hprobe

/-- Removing the driver of a child takes the binding of the child away. -/
theorem detach_spec {c : Child} {bs : List Binding} {r : Registry}
    (hinv : RegInv (c.binding?.toList ++ bs) r) : ∃ r', detach c r = .ok r' ∧ RegInv bs r' := by
  rw [detach]
  cases hc : c.bound with
  | none =>
    simp only [Child.binding?, hc] at hinv
    exact ⟨r, rfl, hinv⟩
  | some data =>
    simp only [Child.binding?, hc] at hinv
    exact PrivateData.remove_spec hinv

end Ccat.Native.Device
