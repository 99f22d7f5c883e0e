import Ccat.Spec.UpdateScriptCorrect

/-!
# The update script loses no configuration

Whatever a run of the script and the flash it programs do, the configuration from before
the run is not lost: it is still in the flash, or the backup file has it, unless the new
configuration was found in the flash. The device can be used again after every run, so
this holds of every run in a sequence of runs.

## Key results

- `restore_safe`: the restore branch removes the backup only when it is in the flash
- `flashAndVerify_safe`: so does the script from the backup on
- `updateCcat_safe`: any run in any sequence of runs
-/

namespace Ccat.Native.UpdateScript

open Memory Update

/-- The device is probed, not open and idle. -/
structure Usable (h : Host) : Prop where
  probed : Probed h.ccdev
  idle : h.hw.Idle

/-- The configuration `old` is in the flash or in the backup file of the run, unless the new one
    is in the flash. -/
def Kept (env : Env) (old : List UInt8) (h : Host) : Prop :=
  (∃ new, env.rbf = some new ∧ new <+: window h.hw.flash) ∨ window h.hw.flash = old ∨
    h.backup env.name = some old

/-- The files of runs with another `*.rbf` are left alone. -/
def OthersKept (env : Env) (h h' : Host) : Prop :=
  ∀ name, name ≠ env.name → h'.backup name = h.backup name ∧ h'.tmp name = h.tmp name

/-- A run from `h` that ends with `status` in `h'`. -/
structure Safe (env : Env) (h : Host) (status : Nat) (h' : Host) : Prop where
  usable : Usable h'
  kept : Kept env (window h.hw.flash) h'
  /-- The run leaves no `$backup` or its own, or it did not get to the device and changed
      nothing, not even the `$backup` of an earlier run. -/
  backup : h'.backup env.name = none ∨ h'.backup env.name = some (window h.hw.flash) ∨
    status ≠ 0 ∧ h' = h
  /-- A run that ends well removes `$tmp`. -/
  tmp : status = 0 → h'.tmp env.name = none
  others : OthersKept env h h'

/-! ## The restore branch -/

/-- `diff` compares the files as a whole. -/
theorem diff_eq_zero_iff {a b : List UInt8} : diff a b = 0 ↔ a = b := by
  rw [diff]
  by_cases h : a = b
  · rw [if_pos h]
    exact ⟨fun _ => h, fun _ => rfl⟩
  · rw [if_neg h]
    exact ⟨fun hne => absurd hne Nat.one_ne_zero, fun heq => absurd heq h⟩

/-- The restore ends with the old content in the flash and no backup, or it keeps the backup. -/
theorem restore_safe (env : Env) {h : Host} (hu : Usable h) {flash : Nat → UInt8}
    (hbackup : h.backup env.name = some (window flash)) :
    ∃ h', restore env h (window flash) = (0, h') ∧ Usable h' ∧ h'.tmp env.name = none ∧
      (h'.backup env.name = none ∧ window h'.hw.flash = window flash ∨
        h'.backup env.name = some (window flash)) ∧ OthersKept env h h' := by
  have hfit : (window flash).length ≤ CCAT_FLASH_SIZE := by rw [window, length_slice]
  obtain ⟨hw₁, s, hto, hidle₁, -⟩ := catTo_spec env h (window flash) hu.probed hu.idle
  obtain ⟨hw₂, hfrom, hrest⟩ := catFrom_spec env { h with hw := hw₁, sessions := h.sessions ++ [s] }
    hu.probed hidle₁
  rw [restore, hto, if_pos hfit]
  simp only [ne_eq, not_true_eq_false, if_false, hfrom, diff_eq_zero_iff]
  by_cases hsame : window flash = window hw₁.flash
  · rw [if_pos hsame]
    refine ⟨_, rfl, ⟨hu.probed, hrest.toIdle⟩, ?_, .inl ⟨?_, ?_⟩, fun name hname => ?_⟩
    · simp [Host.setTmp]
    · simp [Host.setBackup, Host.setTmp]
    · simp only [Host.setBackup, Host.setTmp, hrest.flash_eq, hsame]
    · simp [Host.setBackup, Host.setTmp, hname]
  · rw [if_neg hsame]
    refine ⟨_, rfl, ⟨hu.probed, hrest.toIdle⟩, ?_, .inr hbackup, fun name hname => ?_⟩
    · simp [Host.setTmp]
    · simp [Host.setTmp, hname]

/-! ## One run -/

/-- Once the backup is made, the old content is in the flash or in the backup unless the new one was
    found in the flash. -/
theorem flashAndVerify_safe (env : Env) {h : Host} (hu : Usable h) {rbf : List UInt8}
    (hrbf : env.rbf = some rbf) :
    Safe env h (flashAndVerify env h rbf).1 (flashAndVerify env h rbf).2 := by
  obtain ⟨hw₁, hfrom₁, hrest₁⟩ := catFrom_spec env h hu.probed hu.idle
  obtain ⟨hw₂, s, hto, hidle₂, -⟩ := catTo_spec env
    { h with hw := hw₁, backup := Function.update h.backup env.name (some (window h.hw.flash)) }
    rbf hu.probed hrest₁.toIdle
  obtain ⟨hw₃, hfrom₃, hrest₃⟩ := catFrom_spec env
    { h with
      hw := hw₂
      backup := Function.update h.backup env.name (some (window h.hw.flash))
      sessions := h.sessions ++ [s] }
    hu.probed hidle₂
  rw [flashAndVerify, hfrom₁]
  simp only [ne_eq, not_true_eq_false, if_false, Host.setBackup, hto]
  by_cases hfit : rbf.length ≤ CCAT_FLASH_SIZE
  · have hwindow : window hw₂.flash = window hw₃.flash := by rw [hrest₃.flash_eq]
    -- what is compared is what was read back
    simp only [if_pos hfit, not_true_eq_false, if_false, hfrom₃, diff_eq_zero_iff, hwindow]
    by_cases hsame : rbf = truncate rbf.length (window hw₃.flash)
    · -- the flash is at least as long as the file, so the file is a prefix of it
      have hbegins : rbf <+: window hw₃.flash := by
        rw [truncate, window, length_slice, Nat.sub_eq_zero_of_le hfit, List.replicate_zero,
          List.append_nil] at hsame
        exact List.prefix_iff_eq_take.mpr hsame
      rw [if_pos hsame]
      refine ⟨⟨hu.probed, hrest₃.toIdle⟩, .inl ⟨rbf, hrbf, hbegins⟩, .inl ?_, fun _ => ?_,
        fun name hname => ?_⟩
      · simp
      · simp [Host.setTmp]
      · simp [Host.setTmp, hname]
    · rw [if_neg hsame]
      obtain ⟨h', hrestore, husable, htmp, hbackup, hothers⟩ := restore_safe env
        (h := { h with
          hw := hw₃
          backup := Function.update h.backup env.name (some (window h.hw.flash))
          tmp := Function.update h.tmp env.name (some (truncate rbf.length (window hw₃.flash)))
          sessions := h.sessions ++ [s] })
        ⟨hu.probed, hrest₃.toIdle⟩ (Function.update_self ..)
      rw [Host.setTmp, hrestore]
      -- the files of other names are neither written nor removed
      replace hothers : OthersKept env h h' := by
        intro name hname
        obtain ⟨hbackup, htmp⟩ := hothers name hname
        exact ⟨hbackup.trans (Function.update_of_ne hname _ _),
          htmp.trans (Function.update_of_ne hname _ _)⟩
      obtain ⟨hnone, hflash⟩ | hsome := hbackup
      · exact ⟨husable, .inr (.inl hflash), .inl hnone, fun _ => htmp, hothers⟩
      · exact ⟨husable, .inr (.inr hsome), .inr (.inl hsome), fun _ => htmp, hothers⟩
  · -- `cat` could not write all of the file, and the backup stays
    simp only [if_neg hfit, Nat.one_ne_zero, not_false_eq_true, if_true]
    have hbackup : Function.update h.backup env.name (some (window h.hw.flash)) env.name =
        some (window h.hw.flash) := Function.update_self ..
    exact ⟨⟨hu.probed, hidle₂⟩, .inr (.inr hbackup), .inr (.inl hbackup),
      fun hne => absurd hne Nat.one_ne_zero,
      fun name hname => ⟨Function.update_of_ne hname _ _, rfl⟩⟩

/-- A run that does not get to the device. -/
theorem Safe.stop {h : Host} (hu : Usable h) (env : Env) {status : Nat} (hne : status ≠ 0) :
    Safe env h status h :=
  ⟨hu, .inr (.inl rfl), .inr (.inr ⟨hne, rfl⟩), fun hzero => absurd hzero hne,
    fun _ _ => ⟨rfl, rfl⟩⟩

/-- One run of the script. -/
theorem updateCcat_safe_run (env : Env) {h : Host} (hu : Usable h) :
    Safe env h (updateCcat env h).1 (updateCcat env h).2 := by
  rw [updateCcat]
  split
  · exact .stop hu _ (Nat.succ_ne_zero _)
  · cases hrbf : env.rbf with
    | none => exact .stop hu _ (Nat.succ_ne_zero _)
    | some rbf =>
      simp only
      split
      · exact .stop hu _ (Nat.succ_ne_zero _)
      · exact flashAndVerify_safe env hu hrbf

/-! ## Sequences of runs -/

/-- The host after runs of the script, one after another. -/
def afterRuns (h : Host) (envs : List Env) : Host :=
  envs.foldl (fun h env => (updateCcat env h).2) h

/-- After any runs the device can be used again. -/
theorem usable_afterRuns {h : Host} (hu : Usable h) (envs : List Env) :
    Usable (afterRuns h envs) := by
  induction envs generalizing h with
  | nil => exact hu
  | cons env envs ih => exact ih (updateCcat_safe_run env hu).usable

/-- **No configuration is lost.** After any runs of the script with any files, any chunk sizes of
    `cat` and any faults of the flash, the next run leaves the device usable, removes its backup
    of the flash only when the flash was found to hold the new configuration or the backup, and
    does not touch the files of runs with another `*.rbf`. -/
theorem updateCcat_safe (h : Host) (hu : Usable h) (envs : List Env) (env : Env) :
    Safe env (afterRuns h envs) (updateCcat env (afterRuns h envs)).1
      (updateCcat env (afterRuns h envs)).2 :=
  updateCcat_safe_run env (usable_afterRuns hu envs)

/-- A file too long for the flash, in chunks of which none fits. -/
private def tooLong : Env :=
  ⟨2, "long.rbf", some (List.replicate (CCAT_FLASH_SIZE + 1) 0), true, 2 ^ 20, by decide,
    by decide, fun _ _ _ => 0⟩

/-- A run whose flash ends up zeroed, behind one that kept its backup: that backup is still there,
    and the device can be used. -/
theorem updateCcat_safe_broken :
    Kept (.oneByte fun _ _ _ => 0) (window (afterRuns .erased [tooLong]).hw.flash)
        (updateCcat (.oneByte fun _ _ _ => 0) (afterRuns .erased [tooLong])).2 ∧
      Usable (updateCcat (.oneByte fun _ _ _ => 0) (afterRuns .erased [tooLong])).2 ∧
      (updateCcat (.oneByte fun _ _ _ => 0) (afterRuns .erased [tooLong])).2.backup "long.rbf" =
        (afterRuns .erased [tooLong]).backup "long.rbf" := by
  have hsafe := updateCcat_safe .erased ⟨⟨rfl, rfl⟩, ⟨rfl, rfl⟩⟩ [tooLong] (.oneByte fun _ _ _ => 0)
  exact ⟨hsafe.kept, hsafe.usable, (hsafe.others "long.rbf" (by decide)).1⟩

end Ccat.Native.UpdateScript
