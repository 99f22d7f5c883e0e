import Ccat.Native.SramBoard
import Ccat.ForStd.Except
import Ccat.Spec.CdevHandles
import Ccat.Spec.SramCorrect

/-!
# Files on SRAM devices that come and go

A file whose device is still there reads and writes the window it was opened on. A file
that outlived its device works on whatever device has its slot by then, through a buffer
of the size of the old window, so that it overruns the buffer exactly if the new window
is larger.

## Key results

- `SramFile.Frame`, `call_frame`: what a call leaves alone
- `SramStep.inv`: probes, removes, opens, closes and calls
- `sram_files_contained`: which files are safe to use, in every state of every run
-/

namespace Ccat.Native.Sram

open Memory

/-! ## One call -/

/-- What a call leaves alone: the size of the window, the slot of the buffer, and all that is
    behind the window. -/
structure SramFile.Frame (f f' : SramFile) : Prop where
  iosize : f'.iosize = f.iosize
  slot : f'.buffer.ccdev = f.buffer.ccdev
  beyond : ∀ k, f.iosize ≤ k → f'.sram k = f.sram k

theorem SramFile.Frame.refl (f : SramFile) : f.Frame f := ⟨rfl, rfl, fun _ _ => rfl⟩

variable {f f' : SramFile} {a : Answer}

/-- `ccat_sram_read()` changes the buffer alone. -/
theorem ccatSramRead_frame {limit len off : Nat} (h : ccatSramRead f limit len off = some (a, f')) :
    f.Frame f' ∧ f'.pos = f.pos ∧ a.off ≤ max off f.iosize := by
  simp only [ccatSramRead] at h
  split at h
  · simp only [Option.some.injEq, Prod.mk.injEq] at h
    obtain ⟨rfl, rfl⟩ := h
    exact ⟨.refl f, rfl, Nat.le_max_left _ _⟩
  · rename_i hlt
    simp only [sramRead, memcpyFromio] at h
    split at h
    · simp only [Option.bind_eq_bind, Option.bind_some] at h
      split at h
      · simp only [Option.pure_def, Option.some.injEq, Prod.mk.injEq] at h
        obtain ⟨rfl, rfl⟩ := h
        exact ⟨⟨rfl, rfl, fun _ _ => rfl⟩, rfl, Nat.le_max_left _ _⟩
      · simp only [Option.pure_def, Option.some.injEq, Prod.mk.injEq] at h
        obtain ⟨rfl, rfl⟩ := h
        refine ⟨⟨rfl, rfl, fun _ _ => rfl⟩, rfl, ?_⟩
        dsimp only
        omega
    · cases h

/-- `ccat_sram_write()` changes the buffer and the window. -/
theorem ccatSramWrite_frame {limit off : Nat} {buf : List UInt8}
    (h : ccatSramWrite f limit buf off = some (a, f')) :
    f.Frame f' ∧ f'.pos = f.pos ∧ a.off ≤ max off f.iosize := by
  simp only [ccatSramWrite] at h
  split at h
  · simp only [Option.some.injEq, Prod.mk.injEq] at h
    obtain ⟨rfl, rfl⟩ := h
    exact ⟨.refl f, rfl, Nat.le_max_left _ _⟩
  · simp only [copyToBuffer] at h
    split at h
    · simp only [Option.bind_eq_bind, Option.bind_some] at h
      split at h
      · simp only [Option.pure_def, Option.some.injEq, Prod.mk.injEq] at h
        obtain ⟨rfl, rfl⟩ := h
        exact ⟨⟨rfl, rfl, fun _ _ => rfl⟩, rfl, Nat.le_max_left _ _⟩
      · simp only [memcpyToio] at h
        split at h
        · -- the only bytes that change are inside the window
          rename_i hfit
          simp only [Option.bind_some, Option.pure_def, Option.some.injEq, Prod.mk.injEq] at h
          obtain ⟨rfl, rfl⟩ := h
          refine ⟨⟨rfl, rfl, fun k hk => ?_⟩, rfl, ?_⟩
          · apply blit_of_ge
            rw [length_slice]
            exact Nat.le_trans hfit.1 hk
          · exact Nat.le_trans hfit.1 (Nat.le_max_right _ _)
        · cases h
    · cases h

section Call

variable {llseek : Llseek}

/-- A call stays inside the window, and moves the position no further than to its end. -/
theorem call_frame (hseek : ∀ pos offset whence size p,
      llseek pos offset whence size = .ok p → p ≤ size)
    {c : Call} (h : f.call llseek c = some (a, f')) :
    f.Frame f' ∧ f'.pos ≤ max f.pos f.iosize := by
  cases c with
  | read off len limit =>
    cases off with
    | none =>
      simp only [SramFile.call] at h
      obtain ⟨⟨a₁, f₁⟩, hread, h⟩ := Option.bind_eq_some_iff.mp h
      simp only [Option.pure_def, Option.some.injEq, Prod.mk.injEq] at h
      obtain ⟨rfl, rfl⟩ := h
      -- a plain `read` moves the position to where it ended
      obtain ⟨hframe, -, hoff⟩ := ccatSramRead_frame hread
      exact ⟨⟨hframe.iosize, hframe.slot, hframe.beyond⟩, hoff⟩
    | some off =>
      -- a `pread` leaves it alone
      obtain ⟨hframe, hpos, -⟩ := ccatSramRead_frame h
      exact ⟨hframe, hpos ▸ Nat.le_max_left _ _⟩
  | write off buf limit =>
    cases off with
    | none =>
      simp only [SramFile.call] at h
      obtain ⟨⟨a₁, f₁⟩, hwrite, h⟩ := Option.bind_eq_some_iff.mp h
      simp only [Option.pure_def, Option.some.injEq, Prod.mk.injEq] at h
      obtain ⟨rfl, rfl⟩ := h
      obtain ⟨hframe, -, hoff⟩ := ccatSramWrite_frame hwrite
      exact ⟨⟨hframe.iosize, hframe.slot, hframe.beyond⟩, hoff⟩
    | some off =>
      obtain ⟨hframe, hpos, -⟩ := ccatSramWrite_frame h
      exact ⟨hframe, hpos ▸ Nat.le_max_left _ _⟩
  | seek offset whence =>
    simp only [SramFile.call, ccatCdevLlseek, Option.some.injEq] at h
    split at h
    · rename_i p hp
      cases h
      exact ⟨⟨rfl, rfl, fun _ _ => rfl⟩, Nat.le_trans (hseek _ _ _ _ p hp) (Nat.le_max_right _ _)⟩
    · cases h
      exact ⟨.refl f, Nat.le_max_left _ _⟩

/-- Every call on a window returns. -/
theorem call_isSome (hpos : f.pos < 2 ^ 63) {c : Call} (hc : c.InRange) :
    (f.call llseek c).isSome := by
  cases c with
  | read off len limit =>
    cases off with
    | none =>
      obtain ⟨f', hread, -⟩ := ccatSramRead_refines f limit len f.pos
      simp [SramFile.call, hread]
    | some off =>
      obtain ⟨f', hread, -⟩ := ccatSramRead_refines f limit len off
      simp [SramFile.call, hread]
  | write off buf limit =>
    cases off with
    | none =>
      have hlen : buf.length < 2 ^ 63 := hc
      obtain ⟨f', hwrite, -⟩ := ccatSramWrite_refines f limit buf f.pos (by omega)
      simp [SramFile.call, hwrite]
    | some off =>
      have hlen : off + buf.length < 2 ^ 63 := hc
      obtain ⟨f', hwrite, -⟩ := ccatSramWrite_refines f limit buf off (by omega)
      simp [SramFile.call, hwrite]
  | seek offset whence => rfl

/-- A call moves no more bytes than the window has. -/
theorem Call.staged_le {c : Call} (hc : c.InRange) {iosize pos : Nat} (hpos : pos < 2 ^ 63) :
    c.staged iosize pos ≤ iosize := by
  cases c with
  | read off len limit =>
    simp only [Call.staged]
    split <;> omega
  | write off buf limit =>
    -- the sum does not wrap around
    have hlen : off.getD pos + buf.length < 2 ^ 64 := by
      cases off with
      | none =>
        have hlen : buf.length < 2 ^ 63 := hc
        simp only [Option.getD_none]
        omega
      | some off =>
        have hlen : off + buf.length < 2 ^ 63 := hc
        simp only [Option.getD_some]
        omega
    simp only [Call.staged, Nat.mod_eq_of_lt hlen]
    split <;> omega
  | seek offset whence => exact Nat.zero_le _

end Call

/-! ## What happens to the devices -/

/-- Window and size of every slot stay as they are. -/
def SameWindows (w w' : World) : Prop :=
  ∀ j, (w'.base.devices j).ioaddr = (w.base.devices j).ioaddr ∧
    (w'.base.devices j).iosize = (w.base.devices j).iosize

/-- A size that `ccat_sram_probe()` computes. -/
def SramSize (n : Nat) : Prop := 0 < n ∧ n < 2 ^ 31

/-- A shift of less than 31 gives a size that fits into an `int`. -/
theorem sramIosize_size {n : Nat} (h : n < 31) : SramSize (sramIosize n) := by
  rw [sramIosize, Nat.one_shiftLeft]
  exact ⟨Nat.two_pow_pos n, Nat.pow_lt_pow_right (by decide) h⟩

/-- A probe fills in at most one slot, which was free. -/
theorem ccatCdevProbe_windows {func : CcatFunction} {iosize : Nat} {env : ProbeEnv} {w : World}
    {bound : List Nat} {r : ProbeResult} (hinv : TableInv w bound) (hdoc : env.Documented)
    (h : ccatCdevProbe func iosize env w = .ok r) (j : Nat) :
    r.world.base.devices j = w.base.devices j ∧ r.privateData ≠ some j ∨
    j ∉ bound ∧ (r.world.base.devices j).iosize = iosize := by
  rcases ccatCdevProbe_cases hinv hdoc h with
    ⟨rfl, -⟩ | ⟨m, id, i, -, -, hfree, hr⟩
  · exact .inl ⟨rfl, (Option.some_ne_none j).symm⟩
  · have hi : i ∉ bound := fun hmem => (hinv.dev_ne_zero i).mpr hmem (firstFree_some hfree).2
    by_cases hj : j = i
    · subst hj
      right
      rcases hr with rfl | rfl
      · rw [published_devices, if_pos rfl]
        exact ⟨hi, rfl⟩
      · -- the slot keeps what the failed probe stored in it
        refine ⟨hi, ?_⟩
        dsimp only
        rw [undone, setDevice_devices_self, ccatClassExit_devices, claimed, setDevice_devices_self]
    · left
      rcases hr with rfl | rfl
      · rw [published_devices, if_neg hj]
        refine ⟨rfl, fun heq => hj ?_⟩
        exact (Option.some.inj heq).symm
      · exact ⟨undone_devices_ne func iosize m i _ hj, (Option.some_ne_none j).symm⟩

/-- `ccat_sram_probe()` fills in at most one slot, which was free, with a size of its own. -/
theorem ccatSramProbe_windows {env : ProbeEnv} {func : Functions.CcatFunction} {s : SramBoard}
    {p : Device.Probed} (hinv : TableInv s.registry.sram s.bound) (hdoc : env.Documented)
    (h : Device.ccatSramProbe env func s.registry = .ok p) :
    TableInv (s.probed p).registry.sram (s.probed p).bound ∧
    ∀ j, (s.probed p).device j = s.device j ∧ (j ∈ (s.probed p).bound ↔ j ∈ s.bound) ∨
      j ∉ s.bound ∧ SramSize ((s.probed p).device j).iosize := by
  simp only [Device.ccatSramProbe] at h
  split at h
  · cases h
  · rename_i hshift
    split at h
    · -- no SRAM is connected
      rw [← Except.pure_eq_ok_iff.mp h]
      exact ⟨hinv, fun j => .inl ⟨rfl, Iff.rfl⟩⟩
    · obtain ⟨q, hq, h⟩ := Except.bind_eq_ok_iff.mp h
      obtain ⟨dev, -, hq⟩ := Except.bind_eq_ok_iff.mp hq
      have hprobe := Except.mapError_eq_ok_iff.mp hq
      rw [← Except.pure_eq_ok_iff.mp h]
      have hbound : (s.probed ⟨q.status, q.privateData.map .sram,
          { s.registry with sram := q.world }⟩).bound = q.privateData.toList ++ s.bound := by
        cases hdata : q.privateData with
        | none => rfl
        | some i => rfl
      rw [hbound]
      -- the slot that is filled in is the only one that changes
      refine ⟨hinv.probe hdoc hprobe, fun j => ?_⟩
      rcases ccatCdevProbe_windows hinv hdoc hprobe j with ⟨hdevice, hne⟩ | ⟨hfree, hsize⟩
      · refine .inl ⟨hdevice, ?_⟩
        rw [List.mem_append, Option.mem_toList]
        exact or_iff_right hne
      · right
        refine ⟨hfree, ?_⟩
        show SramSize (q.world.base.devices j).iosize
        rw [hsize]
        exact sramIosize_size (Nat.lt_of_not_le hshift)

/-! ## The invariant -/

/-- An open file: a file that is no orphan is on the window it was opened on, and its buffer has
    the size of that window. -/
structure FileInv (s : SramBoard) (f : SramOpen) : Prop where
  size : SramSize (s.device f.buffer.ccdev).iosize
  pos_lt : f.pos < 2 ^ 31
  own : f.orphan = false → f.buffer.ccdev ∈ s.bound ∧
    (s.device f.buffer.ccdev).ioaddr = f.ioaddr ∧
    (s.device f.buffer.ccdev).iosize = f.capacity ∧ f.pos ≤ f.capacity

structure SramInv (s : SramBoard) : Prop where
  table : TableInv s.registry.sram s.bound
  bound_size : ∀ slot ∈ s.bound, SramSize (s.device slot).iosize
  file : ∀ fd f, s.files fd = some f → FileInv s f

/-- One event. A device is opened while it is there; files are used and closed at any time. -/
inductive SramStep (llseek : Llseek) : SramBoard → SramBoard → Prop where
  | probe {s} (env : ProbeEnv) (func : Functions.CcatFunction) (p : Device.Probed) :
      env.Documented → Device.ccatSramProbe env func s.registry = .ok p →
      SramStep llseek s (s.probed p)
  | remove {s} (slot : Nat) (r : Device.Registry) : slot ∈ s.bound →
      Device.PrivateData.remove s.registry (.sram slot) = .ok r →
      SramStep llseek s (s.removed slot r)
  | openFile {s} (fd slot : Nat) (kzalloc : Bool) : slot ∈ s.bound → s.files fd = none →
      SramStep llseek s (s.openFile fd slot kzalloc).2
  | closeFile {s} (fd : Nat) (f : SramOpen) : s.files fd = some f →
      SramStep llseek s (s.closeFile fd f).2
  | call {s} (fd : Nat) (c : Call) (a : Answer) (s' : SramBoard) : c.InRange →
      s.call llseek fd c = some (a, s') → SramStep llseek s s'

/-- Nothing is published and nothing is open. -/
def SramBoard.init (io : Nat → UInt8) : SramBoard where
  registry := .init
  bound := []
  io := io
  files := fun _ => none

inductive SramReach (llseek : Llseek) : SramBoard → Prop where
  | init (io : Nat → UInt8) : SramReach llseek (.init io)
  | step {s s'} : SramReach llseek s → SramStep llseek s s' → SramReach llseek s'

theorem SramInv.init (io : Nat → UInt8) : SramInv (.init io) where
  table := TableInv.init _ _
  bound_size := by simp [SramBoard.init]
  file := by simp [SramBoard.init]

/-- A file is as it was if window, size and binding of its slot are. -/
theorem FileInv.congr {s s' : SramBoard} {f : SramOpen} (h : FileInv s f)
    (hioaddr : (s'.device f.buffer.ccdev).ioaddr = (s.device f.buffer.ccdev).ioaddr)
    (hiosize : (s'.device f.buffer.ccdev).iosize = (s.device f.buffer.ccdev).iosize)
    (hbound : f.orphan = false → f.buffer.ccdev ∈ s.bound → f.buffer.ccdev ∈ s'.bound) :
    FileInv s' f where
  size := hiosize ▸ h.size
  pos_lt := h.pos_lt
  own horphan := by
    obtain ⟨hmem, hown⟩ := h.own horphan
    rw [hioaddr, hiosize]
    exact ⟨hbound horphan hmem, hown⟩

/-- A probe takes a free slot, which no file of a device that is still there uses. -/
theorem SramInv.probe {env : ProbeEnv} {func : Functions.CcatFunction} {s : SramBoard}
    {p : Device.Probed} (hinv : SramInv s) (hdoc : env.Documented)
    (h : Device.ccatSramProbe env func s.registry = .ok p) : SramInv (s.probed p) := by
  obtain ⟨htable, hslots⟩ := ccatSramProbe_windows hinv.table hdoc h
  refine ⟨htable, fun slot hslot => ?_, fun fd f hf => ?_⟩
  · rcases hslots slot with ⟨hdevice, hbound⟩ | ⟨-, hsize⟩
    · rw [hdevice]
      exact hinv.bound_size slot (hbound.mp hslot)
    · exact hsize
  · have hfile := hinv.file fd f hf
    rcases hslots f.buffer.ccdev with ⟨hdevice, hbound⟩ | ⟨hfree, hsize⟩
    · exact hfile.congr (by rw [hdevice]) (by rw [hdevice]) fun _ => hbound.mpr
    · -- only orphans are on a free slot
      exact ⟨hsize, hfile.pos_lt, fun horphan => absurd (hfile.own horphan).1 hfree⟩

/-- A remove orphans the files of its slot. -/
theorem SramInv.remove {s : SramBoard} {slot : Nat} {r : Device.Registry} (hinv : SramInv s)
    (hslot : slot ∈ s.bound)
    (h : Device.PrivateData.remove s.registry (.sram slot) = .ok r) :
    SramInv (s.removed slot r) := by
  simp only [Device.PrivateData.remove] at h
  obtain ⟨w, hw, h⟩ := Except.bind_eq_ok_iff.mp h
  have hremove := Except.mapError_eq_ok_iff.mp hw
  rw [← Except.pure_eq_ok_iff.mp h]
  obtain ⟨w', hspec, -, -, hdevices⟩ := ccatCdevRemove_spec hinv.table hslot
  rw [hremove] at hspec
  cases hspec
  -- the slot keeps its window; only its `dev` marker is cleared
  have hsame : SameWindows s.registry.sram w := by
    intro j
    rw [hdevices]
    split <;> exact ⟨rfl, rfl⟩
  refine ⟨hinv.table.remove hslot hremove, fun j hj => ?_, fun fd f hf => ?_⟩
  · show SramSize (w.base.devices j).iosize
    rw [(hsame j).2]
    exact hinv.bound_size j (List.mem_of_mem_erase hj)
  · obtain ⟨f₀, hf₀, rfl⟩ := Option.map_eq_some_iff.mp hf
    have hfile := hinv.file fd f₀ hf₀
    -- files of the slot have lost their device
    by_cases hon : f₀.buffer.ccdev = slot
    · rw [if_pos hon]
      refine ⟨?_, hfile.pos_lt, fun horphan => absurd horphan Bool.noConfusion⟩
      show SramSize (w.base.devices f₀.buffer.ccdev).iosize
      rw [(hsame _).2]
      exact hfile.size
    · rw [if_neg hon]
      refine hfile.congr (hsame _).1 (hsame _).2 fun _ hmem => ?_
      exact (List.mem_erase_of_ne hon).mpr hmem

/-- `ccat_cdev_open()` does not change the window. -/
theorem ccatCdevOpen_window (i : Nat) (kzalloc : Bool) (d : CcatCdev) :
    (ccatCdevOpen i kzalloc d).2.2.ioaddr = d.ioaddr ∧
      (ccatCdevOpen i kzalloc d).2.2.iosize = d.iosize := by
  by_cases hzero : d.inUse - 1 ≠ 0
  · simp [ccatCdevOpen, hzero]
  · cases kzalloc <;> simp [ccatCdevOpen, hzero]

/-- Opening and closing change nothing but `in_use` of a slot. -/
theorem SramInv.setSlot {s : SramBoard} (hinv : SramInv s) (slot : Nat)
    {g : CcatCdev → CcatCdev} (hdev : ∀ d, (g d).dev = d.dev) (hcls : ∀ d, (g d).cls = d.cls)
    (hioaddr : ∀ d, (g d).ioaddr = d.ioaddr) (hiosize : ∀ d, (g d).iosize = d.iosize) :
    SramInv { s with registry := updateSlot s.registry slot g } := by
  have hsame : SameWindows s.registry.sram (setDevice slot g s.registry.sram) := by
    intro j
    by_cases hj : j = slot
    · subst hj
      rw [setDevice_devices_self]
      exact ⟨hioaddr _, hiosize _⟩
    · rw [setDevice_devices_ne hj]
      exact ⟨rfl, rfl⟩
  refine ⟨hinv.table.setDevice slot hdev hcls, fun j hj => ?_, fun fd f hf => ?_⟩
  · show SramSize ((setDevice slot g s.registry.sram).base.devices j).iosize
    rw [(hsame j).2]
    exact hinv.bound_size j hj
  · exact (hinv.file fd f hf).congr (hsame _).1 (hsame _).2 fun _ hmem => hmem

/-- A descriptor is replaced. -/
theorem SramInv.setFile {s : SramBoard} (hinv : SramInv s) (fd : Nat) {f : Option SramOpen}
    (hf : ∀ f', f = some f' → FileInv s f') : SramInv (s.setFile fd f) := by
  have hsame : ∀ f', FileInv s f' → FileInv (s.setFile fd f) f' := fun f' h =>
    h.congr rfl rfl fun _ hmem => hmem
  refine ⟨hinv.table, hinv.bound_size, fun n f' hn => hsame f' ?_⟩
  simp only [SramBoard.setFile] at hn
  split at hn
  · exact hf f' hn
  · exact hinv.file n f' hn

/-- The content of the memory does not matter. -/
theorem SramInv.setMemory {s : SramBoard} (hinv : SramInv s) (io : Nat → UInt8) :
    SramInv { s with io := io } where
  table := hinv.table
  bound_size := hinv.bound_size
  file fd f hf := (hinv.file fd f hf).congr rfl rfl fun _ hmem => hmem

/-- A file is opened on the window of its device, with a buffer as large as the window. -/
theorem SramInv.openFile {s : SramBoard} (hinv : SramInv s) (fd : Nat) {slot : Nat}
    (kzalloc : Bool) (hslot : slot ∈ s.bound) : SramInv (s.openFile fd slot kzalloc).2 := by
  have hopened := hinv.setSlot slot (fun d => (ccatCdevOpen_dev slot kzalloc d).1)
    (fun d => (ccatCdevOpen_dev slot kzalloc d).2)
    (fun d => (ccatCdevOpen_window slot kzalloc d).1)
    fun d => (ccatCdevOpen_window slot kzalloc d).2
  obtain ⟨hioaddr, hiosize⟩ := ccatCdevOpen_window slot kzalloc (s.device slot)
  simp only [SramBoard.openFile]
  split
  · rename_i ret buffer d heq
    -- the handle points to the slot that was opened
    have hbuffer : buffer.ccdev = slot := by
      simp only [ccatCdevOpen] at heq
      split at heq
      · cases heq
      · split at heq
        · cases heq
        · cases heq
          rfl
    refine hopened.setFile fd fun f' hf' => ?_
    cases hf'
    have hdevice : (updateSlot s.registry slot fun d =>
        (ccatCdevOpen slot kzalloc d).2.2).sram.base.devices slot =
          (ccatCdevOpen slot kzalloc (s.device slot)).2.2 := setDevice_devices_self _ _ _
    have hsize := hinv.bound_size slot hslot
    refine ⟨?_, (by decide : (0 : Nat) < 2 ^ 31), fun _ => ⟨?_, ?_, ?_, Nat.zero_le _⟩⟩
    all_goals
      simp only [SramBoard.device] at hioaddr hiosize hsize ⊢
      rw [hbuffer]
    · rw [hdevice]
      exact hiosize ▸ hsize
    · exact hslot
    · rw [hdevice]
      exact hioaddr
    · rw [hdevice]
      exact hiosize
  · exact hopened

/-- A file is closed. -/
theorem SramInv.closeFile {s : SramBoard} (hinv : SramInv s) (fd : Nat) (f : SramOpen) :
    SramInv (s.closeFile fd f).2 := by
  have hreleased := hinv.setSlot f.buffer.ccdev (g := fun d => (ccatCdevRelease d).2)
    (fun _ => rfl) (fun _ => rfl) (fun _ => rfl) fun _ => rfl
  exact hreleased.setFile fd fun f' hf' => absurd hf' (Option.some_ne_none f').symm

section Runs

variable {llseek : Llseek}

/-- A call through an open file that has a result: it stays inside the buffer, and on a device
    that is there. -/
theorem SramBoard.call_eq_some_iff {s s' : SramBoard} {fd : Nat} {f : SramOpen} {c : Call}
    {a : Answer} (hf : s.files fd = some f) :
    s.call llseek fd c = some (a, s') ↔
      (c.staged (s.device f.buffer.ccdev).iosize f.pos ≤ f.capacity ∧
        (c.staged (s.device f.buffer.ccdev).iosize f.pos = 0 ∨ f.buffer.ccdev ∈ s.bound)) ∧
      ∃ file, (s.sramFile f).call llseek c = some (a, file) ∧
        s' = { s with
            io := fun addr =>
              if (s.device f.buffer.ccdev).ioaddr ≤ addr then
                file.sram (addr - (s.device f.buffer.ccdev).ioaddr)
              else s.io addr
          }.setFile fd (some { f with buffer := file.buffer, pos := file.pos }) := by
  simp only [SramBoard.call, hf, Option.bind_eq_bind, Option.bind_some]
  by_cases hcontained : c.staged (s.device f.buffer.ccdev).iosize f.pos ≤ f.capacity ∧
      (c.staged (s.device f.buffer.ccdev).iosize f.pos = 0 ∨ f.buffer.ccdev ∈ s.bound)
  · rw [if_pos hcontained, Option.bind_eq_some_iff]
    constructor
    · rintro ⟨⟨a', file⟩, hcall, h⟩
      simp only [Option.pure_def, Option.some.injEq, Prod.mk.injEq] at h
      obtain ⟨rfl, rfl⟩ := h
      exact ⟨hcontained, file, hcall, rfl⟩
    · rintro ⟨-, file, hcall, rfl⟩
      exact ⟨(a, file), hcall, rfl⟩
  · rw [if_neg hcontained]
    constructor
    · intro h
      cases h
    · rintro ⟨h, -⟩
      exact absurd h hcontained

variable (hseek : ∀ pos offset whence size p, llseek pos offset whence size = .ok p → p ≤ size)
include hseek

/-- A call that returns keeps the invariant, on an orphaned file too. -/
theorem SramInv.call {s s' : SramBoard} (hinv : SramInv s) {fd : Nat} {c : Call} {a : Answer}
    (h : s.call llseek fd c = some (a, s')) : SramInv s' := by
  cases hf : s.files fd with
  | none =>
    simp only [SramBoard.call, hf, Option.bind_eq_bind, Option.bind_none] at h
    cases h
  | some f =>
    obtain ⟨-, file, hcall, rfl⟩ := (SramBoard.call_eq_some_iff hf).mp h
    obtain ⟨hframe, hpos⟩ := call_frame hseek hcall
    have hfile := hinv.file fd f hf
    have hslot : file.buffer.ccdev = f.buffer.ccdev := hframe.slot
    -- the position moves no further than to the end of the window it acts on
    have hmax : file.pos ≤ max f.pos (s.device f.buffer.ccdev).iosize := hpos
    refine (hinv.setMemory _).setFile fd fun f' hf' => ?_
    cases hf'
    have hsize := hfile.size
    refine ⟨?_, ?_, fun horphan => ?_⟩
    · rw [hslot]
      exact hsize
    · exact Nat.lt_of_le_of_lt hmax (Nat.max_lt.mpr ⟨hfile.pos_lt, hsize.2⟩)
    · obtain ⟨hmem, hioaddr, hiosize, hle⟩ := hfile.own horphan
      rw [hslot]
      refine ⟨hmem, hioaddr, hiosize, ?_⟩
      rw [hiosize] at hmax
      exact Nat.le_trans hmax (Nat.max_le.mpr ⟨hle, Nat.le_refl _⟩)

/-- Every step of the board. -/
theorem SramStep.inv {s s' : SramBoard} (hinv : SramInv s) (hstep : SramStep llseek s s') :
    SramInv s' := by
  cases hstep with
  | probe env func p hdoc hprobe => exact hinv.probe hdoc hprobe
  | remove slot r hslot hremove => exact hinv.remove hslot hremove
  | openFile fd slot kzalloc hslot hfd => exact hinv.openFile fd kzalloc hslot
  | closeFile fd f hf => exact hinv.closeFile fd f
  | call fd c a s' hc hcall => exact hinv.call hseek hcall

/-- Every state of a run. -/
theorem SramReach.inv {s : SramBoard} (hreach : SramReach llseek s) : SramInv s := by
  induction hreach with
  | init io => exact SramInv.init io
  | step _ hstep ih => exact hstep.inv hseek ih

end Runs

/-! ## Which files are safe to use -/

/-- The window that a file was opened on, as a file of bytes. -/
def SramBoard.byteFile (s : SramBoard) (f : SramOpen) : ByteFile :=
  ⟨slice s.io f.ioaddr f.capacity, f.pos⟩

/-- Every call through a file returns exactly if its slot has a device, and the window of that
    device is no larger than the buffer of the file. -/
theorem FileInv.call_isSome_iff {llseek : Llseek} {s : SramBoard} {fd : Nat} {f : SramOpen}
    (h : FileInv s f) (hf : s.files fd = some f) :
    (∀ c, c.InRange → (s.call llseek fd c).isSome) ↔
      f.buffer.ccdev ∈ s.bound ∧ (s.device f.buffer.ccdev).iosize ≤ f.capacity := by
  obtain ⟨hpos, hlt⟩ := h.size
  constructor
  · intro hall
    -- a read of the whole window moves all of it through the buffer
    have hread := hall (.read (some 0) (s.device f.buffer.ccdev).iosize 0)
      (by show 0 + (s.device f.buffer.ccdev).iosize < 2 ^ 63; omega)
    obtain ⟨⟨a, s'⟩, hcall⟩ := Option.isSome_iff_exists.mp hread
    obtain ⟨⟨hle, hbound⟩, -⟩ := (SramBoard.call_eq_some_iff hf).mp hcall
    have hstaged : Call.staged (s.device f.buffer.ccdev).iosize f.pos
        (.read (some 0) (s.device f.buffer.ccdev).iosize 0) =
          (s.device f.buffer.ccdev).iosize := by
      simp only [Call.staged, Option.getD_some, Nat.sub_zero, Nat.min_self]
      exact if_neg (Nat.not_le.mpr hpos)
    rw [hstaged] at hle hbound
    exact ⟨hbound.resolve_left (Nat.ne_of_gt hpos), hle⟩
  · rintro ⟨hbound, hle⟩ c hc
    have hpos63 : f.pos < 2 ^ 63 := Nat.lt_trans h.pos_lt (by decide)
    have hsome : ((s.sramFile f).call llseek c).isSome := call_isSome hpos63 hc
    obtain ⟨⟨a, file⟩, hcall⟩ := Option.isSome_iff_exists.mp hsome
    refine Option.isSome_iff_exists.mpr ⟨(a, _), (SramBoard.call_eq_some_iff hf).mpr
      ⟨⟨?_, .inr hbound⟩, file, hcall, rfl⟩⟩
    exact Nat.le_trans (Call.staged_le hc hpos63) hle

/-- A file whose device is still there has the window it was opened on behind its slot. -/
theorem FileInv.sramFile_window {s : SramBoard} {f : SramOpen} (h : FileInv s f)
    (horphan : f.orphan = false) :
    (s.sramFile f).Wf ∧ (s.sramFile f).toByteFile = s.byteFile f ∧
      ∀ k, (s.sramFile f).sram k = s.io (f.ioaddr + k) := by
  obtain ⟨-, hioaddr, hiosize, hle⟩ := h.own horphan
  -- the slot still has the address the file was opened with
  have hsram : ∀ k, (s.sramFile f).sram k = s.io (f.ioaddr + k) := by
    intro k
    rw [← hioaddr]
    rfl
  refine ⟨⟨Nat.lt_trans h.size.2 (by decide), ?_⟩, ?_, hsram⟩
  · show f.pos ≤ (s.device f.buffer.ccdev).iosize
    rw [hiosize]
    exact hle
  · rw [SramFile.toByteFile, SramBoard.byteFile, ← hiosize]
    congr 1
    apply slice_congr
    intro i _
    rw [Nat.zero_add]
    exact hsram i

/-- A file whose device is still there reads and writes the bytes of the window it was opened on,
    and nothing else. -/
theorem FileInv.call_refines {llseek : Llseek}
    (hseek : ∀ pos offset whence size p, llseek pos offset whence size = .ok p → p ≤ size)
    {s : SramBoard} {fd : Nat} {f : SramOpen} (h : FileInv s f) (hf : s.files fd = some f)
    (horphan : f.orphan = false) {c : Call} (hc : c.InRange) :
    ∃ s' f', s.call llseek fd c = some (((s.byteFile f).call llseek c).1, s') ∧
      s'.files fd = some f' ∧ s'.byteFile f' = ((s.byteFile f).call llseek c).2 ∧
      ∀ addr, addr < f.ioaddr ∨ f.ioaddr + f.capacity ≤ addr → s'.io addr = s.io addr := by
  obtain ⟨hbound, hioaddr, hiosize, -⟩ := h.own horphan
  obtain ⟨hwf, hfile, hsram⟩ := h.sramFile_window horphan
  obtain ⟨file, hcall, habs, hsize, -⟩ := (s.sramFile f).call_refines llseek hseek hwf c hc
  obtain ⟨hframe, -⟩ := call_frame hseek hcall
  rw [hfile] at hcall habs
  have hstaged : c.staged (s.device f.buffer.ccdev).iosize f.pos ≤
      (s.device f.buffer.ccdev).iosize :=
    Call.staged_le hc (Nat.lt_trans h.pos_lt (by decide))
  refine ⟨_, _, (SramBoard.call_eq_some_iff hf).mpr
    ⟨⟨hiosize ▸ hstaged, .inr hbound⟩, file, hcall, rfl⟩, if_pos rfl, ?_, ?_⟩
  · -- the window afterwards is what the call left in it
    have hwindow : file.iosize = f.capacity := hsize.trans hiosize
    rw [← habs, SramFile.toByteFile, hwindow]
    simp only [SramBoard.byteFile, SramBoard.setFile, hioaddr]
    congr 1
    apply slice_congr
    intro i _
    rw [if_pos (Nat.le_add_right _ _), Nat.add_sub_cancel_left, Nat.zero_add]
  · intro addr haddr
    simp only [SramBoard.setFile, hioaddr]
    -- the rest of the address space is not touched, on either side of the window
    rcases haddr with hbelow | habove
    · exact if_neg (Nat.not_le.mpr hbelow)
    · have hge : f.ioaddr ≤ addr := by omega
      have hbeyond : (s.sramFile f).iosize ≤ addr - f.ioaddr := by
        show (s.device f.buffer.ccdev).iosize ≤ addr - f.ioaddr
        omega
      rw [if_pos hge, hframe.beyond _ hbeyond, hsram, Nat.add_sub_of_le hge]

/-- **Files on SRAM devices that come and go.** In every state of every run of probes, removes,
    opens, closes and calls: all calls through an open file stay inside its buffer and on a device
    that is there exactly if its slot has a device with a window no larger than the buffer. As long
    as the device it was opened on is there, a file gives the answers of a file with the bytes of
    that window, and changes no others. -/
theorem sram_files_contained (llseek : Llseek)
    (hseek : ∀ pos offset whence size p, llseek pos offset whence size = .ok p → p ≤ size)
    (s : SramBoard) (hreach : SramReach llseek s) (fd : Nat) (f : SramOpen)
    (hf : s.files fd = some f) :
    ((∀ c, c.InRange → (s.call llseek fd c).isSome) ↔
      f.buffer.ccdev ∈ s.bound ∧ (s.device f.buffer.ccdev).iosize ≤ f.capacity) ∧
    (f.orphan = false → ∀ c, c.InRange →
      ∃ s' f', s.call llseek fd c = some (((s.byteFile f).call llseek c).1, s') ∧
        s'.files fd = some f' ∧ s'.byteFile f' = ((s.byteFile f).call llseek c).2 ∧
        ∀ addr, addr < f.ioaddr ∨ f.ioaddr + f.capacity ≤ addr → s'.io addr = s.io addr) := by
  have hfile := (hreach.inv hseek).file fd f hf
  exact ⟨hfile.call_isSome_iff hf, fun horphan c hc => hfile.call_refines hseek hf horphan hc⟩

/-- The seek of the witness stays within the file. -/
theorem fixedSizeLlseek_le (pos : Nat) (offset : Int) (whence size p : Nat)
    (h : fixedSizeLlseek pos offset whence size = .ok p) : p ≤ size := by
  simp only [fixedSizeLlseek] at h
  split at h
  · split at h
    · cases h
      omega
    · cases h
  · cases h

/-- An SRAM function of `2 ^ n` bytes. -/
def sramFunction (n : Nat) : Functions.CcatFunction where
  ccat := some ⟨0x1000, 0⟩
  info := ⟨0x16, 0, n <<< 8 ||| 1, 0x100, 0⟩

/-- A file is opened on a device of 2 bytes, which gives way to one of 4 bytes. -/
theorem sram_files_contained_replaced :
    ∃ s f, SramReach fixedSizeLlseek s ∧ s.files 3 = some f ∧ f.buffer.ccdev ∈ s.bound ∧
      ¬ ∀ c, c.InRange → (s.call fixedSizeLlseek 3 c).isSome := by
  have hdoc : ∀ m id, 0 < m → (ProbeEnv.mk (some m) (some id) true true).Documented := by
    rintro m id hm m' ⟨⟩
    exact hm
  have hopen : SramReach fixedSizeLlseek _ := .step (.step (.init fun _ => 0)
    (.probe ⟨some 240, some 1, true, true⟩ (sramFunction 1) _ (hdoc 240 1 (by decide)) rfl))
    (.openFile 3 0 true List.mem_cons_self rfl)
  have hreplaced : SramReach fixedSizeLlseek _ := .step (.step hopen
    (.remove 0 _ List.mem_cons_self rfl))
    (.probe ⟨some 241, some 2, true, true⟩ (sramFunction 2) _ (hdoc 241 2 (by decide)) rfl)
  refine ⟨_, _, hreplaced, rfl, List.mem_cons_self, fun hall => ?_⟩
  have hle := ((sram_files_contained fixedSizeLlseek fixedSizeLlseek_le _ hreplaced 3 _
    rfl).1.mp hall).2
  exact absurd hle (by decide)

end Ccat.Native.Sram
