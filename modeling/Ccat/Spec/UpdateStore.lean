import Mathlib.Data.Option.Basic
import Ccat.Spec.UpdateCorrect

/-!
# The update device is a store with one transaction at a time

`Store` states what the update device is for: a flash content that everybody reads as it
was last committed, and at most one handle with a draft of the next content. Writes go to
the draft only; closing the handle replaces the whole content by the draft, if anything
was written. Any sequence of system calls, from any number of processes, gives the answers
of that store.

## Key results

- `UpdateDev.Holds.read`: a read delivers the bytes of the content
- `OpenFile.Holds.write`: a write changes the draft as the store does
- `updateDev_simulates`: one system call
- `updateDev_refines_store`: any sequence of system calls on a probed device
-/

namespace Ccat.Native.Update

open Memory

/-! ## The store -/

/-- The bytes from `off` on replaced by `xs`. -/
def splice (bytes : List UInt8) (off : Nat) (xs : List UInt8) : List UInt8 :=
  bytes.take off ++ xs ++ bytes.drop (off + xs.length)

/-- What a handle has staged: the position, the end of the last write and the bytes. -/
structure Draft where
  pos : Nat
  size : Nat
  data : List UInt8

/-- The committed content and the one handle there can be, with its descriptor. -/
structure Store where
  content : List UInt8
  handle : Option (Nat × Draft)
  nextFd : Nat

def Store.draft? (a : Store) (fd : Nat) : Option Draft :=
  a.handle.bind fun h => if h.1 = fd then some h.2 else none

def Store.openFile (a : Store) (kzalloc : Bool) : Answer × Store :=
  if a.handle.isSome then (.ret (-EBUSY), a)
  else if !kzalloc then (.ret (-ENOMEM), a)
  else
    (.opened a.nextFd,
      { a with
        handle := some (a.nextFd, ⟨0, 0, List.replicate CCAT_FLASH_SIZE 0⟩)
        nextFd := a.nextFd + 1 })

/-- A read never sees the draft. -/
def Store.readFile (a : Store) (fd : Nat) (off : Option Nat) (len : Nat) (user : UserBuf) :
    Answer × Store :=
  match a.draft? fd with
  | none => (.badFile, a)
  | some d =>
    let p := off.getD d.pos
    let xs := (a.content.drop p).take len
    let pos := if off.isNone then p + xs.length else d.pos
    (.bytes xs.length (user.store 0 xs), { a with handle := some (fd, { d with pos := pos }) })

/-- A write that faults has replaced the bytes of the draft by what could be read and zeros,
    but does not count for its size. -/
def Draft.write (d : Draft) (off : Option Nat) (buf : List UInt8) (limit : Nat) : Answer × Draft :=
  let p := off.getD d.pos
  if CCAT_FLASH_SIZE < p + buf.length then (.ret 0, d)
  else if limit < buf.length then
    (.ret (-EFAULT), { d with data := splice d.data p (copyFromUser limit buf).1 })
  else
    (.ret buf.length,
      ⟨if off.isNone then p + buf.length else d.pos, p + buf.length, splice d.data p buf⟩)

def Store.writeFile (a : Store) (fd : Nat) (off : Option Nat) (buf : List UInt8) (limit : Nat) :
    Answer × Store :=
  match a.draft? fd with
  | none => (.badFile, a)
  | some d => ((d.write off buf limit).1, { a with handle := some (fd, (d.write off buf limit).2) })

/-- Closing the handle is the only way to change the content. -/
def Store.closeFile (a : Store) (fd : Nat) : Answer × Store :=
  match a.draft? fd with
  | none => (.badFile, a)
  | some d =>
    (.ret 0,
      { a with
        content := if 0 < d.size then programmed (d.data.take d.size) else a.content
        handle := none })

/-- The store as seen from its system calls. -/
def store : Mealy Store Request Answer where
  step a
    | .openFile kzalloc => a.openFile kzalloc
    | .readFile fd off len user => a.readFile fd off len user
    | .writeFile fd off buf limit => a.writeFile fd off buf limit
    | .closeFile fd => a.closeFile fd

/-! ## Abstraction -/

/-- The file stands for the draft, which lies inside the flash. -/
structure OpenFile.Holds (f : OpenFile) (d : Draft) : Prop where
  pos : f.pos = d.pos
  size : f.buffer.size = d.size
  data : slice f.buffer.data 0 CCAT_FLASH_SIZE = d.data
  pos_le : d.pos ≤ CCAT_FLASH_SIZE
  size_le : d.size ≤ CCAT_FLASH_SIZE

/-- The device stands for the store. -/
structure UpdateDev.Holds (s : UpdateDev) (a : Store) : Prop where
  iosize : s.ccdev.iosize = CCAT_FLASH_SIZE
  inUse : s.ccdev.inUse = if a.handle.isSome then 0 else 1
  idle : s.hw.Idle
  content : slice s.hw.flash 0 CCAT_FLASH_SIZE = a.content
  files : ∀ fd, Option.Rel OpenFile.Holds (s.files fd) (a.draft? fd)
  nextFd : s.nextFd = a.nextFd

/-- The range of offsets and lengths system calls are made with. -/
def Request.InRange : Request → Prop
  | .writeFile _ (some off) buf _ => off + buf.length < 2 ^ 63
  | .writeFile _ none buf _ => buf.length < 2 ^ 63
  | _ => True

/-- A draft is that of the handle. -/
theorem Store.draft?_eq_some {a : Store} {fd : Nat} {d : Draft} (h : a.draft? fd = some d) :
    a.handle = some (fd, d) := by
  obtain ⟨⟨n, d'⟩, hh, hif⟩ := Option.bind_eq_some_iff.mp h
  simp only at hif
  split at hif
  · rename_i hn
    cases hif
    rw [hh, hn]
  · cases hif

/-- What is behind a descriptor, on both sides. -/
theorem UpdateDev.Holds.file_cases {s : UpdateDev} {a : Store} (h : s.Holds a) (fd : Nat) :
    (s.files fd = none ∧ a.draft? fd = none) ∨
      ∃ f d, s.files fd = some f ∧ a.draft? fd = some d ∧ a.handle = some (fd, d) ∧ f.Holds d := by
  have hrel := h.files fd
  cases hd : a.draft? fd with
  | none =>
    rw [hd] at hrel
    cases hs : s.files fd with
    | none => exact .inl ⟨rfl, rfl⟩
    | some f =>
      rw [hs] at hrel
      cases hrel
  | some d =>
    rw [hd] at hrel
    cases hs : s.files fd with
    | none =>
      rw [hs] at hrel
      cases hrel
    | some f =>
      rw [hs] at hrel
      cases hrel with
      | some hf => exact .inr ⟨f, d, rfl, rfl, Store.draft?_eq_some hd, hf⟩

/-- The file of the handle replaced by one that stands for the new draft. -/
theorem UpdateDev.Holds.setFile {s : UpdateDev} {a : Store} (h : s.Holds a) {fd : Nat}
    {d d' : Draft} (hhandle : a.handle = some (fd, d)) {f : OpenFile} (hf : f.Holds d') :
    (s.setFile fd (some f)).Holds { a with handle := some (fd, d') } := by
  refine ⟨h.iosize, ?_, h.idle, h.content, fun n => ?_, h.nextFd⟩
  · have hinUse := h.inUse
    rw [hhandle] at hinUse
    exact hinUse
  · have hn := h.files n
    simp only [UpdateDev.setFile, Store.draft?, hhandle, Option.bind_some] at hn ⊢
    by_cases heq : n = fd
    · rw [if_pos heq, if_pos heq.symm]
      exact .some hf
    · rw [if_neg heq, if_neg (Ne.symm heq)]
      rw [if_neg (Ne.symm heq)] at hn
      exact hn

/-- What is read does not change what the device stands for. -/
theorem UpdateDev.Holds.setHw {s : UpdateDev} {a : Store} (h : s.Holds a) {hw : FlashHw}
    {wel : Bool} (hrest : hw.Rests s.hw.flash wel) : { s with hw := hw }.Holds a where
  iosize := h.iosize
  inUse := h.inUse
  idle := hrest.toIdle
  content := by rw [← h.content, hrest.flash_eq]
  files := h.files
  nextFd := h.nextFd

/-! ## Reading -/

/-- `ccat_update_read()` delivers the bytes of the content. -/
theorem UpdateDev.Holds.read {s : UpdateDev} {a : Store} (h : s.Holds a) (L : LongWidth)
    (u : UserBuf) (len off : Nat) :
    ∃ hw, ccatUpdateRead L s.ccdev s.hw u len off =
        ⟨((a.content.drop off).take len).length, off + ((a.content.drop off).take len).length,
          u.store 0 ((a.content.drop off).take len), hw⟩ ∧
      ((a.content.drop off).take len).length ≤ CCAT_FLASH_SIZE - off ∧
      hw.Rests s.hw.flash s.hw.wel := by
  have hxs : (a.content.drop off).take len =
      slice s.hw.flash off (min len (CCAT_FLASH_SIZE - off)) := by
    rw [← h.content, drop_slice, take_slice, Nat.zero_add]
  obtain ⟨hw, hread, hrest⟩ := ccatUpdateRead_spec L s.ccdev s.hw u len off h.idle
    (by rw [h.iosize]; decide)
  rw [hxs, length_slice]
  refine ⟨hw, ?_, Nat.min_le_right .., hrest⟩
  rw [hread, h.iosize]

/-- A read answers with the content of the store, not with the draft. -/
theorem UpdateDev.readFile_refines (L : LongWidth) {s : UpdateDev} {a : Store} (h : s.Holds a)
    (fd : Nat) (off : Option Nat) (len : Nat) (user : UserBuf) :
    (s.readFile L fd off len user).1 = (a.readFile fd off len user).1 ∧
      (s.readFile L fd off len user).2.Holds (a.readFile fd off len user).2 := by
  obtain ⟨hs, ha⟩ | ⟨f, d, hs, ha, hhandle, hf⟩ := h.file_cases fd
  · simp only [UpdateDev.readFile, Store.readFile, hs, ha, true_and]
    exact h
  · obtain ⟨hw, hread, hle, hrest⟩ := h.read L user len (off.getD d.pos)
    simp only [UpdateDev.readFile, Store.readFile, hs, ha, hf.pos, hread, true_and]
    generalize (a.content.drop (off.getD d.pos)).take len = xs at hle ⊢
    refine (h.setHw hrest).setFile hhandle ⟨rfl, hf.size, hf.data, ?_, hf.size_le⟩
    -- the position moves inside the flash, or not at all
    have hpos := hf.pos_le
    cases off with
    | none =>
      simp only [Option.getD_none, Option.isNone_none, if_true] at hle ⊢
      omega
    | some off => exact hpos

/-! ## Writing -/

/-- `ccat_update_write()` on the buffer of a file does to it what a write does to the draft. -/
theorem OpenFile.Holds.write {f : OpenFile} {d : Draft} (hf : f.Holds d) {ccdev : CcatCdev}
    (hio : ccdev.iosize = CCAT_FLASH_SIZE) (off : Option Nat) (buf : List UInt8) (limit : Nat)
    (hrange : off.getD d.pos + buf.length < 2 ^ 64) :
    let r := ccatUpdateWrite ccdev f.buffer limit buf (off.getD d.pos)
    Answer.ret r.ret = (d.write off buf limit).1 ∧
      OpenFile.Holds ⟨r.buffer, if off.isNone then r.off else d.pos⟩ (d.write off buf limit).2 := by
  intro r
  have hr : r = ccatUpdateWrite ccdev f.buffer limit buf (off.getD d.pos) := rfl
  have hmod : (off.getD d.pos + buf.length) % 2 ^ 64 = off.getD d.pos + buf.length :=
    Nat.mod_eq_of_lt hrange
  -- a write that moves the position moves it to where it ended
  have hsame : (if off.isNone then off.getD d.pos else d.pos) = d.pos := by
    cases off with
    | none => rfl
    | some off => rfl
  rw [ccatUpdateWrite, hmod, hio] at hr
  -- refused, faulted or complete
  by_cases hfit : CCAT_FLASH_SIZE < off.getD d.pos + buf.length
  · rw [if_pos hfit] at hr
    simp only [Draft.write, if_pos hfit, hr, hsame, true_and]
    exact ⟨rfl, hf.size, hf.data, hf.pos_le, hf.size_le⟩
  · have hle : off.getD d.pos + buf.length ≤ CCAT_FLASH_SIZE := Nat.le_of_not_lt hfit
    rw [if_neg hfit] at hr
    by_cases hlimit : limit < buf.length
    · -- the fault is noticed after the copy
      have hmissing : (copyFromUser limit buf).2 ≠ 0 := by
        simp only [copyFromUser]
        omega
      simp only [if_pos hmissing] at hr
      simp only [Draft.write, if_neg hfit, if_pos hlimit, hr, hsame, true_and]
      refine ⟨rfl, hf.size, ?_, hf.pos_le, hf.size_le⟩
      rw [splice, ← hf.data]
      exact slice_blit_of_le _ _ (by rw [length_copyFromUser]; exact hle)
    · rw [copyFromUser_of_le (Nat.le_of_not_lt hlimit)] at hr
      simp only [ne_eq, not_true_eq_false, if_false] at hr
      simp only [Draft.write, if_neg hfit, if_neg hlimit, hr, true_and]
      refine ⟨rfl, rfl, ?_, ?_, hle⟩
      · rw [splice, ← hf.data]
        exact slice_blit_of_le _ _ hle
      · have hpos := hf.pos_le
        simp only
        split
        · exact hle
        · exact hpos

/-- A write changes the draft. -/
theorem UpdateDev.writeFile_refines {s : UpdateDev} {a : Store} (h : s.Holds a) (fd : Nat)
    (off : Option Nat) (buf : List UInt8) (limit : Nat)
    (hrange : (Request.writeFile fd off buf limit).InRange) :
    (s.writeFile fd off buf limit).1 = (a.writeFile fd off buf limit).1 ∧
      (s.writeFile fd off buf limit).2.Holds (a.writeFile fd off buf limit).2 := by
  obtain ⟨hs, ha⟩ | ⟨f, d, hs, ha, hhandle, hf⟩ := h.file_cases fd
  · simp only [UpdateDev.writeFile, Store.writeFile, hs, ha, true_and]
    exact h
  · -- neither operand of the sum is large enough for it to wrap around
    have hlt : off.getD d.pos + buf.length < 2 ^ 64 := by
      have hflash : CCAT_FLASH_SIZE < 2 ^ 24 := by decide
      have hpos := hf.pos_le
      cases off with
      | none =>
        simp only [Request.InRange, Option.getD_none] at hrange ⊢
        omega
      | some off =>
        simp only [Request.InRange, Option.getD_some] at hrange ⊢
        omega
    obtain ⟨hanswer, hfile⟩ := hf.write h.iosize off buf limit hlt
    simp only [UpdateDev.writeFile, Store.writeFile, hs, ha, hf.pos]
    exact ⟨hanswer, h.setFile hhandle hfile⟩

/-! ## Opening and closing -/

/-- Only one handle can be open; a new one has an empty draft. -/
theorem UpdateDev.openFile_refines (i : Nat) {s : UpdateDev} {a : Store} (h : s.Holds a)
    (kzalloc : Bool) :
    (s.openFile i kzalloc).1 = (a.openFile kzalloc).1 ∧
      (s.openFile i kzalloc).2.Holds (a.openFile kzalloc).2 := by
  have hinUse := h.inUse
  cases hhandle : a.handle with
  | some hd =>
    -- `in_use` counts down from 0 to -1 and up again
    rw [hhandle, Option.isSome_some, if_pos rfl] at hinUse
    have hopen : ccatCdevOpen i kzalloc s.ccdev = (-EBUSY, none, s.ccdev) := by
      rw [ccatCdevOpen, Int.sub_add_cancel, if_pos (by simp [hinUse])]
    simp only [UpdateDev.openFile, hopen, Store.openFile, hhandle, Option.isSome_some, if_true,
      true_and]
    exact h
  | none =>
    rw [hhandle, Option.isSome_none, if_neg Bool.false_ne_true] at hinUse
    cases kzalloc with
    | false =>
      have hopen : ccatCdevOpen i false s.ccdev = (-ENOMEM, none, s.ccdev) := by
        rw [ccatCdevOpen, Int.sub_add_cancel, if_neg (by simp [hinUse]),
          if_pos Bool.not_false]
      simp only [UpdateDev.openFile, hopen, Store.openFile, hhandle, Option.isSome_none,
        Bool.false_eq_true, if_false, Bool.not_false, if_true, true_and]
      exact h
    | true =>
      simp only [UpdateDev.openFile, ccatCdevOpen_probed i hinUse, Store.openFile, hhandle,
        Option.isSome_none, Bool.false_eq_true, if_false, Bool.not_true, h.nextFd, true_and]
      refine ⟨h.iosize, rfl, h.idle, h.content, fun fd => ?_, rfl⟩
      have hfd := h.files fd
      simp only [Store.draft?, hhandle, Option.bind_none] at hfd
      simp only [UpdateDev.setFile, Store.draft?, Option.bind_some]
      by_cases heq : fd = a.nextFd
      · rw [if_pos heq, if_pos heq.symm]
        exact .some ⟨rfl, rfl, slice_const .., Nat.zero_le _, Nat.zero_le _⟩
      · rw [if_neg heq, if_neg (Ne.symm heq)]
        exact hfd

/-- Closing the handle commits the draft up to the end of the last write. -/
theorem UpdateDev.closeFile_refines (L : LongWidth) {s : UpdateDev} {a : Store} (h : s.Holds a)
    (fd : Nat) :
    (s.closeFile L fd).1 = (a.closeFile fd).1 ∧
      (s.closeFile L fd).2.Holds (a.closeFile fd).2 := by
  obtain ⟨hs, ha⟩ | ⟨f, d, hs, ha, hhandle, hf⟩ := h.file_cases fd
  · simp only [UpdateDev.closeFile, Store.closeFile, hs, ha, true_and]
    exact h
  · have hinUse := h.inUse
    rw [hhandle, Option.isSome_some, if_pos rfl] at hinUse
    have hflash : CCAT_FLASH_SIZE < 2 ^ 24 := by decide
    have hsize := hf.size_le
    -- the flash is erased and programmed only if the last write did not end at 0
    obtain ⟨hkept, hstaged⟩ := ccatUpdateRelease_flash L s.ccdev f.buffer s.hw h.idle
      (by rw [hf.size]; omega)
    simp only [UpdateDev.closeFile, Store.closeFile, hs, ha]
    refine ⟨rfl, h.iosize, ?_, ?_, ?_, fun n => ?_, h.nextFd⟩
    · simp only [ccatUpdateRelease, ccatCdevRelease, hinUse]
      rfl
    · rcases Nat.eq_zero_or_pos f.buffer.size with hzero | hpos
      · rw [hkept hzero]
        exact h.idle
      · exact (hstaged hpos).toIdle
    · rcases Nat.eq_zero_or_pos f.buffer.size with hzero | hpos
      · rw [hkept hzero, if_neg (by rw [← hf.size]; omega)]
        exact h.content
      · -- the image is the part of the draft up to the end of the last write
        have himage : slice f.buffer.data 0 f.buffer.size = d.data.take d.size := by
          rw [← hf.data, take_slice, Nat.min_eq_left hsize, hf.size]
        rw [(hstaged hpos).flash_eq, if_pos (by rw [← hf.size]; exact hpos), himage]
        refine slice_blit_erased _ ?_
        rw [← himage, length_slice, hf.size]
        exact hsize
    · -- there was no other descriptor
      have hn := h.files n
      simp only [UpdateDev.setFile, Store.draft?, hhandle, Option.bind_some, Option.bind_none]
        at hn ⊢
      by_cases heq : n = fd
      · rw [if_pos heq]
        exact .none
      · rw [if_neg heq]
        rw [if_neg (Ne.symm heq)] at hn
        exact hn

/-! ## Whole runs -/

/-- One system call on the device answers as the store does. -/
theorem updateDev_simulates (L : LongWidth) (i : Nat) :
    (updateDev L i).Simulates store Request.InRange UpdateDev.Holds where
  step s a r hr h := by
    cases r with
    | openFile kzalloc => exact UpdateDev.openFile_refines i h kzalloc
    | readFile fd off len user => exact UpdateDev.readFile_refines L h fd off len user
    | writeFile fd off buf limit => exact UpdateDev.writeFile_refines h fd off buf limit hr
    | closeFile fd => exact UpdateDev.closeFile_refines L h fd

/-- **The update device refines the store.** Whatever system calls are made on a probed device,
    in whatever order and however long the flash takes, the answers are those of the store, and
    the flash holds the content that was committed last. -/
theorem updateDev_refines_store (L : LongWidth) (i : Nat) (d : CcatCdev) (hd : Probed d)
    (hw : FlashHw) (hidle : hw.Idle) (rs : List Request) (hrs : ∀ r ∈ rs, r.InRange) :
    ((updateDev L i).run ⟨d, hw, fun _ => none, 0⟩ rs).1 =
        (store.run ⟨slice hw.flash 0 CCAT_FLASH_SIZE, none, 0⟩ rs).1 ∧
      slice ((updateDev L i).run ⟨d, hw, fun _ => none, 0⟩ rs).2.hw.flash 0 CCAT_FLASH_SIZE =
        (store.run ⟨slice hw.flash 0 CCAT_FLASH_SIZE, none, 0⟩ rs).2.content := by
  have hinit : UpdateDev.Holds ⟨d, hw, fun _ => none, 0⟩
      ⟨slice hw.flash 0 CCAT_FLASH_SIZE, none, 0⟩ :=
    ⟨hd.iosize, hd.inUse, hidle, by dsimp only, fun _ => .none, rfl⟩
  obtain ⟨hanswers, hend⟩ := (updateDev_simulates L i).run hinit hrs
  exact ⟨hanswers, hend.content⟩

/-- A second handle is refused while the first one stages a byte, a read on the first handle
    still finds the old content, and closing it commits the byte. -/
theorem updateDev_refines_store_commit :
    ∃ s user, (updateDev .long32 0).run ⟨⟨1, 0, CCAT_FLASH_SIZE, 1, .owner⟩,
        .atRest ⟨fun n => n + 1, fun n => 3 * n, fun _ => 0xFF⟩ fun _ => 0, fun _ => none, 0⟩
        [.openFile true, .openFile true, .writeFile 0 none [0xA5] 1,
          .readFile 0 (some 0) 1 ⟨fun _ => 7, fun _ => false⟩, .closeFile 0, .closeFile 0] =
        ([.opened 0, .ret (-EBUSY), .ret 1, .bytes 1 user, .ret 0, .badFile], s) ∧
      user.bytes 0 = 0 ∧ slice s.hw.flash 0 CCAT_FLASH_SIZE = programmed [0xA5] := by
  have h := updateDev_refines_store .long32 0 ⟨1, 0, CCAT_FLASH_SIZE, 1, .owner⟩ ⟨rfl, rfl⟩
    (.atRest ⟨fun n => n + 1, fun n => 3 * n, fun _ => 0xFF⟩ fun _ => 0) ⟨rfl, rfl⟩
    [.openFile true, .openFile true, .writeFile 0 none [0xA5] 1,
      .readFile 0 (some 0) 1 ⟨fun _ => 7, fun _ => false⟩, .closeFile 0, .closeFile 0]
    (by simp [Request.InRange])
  generalize (updateDev .long32 0).run _ _ = r at h ⊢
  -- the run of the store, step by step
  have hfit : ¬CCAT_FLASH_SIZE < 0 + [(0xA5 : UInt8)].length := by decide
  have hone : min 1 CCAT_FLASH_SIZE = 1 := by decide
  simp only [Mealy.run, store, Store.openFile, Store.writeFile, Store.readFile, Store.closeFile,
    Store.draft?, Draft.write, Option.isSome_none, Option.isSome_some, Bool.false_eq_true,
    if_false, if_true, Bool.not_true, Option.bind_some, Option.bind_none, Option.getD_none,
    Option.getD_some, hfit, List.drop_zero, take_slice, hone, length_slice] at h
  refine ⟨_, _, Prod.ext h.1 rfl, rfl, ?_⟩
  rw [h.2]
  rfl

end Ccat.Native.Update
