import Ccat.Native.CdevOpen
import Ccat.Spec.CdevTable

/-!
# Exclusive open

`in_use` counts down from 1 and is put back by every call that does not end with a
handle, so under contention it goes below 0. What holds all the time is an account:
`in_use` is 1 less the open handles and less the calls that have decremented it and not
ended yet; and of all these at most one ever saw the 0.

## Key results

- `alone_eq_ccatCdevOpen`: the operations in a row are `ccat_cdev_open()`
- `OpenInv.step`: the account is kept by every operation of every caller
- `exclusive_open`: the account and at most one handle, in every interleaving
-/

namespace Ccat.Native

/-- Without interference the operations are the function of `Module`. -/
theorem alone_eq_ccatCdevOpen (i : Nat) (kzalloc : Bool) (d : CcatCdev) :
    Opener.calling.alone kzalloc 3 d =
      ((ccatCdevOpen i kzalloc d).2.2,
        .ended (ccatCdevOpen i kzalloc d).1 (ccatCdevOpen i kzalloc d).2.1) := by
  by_cases hzero : d.inUse - 1 ≠ 0
  · simp [Opener.alone, Opener.next, ccatCdevOpen, hzero, Opener.ended]
  · cases kzalloc with
    | true => simp [Opener.alone, Opener.next, ccatCdevOpen, hzero, Opener.ended]
    | false => simp [Opener.alone, Opener.next, ccatCdevOpen, hzero, Opener.ended]

/-! ## The account -/

/-- Number of open handles. -/
def handlesOpen (ts : Multiset Opener) : Nat := ts.count .opened

/-- Number of calls between their decrement and their outcome. -/
def opensPending (ts : Multiset Opener) : Nat :=
  ts.count .busy + ts.count .allocating + ts.count .noMem

/-- The invariant of all interleavings. -/
structure OpenInv (c : Pool.Config CcatCdev Opener) : Prop where
  account : c.shared.inUse = 1 - handlesOpen c.threads - opensPending c.threads
  /-- Callers that saw the counter at 0 and have not put it back. -/
  unique : c.threads.count .opened + c.threads.count .allocating + c.threads.count .noMem ≤ 1

/-- Every operation of `ccat_cdev_open()` keeps the account. -/
theorem openInv_next {d d' : CcatCdev} {ts : Multiset Opener} {t t' : Opener} {kzalloc : Bool}
    (h : OpenInv ⟨d, t ::ₘ ts⟩) (hnext : t.next kzalloc d = some (d', t')) :
    OpenInv ⟨d', t' ::ₘ ts⟩ := by
  obtain ⟨haccount, hunique⟩ := h
  cases t with
  | calling =>
    simp only [Opener.next, Option.some.injEq, Prod.mk.injEq] at hnext
    obtain ⟨rfl, rfl⟩ := hnext
    simp [handlesOpen, opensPending] at haccount hunique
    by_cases hzero : d.inUse - 1 ≠ 0
    · -- another caller is ahead of this one
      constructor
      · simp [hzero, handlesOpen, opensPending]
        omega
      · simpa [hzero] using hunique
    · -- the counter was 1, so nobody holds the device or is about to
      constructor
      · simp [hzero, handlesOpen, opensPending]
        omega
      · simp [hzero]
        omega
  -- the caller takes its decrement back
  | busy =>
    simp only [Opener.next, Option.some.injEq, Prod.mk.injEq] at hnext
    obtain ⟨rfl, rfl⟩ := hnext
    simp [handlesOpen, opensPending] at haccount hunique
    constructor
    · simp [handlesOpen, opensPending]
      omega
    · simpa using hunique
  | allocating =>
    simp only [Opener.next, Option.some.injEq, Prod.mk.injEq] at hnext
    obtain ⟨rfl, rfl⟩ := hnext
    simp [handlesOpen, opensPending] at haccount hunique
    -- either way the caller keeps its place in the account
    cases kzalloc with
    | true =>
      constructor
      · simp [handlesOpen, opensPending]
        omega
      · simp
        omega
    | false =>
      constructor
      · simp [handlesOpen, opensPending]
        omega
      · simp
        omega
  -- so does a caller that has no buffer
  | noMem =>
    simp only [Opener.next, Option.some.injEq, Prod.mk.injEq] at hnext
    obtain ⟨rfl, rfl⟩ := hnext
    simp [handlesOpen, opensPending] at haccount hunique
    constructor
    · simp [handlesOpen, opensPending]
      omega
    · simp
      omega
  | opened => exact nomatch hnext
  | failed ret => exact nomatch hnext
  | closed => exact nomatch hnext

/-- So does the release of a handle. -/
theorem openInv_release {d : CcatCdev} {ts : Multiset Opener} (h : OpenInv ⟨d, .opened ::ₘ ts⟩) :
    OpenInv ⟨(ccatCdevRelease d).2, .closed ::ₘ ts⟩ := by
  obtain ⟨haccount, hunique⟩ := h
  simp [handlesOpen, opensPending] at haccount hunique
  constructor
  · simp [handlesOpen, opensPending, ccatCdevRelease]
    omega
  · simp
    omega

/-- Every step of the callers keeps the account. -/
theorem openInv_step {c c' : Pool.Config CcatCdev Opener} (h : OpenInv c)
    (hstep : openers.Step c c') : OpenInv c' := by
  cases hstep with
  | spawn hstart =>
    -- a new caller has done nothing yet
    cases hstart
    obtain ⟨haccount, hunique⟩ := h
    constructor
    · simpa [handlesOpen, opensPending] using haccount
    · simpa using hunique
  | run hrun =>
    cases hrun with
    | inl hnext =>
      obtain ⟨kzalloc, hnext⟩ := hnext
      exact openInv_next h hnext
    | inr hrelease =>
      obtain ⟨rfl, rfl, rfl⟩ := hrelease
      exact openInv_release h
  | env henv => exact henv.elim

/-! ## The device after a probe -/

/-- Publishing a device does not touch the table. -/
theorem ccatCdevInit_base {env : ProbeEnv} {dev : Nat} {cls : ClassPtr} {w w' : World}
    {status : Int} (h : ccatCdevInit env dev cls w = .ok (status, w')) : w'.base = w.base := by
  cases hname : className cls w with
  | error e => simp [ccatCdevInit, hname, bind, Except.bind] at h
  | ok u =>
    cases hdev : env.deviceCreate <;> cases hadd : env.cdevAdd <;>
      simp [ccatCdevInit, hname, hdev, hadd, bind, Except.bind, pure, Except.pure] at h <;>
      rw [← h.2] <;> rfl

/-- A probe hands out its slot with `in_use` at 1. -/
theorem ccatCdevProbe_inUse {func : CcatFunction} {iosize : Nat} {env : ProbeEnv} {w : World}
    {r : ProbeResult} {i : Nat} (h : ccatCdevProbe func iosize env w = .ok r)
    (hi : r.privateData = some i) : (r.world.base.devices i).inUse = 1 := by
  simp only [ccatCdevProbe, bind, Except.bind] at h
  split at h
  · cases h
  · split at h
    · -- no free slot
      cases h
      cases hi
    · split at h
      · cases h
      · rename_i hinit
        split at h
        · -- publishing failed
          split at h
          · cases h
          · cases h
            cases hi
        · cases h
          cases hi
          simp only [setDevice_devices_self, ccatCdevInit_base hinit]

/-- In every interleaving of callers of a probed device: the account of `in_use`, at most one
    open handle, and a device that can be opened again when nobody has it open or is about to. -/
theorem exclusive_open (func : CcatFunction) (iosize : Nat) (env : ProbeEnv) (w : World)
    (r : ProbeResult) (i : Nat) (h : ccatCdevProbe func iosize env w = .ok r)
    (hi : r.privateData = some i) (c : Pool.Config CcatCdev Opener)
    (hreach : openers.Reach ⟨r.world.base.devices i, 0⟩ c) :
    c.shared.inUse = 1 - handlesOpen c.threads - opensPending c.threads ∧
      handlesOpen c.threads ≤ 1 ∧
      (handlesOpen c.threads = 0 → opensPending c.threads = 0 →
        c.shared.inUse = 1 ∧ (ccatCdevOpen i true c.shared).1 = 0 ∧
          (Opener.calling.alone true 3 c.shared).2 = .opened) := by
  -- the probe hands out the device with `in_use` at 1
  have hinit : OpenInv ⟨r.world.base.devices i, 0⟩ := by
    constructor
    · simp [handlesOpen, opensPending, ccatCdevProbe_inUse h hi]
    · simp
  obtain ⟨haccount, hunique⟩ := Pool.reach_inv (fun _ _ => openInv_step) hinit hreach
  have hle : handlesOpen c.threads ≤ 1 := by
    unfold handlesOpen
    omega
  refine ⟨haccount, hle, fun hopen hpending => ?_⟩
  -- with no handles and no calls the account leaves 1
  have hone : c.shared.inUse = 1 := by
    rw [haccount, hopen, hpending]
    rfl
  refine ⟨hone, ?_, ?_⟩
  · simp [ccatCdevOpen, hone]
  · rw [alone_eq_ccatCdevOpen i]
    simp [ccatCdevOpen, hone, Opener.ended]

/-- A second caller finds the device of the first probe in use. -/
theorem exclusive_open_contended :
    openers.Reach ⟨⟨1, 0, 16, mkdev 240 0, .owner⟩, 0⟩
        ⟨⟨-1, 0, 16, mkdev 240 0, .owner⟩, {.busy, .opened}⟩ ∧
      (-1 : Int) = 1 - handlesOpen {.busy, .opened} - opensPending {.busy, .opened} := by
  have hreach : openers.Reach ⟨⟨1, 0, 16, mkdev 240 0, .owner⟩, 0⟩
      ⟨⟨-1, 0, 16, mkdev 240 0, .owner⟩, {.busy, .opened}⟩ :=
    .tail (.tail (.tail (.tail (.tail .refl (.spawn rfl)) (.run (.inl ⟨true, rfl⟩)))
      (.run (.inl ⟨true, rfl⟩))) (.spawn rfl)) (.run (.inl ⟨true, rfl⟩))
  have hprobe : ccatCdevProbe ⟨0, 0⟩ 16 ⟨some 240, some 1, true, true⟩
      (World.init 4 (by decide)) = .ok ⟨0, some 0,
        published ⟨0, 0⟩ 16 240 1 0 ((World.init 4 (by decide)).withClass 240 1 1)⟩ := by
    rw [ccatCdevProbe_slot ⟨0, 0⟩ 16 (i := 0) (m := 240) (n := 1) rfl (by decide)]
    exact if_pos ⟨rfl, rfl⟩
  exact ⟨hreach, (exclusive_open ⟨0, 0⟩ 16 ⟨some 240, some 1, true, true⟩
    (World.init 4 (by decide)) _ 0 hprobe rfl _ hreach).1⟩

end Ccat.Native
