import Ccat.Native.SramTasks
import Ccat.Spec.SramCorrect
import Mathlib.Data.Multiset.Filter

/-!
# Concurrent calls and the bounce buffer

All calls on a handle stage their bytes in the same buffer, without a lock. What a call
has staged is what it copies out as long as no other call fills the buffer in between;
`Keeps` says that of one step. In runs whose steps all keep the staged bytes the calls do
not mix their data, and two reads are enough to mix it in a run that does not.

## Key results

- `alone_eq_run`: the steps in a row are `ccat_sram_read()` and `ccat_sram_write()`
- `StagedInv.step`: what is known of every caller is kept by the steps of the others
- `unmixed_of_keeps`: runs that keep the staged bytes do not mix data
- `not_unmixed`: a read returns the bytes of another one
-/

namespace Ccat.Native.Sram

open Memory

section Alone

variable {s : SramShared} {c : SramCall}

/-- A call that fails its check ends there. -/
theorem alone_refused (h : c.refused s.file.iosize = true) :
    (SramTask.calling c).alone 3 s = some (s, .failed c ⟨0, [], c.off⟩) := by
  show (SramTask.next s (.calling c)).bind (fun p => p.2.alone 2 p.1) = _
  rw [SramTask.next, if_pos h]
  rfl

/-- Past its check a call is its two copies. -/
theorem alone_entered (h : ¬c.refused s.file.iosize = true) :
    (SramTask.calling c).alone 3 s = (SramTask.stage s s.now c).bind fun p => p.2.alone 1 p.1 := by
  show (SramTask.next s (.calling c)).bind (fun p => p.2.alone 2 p.1) = _
  rw [SramTask.next, if_neg h]
  rfl

/-- The second copy is the last step. -/
theorem alone_staged (since : Nat) :
    (SramTask.staged c since).alone 1 s = SramTask.finish s since c := by
  show (SramTask.finish s since c).bind (fun p => p.2.alone 0 p.1) = _
  cases SramTask.finish s since c <;> rfl

end Alone

/-- Without interference the steps are the functions of `Sram`. -/
theorem alone_eq_run (s : SramShared) (c : SramCall) :
    ((SramTask.calling c).alone 3 s).bind (fun p => p.2.answer?.map (·, p.1.file)) =
      c.run s.file := by
  by_cases hrefused : c.refused s.file.iosize = true
  · rw [alone_refused hrefused]
    cases c with
    | read off len limit => exact (if_pos (of_decide_eq_true hrefused)).symm
    | write off buf limit => exact (if_pos (of_decide_eq_true hrefused)).symm
  · rw [alone_entered hrefused]
    cases c with
    | read off len limit =>
      have hend : ¬off ≥ s.file.iosize := of_decide_eq_false (eq_false_of_ne_true hrefused)
      simp only [SramCall.run, ccatSramRead, if_neg hend, SramTask.stage, sramRead]
      cases hcopy : memcpyFromio s.file off (min len (s.file.iosize - off)) with
      | none => rfl
      | some f =>
        -- the copy into the buffer does not change the window
        have hsize : f.iosize = s.file.iosize := by
          simp only [memcpyFromio] at hcopy
          split at hcopy
          · cases hcopy
            rfl
          · cases hcopy
        show ((SramTask.staged _ _).alone 1 _).bind _ = _
        rw [alone_staged, SramTask.finish]
        simp only [hsize, Option.bind_some, SramTask.answer?, Option.map_some, Option.bind_eq_bind]
        split <;> rfl
    | write off buf limit =>
      have hend : ¬(off + buf.length) % 2 ^ 64 > s.file.iosize :=
        of_decide_eq_false (eq_false_of_ne_true hrefused)
      simp only [SramCall.run, ccatSramWrite, if_neg hend, SramTask.stage]
      cases hcopy : copyToBuffer s.file limit buf with
      | none => rfl
      | some p =>
        obtain ⟨missing, f⟩ := p
        -- bytes that could not be copied end the call with `-EFAULT`
        by_cases hmiss : missing ≠ 0
        · simp only [Option.bind_eq_bind, Option.bind_some, if_pos hmiss]
          rfl
        · simp only [Option.bind_eq_bind, Option.bind_some, if_neg hmiss]
          show ((SramTask.staged _ _).alone 1 _).bind _ = _
          rw [alone_staged, SramTask.finish]
          cases memcpyToio f off buf.length <;> rfl

/-! ### What should hold of a run -/

/-- The bytes a read of `len` bytes at `off` hands out, when SRAM holds `m`. -/
def readOf (iosize : Nat) (m : Nat → UInt8) (off len limit : Nat) : List UInt8 :=
  (slice m off (min len (iosize - off))).take limit

/-- Position and bytes of a write that was completed. -/
def SramTask.stored? : SramTask → Option (Nat × List UInt8)
  | .answered (.write off buf _) _ _ _ => some (off, buf)
  | _ => none

/-- No data is mixed: every read handed out what SRAM held in its range at some moment of the
    call, and SRAM is what the completed writes made of it, each with its own bytes at its own
    position. -/
structure Unmixed (sram₀ : Nat → UInt8) (c : Pool.Config SramShared SramTask) : Prop where
  reads : ∀ off len limit since till a,
    SramTask.answered (.read off len limit) since till a ∈ c.threads →
      ∃ i m, since ≤ i ∧ i ≤ till ∧ c.shared.contents[i]? = some m ∧
        a.user = readOf c.shared.file.iosize m off len limit
  writes : c.shared.file.sram =
    c.shared.stored.foldl (fun m (off, buf) => blit m off buf) sram₀
  stored : c.threads.filterMap SramTask.stored? = ↑c.shared.stored

/-- The first `n` bytes of the buffer are staged by this caller. -/
def SramTask.staged? (iosize : Nat) : SramTask → Option Nat
  | .staged c _ => some (c.count iosize)
  | _ => none

/-- A step leaves alone the bytes that callers have staged and not yet copied out. -/
def Keeps (a b : Pool.Config SramShared SramTask) : Prop :=
  ∀ t ∈ a.threads, ∀ n, t.staged? a.shared.file.iosize = some n →
    slice b.shared.file.buffer.data 0 n = slice a.shared.file.buffer.data 0 n

/-- A call may fill the buffer while nobody has anything staged. -/
theorem keeps_of_unstaged {a b : Pool.Config SramShared SramTask}
    (h : ∀ t ∈ a.threads, t.staged? a.shared.file.iosize = none) : Keeps a b := by
  intro t ht n hn
  rw [h t ht] at hn
  exact nomatch hn

/-- Steps that do not fill the buffer. -/
theorem keeps_of_buffer_eq {a b : Pool.Config SramShared SramTask}
    (h : b.shared.file.buffer.data = a.shared.file.buffer.data) : Keeps a b := by
  intro t _ n _
  rw [h]

/-! ### What is known of a caller -/

/-- The window holds the bytes that a call moves. -/
def SramCall.Fits (iosize : Nat) (c : SramCall) : Prop := c.off + c.count iosize ≤ iosize

/-- What is known of a caller that others have not disturbed. -/
def SramTask.Undisturbed (s : SramShared) : SramTask → Prop
  | .calling c => c.InRange
  | .entered c since => c.Fits s.file.iosize ∧ since ≤ s.now
  | .staged (.read off len limit) since =>
    (SramCall.read off len limit).Fits s.file.iosize ∧
    ∃ i m, since ≤ i ∧ i ≤ s.now ∧ s.contents[i]? = some m ∧
      slice s.file.buffer.data 0 (min len (s.file.iosize - off)) =
        slice m off (min len (s.file.iosize - off))
  | .staged (.write off buf limit) _ =>
    (SramCall.write off buf limit).Fits s.file.iosize ∧
    slice s.file.buffer.data 0 buf.length = buf
  | .answered (.read off len limit) since till a =>
    ∃ i m, since ≤ i ∧ i ≤ till ∧ s.contents[i]? = some m ∧
      a.user = readOf s.file.iosize m off len limit
  | _ => True

/-- Steps of others do not matter to a caller whose staged bytes they keep. -/
theorem SramTask.Undisturbed.mono {s s' : SramShared} {t : SramTask} (h : t.Undisturbed s)
    (hsize : s'.file.iosize = s.file.iosize) (hcontents : s.contents <+: s'.contents)
    (hkeep : ∀ n, t.staged? s.file.iosize = some n →
      slice s'.file.buffer.data 0 n = slice s.file.buffer.data 0 n) : t.Undisturbed s' := by
  have hnow : s.now ≤ s'.now := Nat.sub_le_sub_right hcontents.length_le 1
  -- contents of the past stay what they were
  have hget : ∀ {i : Nat} {m : Nat → UInt8},
      s.contents[i]? = some m → s'.contents[i]? = some m := by
    intro i m hi
    obtain ⟨ys, hys⟩ := hcontents
    rw [← hys, List.getElem?_append_left (List.getElem?_eq_some_iff.mp hi).1]
    exact hi
  cases t with
  | calling c => exact h
  | entered c since =>
    obtain ⟨hfits, hsince⟩ := h
    exact ⟨hsize ▸ hfits, Nat.le_trans hsince hnow⟩
  | staged c since =>
    have hkeep := hkeep _ rfl
    cases c with
    | read off len limit =>
      obtain ⟨hfits, i, m, hsince, hi, him, hbytes⟩ := h
      refine ⟨hsize ▸ hfits, i, m, hsince, Nat.le_trans hi hnow, hget him, ?_⟩
      rw [hsize, ← hbytes]
      exact hkeep
    | write off buf limit =>
      obtain ⟨hfits, hbytes⟩ := h
      exact ⟨hsize ▸ hfits, hkeep.trans hbytes⟩
  | answered c since till a =>
    cases c with
    | read off len limit =>
      obtain ⟨i, m, hsince, hi, him, hbytes⟩ := h
      exact ⟨i, m, hsince, hi, hget him, hsize ▸ hbytes⟩
    | write off buf limit => trivial
  | failed c a => trivial

/-! ### One step -/

/-- A call that passed its check moves bytes inside the window. -/
theorem SramCall.fits_of_not_refused {iosize : Nat} {c : SramCall} (hrange : c.InRange)
    (h : c.refused iosize = false) : c.Fits iosize := by
  cases c with
  | read off len limit =>
    simp only [refused, decide_eq_false_iff_not] at h
    simp only [Fits, SramCall.off, count]
    omega
  | write off buf limit =>
    simp only [refused, decide_eq_false_iff_not] at h
    simp only [Fits, SramCall.off, count, InRange] at hrange ⊢
    omega

/-- What a step of a caller does to SRAM and to the ghosts. -/
inductive Effect (s s' : SramShared) (t' : SramTask) : Prop where
  | none : t'.stored? = .none → s'.file.sram = s.file.sram → s'.contents = s.contents →
      s'.stored = s.stored → Effect s s' t'
  | write {off : Nat} {buf : List UInt8} : t'.stored? = some (off, buf) →
      s'.file.sram = blit s.file.sram off buf → s'.contents = s.contents ++ [s'.file.sram] →
      s'.stored = s.stored ++ [(off, buf)] → Effect s s' t'

/-- The copy into the buffer. -/
theorem SramTask.stage_spec {s : SramShared} {c : SramCall} {since : Nat}
    (hpresent : s.contents[s.now]? = some s.file.sram) (hfits : c.Fits s.file.iosize)
    (hsince : since ≤ s.now) :
    ∃ s' t', stage s since c = some (s', t') ∧ t'.Undisturbed s' ∧
      s'.file.iosize = s.file.iosize ∧ Effect s s' t' := by
  cases c with
  | read off len limit =>
    simp only [SramCall.Fits, SramCall.off, SramCall.count] at hfits
    have hwindow : off + min len (s.file.iosize - off) ≤ s.file.iosize ∧
        min len (s.file.iosize - off) ≤ s.file.iosize := by omega
    have hstage : stage s since (.read off len limit) = some ({ s with
        file.buffer.data := blit s.file.buffer.data 0
          (slice s.file.sram off (min len (s.file.iosize - off))) },
        staged (.read off len limit) since) := by
      simp [stage, memcpyFromio, hwindow]
    refine ⟨_, _, hstage, ?_, rfl, .none rfl rfl rfl rfl⟩
    refine ⟨hfits, s.now, s.file.sram, hsince, Nat.le_refl _, hpresent, ?_⟩
    -- what was just copied into the buffer is in it
    have hblit := slice_blit s.file.buffer.data 0
      (slice s.file.sram off (min len (s.file.iosize - off)))
    rwa [length_slice] at hblit
  | write off buf limit =>
    simp only [SramCall.Fits, SramCall.off, SramCall.count] at hfits
    have hlen : buf.length ≤ s.file.iosize := by omega
    -- a fault in user space ends the call, and nothing is staged
    by_cases hlimit : buf.length ≤ limit
    · have hstage : stage s since (.write off buf limit) = some ({ s with
          file.buffer.data := blit s.file.buffer.data 0 buf },
          staged (.write off buf limit) since) := by
        simp [stage, copyToBuffer, hlen, copyFromUser_of_le hlimit]
      exact ⟨_, _, hstage, ⟨hfits, slice_blit s.file.buffer.data 0 buf⟩, rfl, .none rfl rfl rfl rfl⟩
    · have hmiss : (copyFromUser limit buf).2 ≠ 0 := by
        simp only [copyFromUser]
        omega
      have hstage : stage s since (.write off buf limit) = some ({ s with
          file.buffer.data := blit s.file.buffer.data 0 (copyFromUser limit buf).1 },
          failed (.write off buf limit) ⟨-EFAULT, [], off⟩) := by
        simp [stage, copyToBuffer, hlen, hmiss]
      exact ⟨_, _, hstage, trivial, rfl, .none rfl rfl rfl rfl⟩

/-- The copy out of the buffer. -/
theorem SramTask.finish_spec {s : SramShared} {c : SramCall} {since : Nat}
    (h : (SramTask.staged c since).Undisturbed s) :
    ∃ s' t', finish s since c = some (s', t') ∧ t'.Undisturbed s' ∧
      s'.file.iosize = s.file.iosize ∧ Effect s s' t' := by
  cases c with
  | read off len limit =>
    obtain ⟨-, i, m, hsince, hi, him, hbytes⟩ := h
    refine ⟨_, _, rfl, ⟨i, m, hsince, hi, him, ?_⟩, rfl, .none rfl rfl rfl rfl⟩
    simp only [readOf, hbytes]
    split <;> rfl
  | write off buf limit =>
    obtain ⟨hfits, hbytes⟩ := h
    simp only [SramCall.Fits, SramCall.off, SramCall.count] at hfits
    have hwindow : off + buf.length ≤ s.file.iosize ∧ buf.length ≤ s.file.iosize := by omega
    -- what is copied to the window is what was staged
    have hcopy : memcpyToio s.file off buf.length =
        some { s.file with sram := blit s.file.sram off buf } := by
      simp [memcpyToio, hwindow, hbytes]
    simp only [finish, hcopy]
    exact ⟨_, _, rfl, trivial, rfl, .write rfl rfl rfl rfl⟩

/-- Every caller that has not returned takes its next step. -/
theorem SramTask.next_spec {s : SramShared} {t : SramTask}
    (hpresent : s.contents[s.now]? = some s.file.sram) (h : t.Undisturbed s)
    (hans : t.answer? = none) :
    ∃ s' t', t.next s = some (s', t') ∧ t'.Undisturbed s' ∧
      s'.file.iosize = s.file.iosize ∧ Effect s s' t' := by
  cases t with
  | calling c =>
    by_cases hrefused : c.refused s.file.iosize = true
    · exact ⟨_, _, if_pos hrefused, trivial, rfl, .none rfl rfl rfl rfl⟩
    · have hfits := c.fits_of_not_refused h (by simpa using hrefused)
      exact ⟨_, _, if_neg hrefused, ⟨hfits, Nat.le_refl _⟩, rfl, .none rfl rfl rfl rfl⟩
  | entered c since => exact stage_spec hpresent h.1 h.2
  | staged c since => exact finish_spec h
  | answered c since till a => exact nomatch hans
  | failed c a => exact nomatch hans

/-- The present content is the last one. -/
theorem Effect.present {s s' : SramShared} {t' : SramTask} (h : Effect s s' t')
    (hpresent : s.contents[s.now]? = some s.file.sram) :
    s'.contents[s'.now]? = some s'.file.sram ∧ s.contents <+: s'.contents := by
  cases h with
  | none _ hsram hcontents _ =>
    refine ⟨?_, hcontents ▸ List.prefix_refl _⟩
    rw [SramShared.now, hcontents, hsram]
    exact hpresent
  | write _ _ hcontents _ =>
    refine ⟨?_, hcontents ▸ List.prefix_append _ _⟩
    rw [SramShared.now, hcontents]
    simp

/-! ### All interleavings that keep the staged bytes -/

structure StagedInv (sram₀ : Nat → UInt8) (c : Pool.Config SramShared SramTask) : Prop where
  present : c.shared.contents[c.shared.now]? = some c.shared.file.sram
  callers : ∀ t ∈ c.threads, t.Undisturbed c.shared
  writes : c.shared.file.sram =
    c.shared.stored.foldl (fun m (off, buf) => blit m off buf) sram₀
  stored : c.threads.filterMap SramTask.stored? = ↑c.shared.stored

/-- A step that keeps the staged bytes of the others keeps the invariant. -/
theorem StagedInv.step {sram₀ : Nat → UInt8} {c c' : Pool.Config SramShared SramTask}
    (h : StagedInv sram₀ c) (hstep : sramCallers.Step c c') (hkeeps : Keeps c c') :
    StagedInv sram₀ c' := by
  cases hstep with
  | spawn hstart =>
    obtain ⟨call, rfl, hrange⟩ := hstart
    constructor
    case present => exact h.present
    case callers =>
      intro t ht
      cases Multiset.mem_cons.mp ht with
      | inl hnew =>
        subst hnew
        exact hrange
      | inr hold => exact h.callers t hold
    case writes => exact h.writes
    case stored => exact (Multiset.filterMap_cons_none _ _ rfl).trans h.stored
  | @run s s' ts t t' hrun =>
    replace hrun : t.next s = some (s', t') := hrun
    have hans : t.answer? = none := by
      cases t with
      | answered c since till a => exact nomatch hrun
      | failed c a => exact nomatch hrun
      | _ => rfl
    have hstored : t.stored? = none := by
      cases t with
      | answered c since till a => exact nomatch hans
      | _ => rfl
    -- the caller that moves did not have its answer yet
    obtain ⟨s₁, t₁, hnext, hmine, hsize, heffect⟩ :=
      SramTask.next_spec h.present (h.callers t (Multiset.mem_cons_self _ _)) hans
    cases hrun.symm.trans hnext
    obtain ⟨hpresent, hcontents⟩ := heffect.present h.present
    have hold := h.stored
    rw [Multiset.filterMap_cons_none _ _ hstored] at hold
    constructor
    case present => exact hpresent
    case callers =>
      intro u hu
      cases Multiset.mem_cons.mp hu with
      | inl hself => exact hself ▸ hmine
      | inr hother =>
        -- the others keep what they have staged, by the condition on the step
        have hmem : u ∈ t ::ₘ ts := Multiset.mem_cons_of_mem hother
        exact (h.callers u hmem).mono hsize hcontents (hkeeps u hmem)
    case writes =>
      cases heffect with
      | none _ hsram _ hlog => rw [hsram, hlog, h.writes]
      | write _ hsram _ hlog => rw [hsram, hlog, h.writes, List.foldl_append]; rfl
    case stored =>
      cases heffect with
      | none hnone _ _ hlog => rw [Multiset.filterMap_cons_none _ _ hnone, hold, hlog]
      | write hsome _ _ hlog =>
        rw [Multiset.filterMap_cons_some _ _ _ hsome, hold, hlog]
        exact Multiset.coe_eq_coe.mpr (List.perm_append_singleton _ _).symm
  | env henv => exact henv.elim

/-- In every run whose steps leave the staged bytes alone no data is mixed, and every call that
    has not returned can go on. -/
theorem unmixed_of_keeps (f : SramFile) (c : Pool.Config SramShared SramTask)
    (hreach : sramCallers.ReachIf Keeps ⟨{ file := f }, 0⟩ c) :
    Unmixed f.sram c ∧ ∀ t ∈ c.threads, t.answer? = none → (t.next c.shared).isSome := by
  have hinit : StagedInv f.sram ⟨{ file := f }, 0⟩ := by
    constructor
    case present => rfl
    case callers => simp
    case writes => rfl
    case stored => rfl
  have h := Pool.reachIf_inv (fun _ _ => StagedInv.step) hinit hreach
  constructor
  · constructor
    · exact fun off len limit since till a hmem => h.callers _ hmem
    · exact h.writes
    · exact h.stored
  · intro t ht hans
    obtain ⟨s', t', hnext, -⟩ := SramTask.next_spec h.present (h.callers t ht) hans
    rw [hnext]
    rfl

/-- A handle on an SRAM of two bytes, 0 and 1. -/
private def twoBytes : SramFile := .opened 1 (fun p => UInt8.ofNat p) ⟨0, 2, fun _ => 0⟩

/-- A read passes its check while a write is between its two copies, and fills the buffer once
    the write is through: both calls keep to their own bytes. -/
theorem unmixed_of_keeps_interleaved : ∃ c : Pool.Config SramShared SramTask,
    c.threads = {.answered (.read 0 2 2) 0 1 ⟨2, [0, 7], 2⟩,
      .answered (.write 1 [7] 1) 0 1 ⟨1, [], 2⟩} ∧
    c.shared.file.sram 1 = 7 ∧ Unmixed twoBytes.sram c := by
  have hreach : ∃ c, sramCallers.ReachIf Keeps ⟨{ file := twoBytes }, 0⟩ c ∧
      c.threads = {.answered (.read 0 2 2) 0 1 ⟨2, [0, 7], 2⟩,
        .answered (.write 1 [7] 1) 0 1 ⟨1, [], 2⟩} ∧ c.shared.file.sram 1 = 7 :=
    ⟨_, .tail (.tail (.tail (.tail (.tail (.tail (.tail (.tail .refl
      -- the write is checked and staged
      ⟨.spawn ⟨.write 1 [7] 1, rfl, by simp [SramCall.InRange]⟩, keeps_of_buffer_eq rfl⟩)
      ⟨.run rfl, keeps_of_buffer_eq rfl⟩)
      ⟨.run rfl, keeps_of_unstaged fun t ht => by rw [Multiset.mem_singleton.mp ht]; rfl⟩)
      -- the read starts and stops ahead of the buffer
      ⟨.spawn ⟨.read 0 2 2, rfl, by simp [SramCall.InRange]⟩, keeps_of_buffer_eq rfl⟩)
      ⟨.run rfl, keeps_of_buffer_eq rfl⟩)
      -- the write ends
      ⟨.run_second rfl, keeps_of_buffer_eq rfl⟩)
      -- the buffer is free for the read
      ⟨.run rfl, keeps_of_unstaged (by simp [SramTask.staged?])⟩)
      ⟨.run rfl, keeps_of_buffer_eq rfl⟩, rfl, rfl⟩
  obtain ⟨c, hreach, hthreads, hbyte⟩ := hreach
  exact ⟨c, hthreads, hbyte, (unmixed_of_keeps twoBytes c hreach).1⟩

/-- Two reads, each of its own byte: the second fills the buffer while the first is between its
    two copies, and the first returns the byte of the second. -/
theorem not_unmixed : ¬ ∀ (f : SramFile) (c : Pool.Config SramShared SramTask),
    sramCallers.Reach ⟨{ file := f }, 0⟩ c → Unmixed f.sram c := by
  intro h
  have hreach : ∃ c, sramCallers.Reach ⟨{ file := twoBytes }, 0⟩ c ∧
      c.threads = {.staged (.read 1 1 1) 0, .answered (.read 0 1 1) 0 0 ⟨1, [1], 1⟩} ∧
      c.shared.contents = [twoBytes.sram] ∧ c.shared.file.iosize = 2 :=
    ⟨_, .tail (.tail (.tail (.tail (.tail (.tail (.tail .refl
      (.spawn ⟨.read 0 1 1, rfl, by simp [SramCall.InRange]⟩)) (.run rfl)) (.run rfl))
      (.spawn ⟨.read 1 1 1, rfl, by simp [SramCall.InRange]⟩)) (.run rfl)) (.run rfl))
      (.run_second rfl), rfl, rfl, rfl⟩
  obtain ⟨c, hreach, hthreads, hcontents, hsize⟩ := hreach
  have hmem : .answered (.read 0 1 1) 0 0 ⟨1, [1], 1⟩ ∈ c.threads := by
    rw [hthreads]
    exact Multiset.mem_cons_of_mem (Multiset.mem_cons_self _ _)
  obtain ⟨i, m, -, -, him, huser⟩ := (h twoBytes c hreach).reads 0 1 1 0 0 _ hmem
  -- SRAM never changed, and its first byte is 0
  rw [hcontents] at him
  have hm : twoBytes.sram = m := by
    obtain ⟨hi, heq⟩ := List.getElem?_eq_some_iff.mp him
    simpa using heq
  rw [hsize, ← hm] at huser
  exact absurd huser (by decide)

end Ccat.Native.Sram
