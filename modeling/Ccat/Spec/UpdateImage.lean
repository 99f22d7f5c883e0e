import Ccat.ForStd.List
import Ccat.Spec.UpdateCorrect

/-!
# The staged image

What should be programmed after a sequence of `write` and `pwrite` calls is the image
the successful calls wrote: as long as the largest end of them, at every position the
byte of the last of them that covers it. `ccat_update_write()` sets the size to the end
of the last successful call instead, and a call that faults has already changed the
data. So the image is the written one exactly when neither shows (`Consistent`).

## Key results

- `size_pwriteCalls`: the staged size is the end of the last successful call
- `data_pwriteCalls`: a staged byte is what the last accepted call left there
- `stagedAsWritten_iff`: when the staged image is the written one
-/

namespace Ccat.Native.Update

open Memory

/-- A call with its position. -/
structure Pwrite where
  off : Nat
  buf : List UInt8
  limit : Nat

/-- Calls made one after another on a handle. -/
def pwriteCalls (d : CcatCdev) (buffer : CdevBuffer) (calls : List Pwrite) : CdevBuffer :=
  calls.foldl (fun b c => (ccatUpdateWrite d b c.limit c.buf c.off).buffer) buffer

/-- The calls of a run with the positions at which they are made. -/
def positioned (d : CcatCdev) (pos : Nat) (buffer : CdevBuffer) : List WriteCall → List Pwrite
  | [] => []
  | c :: cs =>
    let r := ccatUpdateWrite d buffer c.limit c.buf (c.off.getD pos)
    ⟨c.off.getD pos, c.buf, c.limit⟩ ::
      positioned d (if c.off.isNone then r.off else pos) r.buffer cs

/-- Mixed `write` and `pwrite` calls stage what the same calls at explicit positions stage. -/
theorem writeCalls_eq_pwriteCalls (d : CcatCdev) (pos : Nat) (buffer : CdevBuffer)
    (calls : List WriteCall) :
    (writeCalls d pos buffer calls).2.2 = pwriteCalls d buffer (positioned d pos buffer calls) := by
  induction calls generalizing pos buffer with
  | nil => rfl
  | cons c cs ih =>
    simp only [writeCalls, positioned, ih]
    rfl

namespace Pwrite

/-- The call passes the size check. -/
def accepted (iosize : Nat) (c : Pwrite) : Bool := c.off + c.buf.length ≤ iosize

/-- The call copies all its bytes. -/
def complete (c : Pwrite) : Bool := c.buf.length ≤ c.limit

def covers (p : Nat) (c : Pwrite) : Bool := c.off ≤ p && p < c.off + c.buf.length

/-- The byte the caller passed for position `p`. -/
def byteAt (p : Nat) (c : Pwrite) : UInt8 := (c.buf[p - c.off]?).getD 0

/-- The byte a faulting call leaves at position `p`: its own up to the fault, zero behind. -/
def leftAt (p : Nat) (c : Pwrite) : UInt8 := if p - c.off < c.limit then c.byteAt p else 0

end Pwrite

/-! ## The image that was written -/

/-- The last successful call that covers `p`. -/
def lastSuccess (iosize : Nat) (calls : List Pwrite) (p : Nat) : Option Pwrite :=
  (calls.filter fun c => c.complete && (c.accepted iosize && c.covers p)).getLast?

def writtenByte (iosize : Nat) (calls : List Pwrite) (p : Nat) : UInt8 :=
  (lastSuccess iosize calls p).elim 0 (·.byteAt p)

/-- The largest end of the successful calls that are not empty. -/
def writtenSize (iosize : Nat) (calls : List Pwrite) : Nat :=
  ((calls.filter fun c => c.complete && c.accepted iosize && !c.buf.isEmpty).map
    fun c => c.off + c.buf.length).foldl max 0

def writtenImage (iosize : Nat) (calls : List Pwrite) : List UInt8 :=
  slice (writtenByte iosize calls) 0 (writtenSize iosize calls)

/-- The image staged by `calls` on a fresh handle is the one they wrote, and when they wrote
    nothing closing the handle does not touch the device. -/
structure StagedAsWritten (i : Nat) (d : CcatCdev) (calls : List Pwrite) : Prop where
  image : slice (pwriteCalls d ⟨i, 0, fun _ => 0⟩ calls).data 0
    (pwriteCalls d ⟨i, 0, fun _ => 0⟩ calls).size = writtenImage d.iosize calls
  untouched : writtenSize d.iosize calls = 0 → ∀ L hw,
    (ccatUpdateRelease L d (pwriteCalls d ⟨i, 0, fun _ => 0⟩ calls) hw).2.2 = hw

/-! ## The image that is staged -/

/-- End of the last successful call. -/
def lastEnd (iosize : Nat) (calls : List Pwrite) : Nat :=
  ((calls.filter fun c => c.complete && c.accepted iosize).getLast?).elim 0
    fun c => c.off + c.buf.length

/-- The last call that stored at `p`. -/
def lastStore (iosize : Nat) (calls : List Pwrite) (p : Nat) : Option Pwrite :=
  (calls.filter fun c => c.accepted iosize && c.covers p).getLast?

/-- One `write`, by outcome. -/
private theorem ccatUpdateWrite_pwrite (d : CcatCdev) (b : CdevBuffer) (c : Pwrite)
    (h : c.off + c.buf.length < 2 ^ 63) :
    (ccatUpdateWrite d b c.limit c.buf c.off).buffer =
      if c.accepted d.iosize then
        { b with
          size := if c.complete then c.off + c.buf.length else b.size
          data := blit b.data c.off (copyFromUser c.limit c.buf).1 }
      else b := by
  have hmod : (c.off + c.buf.length) % 2 ^ 64 = c.off + c.buf.length :=
    Nat.mod_eq_of_lt (by omega)
  simp only [ccatUpdateWrite, hmod, Pwrite.accepted, Pwrite.complete, decide_eq_true_eq]
  by_cases hacc : c.off + c.buf.length ≤ d.iosize
  · rw [if_neg (by omega), if_pos hacc]
    by_cases hcomplete : c.buf.length ≤ c.limit
    · simp only [copyFromUser_of_le hcomplete, if_pos hcomplete]
      rfl
    · have hmissing : (copyFromUser c.limit c.buf).2 ≠ 0 := by
        simp only [copyFromUser]; omega
      rw [if_pos hmissing, if_neg hcomplete]
  · rw [if_pos (by omega), if_neg hacc]

/-- The staged size is the end of the last successful call. -/
theorem size_pwriteCalls (i : Nat) (d : CcatCdev) (calls : List Pwrite)
    (h : ∀ c ∈ calls, c.off + c.buf.length < 2 ^ 63) :
    (pwriteCalls d ⟨i, 0, fun _ => 0⟩ calls).size = lastEnd d.iosize calls := by
  rw [pwriteCalls, lastEnd]
  -- a call that is not successful leaves the size alone
  refine List.foldl_eq_last CdevBuffer.size _ _ calls _ fun c hc b => ?_
  rw [ccatUpdateWrite_pwrite d b c (h c hc)]
  by_cases hacc : c.accepted d.iosize = true <;> simp [hacc]

/-- The byte `copy_from_user()` leaves at position `p`. -/
private theorem copyFromUser_byte (c : Pwrite) {p : Nat} (hoff : c.off ≤ p)
    (hp : p < c.off + c.buf.length) :
    (copyFromUser c.limit c.buf).1[p - c.off]? = some (c.leftAt p) := by
  simp only [copyFromUser, Pwrite.leftAt, Pwrite.byteAt]
  rcases Nat.lt_or_ge (p - c.off) c.limit with hlt | hge
  · -- in front of the fault
    rw [if_pos hlt, List.getElem?_append_left (by rw [List.length_take]; omega),
      List.getElem?_take_of_lt hlt, List.getElem?_eq_getElem (by omega), Option.getD_some]
  · -- behind it `copy_from_user()` stores zeros
    rw [if_neg (by omega), List.getElem?_append_right (by rw [List.length_take]; omega),
      List.length_take, List.getElem?_replicate, if_pos (by omega)]

/-- A staged byte is what the last accepted call that covers it left there. -/
theorem data_pwriteCalls (i : Nat) (d : CcatCdev) (calls : List Pwrite)
    (h : ∀ c ∈ calls, c.off + c.buf.length < 2 ^ 63) (p : Nat) :
    (pwriteCalls d ⟨i, 0, fun _ => 0⟩ calls).data p =
      (lastStore d.iosize calls p).elim 0 (·.leftAt p) := by
  rw [pwriteCalls, lastStore]
  -- a call stores at `p` whenever it is accepted and covers it, successful or not
  refine List.foldl_eq_last (fun b : CdevBuffer => b.data p) _ _ calls _ fun c hc b => ?_
  rw [ccatUpdateWrite_pwrite d b c (h c hc)]
  by_cases hacc : c.accepted d.iosize = true
  · simp only [hacc, if_true, Bool.true_and, Pwrite.covers, Bool.and_eq_true, decide_eq_true_eq]
    by_cases hcov : c.off ≤ p ∧ p < c.off + c.buf.length
    · rw [if_pos hcov, blit, if_pos hcov.1, copyFromUser_byte c hcov.1 hcov.2, Option.getD_some]
    · rw [if_neg hcov]
      rcases Nat.lt_or_ge p c.off with hlt | hge
      · exact blit_of_lt _ _ hlt
      · exact blit_of_ge _ _ (by rw [length_copyFromUser]; omega)
  · simp only [hacc, Bool.false_eq_true, if_false, Bool.false_and]

/-! ## When the two agree -/

/-- The condition on the calls: the last successful call ends where the written image ends,
    and where the last call that stored a byte faulted, what it left is the written byte. -/
structure Consistent (iosize : Nat) (calls : List Pwrite) : Prop where
  ends : lastEnd iosize calls = writtenSize iosize calls
  faults : ∀ p, p < writtenSize iosize calls → ∀ c, lastStore iosize calls p = some c →
    c.complete = false → c.leftAt p = writtenByte iosize calls p

/-- A call that is complete leaves what it wrote. -/
private theorem leftAt_complete {c : Pwrite} (h : c.complete = true) (p : Nat) :
    c.leftAt p = c.byteAt p := by
  simp only [Pwrite.complete, decide_eq_true_eq] at h
  simp only [Pwrite.leftAt, Pwrite.byteAt]
  rcases Nat.lt_or_ge (p - c.off) c.limit with hlt | hge
  · rw [if_pos hlt]
  · rw [if_neg (by omega), List.getElem?_eq_none (by omega), Option.getD_none]

/-- Where the last call that stored a byte was successful, or there was none, the staged byte
    is the written one; elsewhere it is what the fault left. -/
theorem staged_eq_written_iff (iosize : Nat) (calls : List Pwrite) (p : Nat) :
    (lastStore iosize calls p).elim 0 (·.leftAt p) = writtenByte iosize calls p ↔
      ∀ c, lastStore iosize calls p = some c → c.complete = false →
        c.leftAt p = writtenByte iosize calls p := by
  cases hstore : lastStore iosize calls p with
  | none =>
    -- no call stored at `p`, successful or not
    have hnone : lastSuccess iosize calls p = none := List.getLast?_filter_and_none _ hstore
    simp only [writtenByte, hnone, Option.elim_none, true_iff]
    exact fun c hc => nomatch hc
  | some c =>
    simp only [Option.elim_some, Option.some.injEq, forall_eq']
    cases hc : c.complete with
    | false => simp only [forall_const]
    | true =>
      -- the last call that stored here is also the last successful one
      have hlast : lastSuccess iosize calls p = some c := List.getLast?_filter_and hstore hc
      simp only [writtenByte, hlast, Option.elim_some, leftAt_complete hc, Bool.true_eq_false,
        false_implies]

/-- A staged size never exceeds the device. -/
private theorem lastEnd_le (iosize : Nat) (calls : List Pwrite) :
    lastEnd iosize calls ≤ iosize := by
  rw [lastEnd]
  cases hlast : (calls.filter fun c => c.complete && c.accepted iosize).getLast? with
  | none => exact Nat.zero_le _
  | some c =>
    have hmem := (List.mem_filter.mp (List.mem_of_getLast? hlast)).2
    simp only [Bool.and_eq_true, Pwrite.accepted, decide_eq_true_eq] at hmem
    exact hmem.2

/-- **The staged image.** Closing a handle programs the staged bytes, and these are the image
    that was written exactly when the calls are `Consistent`. -/
theorem stagedAsWritten_iff (i : Nat) (d : CcatCdev) (hd : d.iosize = CCAT_FLASH_SIZE)
    (calls : List Pwrite) (h : ∀ c ∈ calls, c.off + c.buf.length < 2 ^ 63) :
    (∀ L hw, hw.Idle → 0 < (pwriteCalls d ⟨i, 0, fun _ => 0⟩ calls).size →
      (ccatUpdateRelease L d (pwriteCalls d ⟨i, 0, fun _ => 0⟩ calls) hw).2.2.flash =
        blit (fun _ => 0xFF) 0 (slice (pwriteCalls d ⟨i, 0, fun _ => 0⟩ calls).data 0
          (pwriteCalls d ⟨i, 0, fun _ => 0⟩ calls).size)) ∧
    (StagedAsWritten i d calls ↔ Consistent d.iosize calls) := by
  have hsize := size_pwriteCalls i d calls h
  have hdata := data_pwriteCalls i d calls h
  have hle := lastEnd_le d.iosize calls
  have hflash : CCAT_FLASH_SIZE < 2 ^ 24 := by decide
  refine ⟨fun L hw hidle hpos => ?_, fun hstaged => ?_, fun hcons => ?_⟩
  · exact ((ccatUpdateRelease_flash L d _ hw hidle (by omega)).2 hpos).flash_eq
  · -- equal images have equal lengths, so the ends agree; then compare byte by byte
    have hlen := congrArg List.length hstaged.image
    rw [writtenImage, length_slice, length_slice, hsize] at hlen
    refine ⟨hlen, fun p hp => (staged_eq_written_iff d.iosize calls p).mp ?_⟩
    have hbyte := congrArg (·[p]?) hstaged.image
    simp only [writtenImage, getElem?_slice, hsize, hlen, if_pos hp, Nat.zero_add,
      Option.some.injEq] at hbyte
    rw [← hdata, hbyte]
  · constructor
    · rw [hsize, hcons.ends, writtenImage]
      apply slice_congr
      intro p hp
      rw [Nat.zero_add, hdata]
      exact (staged_eq_written_iff d.iosize calls p).mpr (hcons.faults p hp)
    · -- nothing was written, and the release issues nothing
      intro hzero L hw
      simp only [ccatUpdateRelease, ccatCdevRelease]
      exact if_neg (by rw [hsize, hcons.ends, hzero]; exact Nat.lt_irrefl 0)

/-- Two writes in a row are programmed as they were written. -/
theorem stagedAsWritten_iff_append :
    StagedAsWritten 0 ⟨0, 0, CCAT_FLASH_SIZE, 1, .owner⟩ [⟨0, [1, 2], 2⟩, ⟨2, [3], 1⟩] := by
  refine (stagedAsWritten_iff 0 ⟨0, 0, CCAT_FLASH_SIZE, 1, .owner⟩ rfl
    [⟨0, [1, 2], 2⟩, ⟨2, [3], 1⟩] (by simp)).2.mpr ⟨by decide, fun p _ c hc hfault => ?_⟩
  have hmem := (List.mem_filter.mp (List.mem_of_getLast? hc)).1
  rcases List.mem_cons.mp hmem with rfl | hmem
  · exact nomatch hfault
  · obtain rfl := List.mem_singleton.mp hmem
    exact nomatch hfault

/-- A second write at offset 0 cuts the image down to its own length. -/
theorem not_stagedAsWritten_backward :
    ¬∀ (i : Nat) (d : CcatCdev) (calls : List Pwrite), d.iosize = CCAT_FLASH_SIZE →
      (∀ c ∈ calls, c.off + c.buf.length < 2 ^ 63) → StagedAsWritten i d calls := by
  intro h
  have himage := (h 0 ⟨0, 0, CCAT_FLASH_SIZE, 1, .owner⟩ [⟨0, [1, 2], 2⟩, ⟨0, [3], 1⟩] rfl
    (by simp)).image
  -- one staged byte against two written ones
  have hlen := congrArg List.length himage
  rw [writtenImage, length_slice, length_slice] at hlen
  exact absurd hlen (by decide)

end Ccat.Native.Update
