import Ccat.Spec.UpdateFlash

/-!
# Round trip of a flash update

A session that writes an image, in any chunks, leaves the image in the flash followed
by `0xFF`; sessions that read afterwards get it back, whatever lengths they ask for. A
session that wrote no byte should not touch the flash. But `ccat_update_write()` takes the
file position for the number of bytes staged: after reads, or with `pwrite`, a `write` of no
bytes makes the `close` erase the flash and program what is in the buffer. A read does not
look at the result of `put_user()`: it reports bytes as delivered that could not be stored.

## Key results

- `writeCalls_staged`: consecutive writes stage the concatenation of their bytes
- `readCalls_spec`: consecutive reads deliver a prefix of what is left of the flash
- `fileCalls_nothing`: what is staged when no byte is written
- `flash_round_trip`: the round trip through the flash, and when a session leaves it alone
- `ccatUpdateRead_honest_iff`: a read reports what it delivered iff no store faults
-/

namespace Ccat.Native.Update

open Memory

/-- A `write` at the file position that does not fault. -/
def WriteCall.Plain (c : WriteCall) : Prop := c.off = none ∧ c.buf.length ≤ c.limit

/-- The image that consecutive writes pass. -/
def imageOf (calls : List WriteCall) : List UInt8 := calls.flatMap (·.buf)

/-- The flash content after `image` was programmed. -/
def programmed (image : List UInt8) : List UInt8 :=
  image ++ List.replicate (CCAT_FLASH_SIZE - image.length) 0xFF

/-- The read can store all it may deliver. -/
def ReadCall.Plain (c : ReadCall) : Prop := ∀ p, p < c.len → c.user.faults p = false

/-- The device is as `ccat_update_probe()` leaves it, with no handle open. -/
structure Probed (d : CcatCdev) : Prop where
  iosize : d.iosize = CCAT_FLASH_SIZE
  inUse : d.inUse = 1

/-! ## Writing -/

/-- A write that fits and does not fault. -/
theorem ccatUpdateWrite_plain (d : CcatCdev) (buffer : CdevBuffer) (limit : Nat)
    (buf : List UInt8) (off : Nat) (hfit : off + buf.length ≤ d.iosize) (hio : d.iosize < 2 ^ 64)
    (hlimit : buf.length ≤ limit) :
    ccatUpdateWrite d buffer limit buf off =
      ⟨buf.length, off + buf.length,
        { buffer with size := off + buf.length, data := blit buffer.data off buf }⟩ := by
  have hmod : (off + buf.length) % 2 ^ 64 = off + buf.length := Nat.mod_eq_of_lt (by omega)
  rw [ccatUpdateWrite, hmod, if_neg (by omega), copyFromUser_of_le hlimit]
  rfl

/-- Consecutive writes that fit stage the concatenation of their bytes. -/
theorem writeCalls_staged (d : CcatCdev) (pos : Nat) (buffer : CdevBuffer)
    (calls : List WriteCall) (hplain : ∀ c ∈ calls, c.Plain) (hio : d.iosize < 2 ^ 64)
    (hfit : pos + (imageOf calls).length ≤ d.iosize) (hsize : buffer.size = pos) :
    writeCalls d pos buffer calls =
      (calls.map fun c => (c.buf.length : Int), pos + (imageOf calls).length,
        { buffer with
          size := pos + (imageOf calls).length
          data := blit buffer.data pos (imageOf calls) }) := by
  induction calls generalizing pos buffer with
  | nil =>
    subst hsize
    simp [writeCalls, imageOf]
  | cons c cs ih =>
    obtain ⟨hoff, hlimit⟩ := hplain c (List.mem_cons_self ..)
    have himage : imageOf (c :: cs) = c.buf ++ imageOf cs := rfl
    rw [himage, List.length_append] at hfit
    -- the first call stages its bytes and moves the position behind them
    have hwrite := ccatUpdateWrite_plain d buffer c.limit c.buf pos (by omega) hio hlimit
    have hrest := ih (pos + c.buf.length)
      { buffer with size := pos + c.buf.length, data := blit buffer.data pos c.buf }
      (fun c hc => hplain c (List.mem_cons_of_mem _ hc)) (by omega) rfl
    simp only [writeCalls, hoff, Option.getD_none, hwrite, Option.isNone_none, if_true, hrest,
      himage, List.length_append, List.map_cons, blit_blit, Nat.add_assoc]

/-! ## Sessions in which nothing is written -/

/-- The range of positions and lengths that calls are made with. -/
def FileCall.InRange : FileCall → Prop
  | .read .. => True
  | .write c => c.off.getD 0 + c.buf.length < 2 ^ 63

/-- The position of the last `write` of no bytes inside the flash, or `size` if there is none.
    Only reads move the file position `pos`, and not past the end of the flash. -/
def lastEmptyWrite (pos size : Nat) : List FileCall → Nat
  | [] => size
  | .read off c :: cs =>
    lastEmptyWrite (if off.isNone then min (pos + c.len) CCAT_FLASH_SIZE else pos) size cs
  | .write c :: cs =>
    lastEmptyWrite pos
      (if c.buf = [] ∧ c.off.getD pos ≤ CCAT_FLASH_SIZE then c.off.getD pos else size) cs

/-- From `hw` to `hw'` no erase or program command was issued, and the flash is the same. -/
structure FlashHw.Untouched (hw hw' : FlashHw) : Prop where
  issues : FlashHw.Issues
    (fun c => c.cmd ≠ CCAT_BULK_ERASE.cmd ∧ c.cmd ≠ CCAT_WRITE_FLASH.cmd) hw hw'
  flash : hw'.flash = hw.flash

/-- No `write` of the session reported a byte. -/
def NothingWritten (answers : List (FileCall × Int)) : Prop :=
  ∀ x ∈ answers, x.1.isWrite = true → x.2 ≤ 0

/-- A `write` that reports no byte keeps the position. The size changes only if the call was
    one of no bytes, and then to its position. -/
theorem ccatUpdateWrite_nothing (d : CcatCdev) (buffer : CdevBuffer) (limit : Nat)
    (buf : List UInt8) (off : Nat) (hrange : off + buf.length < 2 ^ 64)
    (hret : (ccatUpdateWrite d buffer limit buf off).ret ≤ 0) :
    (ccatUpdateWrite d buffer limit buf off).off = off ∧
      (ccatUpdateWrite d buffer limit buf off).buffer.size =
        if buf = [] ∧ off ≤ d.iosize then off else buffer.size := by
  have hmod : (off + buf.length) % 2 ^ 64 = off + buf.length := Nat.mod_eq_of_lt hrange
  simp only [ccatUpdateWrite, hmod] at hret ⊢
  by_cases hfit : off + buf.length > d.iosize
  · -- the call is refused
    have hnot : ¬(buf = [] ∧ off ≤ d.iosize) := by
      rintro ⟨rfl, hle⟩
      simp only [List.length_nil] at hfit
      omega
    rw [if_pos hfit, if_neg hnot]
    exact ⟨rfl, rfl⟩
  · rw [if_neg hfit] at hret ⊢
    by_cases hfault : (copyFromUser limit buf).2 ≠ 0
    · -- a call of no bytes cannot fault
      have hne : buf ≠ [] := by
        rintro rfl
        exact hfault (by rw [copyFromUser_of_le (Nat.zero_le limit)])
      rw [if_pos hfault, if_neg fun h => hne h.1]
      exact ⟨rfl, rfl⟩
    · rw [if_neg hfault] at hret ⊢
      simp only at hret
      obtain rfl : buf = [] := List.eq_nil_of_length_eq_zero (by omega)
      rw [if_pos ⟨rfl, Nat.not_lt.mp hfit⟩]
      exact ⟨rfl, rfl⟩

/-- The position of the last empty write lies in the flash. -/
theorem lastEmptyWrite_le (pos size : Nat) (calls : List FileCall)
    (hsize : size ≤ CCAT_FLASH_SIZE) :
    lastEmptyWrite pos size calls ≤ CCAT_FLASH_SIZE := by
  induction calls generalizing pos size with
  | nil => exact hsize
  | cons c cs ih =>
    cases c with
    | read off c => exact ih _ _ hsize
    | write c =>
      refine ih _ _ ?_
      split
      · rename_i h
        exact h.2
      · exact hsize

/-- Calls of which no `write` reports a byte: the size staged is the position of the last empty
    write, and the device was only read. -/
theorem fileCalls_nothing (L : LongWidth) (d : CcatCdev) (hw : FlashHw) (pos : Nat)
    (buffer : CdevBuffer) (calls : List FileCall) (hio : d.iosize = CCAT_FLASH_SIZE)
    (hidle : hw.Idle) (hpos : pos ≤ CCAT_FLASH_SIZE) (hrange : ∀ c ∈ calls, c.InRange)
    (hnone : NothingWritten (fileCalls L d hw pos buffer calls).1) :
    (fileCalls L d hw pos buffer calls).2.1.size = lastEmptyWrite pos buffer.size calls ∧
      (fileCalls L d hw pos buffer calls).2.2.Rests hw.flash hw.wel ∧
      hw.Issues (fun c => c.cmd = CCAT_READ_FLASH.cmd)
        (fileCalls L d hw pos buffer calls).2.2 := by
  have hflash : (0xE0000 : Nat) = CCAT_FLASH_SIZE := rfl
  induction calls generalizing hw pos buffer with
  | nil => exact ⟨rfl, ⟨hidle, rfl, rfl⟩, .of_eq rfl⟩
  | cons c cs ih =>
    -- the position stays within the flash, which the induction needs for a later empty write
    have hrange' : ∀ c ∈ cs, c.InRange := fun c hc => hrange c (List.mem_cons_of_mem _ hc)
    cases c with
    | read off c =>
      obtain ⟨hw', hread, hrest⟩ := ccatUpdateRead_spec L d hw c.user c.len (off.getD pos) hidle
        (by rw [hio]; decide)
      have hissues := ccatUpdateRead_issues L d hw c.user c.len (off.getD pos)
      simp only [fileCalls, hread] at hnone hissues ⊢
      -- `read` moves the position to the end of the flash at most
      have hmove :
          (if off.isNone then off.getD pos + min c.len (d.iosize - off.getD pos) else pos) =
            if off.isNone then min (pos + c.len) CCAT_FLASH_SIZE else pos := by
        cases off with
        | none =>
          simp only [Option.isNone_none, if_true, Option.getD_none, hio]
          omega
        | some off => rfl
      rw [hmove] at hnone ⊢
      have hle : (if off.isNone then min (pos + c.len) CCAT_FLASH_SIZE else pos) ≤
          CCAT_FLASH_SIZE := by
        split
        · exact Nat.min_le_right ..
        · exact hpos
      obtain ⟨hsize, hrests, hissues'⟩ := ih hw' _ buffer hrest.toIdle hle hrange'
        fun x hx => hnone x (List.mem_cons_of_mem _ hx)
      exact ⟨hsize, ⟨hrests.toIdle, hrests.flash_eq.trans hrest.flash_eq,
        hrests.wel_eq.trans hrest.wel_eq⟩, hissues.trans hissues'⟩
    | write c =>
      simp only [fileCalls] at hnone ⊢
      have hbound : c.off.getD pos + c.buf.length < 2 ^ 64 := by
        have hc : c.off.getD 0 + c.buf.length < 2 ^ 63 := hrange _ (List.mem_cons_self ..)
        cases hoff : c.off with
        | none =>
          rw [hoff] at hc
          simp only [Option.getD_none] at hc ⊢
          omega
        | some off =>
          rw [hoff] at hc
          simp only [Option.getD_some] at hc ⊢
          omega
      obtain ⟨hoff, hsize⟩ := ccatUpdateWrite_nothing d buffer c.limit c.buf (c.off.getD pos) hbound
        (hnone _ (List.mem_cons_self ..) rfl)
      -- the position stays where it was
      have hstay : (if c.off.isNone then
          (ccatUpdateWrite d buffer c.limit c.buf (c.off.getD pos)).off else pos) = pos := by
        rw [hoff]
        cases c.off <;> rfl
      rw [hstay] at hnone ⊢
      obtain ⟨hsize', hrests, hissues⟩ := ih hw pos _ hidle hpos hrange'
        fun x hx => hnone x (List.mem_cons_of_mem _ hx)
      refine ⟨?_, hrests, hissues⟩
      rw [hsize', hsize, hio, lastEmptyWrite]

/-! ## Reading -/

/-- Consecutive reads from `pos` deliver the bytes from there on, end with the device idle and
    the flash as it was, and return 0 exactly at the end or when nothing is asked for. -/
theorem readCalls_spec (L : LongWidth) (d : CcatCdev) (hw : FlashHw) (pos : Nat)
    (calls : List ReadCall) (hplain : ∀ c ∈ calls, c.Plain) (hidle : hw.Idle)
    (hio : d.iosize < 2 ^ 24) (hpos : pos ≤ d.iosize) :
    (readCalls L d hw pos calls).1.map (·.call) = calls ∧
    ((readCalls L d hw pos calls).1.flatMap fun s => s.result.delivered) =
      (slice hw.flash pos (d.iosize - pos)).take (calls.map (·.len)).sum ∧
    (∀ s ∈ (readCalls L d hw pos calls).1,
      s.result.ret = 0 ↔ s.pos = d.iosize ∨ s.call.len = 0) ∧
    (readCalls L d hw pos calls).2.Rests hw.flash hw.wel := by
  induction calls generalizing hw pos with
  | nil => exact ⟨rfl, rfl, (fun _ h => nomatch h), hidle, rfl, rfl⟩
  | cons c cs ih =>
    -- the position never passes the end, so the hypothesis is the same for the rest
    obtain ⟨hw', hread, hrest⟩ := ccatUpdateRead_spec L d hw c.user c.len pos hidle hio
    have hn : min c.len (d.iosize - pos) ≤ d.iosize - pos := Nat.min_le_right ..
    obtain ⟨hcalls, hbytes, hzero, hend⟩ := ih hw' (pos + min c.len (d.iosize - pos))
      (fun c hc => hplain c (List.mem_cons_of_mem _ hc)) hrest.toIdle (by omega)
    simp only [readCalls, hread]
    refine ⟨?_, ?_, ?_, ⟨hend.toIdle, hend.flash_eq.trans hrest.flash_eq,
      hend.wel_eq.trans hrest.wel_eq⟩⟩
    · simp only [List.map_cons, hcalls]
    · -- what this call delivers, then what the others do
      have hfirst : (ReadResult.mk (min c.len (d.iosize - pos) : Nat)
          (pos + min c.len (d.iosize - pos))
          (c.user.store 0 (slice hw.flash pos (min c.len (d.iosize - pos)))) hw').delivered =
          slice hw.flash pos (min c.len (d.iosize - pos)) := by
        have hstored := c.user.slice_store 0 (slice hw.flash pos (min c.len (d.iosize - pos)))
          fun p hp => by
            rw [length_slice] at hp
            exact hplain c (List.mem_cons_self ..) _ (by omega)
        rw [length_slice] at hstored
        exact hstored
      rw [List.flatMap_cons, hbytes, hfirst, hrest.flash_eq, take_slice, take_slice,
        List.map_cons, List.sum_cons, ← slice_add]
      congr 1
      omega
    · -- this call returns zero at the end, or if it was asked for nothing
      intro s hs
      rcases List.mem_cons.mp hs with rfl | hs
      · simp only
        omega
      · exact hzero s hs

/-! ## The round trip -/

/-- A probed device opens with an empty buffer. -/
theorem ccatCdevOpen_probed (i : Nat) {d : CcatCdev} (h : d.inUse = 1) :
    ccatCdevOpen i true d = (0, some ⟨i, 0, fun _ => 0⟩, { d with inUse := 0 }) := by
  simp [ccatCdevOpen, h]

/-- The device between two sessions. -/
theorem probed_reopened {d : CcatCdev} (h : Probed d) :
    { d with inUse := 0 + 1 } = d := by
  have hin := h.inUse
  cases d
  simp only at hin
  subst hin
  rfl

/-- The flash with an image programmed at the start of an erased flash. -/
theorem slice_blit_erased (image : List UInt8) (hle : image.length ≤ CCAT_FLASH_SIZE) :
    slice (blit (fun _ => 0xFF) 0 image) 0 CCAT_FLASH_SIZE = programmed image := by
  -- the image, and the cells behind it that were not programmed
  have hsplit : CCAT_FLASH_SIZE = image.length + (CCAT_FLASH_SIZE - image.length) := by omega
  have hrest : slice (blit (fun _ => 0xFF) 0 image) image.length (CCAT_FLASH_SIZE - image.length) =
      List.replicate (CCAT_FLASH_SIZE - image.length) 0xFF := by
    apply List.ext_getElem?
    intro k
    rw [getElem?_slice, List.getElem?_replicate, blit_of_ge _ _ (by omega)]
  calc slice (blit (fun _ => 0xFF) 0 image) 0 CCAT_FLASH_SIZE
      = slice (blit (fun _ => 0xFF) 0 image) 0
          (image.length + (CCAT_FLASH_SIZE - image.length)) := by rw [← hsplit]
    _ = programmed image := by rw [slice_add, slice_blit, Nat.zero_add, hrest, programmed]

/-- A session that writes an image of 1 to `0xE0000` bytes programs it. -/
theorem writeSession_programs (L : LongWidth) (i : Nat) {d : CcatCdev} {hw : FlashHw}
    (hd : Probed d) (hidle : hw.Idle) (calls : List WriteCall) (hplain : ∀ c ∈ calls, c.Plain)
    (hpos : 0 < (imageOf calls).length) (hle : (imageOf calls).length ≤ CCAT_FLASH_SIZE) :
    ∃ r, writeSession L i d hw calls = some r ∧ r.status = 0 ∧ r.ccdev = d ∧
      r.answers = (calls.map fun c => (c.buf.length : Int)) ∧ r.hw.Idle ∧
      slice r.hw.flash 0 CCAT_FLASH_SIZE = programmed (imageOf calls) := by
  have hflash : (0xE0000 : Nat) = CCAT_FLASH_SIZE := rfl
  -- the handle starts with an empty buffer at position 0
  have hstaged := writeCalls_staged { d with inUse := 0 } 0 ⟨i, 0, fun _ => 0⟩ calls hplain
    (by rw [hd.iosize]; decide) (by rw [hd.iosize]; omega) rfl
  simp only [writeSession, ccatCdevOpen_probed i hd.inUse, hstaged, Nat.zero_add]
  refine ⟨_, rfl, rfl, probed_reopened hd, rfl, ?_⟩
  have hrel := (ccatUpdateRelease_flash L { d with inUse := 0 }
    ⟨i, (imageOf calls).length, blit (fun _ => 0) 0 (imageOf calls)⟩ hw hidle
    (by simp only; omega)).2 hpos
  simp only [slice_blit] at hrel
  refine ⟨hrel.toIdle, ?_⟩
  rw [hrel.flash_eq, slice_blit_erased _ hle]

/-- A session that reads delivers the flash. -/
theorem readSession_delivers (L : LongWidth) (i : Nat) {d : CcatCdev} {hw : FlashHw}
    (hd : Probed d) (hidle : hw.Idle) (calls : List ReadCall) (hplain : ∀ c ∈ calls, c.Plain) :
    ∃ r, readSession L i d hw calls = some r ∧ r.status = 0 ∧ r.ccdev = d ∧
      r.hw.Rests hw.flash hw.wel ∧ r.answers.map (·.call) = calls ∧
      (r.answers.flatMap fun s => s.result.delivered) =
        (slice hw.flash 0 CCAT_FLASH_SIZE).take (calls.map (·.len)).sum ∧
      ∀ s ∈ r.answers, s.result.ret = 0 ↔ s.pos = CCAT_FLASH_SIZE ∨ s.call.len = 0 := by
  obtain ⟨hcalls, hbytes, hzero, hend⟩ := readCalls_spec L { d with inUse := 0 } hw 0 calls hplain
    hidle (by rw [hd.iosize]; decide) (Nat.zero_le _)
  -- a handle that was only read has nothing staged, so closing it does nothing
  have hsame := (ccatUpdateRelease_flash L { d with inUse := 0 } ⟨i, 0, fun _ => 0⟩
    (readCalls L { d with inUse := 0 } hw 0 calls).2 hend.toIdle (by simp only; decide)).1 rfl
  simp only [readSession, ccatCdevOpen_probed i hd.inUse]
  refine ⟨_, rfl, rfl, probed_reopened hd, ?_, hcalls, ?_, fun s hs => ?_⟩
  · simp only [hsame]
    exact hend
  · rw [← hd.iosize]
    exact hbytes
  · rw [← hd.iosize]
    exact hzero s hs

/-- A session in which no byte is written leaves the flash alone exactly when no empty write, or
    the last one, was made at position 0. -/
theorem fileSession_untouched_iff (L : LongWidth) (i : Nat) {d : CcatCdev} {hw : FlashHw}
    (hd : Probed d) (hidle : hw.Idle) (calls : List FileCall) (hrange : ∀ c ∈ calls, c.InRange) :
    ∃ r, fileSession L i d hw calls = some r ∧
      (NothingWritten r.answers → (hw.Untouched r.hw ↔ lastEmptyWrite 0 0 calls = 0)) := by
  simp only [fileSession, ccatCdevOpen_probed i hd.inUse]
  refine ⟨_, rfl, fun hnone => ?_⟩
  obtain ⟨hsize, hrests, hreads⟩ := fileCalls_nothing L { d with inUse := 0 } hw 0
    ⟨i, 0, fun _ => 0⟩ calls hd.iosize hidle (Nat.zero_le _) hrange hnone
  generalize fileCalls L { d with inUse := 0 } hw 0 ⟨i, 0, fun _ => 0⟩ calls = r
    at hsize hrests hreads ⊢
  obtain ⟨answers, buffer, hw'⟩ := r
  simp only at hsize hrests hreads ⊢
  have hle : buffer.size ≤ CCAT_FLASH_SIZE := hsize ▸ lastEmptyWrite_le 0 0 calls (Nat.zero_le _)
  rw [← hsize]
  constructor
  · intro huntouched
    by_contra hne
    -- the erase is among the commands that were issued
    obtain ⟨reads, hreads, -⟩ := hreads
    obtain ⟨cmds, hcmds, c, hc, herase⟩ := ccatUpdateRelease_issues L { d with inUse := 0 } buffer
      hw' hrests.toIdle (Nat.pos_of_ne_zero hne)
    obtain ⟨all, hall, hother⟩ := huntouched.issues
    rw [hcmds, hreads, List.append_assoc] at hall
    rw [← List.append_cancel_left hall] at hother
    exact (hother c (List.mem_append_right _ hc)).1 herase
  · intro hzero
    -- nothing is staged, so the release only closes the handle
    have hsame := (ccatUpdateRelease_flash L { d with inUse := 0 } buffer hw' hrests.toIdle
      (Nat.lt_of_le_of_lt hle (by decide))).1 hzero
    rw [hsame]
    refine ⟨hreads.mono fun c hc => ?_, hrests.flash_eq⟩
    rw [hc]
    decide

/-- **Round trip of a flash update.** An image of 1 to `0xE0000` bytes that is written in any
    chunks on one handle ends up in the flash, followed by `0xFF`, and is what any sequence of
    reads on a new handle delivers; `read` returns 0 exactly at the end of the flash or when it
    is asked for nothing. A session of reads and writes in which no byte was written issues no
    erase or program command and leaves the flash as it was, exactly if its last `write` of no
    bytes, when there is one, was at position 0. -/
theorem flash_round_trip (L : LongWidth) (i : Nat) (d : CcatCdev) (hw : FlashHw) (hd : Probed d)
    (hidle : hw.Idle) :
    (∀ calls : List WriteCall, (∀ c ∈ calls, c.Plain) → 0 < (imageOf calls).length →
      (imageOf calls).length ≤ CCAT_FLASH_SIZE →
      ∃ r, writeSession L i d hw calls = some r ∧
        slice r.hw.flash 0 CCAT_FLASH_SIZE = programmed (imageOf calls) ∧
        ∀ reads : List ReadCall, (∀ c ∈ reads, c.Plain) →
          ∃ r', readSession L i r.ccdev r.hw reads = some r' ∧
            r'.answers.map (·.call) = reads ∧
            (r'.answers.flatMap fun s => s.result.delivered) =
              (programmed (imageOf calls)).take (reads.map (·.len)).sum ∧
            ∀ s ∈ r'.answers, s.result.ret = 0 ↔ s.pos = CCAT_FLASH_SIZE ∨ s.call.len = 0) ∧
    (∀ calls : List FileCall, (∀ c ∈ calls, c.InRange) →
      ∃ r, fileSession L i d hw calls = some r ∧
        (NothingWritten r.answers →
          (hw.Untouched r.hw ↔ lastEmptyWrite 0 0 calls = 0))) := by
  constructor
  · intro calls hplain hpos hle
    obtain ⟨r, hr, -, hdev, -, hidle', hflash⟩ :=
      writeSession_programs L i hd hidle calls hplain hpos hle
    refine ⟨r, hr, hflash, fun reads hreads => ?_⟩
    -- the second handle sees the device as the first one left it
    obtain ⟨r', hr', -, -, -, hcalls, hbytes, hzero⟩ :=
      readSession_delivers L i (hdev ▸ hd) hidle' reads hreads
    exact ⟨r', hr', hcalls, by rw [hbytes, hflash], hzero⟩
  · exact fun calls hrange => fileSession_untouched_iff L i hd hidle calls hrange

/-- An idle device with the given timing and flash content. -/
def FlashHw.atRest (timing : Timing) (flash : Nat → UInt8) : FlashHw :=
  ⟨timing, fun _ => 0, fun _ => 0, flash, false, 0, 0, []⟩

/-- A session that reads five bytes and then makes a call that writes nothing. -/
def readThenNothing (off : Option Nat) : List FileCall :=
  [.read none ⟨5, fun _ => 0, fun _ => false⟩, .write ⟨off, [], 0⟩]

/-- A `write` of no bytes returns 0, whether it is refused or not. -/
theorem ccatUpdateWrite_empty (d : CcatCdev) (buffer : CdevBuffer) (limit off : Nat) :
    (ccatUpdateWrite d buffer limit [] off).ret = 0 := by
  rw [ccatUpdateWrite, copyFromUser_of_le (Nat.zero_le limit)]
  split
  · rfl
  · rfl

/-- Its offsets are ones the kernel lets through. -/
theorem readThenNothing_inRange {off : Option Nat} (hoff : off.getD 0 < 2 ^ 63) :
    ∀ c ∈ readThenNothing off, c.InRange := by
  intro c hc
  simp only [readThenNothing, List.mem_cons, List.not_mem_nil, or_false] at hc
  rcases hc with rfl | rfl
  · trivial
  · exact hoff

/-- No byte is written in such a session. -/
theorem readThenNothing_nothingWritten {L : LongWidth} {i : Nat} {d : CcatCdev} {hw : FlashHw}
    {off : Option Nat} {r : Session (FileCall × Int)} (hd : Probed d)
    (hr : fileSession L i d hw (readThenNothing off) = some r) : NothingWritten r.answers := by
  simp only [fileSession, ccatCdevOpen_probed i hd.inUse, readThenNothing, fileCalls,
    Option.some.injEq] at hr
  rw [← hr]
  intro x hx hwrite
  simp only [List.mem_cons, List.not_mem_nil, or_false] at hx
  rcases hx with rfl | rfl
  · exact absurd hwrite Bool.false_ne_true
  · exact Int.le_of_eq (ccatUpdateWrite_empty ..)

/-- Three bytes in three chunks, one of them empty, on a device that keeps the driver waiting; and
    a session on it that reads and then writes nothing at position 0. -/
theorem flash_round_trip_chunks :
    (∃ r, writeSession .long32 0 ⟨1, 0, CCAT_FLASH_SIZE, 1, .owner⟩
        (.atRest ⟨fun n => n + 1, fun n => 3 * n, fun _ => 0xFF⟩ fun _ => 0)
        [⟨none, [0xA5], 1⟩, ⟨none, [], 0⟩, ⟨none, [0x5A, 0x00], 7⟩] = some r ∧
      slice r.hw.flash 0 CCAT_FLASH_SIZE = programmed [0xA5, 0x5A, 0x00] ∧
      ∃ r', readSession .long32 0 r.ccdev r.hw [⟨2, fun _ => 0, fun p => 2 ≤ p⟩] = some r' ∧
        (r'.answers.flatMap fun s => s.result.delivered) = [0xA5, 0x5A]) ∧
    ∃ r, fileSession .long32 0 ⟨1, 0, CCAT_FLASH_SIZE, 1, .owner⟩
        (.atRest ⟨fun n => n + 1, fun n => 3 * n, fun _ => 0xFF⟩ fun _ => 0)
        (readThenNothing (some 0)) = some r ∧
      FlashHw.Untouched (.atRest ⟨fun n => n + 1, fun n => 3 * n, fun _ => 0xFF⟩ fun _ => 0)
        r.hw := by
  obtain ⟨hwrite, hnothing⟩ := flash_round_trip .long32 0 ⟨1, 0, CCAT_FLASH_SIZE, 1, .owner⟩
    (.atRest ⟨fun n => n + 1, fun n => 3 * n, fun _ => 0xFF⟩ fun _ => 0) ⟨rfl, rfl⟩ ⟨rfl, rfl⟩
  constructor
  · obtain ⟨r, hr, hflash, hread⟩ := hwrite
      [⟨none, [0xA5], 1⟩, ⟨none, [], 0⟩, ⟨none, [0x5A, 0x00], 7⟩] (by simp [WriteCall.Plain])
      (by decide) (by decide)
    refine ⟨r, hr, hflash, ?_⟩
    obtain ⟨r', hr', -, hbytes, -⟩ := hread [⟨2, fun _ => 0, fun p => 2 ≤ p⟩] (by
      intro c hc p hp
      obtain rfl := List.mem_singleton.mp hc
      simpa using hp)
    exact ⟨r', hr', hbytes⟩
  · have hd : Probed ⟨1, 0, CCAT_FLASH_SIZE, 1, .owner⟩ := ⟨rfl, rfl⟩
    obtain ⟨r, hr, hiff⟩ := hnothing (readThenNothing (some 0))
      (readThenNothing_inRange (by decide))
    exact ⟨r, hr, (hiff (readThenNothing_nothingWritten hd hr)).mpr (by decide)⟩

/-- Five bytes are read, a `write` of no bytes follows, and closing the handle erases the flash. -/
theorem not_untouched_emptyWrite :
    ¬ ∀ (L : LongWidth) (i : Nat) (d : CcatCdev) (hw : FlashHw), Probed d → hw.Idle →
      ∀ calls : List FileCall, (∀ c ∈ calls, c.InRange) →
        ∃ r, fileSession L i d hw calls = some r ∧
          (NothingWritten r.answers → hw.Untouched r.hw) := by
  intro h
  let d : CcatCdev := ⟨1, 0, CCAT_FLASH_SIZE, 1, .owner⟩
  let hw := FlashHw.atRest ⟨fun _ => 0, fun _ => 0, fun _ => 0⟩ fun _ => 0xA5
  have hd : Probed d := ⟨rfl, rfl⟩
  have hidle : hw.Idle := ⟨rfl, rfl⟩
  have hrange : ∀ c ∈ readThenNothing none, c.InRange := readThenNothing_inRange (by decide)
  obtain ⟨r, hr, hkept⟩ := h .long64 0 d hw hd hidle (readThenNothing none) hrange
  obtain ⟨r', hr', hiff⟩ :=
    fileSession_untouched_iff .long64 0 hd hidle (readThenNothing none) hrange
  obtain rfl : r = r' := Option.some.inj (hr.symm.trans hr')
  have hnothing := readThenNothing_nothingWritten hd hr
  -- the empty write is made at position 5
  exact absurd ((hiff hnothing).mp (hkept hnothing)) (by decide)

/-! ## Stores that fault -/

/-- A read of `want` bytes at `off` reports no byte that it did not deliver. -/
structure ReadHonest (flash : Nat → UInt8) (u : UserBuf) (off want : Nat) (r : ReadResult) :
    Prop where
  /-- The bytes it counts are those of the flash, and the offset moved by the count. -/
  delivered : ∀ n : Nat, r.ret = n →
    slice r.user.bytes 0 n = slice flash off n ∧ r.off = off + n
  /-- With a byte that cannot be stored the count is short, or there is an error, and the offset
      moved over stored bytes only. -/
  faulted : (∃ p, p < want ∧ u.faults p = true) →
    (r.ret = -EFAULT ∨ (0 ≤ r.ret ∧ r.ret < want)) ∧
      ∀ p, off + p < r.off → u.faults p = false

/-- `ccat_update_read()` is honest iff all bytes it is to deliver can be stored. -/
theorem ccatUpdateRead_honest_iff (L : LongWidth) (d : CcatCdev) (hw : FlashHw) (u : UserBuf)
    (len off : Nat) (hio : d.iosize = CCAT_FLASH_SIZE) (hidle : hw.Idle) :
    ReadHonest hw.flash u off (min len (CCAT_FLASH_SIZE - off)) (ccatUpdateRead L d hw u len off) ↔
      ∀ p, p < min len (CCAT_FLASH_SIZE - off) → u.faults p = false := by
  have hsize : d.iosize < 2 ^ 24 := by
    rw [hio]
    decide
  obtain ⟨hw', hread, -⟩ := ccatUpdateRead_spec L d hw u len off hidle hsize
  rw [hread, hio]
  constructor
  · -- a byte that could not be stored is counted as delivered
    intro h p hp
    cases hfault : u.faults p with
    | false => rfl
    | true =>
      -- the full count is returned in spite of the fault
      obtain ⟨hret, -⟩ := h.faulted ⟨p, hp, hfault⟩
      simp only [EFAULT] at hret
      omega
  · intro hplain
    refine ⟨fun n hn => ?_, fun ⟨p, hp, hfault⟩ => ?_⟩
    · obtain rfl : min len (CCAT_FLASH_SIZE - off) = n := Int.ofNat_inj.mp hn
      have hstored := u.slice_store 0 (slice hw.flash off (min len (CCAT_FLASH_SIZE - off)))
        fun p hp => by
          rw [length_slice] at hp
          rw [Nat.zero_add]
          exact hplain p hp
      rw [length_slice] at hstored
      exact ⟨hstored, rfl⟩
    · rw [hplain p hp] at hfault
      cases hfault

/-- A read of three bytes whose buffer is accessible. -/
theorem ccatUpdateRead_honest_accessible :
    ReadHonest (fun _ => 0xA5) ⟨fun _ => 0, fun p => 3 ≤ p⟩ 0 (min 3 (CCAT_FLASH_SIZE - 0))
      (ccatUpdateRead .long64 ⟨1, 0, CCAT_FLASH_SIZE, 1, .owner⟩
        (.atRest ⟨fun _ => 0, fun _ => 0, fun _ => 0⟩ fun _ => 0xA5) ⟨fun _ => 0, fun p => 3 ≤ p⟩
        3 0) :=
  (ccatUpdateRead_honest_iff .long64 ⟨1, 0, CCAT_FLASH_SIZE, 1, .owner⟩
    (.atRest ⟨fun _ => 0, fun _ => 0, fun _ => 0⟩ fun _ => 0xA5) ⟨fun _ => 0, fun p => 3 ≤ p⟩ 3 0
    rfl ⟨rfl, rfl⟩).mpr fun p hp => by
      have : p < 3 := Nat.lt_of_lt_of_le hp (Nat.min_le_left ..)
      simpa using this

/-- With an inaccessible buffer three bytes are reported all the same. -/
theorem not_readHonest_inaccessible :
    ¬ ∀ (L : LongWidth) (d : CcatCdev) (hw : FlashHw) (u : UserBuf) (len off : Nat),
      d.iosize = CCAT_FLASH_SIZE → off < CCAT_FLASH_SIZE → hw.Idle →
      ReadHonest hw.flash u off (min len (CCAT_FLASH_SIZE - off))
        (ccatUpdateRead L d hw u len off) := by
  intro h
  let d : CcatCdev := ⟨1, 0, CCAT_FLASH_SIZE, 1, .owner⟩
  let hw := FlashHw.atRest ⟨fun _ => 0, fun _ => 0, fun _ => 0⟩ fun _ => 0xA5
  let u : UserBuf := ⟨fun _ => 0, fun _ => true⟩
  have hhonest := h .long64 d hw u 3 0 rfl (by decide) ⟨rfl, rfl⟩
  obtain ⟨hw', hread, -⟩ := ccatUpdateRead_spec .long64 d hw u 3 0 ⟨rfl, rfl⟩ (by decide)
  rw [hread] at hhonest
  -- nothing was stored, but the count is 3
  have hbytes := (hhonest.delivered 3 rfl).1
  have hfirst : slice (u.store 0 (slice hw.flash 0 3)).bytes 0 3 = [0, 0, 0] := rfl
  exact absurd (hfirst.symm.trans hbytes) (by decide)

end Ccat.Native.Update
