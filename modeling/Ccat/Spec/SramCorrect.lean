import Ccat.Native.Sram

/-!
# The SRAM device refines a fixed-size byte file

`ByteFile` states what the SRAM device is for: an array of bytes with a position,
whose `read` is cut off at the end and whose `write` happens completely or not at
all. Every sequence of system calls on an SRAM handle gives the answers, positions
and content of that file, and never leaves the SRAM window or the bounce buffer.

## Key results

- `ccatSramRead_refines` / `ccatSramWrite_refines`: one call at any offset
- `SramFile.call_refines`: one system call
- `sram_refines_byteFile`: any sequence of system calls on an open handle
-/

namespace Ccat.Native.Sram

open Memory

/-! ### The abstract file -/

/-- A file of fixed size: its bytes and the current position. -/
structure ByteFile where
  bytes : List UInt8
  pos : Nat

/-- The bytes `[off, min (off + len) size)`; faults if they reach beyond the first
    `limit` bytes of the user's buffer. -/
def ByteFile.read (a : ByteFile) (limit len off : Nat) : Answer :=
  let n := min (off + len) a.bytes.length - off
  let data := (a.bytes.drop off).take n
  if limit < n then ⟨-EFAULT, data.take limit, off⟩ else ⟨n, data, off + n⟩

/-- Replaces `[off, off + buf.length)` if the file reaches that far. -/
def ByteFile.write (a : ByteFile) (limit : Nat) (buf : List UInt8) (off : Nat) :
    Answer × ByteFile :=
  if off + buf.length ≤ a.bytes.length then
    if limit < buf.length then (⟨-EFAULT, [], off⟩, a)
    else (⟨buf.length, [], off + buf.length⟩,
      { a with bytes := a.bytes.take off ++ buf ++ a.bytes.drop (off + buf.length) })
  else (⟨0, [], off⟩, a)

def ByteFile.call (llseek : Llseek) (a : ByteFile) : Call → Answer × ByteFile
  | .read none len limit =>
    let r := a.read limit len a.pos
    (r, { a with pos := r.off })
  | .read (some off) len limit => (a.read limit len off, a)
  | .write none buf limit =>
    let (r, a) := a.write limit buf a.pos
    (r, { a with pos := r.off })
  | .write (some off) buf limit => a.write limit buf off
  | .seek offset whence =>
    match llseek a.pos offset whence a.bytes.length with
    | .ok p => (⟨p, [], p⟩, { a with pos := p })
    | .error e => (⟨-e, [], a.pos⟩, a)

def ByteFile.run (llseek : Llseek) (a : ByteFile) : List Call → List Answer × ByteFile
  | [] => ([], a)
  | c :: cs =>
    let (r, a) := a.call llseek c
    let (rs, a) := a.run llseek cs
    (r :: rs, a)

/-! ### Abstraction -/

/-- The file a handle stands for. -/
def SramFile.toByteFile (f : SramFile) : ByteFile := ⟨slice f.sram 0 f.iosize, f.pos⟩

/-- The window is small enough for 64-bit offsets and the position stays inside it. -/
structure SramFile.Wf (f : SramFile) : Prop where
  iosize_lt : f.iosize < 2 ^ 63
  pos_le : f.pos ≤ f.iosize

/-- The range of offsets and lengths system calls are made with. -/
def Call.InRange : Call → Prop
  | .read (some off) len _ => off + len < 2 ^ 63
  | .read none len _ => len < 2 ^ 63
  | .write (some off) buf _ => off + buf.length < 2 ^ 63
  | .write none buf _ => buf.length < 2 ^ 63
  | .seek _ _ => True

theorem length_toByteFile_bytes (f : SramFile) : f.toByteFile.bytes.length = f.iosize :=
  length_slice f.sram 0 f.iosize

/-! ### One call -/

/-- `__sram_read()` of a range inside the window, through the bounce buffer. -/
private theorem sramRead_eq (f : SramFile) (limit len off : Nat) (h : off + len ≤ f.iosize) :
    ∃ f', sramRead f limit len off =
        some (if limit < len then ⟨-EFAULT, (slice f.sram off len).take limit, off⟩
          else ⟨len, slice f.sram off len, off + len⟩, f') ∧
      f'.toByteFile = f.toByteFile ∧ f'.iosize = f.iosize := by
  refine ⟨{ f with buffer.data := blit f.buffer.data 0 (slice f.sram off len) }, ?_, rfl, rfl⟩
  -- what was just copied into the bounce buffer is what is copied out of it
  have hcopy : slice (blit f.buffer.data 0 (slice f.sram off len)) 0 len =
      slice f.sram off len := by
    have hblit := slice_blit f.buffer.data 0 (slice f.sram off len)
    rwa [length_slice] at hblit
  simp only [sramRead, memcpyFromio, if_pos (show off + len ≤ f.iosize ∧ len ≤ f.iosize by omega),
    Option.bind_eq_bind, Option.bind_some, hcopy, copyToUser, length_slice]
  by_cases hlim : limit < len
  · simp [hlim, show len - limit ≠ 0 by omega]
  · have htake : (slice f.sram off len).take limit = slice f.sram off len :=
      List.take_of_length_le (by rw [length_slice]; omega)
    simp [hlim, show len - limit = 0 by omega, htake]

/-- `ccat_sram_read()` answers as the byte file and changes nothing in it. -/
theorem ccatSramRead_refines (f : SramFile) (limit len off : Nat) :
    ∃ f', ccatSramRead f limit len off = some (f.toByteFile.read limit len off, f') ∧
      f'.toByteFile = f.toByteFile ∧ f'.iosize = f.iosize := by
  by_cases hend : off ≥ f.iosize
  · refine ⟨f, ?_, rfl, rfl⟩
    -- at or behind the end the file has nothing to read either
    have hn : min (off + len) f.iosize - off = 0 := by omega
    simp only [ccatSramRead, if_pos hend, ByteFile.read, length_toByteFile_bytes, hn,
      Nat.not_lt_zero, if_false, List.take_zero, Nat.add_zero]
    rfl
  · obtain ⟨f', hread, hfile, hsize⟩ :=
      sramRead_eq f limit (min len (f.iosize - off)) off (by omega)
    refine ⟨f', ?_, hfile, hsize⟩
    have hn : min (off + len) f.iosize - off = min len (f.iosize - off) := by omega
    have hdata : (f.toByteFile.bytes.drop off).take (min len (f.iosize - off)) =
        slice f.sram off (min len (f.iosize - off)) := by
      rw [SramFile.toByteFile, drop_slice, take_slice, Nat.zero_add,
        Nat.min_eq_left (Nat.min_le_right _ _)]
    simp only [ccatSramRead, if_neg hend, hread, ByteFile.read, length_toByteFile_bytes, hn, hdata]

/-- `ccat_sram_write()` does what a write to the byte file does. -/
theorem ccatSramWrite_refines (f : SramFile) (limit : Nat) (buf : List UInt8) (off : Nat)
    (hlen : off + buf.length < 2 ^ 64) :
    ∃ f', ccatSramWrite f limit buf off = some ((f.toByteFile.write limit buf off).1, f') ∧
      f'.toByteFile = (f.toByteFile.write limit buf off).2 ∧ f'.iosize = f.iosize := by
  have hmod : (off + buf.length) % 2 ^ 64 = off + buf.length := Nat.mod_eq_of_lt hlen
  by_cases hfit : off + buf.length ≤ f.iosize
  · have hlenle : buf.length ≤ f.iosize := by omega
    have hok : ¬(off + buf.length) % 2 ^ 64 > f.iosize := by
      rw [hmod]
      exact Nat.not_lt.mpr hfit
    by_cases hlim : limit < buf.length
    · -- the copy from user space faults: only the bounce buffer changed
      refine ⟨{ f with buffer.data := blit f.buffer.data 0 (copyFromUser limit buf).1 },
        ?_, ?_, rfl⟩
      · rw [ccatSramWrite, if_neg hok]
        simp [copyToBuffer, hlenle, copyFromUser, show buf.length - limit ≠ 0 by omega,
          ByteFile.write, length_toByteFile_bytes, hfit, hlim]
      · simp only [ByteFile.write, length_toByteFile_bytes, if_pos hfit, if_pos hlim]; rfl
    · have hcopy := copyFromUser_of_le (Nat.not_lt.mp hlim)
      refine ⟨{ f with
        buffer.data := blit f.buffer.data 0 buf
        sram := blit f.sram off buf }, ?_, ?_, rfl⟩
      · rw [ccatSramWrite, if_neg hok]
        simp [copyToBuffer, hlenle, hcopy, memcpyToio, hfit, ByteFile.write,
          length_toByteFile_bytes, hlim]
      · simp only [ByteFile.write, length_toByteFile_bytes, if_pos hfit, if_neg hlim]
        -- inside the window a blit is the splice of the byte file
        simp only [SramFile.toByteFile, slice_blit_of_le f.sram buf hfit]
  · refine ⟨f, ?_, ?_, rfl⟩
    · simp only [ccatSramWrite, hmod, if_pos (Nat.lt_of_not_le hfit), ByteFile.write,
        length_toByteFile_bytes, if_neg hfit]
    · simp only [ByteFile.write, length_toByteFile_bytes, if_neg hfit]

/-! ### Positions stay inside the file -/

/-- A read does not move the position beyond the end. -/
private theorem ByteFile.read_off_le (a : ByteFile) (limit len off : Nat)
    (h : off ≤ a.bytes.length) : (a.read limit len off).off ≤ a.bytes.length := by
  simp only [ByteFile.read]
  split
  · exact h
  · dsimp only; omega

/-- Neither does a write. -/
private theorem ByteFile.write_off_le (a : ByteFile) (limit : Nat) (buf : List UInt8) (off : Nat)
    (h : off ≤ a.bytes.length) : (a.write limit buf off).1.off ≤ a.bytes.length := by
  simp only [ByteFile.write]
  split
  · split
    · exact h
    · assumption
  · exact h

/-! ### Whole runs -/

section Run

variable (llseek : Llseek)
  (hseek : ∀ pos offset whence size p, llseek pos offset whence size = .ok p → p ≤ size)
include hseek

/-- One system call answers as the byte file does and leaves a handle that stands for
    the file afterwards. -/
theorem SramFile.call_refines (f : SramFile) (hf : f.Wf) (c : Call) (hc : c.InRange) :
    ∃ f', f.call llseek c = some ((f.toByteFile.call llseek c).1, f') ∧
      f'.toByteFile = (f.toByteFile.call llseek c).2 ∧ f'.iosize = f.iosize ∧ f'.Wf := by
  have hlt := hf.iosize_lt
  have hpos := hf.pos_le
  cases c with
  | read off len limit =>
    cases off with
    | none =>
      obtain ⟨f', hread, hfile, hsize⟩ := ccatSramRead_refines f limit len f.pos
      have hle := ByteFile.read_off_le f.toByteFile limit len f.pos
        (by rw [length_toByteFile_bytes]; exact hpos)
      rw [length_toByteFile_bytes] at hle
      refine ⟨{ f' with pos := (f.toByteFile.read limit len f.pos).off }, ?_, ?_, hsize, ?_⟩
      · simp only [SramFile.call, hread, Option.bind_eq_bind, Option.bind_some]; rfl
      · have hbytes : slice f'.sram 0 f'.iosize = f.toByteFile.bytes :=
          congrArg ByteFile.bytes hfile
        simp only [ByteFile.call, SramFile.toByteFile, hbytes]
      · exact ⟨by rw [← hsize] at hlt; exact hlt, by rw [← hsize] at hle; exact hle⟩
    | some off =>
      obtain ⟨f', hread, hfile, hsize⟩ := ccatSramRead_refines f limit len off
      have hp : f'.pos = f.pos := congrArg ByteFile.pos hfile
      exact ⟨f', hread, hfile, hsize, ⟨by rw [hsize]; exact hlt, by rw [hp, hsize]; exact hpos⟩⟩
  | write off buf limit =>
    cases off with
    | none =>
      -- neither operand reaches `2 ^ 63`, so the sum does not wrap around
      have hlen : f.pos + buf.length < 2 ^ 64 := by
        have hb : buf.length < 2 ^ 63 := hc
        omega
      obtain ⟨f', hwrite, hfile, hsize⟩ := ccatSramWrite_refines f limit buf f.pos hlen
      have hle := ByteFile.write_off_le f.toByteFile limit buf f.pos
        (by rw [length_toByteFile_bytes]; exact hpos)
      rw [length_toByteFile_bytes] at hle
      refine ⟨{ f' with pos := (f.toByteFile.write limit buf f.pos).1.off }, ?_, ?_, hsize, ?_⟩
      · simp only [SramFile.call, hwrite, Option.bind_eq_bind, Option.bind_some]; rfl
      · have hbytes : slice f'.sram 0 f'.iosize = (f.toByteFile.write limit buf f.pos).2.bytes :=
          congrArg ByteFile.bytes hfile
        simp only [ByteFile.call, SramFile.toByteFile, hbytes]
      · exact ⟨by rw [← hsize] at hlt; exact hlt, by rw [← hsize] at hle; exact hle⟩
    | some off =>
      have hlen : off + buf.length < 2 ^ 64 := by
        have hb : off + buf.length < 2 ^ 63 := hc
        omega
      obtain ⟨f', hwrite, hfile, hsize⟩ := ccatSramWrite_refines f limit buf off hlen
      -- `pwrite` leaves the position of the file alone
      have hp : f'.pos = f.pos := by
        have hpos' := congrArg ByteFile.pos hfile
        simp only [ByteFile.write] at hpos'
        split at hpos'
        · split at hpos' <;> exact hpos'
        · exact hpos'
      exact ⟨f', hwrite, hfile, hsize, ⟨by rw [hsize]; exact hlt, by rw [hp, hsize]; exact hpos⟩⟩
  | seek offset whence =>
    simp only [SramFile.call, ccatCdevLlseek, ByteFile.call, length_toByteFile_bytes]
    have hp : f.toByteFile.pos = f.pos := rfl
    rw [hp]
    cases hs : llseek f.pos offset whence f.iosize with
    | ok p => exact ⟨_, rfl, rfl, rfl, ⟨hlt, hseek _ _ _ _ p hs⟩⟩
    | error e => exact ⟨f, rfl, rfl, rfl, hf⟩

/-- A sequence of system calls gives the answers of the byte file. -/
theorem SramFile.run_refines (f : SramFile) (hf : f.Wf) (cs : List Call)
    (hcs : ∀ c ∈ cs, c.InRange) :
    ∃ f', f.run llseek cs = some ((f.toByteFile.run llseek cs).1, f') ∧
      f'.toByteFile = (f.toByteFile.run llseek cs).2 ∧ f'.iosize = f.iosize := by
  induction cs generalizing f with
  | nil => exact ⟨f, rfl, rfl, rfl⟩
  | cons c cs ih =>
    obtain ⟨f₁, hcall, hfile₁, hsize₁, hwf₁⟩ :=
      f.call_refines llseek hseek hf c (hcs c List.mem_cons_self)
    obtain ⟨f₂, hrun, hfile₂, hsize₂⟩ :=
      ih f₁ hwf₁ fun c' hc' => hcs c' (List.mem_cons_of_mem c hc')
    rw [hfile₁] at hrun hfile₂
    refine ⟨f₂, ?_, hfile₂, hsize₂.trans hsize₁⟩
    simp only [SramFile.run, hcall, Option.bind_eq_bind, Option.bind_some, hrun]
    rfl

end Run

/-- On every SRAM of `2 ^ s` bytes, any sequence of `read`, `write`, `pread`, `pwrite`
    and `lseek` calls on a fresh handle stays inside the SRAM and the bounce buffer and
    gives the answers, the content and the position of the byte file. -/
theorem sram_refines_byteFile (s : Nat) (hs : s < 31) (llseek : Llseek)
    (hseek : ∀ pos offset whence size p, llseek pos offset whence size = .ok p → p ≤ size)
    (sram : Nat → UInt8) (buffer : CdevBuffer) (cs : List Call) (hcs : ∀ c ∈ cs, c.InRange) :
    ∃ f', (SramFile.opened s sram buffer).run llseek cs =
        some ((ByteFile.run llseek ⟨slice sram 0 (2 ^ s), 0⟩ cs).1, f') ∧
      slice f'.sram 0 (2 ^ s) = (ByteFile.run llseek ⟨slice sram 0 (2 ^ s), 0⟩ cs).2.bytes ∧
      f'.pos = (ByteFile.run llseek ⟨slice sram 0 (2 ^ s), 0⟩ cs).2.pos := by
  have hsize : (SramFile.opened s sram buffer).iosize = 2 ^ s := Nat.one_shiftLeft s
  have hfile : (SramFile.opened s sram buffer).toByteFile = ⟨slice sram 0 (2 ^ s), 0⟩ := by
    rw [SramFile.toByteFile, hsize]; rfl
  have hwf : (SramFile.opened s sram buffer).Wf := by
    refine ⟨?_, Nat.zero_le _⟩
    rw [hsize]
    exact Nat.pow_lt_pow_right (by decide) (by omega)
  obtain ⟨f', hrun, hfile', hsize'⟩ := SramFile.run_refines llseek hseek _ hwf cs hcs
  rw [hfile] at hrun hfile'
  refine ⟨f', hrun, ?_, congrArg ByteFile.pos hfile'⟩
  rw [← hfile', SramFile.toByteFile, hsize', hsize]

/-- `fixed_size_llseek()`: `SEEK_SET`, `SEEK_CUR` and `SEEK_END` inside `[0, size]`,
    everything else is `EINVAL`. -/
def fixedSizeLlseek : Llseek := fun pos offset whence size =>
  let target : Option Int := match whence with
    | 0 => some offset
    | 1 => some (pos + offset)
    | 2 => some (size + offset)
    | _ => none
  match target with
  | some t => if 0 ≤ t ∧ t ≤ size then .ok t.toNat else .error 22
  | none => .error 22

/-- A run on a 4-byte SRAM: seek to the last byte, a write that does not fit, one
    that does, a faulting read and a `pread` past the end. -/
theorem sram_refines_byteFile_four :
    ∃ f', (SramFile.opened 2 (fun _ => 7) ⟨0, 0, fun _ => 0⟩).run fixedSizeLlseek
        [.seek (-1) 2, .write none [1, 2] 2, .write none [9] 1, .read (some 2) 2 1,
          .read (some 5) 1 1] =
        some ([⟨3, [], 3⟩, ⟨0, [], 3⟩, ⟨1, [], 4⟩, ⟨-14, [7], 2⟩, ⟨0, [], 5⟩], f') ∧
      slice f'.sram 0 4 = [7, 7, 7, 9] ∧ f'.pos = 4 :=
  sram_refines_byteFile 2 (by decide) fixedSizeLlseek
    (by
      intro pos offset whence size p h
      simp only [fixedSizeLlseek] at h
      split at h
      · split at h
        · cases h; omega
        · exact nomatch h
      · exact nomatch h)
    (fun _ => 7) ⟨0, 0, fun _ => 0⟩
    [.seek (-1) 2, .write none [1, 2] 2, .write none [9] 1, .read (some 2) 2 1,
      .read (some 5) 1 1]
    (by simp [Call.InRange])

end Ccat.Native.Sram
