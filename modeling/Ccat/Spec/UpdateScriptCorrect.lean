import Ccat.Native.UpdateScript
import Ccat.Spec.UpdateCorrect

/-!
# What the update script leaves in the flash

The script should tell the truth (status 0 means that the new configuration is in the
flash) and be transactional (another status means that the flash is as before). Two of
its paths break this: after a failed comparison it ends with the status of `rm`,
whatever the restored flash is, and for a file that does not fit, the chunks accepted
before the failing one are programmed by the `close` and never undone.

## Key results

- `catWrite_spec`: what `cat` stages of a file, and its status
- `catRead_spec`: `cat` of the device is the flash
- `flashAndVerify_fits`, `flashAndVerify_tooLong`: the two ways through the script
- `truthfulTransactional_iff`: when the script keeps its promise
-/

namespace Ccat.Native.UpdateScript

open Memory Update

/-! ## `cat` -/

/-- What `cat` gets into a device with `room` bytes left, in chunks of `c`. -/
def accepted (c room : Nat) (bytes : List UInt8) : List UInt8 :=
  if bytes.length ≤ room then bytes else bytes.take (room / c * c)

/-- No more is accepted than there is room for. -/
private theorem accepted_length_le (c room : Nat) (bytes : List UInt8) :
    (accepted c room bytes).length ≤ room := by
  rw [accepted]
  split
  · assumption
  · rw [List.length_take]
    exact Nat.le_trans (Nat.min_le_left ..) (Nat.div_mul_le_self room c)

/-- The first chunk fits. -/
private theorem accepted_step {c room : Nat} {bytes : List UInt8} (hc : 0 < c)
    (hfit : (bytes.take c).length ≤ room) :
    accepted c room bytes =
      bytes.take c ++ accepted c (room - (bytes.take c).length) (bytes.drop c) := by
  rw [List.length_take] at hfit ⊢
  rw [accepted, accepted, List.length_drop]
  by_cases hall : bytes.length ≤ room
  · rw [if_pos hall, if_pos (by omega), List.take_append_drop]
  · -- the file does not fit, so this is a whole chunk
    have hmin : min c bytes.length = c := by omega
    have hdiv : room / c = (room - c) / c + 1 := by
      rw [← Nat.add_div_right _ hc, Nat.sub_add_cancel (by omega)]
    rw [if_neg hall, if_neg (by omega), hmin, hdiv, Nat.add_mul, Nat.one_mul, Nat.add_comm,
      List.take_add]

/-- The first chunk does not fit. -/
private theorem accepted_stop {c room : Nat} {bytes : List UInt8}
    (hfit : room < (bytes.take c).length) : accepted c room bytes = [] := by
  rw [List.length_take] at hfit
  have hdiv : room / c = 0 := Nat.div_eq_of_lt (by omega)
  rw [accepted, if_neg (by omega), hdiv, Nat.zero_mul, List.take_zero]

/-- The write loop of `cat` stages the accepted chunks, and fails unless that is all. -/
theorem catWrite_spec (d : CcatCdev) (c : Nat) (hc : 0 < c) (pos : Nat) (buffer : CdevBuffer)
    (bytes : List UInt8) (hpos : pos ≤ d.iosize) (hio : d.iosize + c < 2 ^ 64)
    (hsize : buffer.size = pos) :
    catWrite d c hc pos buffer bytes =
      (if bytes.length ≤ d.iosize - pos then 0 else 1,
        { buffer with
          size := pos + (accepted c (d.iosize - pos) bytes).length
          data := blit buffer.data pos (accepted c (d.iosize - pos) bytes) }) := by
  induction hn : bytes.length using Nat.strongRecOn generalizing pos buffer bytes with
  | _ n ih =>
    subst hn
    rw [catWrite]
    by_cases hnil : bytes = []
    · subst hnil hsize
      simp [accepted]
    · have hlen := List.length_pos_iff.mpr hnil
      have htake : (bytes.take c).length = min c bytes.length := List.length_take ..
      rw [if_neg hnil]
      by_cases hfit : pos + (bytes.take c).length ≤ d.iosize
      · -- this chunk is accepted; the loop goes on behind it
        have hwrite := ccatUpdateWrite_plain d buffer (bytes.take c).length (bytes.take c) pos hfit
          (by omega) (Nat.le_refl _)
        have hrest := ih (bytes.drop c).length (by rw [List.length_drop]; omega)
          (pos + (bytes.take c).length)
          { buffer with
            size := pos + (bytes.take c).length, data := blit buffer.data pos (bytes.take c) }
          (bytes.drop c) hfit rfl rfl
        have hret : ¬(((bytes.take c).length : Nat) : Int) ≤ 0 := by omega
        have hstep : accepted c (d.iosize - pos) bytes = _ := accepted_step hc (by omega)
        -- the rest fits behind this chunk iff the whole fits here
        have hstatus : (bytes.drop c).length ≤ d.iosize - (pos + (bytes.take c).length) ↔
            bytes.length ≤ d.iosize - pos := by rw [List.length_drop]; omega
        rw [hwrite]
        simp only []
        rw [if_neg hret, hrest, hstep, ← blit_blit, List.length_append, ← Nat.add_assoc,
          ← Nat.sub_add_eq]
        simp only [hstatus]
      · have hmod : (pos + (bytes.take c).length) % 2 ^ 64 = pos + (bytes.take c).length :=
          Nat.mod_eq_of_lt (by omega)
        -- the `write` returns 0 and `cat` stops
        have hwrite : ccatUpdateWrite d buffer (bytes.take c).length (bytes.take c) pos =
            ⟨0, pos, buffer⟩ := by
          rw [ccatUpdateWrite, hmod, if_pos (by omega)]
        rw [hwrite]
        simp only [Int.le_refl, if_true]
        rw [accepted_stop (by omega), if_neg (by omega), blit_nil]
        subst hsize
        rfl

/-- The read loop of `cat` delivers the rest of the flash. -/
theorem catRead_spec (L : LongWidth) (d : CcatCdev) (hw : FlashHw) (c pos fuel : Nat) (hc : 0 < c)
    (hidle : hw.Idle) (hio : d.iosize < 2 ^ 24) (hpos : pos ≤ d.iosize)
    (hfuel : d.iosize - pos < fuel) :
    ∃ hw', catRead L d hw c pos fuel = (slice hw.flash pos (d.iosize - pos), hw') ∧
      hw'.Rests hw.flash hw.wel := by
  induction fuel generalizing hw pos with
  | zero => omega
  | succ fuel ih =>
    obtain ⟨hw₁, hread, hrest⟩ := ccatUpdateRead_spec L d hw ⟨fun _ => 0, fun _ => false⟩ c pos
      hidle hio
    rw [catRead, hread]
    simp only []
    by_cases hend : pos = d.iosize
    · subst hend
      simp only [Nat.sub_self, Nat.min_zero, Int.natCast_zero, if_true, slice_zero]
      exact ⟨hw₁, rfl, hrest⟩
    · have hne : ¬((min c (d.iosize - pos) : Nat) : Int) = 0 := by omega
      -- the fuel is enough, since every call before the end delivers a byte
      have hdelivered := UserBuf.slice_store ⟨fun _ => 0, fun _ => false⟩ 0
        (slice hw.flash pos (min c (d.iosize - pos))) fun _ _ => rfl
      obtain ⟨hw', hloop, hrest'⟩ := ih hw₁ (pos + min c (d.iosize - pos)) hrest.toIdle (by omega)
        (by omega)
      rw [length_slice] at hdelivered
      rw [if_neg hne, hloop]
      refine ⟨hw', ?_, hrest'.toIdle, hrest'.flash_eq.trans hrest.flash_eq,
        hrest'.wel_eq.trans hrest.wel_eq⟩
      simp only [ReadResult.delivered, Int.toNat_natCast, hdelivered, hrest.flash_eq,
        ← slice_add, show min c (d.iosize - pos) + (d.iosize - (pos + min c (d.iosize - pos))) =
          d.iosize - pos by omega]

/-! ## Transfers -/

/-- The host before a run: the device is probed, idle and not open, and no session was held. -/
structure Ready (h : Host) : Prop where
  probed : Probed h.ccdev
  idle : h.hw.Idle
  sessions : h.sessions = []

/-- The contents of the flash, as the device shows them. -/
def window (flash : Nat → UInt8) : List UInt8 := slice flash 0 CCAT_FLASH_SIZE

/-- The flash that closing a handle with `image` staged prescribes. -/
def prescribed (flash : Nat → UInt8) (image : List UInt8) : Nat → UInt8 :=
  if image = [] then flash else blit (fun _ => 0xFF) 0 image

/-- `cat $update` is the flash, and only reads. -/
theorem catFrom_spec (env : Env) (h : Host) (hd : Probed h.ccdev) (hidle : h.hw.Idle) :
    ∃ hw', catFrom env h = (0, window h.hw.flash, { h with hw := hw' }) ∧
      hw'.Rests h.hw.flash h.hw.wel := by
  have hio : h.ccdev.iosize < 2 ^ 24 := by rw [hd.iosize]; decide
  obtain ⟨hw', hread, hrest⟩ := catRead_spec h.long { h.ccdev with inUse := 0 } h.hw env.chunk 0
    (h.ccdev.iosize + 1) env.chunk_pos hidle hio (Nat.zero_le _) (Nat.lt_succ_self _)
  have hsame := (ccatUpdateRelease_flash h.long { h.ccdev with inUse := 0 } ⟨h.slot, 0, fun _ => 0⟩
    hw' hrest.toIdle (Nat.two_pow_pos 24)).1 rfl
  refine ⟨hw', ?_, hrest⟩
  simp only [catFrom, ccatCdevOpen_probed h.slot hd.inUse, hread, hsame]
  rw [window, ← hd.iosize]
  simp only [ccatUpdateRelease, ccatCdevRelease, Nat.sub_zero]
  rw [probed_reopened hd]

/-- `cat FILE >$update` is a programming session for the accepted chunks. -/
theorem catTo_spec (env : Env) (h : Host) (bytes : List UInt8) (hd : Probed h.ccdev)
    (hidle : h.hw.Idle) :
    ∃ hw' s, catTo env h bytes =
        (if bytes.length ≤ CCAT_FLASH_SIZE then 0 else 1,
          { h with hw := hw', sessions := h.sessions ++ [s] }) ∧
      hw'.Idle ∧ hw'.flash = s.actual ∧
      s.prescribed = prescribed h.hw.flash (accepted env.chunk CCAT_FLASH_SIZE bytes) ∧
      s.actual = env.program h.sessions.length s.prescribed := by
  have hio : h.ccdev.iosize = 0xE0000 := hd.iosize
  have hchunk := env.chunk_lt
  rw [← hd.iosize]
  have hwrite := catWrite_spec { h.ccdev with inUse := 0 } env.chunk env.chunk_pos 0
    ⟨h.slot, 0, fun _ => 0⟩ bytes (Nat.zero_le _) (by simp only; omega) rfl
  have hlen := accepted_length_le env.chunk h.ccdev.iosize bytes
  simp only [Nat.sub_zero, Nat.zero_add] at hwrite
  -- only the length of what was accepted matters from here on
  generalize accepted env.chunk h.ccdev.iosize bytes = image at hwrite hlen ⊢
  have hflash := ccatUpdateRelease_flash h.long { h.ccdev with inUse := 0 }
    ⟨h.slot, image.length, blit (fun _ => 0) 0 image⟩ h.hw hidle (by simp only; omega)
  simp only [catTo, ccatCdevOpen_probed h.slot hd.inUse, hwrite]
  -- the handle is closed again, and the device as it was
  have hdev : (ccatUpdateRelease h.long { h.ccdev with inUse := 0 }
      ⟨h.slot, image.length, blit (fun _ => 0) 0 image⟩ h.hw).2.1 = h.ccdev := probed_reopened hd
  generalize ccatUpdateRelease h.long { h.ccdev with inUse := 0 }
    ⟨h.slot, image.length, blit (fun _ => 0) 0 image⟩ h.hw = rel at hflash hdev ⊢
  obtain ⟨status, dev, hw'⟩ := rel
  simp only at hdev hflash ⊢
  subst hdev
  refine ⟨_, _, rfl, ?_, rfl, ?_, rfl⟩
  -- with nothing staged the device is not touched
  all_goals by_cases hnil : image = []
  · rw [hflash.1 (by rw [hnil]; rfl)]
    exact ⟨hidle.busy, hidle.wip⟩
  · have hrest := hflash.2 (List.length_pos_iff.mpr hnil)
    exact ⟨hrest.busy, hrest.wip⟩
  · rw [hflash.1 (by rw [hnil]; rfl), prescribed, if_pos hnil]
  · have hrest := hflash.2 (List.length_pos_iff.mpr hnil)
    rw [slice_blit] at hrest
    rw [hrest.flash_eq, prescribed, if_neg hnil]

/-! ## The ways through the script -/

/-- The flash after the first session. -/
def firstFlash (env : Env) (flash : Nat → UInt8) (rbf : List UInt8) : Nat → UInt8 :=
  env.program 0 (prescribed flash (accepted env.chunk CCAT_FLASH_SIZE rbf))

/-- The flash after the session that writes the backup. -/
def restoredFlash (env : Env) (flash : Nat → UInt8) : Nat → UInt8 :=
  env.program 1 (blit (fun _ => 0xFF) 0 (window flash))

/-- The comparison with the trimmed file tells whether the flash begins with the `*.rbf`. -/
private theorem diff_truncate {rbf content : List UInt8} (h : rbf.length ≤ content.length) :
    diff rbf (truncate rbf.length content) = 0 ↔ rbf <+: content := by
  rw [diff, truncate, Nat.sub_eq_zero_of_le h, List.replicate_zero, List.append_nil,
    List.prefix_iff_eq_take]
  by_cases heq : rbf = content.take rbf.length
  · rw [if_pos heq, eq_self, true_iff]
    exact heq
  · rw [if_neg heq]
    exact ⟨(fun hne => nomatch hne), fun hp => absurd hp heq⟩

/-- The restore branch ends with status 0 whatever it finds. -/
private theorem restore_spec (env : Env) (h : Host) (flash : Nat → UInt8) (hd : Probed h.ccdev)
    (hidle : h.hw.Idle) (hsessions : h.sessions.length = 1) :
    ∃ h', restore env h (window flash) = (0, h') ∧ h'.hw.flash = restoredFlash env flash := by
  have hlen : (window flash).length = CCAT_FLASH_SIZE := length_slice ..
  have hnil : window flash ≠ [] := fun hnil => by
    rw [hnil] at hlen
    exact absurd hlen (by decide)
  obtain ⟨hw₁, s, hto, hidle₁, hflash, hpre, hact⟩ := catTo_spec env h (window flash) hd hidle
  obtain ⟨hw₂, hfrom, hrest⟩ := catFrom_spec env { h with hw := hw₁, sessions := h.sessions ++ [s] }
    hd hidle₁
  -- the backup is as long as the flash, so it fits
  have hall : accepted env.chunk CCAT_FLASH_SIZE (window flash) = window flash :=
    if_pos (by omega)
  rw [hall, prescribed, if_neg hnil] at hpre
  have hend : hw₂.flash = restoredFlash env flash := by
    rw [hrest.flash_eq, hflash, hact, hsessions, hpre]
    rfl
  rw [restore, hto, if_pos (by omega)]
  simp only [ne_eq, not_true_eq_false, if_false, hfrom]
  -- status 0 whether the comparison with the backup succeeds or not
  split
  · exact ⟨_, rfl, hend⟩
  · exact ⟨_, rfl, hend⟩

/-- A file that fits: the script ends with status 0, with the flash of the first session if it
    begins with the file and else with the flash of the second. -/
theorem flashAndVerify_fits (env : Env) (h : Host) (rbf : List UInt8) (hr : Ready h)
    (hfit : rbf.length ≤ CCAT_FLASH_SIZE) :
    ∃ h', flashAndVerify env h rbf = (0, h') ∧
      h'.hw.flash = if rbf <+: window (firstFlash env h.hw.flash rbf) then
        firstFlash env h.hw.flash rbf else restoredFlash env h.hw.flash := by
  obtain ⟨hw₁, hfrom₁, hrest₁⟩ := catFrom_spec env h hr.probed hr.idle
  obtain ⟨hw₂, s, hto, hidle₂, hflash₂, hpre, hact⟩ := catTo_spec env
    { h with hw := hw₁, backup := Function.update h.backup env.name (some (window h.hw.flash)) }
    rbf hr.probed hrest₁.toIdle
  obtain ⟨hw₃, hfrom₃, hrest₃⟩ := catFrom_spec env
    { h with
      hw := hw₂
      backup := Function.update h.backup env.name (some (window h.hw.flash))
      sessions := h.sessions ++ [s] }
    hr.probed hidle₂
  -- the flash between the two sessions is what the first one made of it
  have hfirst : hw₃.flash = firstFlash env h.hw.flash rbf := by
    rw [hrest₃.flash_eq, hflash₂, hact, hpre, hr.sessions, hrest₁.flash_eq]
    rfl
  have hwindow : window hw₂.flash = window (firstFlash env h.hw.flash rbf) := by
    rw [← hfirst, hrest₃.flash_eq]
  rw [flashAndVerify, hfrom₁]
  simp only [ne_eq, not_true_eq_false, if_false, Host.setBackup, hto, if_pos hfit, hfrom₃, hwindow]
  by_cases hbegins : rbf <+: window (firstFlash env h.hw.flash rbf)
  · have hdiff := (diff_truncate (by rw [window, length_slice]; exact hfit)).mpr hbegins
    rw [if_pos hdiff, if_pos hbegins]
    exact ⟨_, rfl, hfirst⟩
  · -- the comparison fails: whatever the restore leaves, the status is 0
    have hdiff := mt (diff_truncate (by rw [window, length_slice]; exact hfit)).mp hbegins
    rw [if_neg hdiff, if_neg hbegins]
    exact restore_spec env _ h.hw.flash hr.probed hrest₃.toIdle (by simp only [hr.sessions]; rfl)

/-- A file that does not fit: `cat` fails after the accepted chunks were programmed. -/
theorem flashAndVerify_tooLong (env : Env) (h : Host) (rbf : List UInt8) (hr : Ready h)
    (hlong : CCAT_FLASH_SIZE < rbf.length) :
    ∃ h', flashAndVerify env h rbf = (1, h') ∧
      h'.hw.flash = firstFlash env h.hw.flash rbf ∧
      h'.sessions = [⟨prescribed h.hw.flash (accepted env.chunk CCAT_FLASH_SIZE rbf),
        firstFlash env h.hw.flash rbf⟩] := by
  obtain ⟨hw₁, hfrom₁, hrest₁⟩ := catFrom_spec env h hr.probed hr.idle
  obtain ⟨hw₂, s, hto, hidle₂, hflash₂, hpre, hact⟩ := catTo_spec env
    { h with hw := hw₁, backup := Function.update h.backup env.name (some (window h.hw.flash)) }
    rbf hr.probed hrest₁.toIdle
  rw [hrest₁.flash_eq] at hpre
  have hactual : s.actual = firstFlash env h.hw.flash rbf := by
    rw [hact, hpre, hr.sessions]
    rfl
  rw [flashAndVerify, hfrom₁]
  simp only [ne_eq, not_true_eq_false, if_false, Host.setBackup, hto,
    if_neg (Nat.not_le.mpr hlong), Nat.one_ne_zero, not_false_eq_true, if_true]
  refine ⟨_, rfl, hflash₂.trans hactual, ?_⟩
  simp only [hr.sessions, List.nil_append, ← hpre, ← hactual]

/-! ## Truth and transactions -/

/-- Status 0 means that the flash begins with the `*.rbf`; with faithful programming another
    status means that the flash is as before. -/
structure TruthfulTransactional (env : Env) (h : Host) : Prop where
  truthful : (updateCcat env h).1 = 0 →
    ∃ rbf, env.rbf = some rbf ∧ rbf <+: window (updateCcat env h).2.hw.flash
  transactional : (∀ s ∈ (updateCcat env h).2.sessions, s.actual = s.prescribed) →
    (updateCcat env h).1 ≠ 0 → window (updateCcat env h).2.hw.flash = window h.hw.flash

/-- The condition on the environment. A file that fits: one of the two sessions leaves a flash
    that begins with it. A longer file that is programmed faithfully: no chunk of it is accepted,
    or the flash already was what its accepted chunks leave. -/
def KeepsPromise (env : Env) (flash : Nat → UInt8) : Prop :=
  env.argc = 2 → env.isCharDev = true → ∀ rbf, env.rbf = some rbf →
    (rbf.length ≤ CCAT_FLASH_SIZE →
      rbf <+: window (firstFlash env flash rbf) ∨ rbf <+: window (restoredFlash env flash)) ∧
    (CCAT_FLASH_SIZE < rbf.length →
      firstFlash env flash rbf = prescribed flash (accepted env.chunk CCAT_FLASH_SIZE rbf) →
      CCAT_FLASH_SIZE < env.chunk ∨
        window flash = programmed (rbf.take (CCAT_FLASH_SIZE / env.chunk * env.chunk)))

/-- The script stops before it touches the device. -/
private theorem truthfulTransactional_of_stop {env : Env} {h : Host} {status : Nat}
    (hstop : updateCcat env h = (status, h)) (hne : status ≠ 0) : TruthfulTransactional env h := by
  constructor
  · rw [hstop]
    exact fun hzero => absurd hzero hne
  · rw [hstop]
    exact fun _ _ => rfl

/-- With all checks passed the flash is written. -/
private theorem updateCcat_proceeds {env : Env} (h : Host) {rbf : List UInt8} (hargc : env.argc = 2)
    (hrbf : env.rbf = some rbf) (hdev : env.isCharDev = true) :
    updateCcat env h = flashAndVerify env h rbf := by
  rw [updateCcat, if_neg (fun hne => hne hargc), hrbf]
  simp only [hdev]
  rfl

/-- A faithful first session with a file that does not fit, seen through the device. -/
private theorem window_prescribed_tooLong (flash : Nat → UInt8) {c : Nat} (hc : 0 < c)
    {rbf : List UInt8} (hlong : CCAT_FLASH_SIZE < rbf.length) :
    window (prescribed flash (accepted c CCAT_FLASH_SIZE rbf)) = window flash ↔
      CCAT_FLASH_SIZE < c ∨
        window flash = programmed (rbf.take (CCAT_FLASH_SIZE / c * c)) := by
  -- the call that would pass the end is refused, so whole chunks are accepted
  have hacc : accepted c CCAT_FLASH_SIZE rbf = rbf.take (CCAT_FLASH_SIZE / c * c) :=
    if_neg (by omega)
  have hle := Nat.div_mul_le_self CCAT_FLASH_SIZE c
  have hlen : (rbf.take (CCAT_FLASH_SIZE / c * c)).length = CCAT_FLASH_SIZE / c * c := by
    rw [List.length_take]; omega
  rw [hacc, prescribed]
  by_cases hbig : CCAT_FLASH_SIZE < c
  · -- already the first chunk is too long, and nothing is staged
    have hnil : rbf.take (CCAT_FLASH_SIZE / c * c) = [] := by
      rw [Nat.div_eq_of_lt hbig, Nat.zero_mul, List.take_zero]
    rw [if_pos hnil]
    exact ⟨fun _ => .inl hbig, fun _ => rfl⟩
  · have hpos : 0 < CCAT_FLASH_SIZE / c := Nat.div_pos (by omega) hc
    have hnil : rbf.take (CCAT_FLASH_SIZE / c * c) ≠ [] := by
      apply List.length_pos_iff.mp
      rw [hlen]
      exact Nat.mul_pos hpos hc
    rw [if_neg hnil, window, slice_blit_erased _ (by omega)]
    exact ⟨fun heq => .inr heq.symm, fun hor => (hor.resolve_left hbig).symm⟩

/-- With a file that does not fit the status is 1, and only the first session was held. -/
private theorem truthfulTransactional_tooLong {env : Env} {h : Host} {rbf : List UInt8}
    (hr : Ready h) (hrun : updateCcat env h = flashAndVerify env h rbf)
    (hlong : CCAT_FLASH_SIZE < rbf.length) :
    TruthfulTransactional env h ↔
      (firstFlash env h.hw.flash rbf =
          prescribed h.hw.flash (accepted env.chunk CCAT_FLASH_SIZE rbf) →
        CCAT_FLASH_SIZE < env.chunk ∨
          window h.hw.flash = programmed (rbf.take (CCAT_FLASH_SIZE / env.chunk * env.chunk))) := by
  obtain ⟨h', hend, hflash, hsessions⟩ := flashAndVerify_tooLong env h rbf hr hlong
  rw [hend] at hrun
  rw [← window_prescribed_tooLong h.hw.flash env.chunk_pos hlong]
  constructor
  · intro hprop hfaithful
    -- the status is 1, so the flash would have to be as before
    have hsame := hprop.transactional
    rw [hrun] at hsame
    simp only [hsessions, List.mem_singleton, forall_eq, hflash] at hsame
    rw [← hfaithful]
    exact hsame hfaithful (by decide)
  · -- with status 1 only the second promise says something
    intro hcond
    constructor
    · rw [hrun]
      exact fun hzero => nomatch hzero
    · rw [hrun]
      simp only [hsessions, List.mem_singleton, forall_eq, hflash]
      intro hfaithful _
      rw [hfaithful]
      exact hcond hfaithful

/-- With a file that fits the status is 0. -/
private theorem truthfulTransactional_fits {env : Env} {h : Host} {rbf : List UInt8}
    (hr : Ready h) (hrbf : env.rbf = some rbf)
    (hrun : updateCcat env h = flashAndVerify env h rbf) (hfit : rbf.length ≤ CCAT_FLASH_SIZE) :
    TruthfulTransactional env h ↔
      rbf <+: window (firstFlash env h.hw.flash rbf) ∨
        rbf <+: window (restoredFlash env h.hw.flash) := by
  obtain ⟨h', hend, hflash⟩ := flashAndVerify_fits env h rbf hr hfit
  rw [hend] at hrun
  have hbegins : rbf <+: window h'.hw.flash ↔
      rbf <+: window (firstFlash env h.hw.flash rbf) ∨
        rbf <+: window (restoredFlash env h.hw.flash) := by
    rw [hflash]
    -- what ends up in the flash is from the first session or from the restore
    by_cases hfirst : rbf <+: window (firstFlash env h.hw.flash rbf)
    · rw [if_pos hfirst]
      exact ⟨.inl, fun _ => hfirst⟩
    · rw [if_neg hfirst]
      exact ⟨.inr, fun hor => hor.resolve_left hfirst⟩
  rw [← hbegins]
  constructor
  · intro hprop
    -- the status is 0, so the flash would have to begin with the file
    have htrue := hprop.truthful
    rw [hrun, hrbf] at htrue
    obtain ⟨rbf', hsome, hprefix⟩ := htrue rfl
    obtain rfl := Option.some.inj hsome
    exact hprefix
  · intro hprefix
    constructor
    · rw [hrun]
      exact fun _ => ⟨rbf, hrbf, hprefix⟩
    · rw [hrun]
      exact fun _ hne => absurd rfl hne

/-- The condition for a script that gets to the device. -/
private theorem keepsPromise_iff {env : Env} {rbf : List UInt8} (flash : Nat → UInt8)
    (hargc : env.argc = 2) (hrbf : env.rbf = some rbf) (hdev : env.isCharDev = true) :
    KeepsPromise env flash ↔
      (rbf.length ≤ CCAT_FLASH_SIZE →
        rbf <+: window (firstFlash env flash rbf) ∨ rbf <+: window (restoredFlash env flash)) ∧
      (CCAT_FLASH_SIZE < rbf.length →
        firstFlash env flash rbf = prescribed flash (accepted env.chunk CCAT_FLASH_SIZE rbf) →
        CCAT_FLASH_SIZE < env.chunk ∨
          window flash = programmed (rbf.take (CCAT_FLASH_SIZE / env.chunk * env.chunk))) := by
  constructor
  · exact fun hkeeps => hkeeps hargc hdev rbf hrbf
  · intro hcond _ _ rbf' hrbf'
    obtain rfl : rbf = rbf' := Option.some.inj (hrbf.symm.trans hrbf')
    exact hcond

/-- **The update script.** It is truthful and transactional exactly when `KeepsPromise` holds of
    its environment and the flash it starts from. -/
theorem truthfulTransactional_iff (env : Env) (h : Host) (hr : Ready h) :
    TruthfulTransactional env h ↔ KeepsPromise env h.hw.flash := by
  by_cases hargc : env.argc = 2
  case neg =>
    exact ⟨fun _ hargc' => absurd hargc' hargc, fun _ =>
      truthfulTransactional_of_stop (if_pos hargc) (by decide)⟩
  cases hrbf : env.rbf with
  | none =>
    have hstop : updateCcat env h = (1, h) := by
      rw [updateCcat, if_neg (fun hne => hne hargc), hrbf]
    refine ⟨fun _ _ _ rbf hsome => ?_, fun _ =>
      truthfulTransactional_of_stop hstop (by decide)⟩
    rw [hrbf] at hsome
    exact nomatch hsome
  | some rbf =>
    cases hdev : env.isCharDev with
    | false =>
      have hstop : updateCcat env h = (1, h) := by
        rw [updateCcat, if_neg (fun hne => hne hargc), hrbf]
        simp only [hdev, Bool.not_false, if_true]
      refine ⟨fun _ _ hdev' => ?_, fun _ => truthfulTransactional_of_stop hstop (by decide)⟩
      rw [hdev] at hdev'
      exact nomatch hdev'
    | true =>
      -- the script runs to its end, with status 1 only for a file that is too long
      have hrun := updateCcat_proceeds h hargc hrbf hdev
      rw [keepsPromise_iff h.hw.flash hargc hrbf hdev]
      rcases Nat.lt_or_ge CCAT_FLASH_SIZE rbf.length with hlong | hfit
      · rw [truthfulTransactional_tooLong hr hrun hlong]
        exact ⟨fun hcond => ⟨fun hfit => absurd hfit (Nat.not_le.mpr hlong), fun _ => hcond⟩,
          fun hcond => hcond.2 hlong⟩
      · rw [truthfulTransactional_fits hr hrbf hrun hfit]
        exact ⟨fun hcond => ⟨fun _ => hcond, fun hlong => absurd hlong (Nat.not_lt.mpr hfit)⟩,
          fun hcond => hcond.1 hfit⟩

/-- A host with an erased flash. -/
def Host.erased : Host :=
  ⟨.long64, 0, ⟨1, 0, CCAT_FLASH_SIZE, 1, .owner⟩,
    .atRest ⟨fun _ => 2, fun _ => 5, fun _ => 0⟩ fun _ => 0xFF, fun _ => none, fun _ => none, []⟩

/-- A run with the one-byte file `a5`, in which the sessions end as `program` says. -/
def Env.oneByte (program : Nat → (Nat → UInt8) → (Nat → UInt8)) : Env :=
  ⟨2, "ccat.rbf", some [0xA5], true, 4096, by decide, by decide, program⟩

/-- With faithful programming a one-byte update keeps the promise. -/
theorem truthfulTransactional_iff_faithful :
    TruthfulTransactional (.oneByte fun _ flash => flash) .erased := by
  refine (truthfulTransactional_iff (.oneByte fun _ flash => flash) .erased
    ⟨⟨rfl, rfl⟩, ⟨rfl, rfl⟩, rfl⟩).mpr fun _ _ rbf hrbf => ?_
  obtain rfl : [0xA5] = rbf := Option.some.inj hrbf
  refine ⟨fun _ => .inl ?_, fun hlong => absurd hlong (by decide)⟩
  have hflash : firstFlash (.oneByte fun _ flash => flash) Host.erased.hw.flash [0xA5] =
      blit (fun _ => 0xFF) 0 [0xA5] := rfl
  rw [hflash, window, slice_blit_erased _ (by decide)]
  exact List.prefix_append ..

/-- A file of one byte is compared with the first byte of the flash. -/
private theorem head_of_prefix_window {b : UInt8} {flash : Nat → UInt8}
    (h : [b] <+: window flash) : b = flash 0 := by
  obtain ⟨rest, hrest⟩ := h
  have hhead := congrArg (·[0]?) hrest
  simp only [window, getElem?_slice, List.cons_append, List.getElem?_cons_zero,
    if_pos (show 0 < CCAT_FLASH_SIZE by decide), Nat.add_zero, Option.some.injEq] at hhead
  exact hhead

/-- The first session loses the byte, the restore is faithful, and the status is 0. -/
theorem not_truthfulTransactional_restored :
    ¬∀ (env : Env) (h : Host), Ready h → TruthfulTransactional env h := by
  intro hall
  let env : Env := .oneByte fun n flash => if n = 0 then fun _ => 0 else flash
  have hprop := hall env .erased ⟨⟨rfl, rfl⟩, ⟨rfl, rfl⟩, rfl⟩
  have hor := (truthfulTransactional_fits ⟨⟨rfl, rfl⟩, ⟨rfl, rfl⟩, rfl⟩ rfl
    (updateCcat_proceeds .erased rfl rfl rfl) (show [(0xA5 : UInt8)].length ≤ _ by decide)).mp hprop
  rcases hor with hfirst | hrestored
  · exact absurd (head_of_prefix_window hfirst) (by decide)
  · have hfaithful : restoredFlash env Host.erased.hw.flash =
        blit (fun _ => 0xFF) 0 (window Host.erased.hw.flash) := by
      simp only [restoredFlash, env, Env.oneByte, Nat.one_ne_zero, if_false]
    have hzero : restoredFlash env Host.erased.hw.flash 0 = 0xFF := by
      have hlen : 0 < (window Host.erased.hw.flash).length := by
        rw [window, length_slice]
        decide
      have hread := blit_add (fun _ => 0xFF) 0 (window Host.erased.hw.flash) hlen
      rw [hfaithful, ← Nat.zero_add 0, hread]
      simp only [window, slice, List.getElem_map]
      rfl
    exact absurd ((head_of_prefix_window hrestored).trans hzero) (by decide)

end Ccat.Native.UpdateScript
