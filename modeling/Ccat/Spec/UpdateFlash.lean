import Ccat.Native.Update

/-!
# What the update driver does to the flash

From the effect of one command cycle to the effect of the block loops: the write loop
programs the staged bytes over an erased range, the read loop delivers the bytes of
the flash. All of it for any timing of the device and both widths of `unsigned long`.

## Key results

- `ccatWaitStatusCleared_spec`: the status loop ends with the device idle
- `programPage_erased`: programming erased cells of one page stores the bytes
- `writeBlocks_spec`: `ccat_write_flash()` programs the staged bytes
- `readBlocks_spec`: `ccat_read_flash()` delivers the bytes of the flash
- `ccatUpdateRead_issues`: reading issues read commands only
- `ccatUpdateRelease_issues`: closing a handle with bytes staged issues an erase
- `ccatUpdateRelease_flash`: closing a handle leaves the staged bytes in an erased flash
-/

namespace Ccat.Native.Update

open Memory

/-! ## Commands -/

private theorem perform_writeEnable (hw : FlashHw) (n a : Nat) (h : hw.wip = 0) :
    hw.perform n ⟨0x60, 8, a⟩ = { hw with wel := true } := by
  have hwip : ¬hw.wip ≠ 0 := fun hne => hne h
  rw [FlashHw.perform, if_neg (by simp), if_neg hwip, if_pos (by simp)]

/-- Erase, which needs the write enable latch and clears it. -/
private theorem perform_bulkErase (hw : FlashHw) (n a : Nat) (h : hw.wip = 0)
    (hwel : hw.wel = true) :
    hw.perform n ⟨0xE3, 8, a⟩ =
      { hw with flash := fun _ => 0xFF, wel := false, wip := hw.timing.wip n } := by
  have hwip : ¬hw.wip ≠ 0 := fun hne => hne h
  rw [FlashHw.perform, if_neg (by simp), if_neg hwip, if_neg (by simp), if_pos (by simp [hwel])]

/-- Program a page, which needs the write enable latch and clears it. -/
private theorem perform_writeFlash (hw : FlashHw) (n clocks a : Nat) (h : hw.wip = 0)
    (hwel : hw.wel = true) :
    hw.perform n ⟨0x40, clocks, a⟩ =
      { hw with
        flash := programPage hw.flash a
          ((List.range ((clocks - 32) / 8)).map fun i => hw.wreg (0x30 + 8 * i))
        wel := false
        wip := hw.timing.wip n } := by
  have hwip : ¬hw.wip ≠ 0 := fun hne => hne h
  rw [FlashHw.perform, if_neg (by simp), if_neg hwip, if_neg (by simp), if_neg (by simp),
    if_pos (by simp [hwel])]
  rfl

/-- Read a page into the read registers. -/
private theorem perform_readFlash (hw : FlashHw) (n clocks a : Nat) (h : hw.wip = 0) :
    hw.perform n ⟨0xC0, clocks, a⟩ =
      { hw with
        rreg := fun off =>
          if 0x38 ≤ off ∧ (off - 0x38) % 8 = 0 ∧ (off - 0x38) / 8 < (clocks - 32) / 8 then
            hw.flash (a + (off - 0x38) / 8)
          else hw.rreg off } := by
  have hwip : ¬hw.wip ≠ 0 := fun hne => hne h
  rw [FlashHw.perform, if_neg (by simp), if_neg hwip, if_neg (by simp), if_neg (by simp),
    if_neg (by simp), if_pos (by simp)]
  rfl

/-- The device is idle with the flash content `flash` and the write-enable latch `wel`. -/
structure FlashHw.Rests (hw : FlashHw) (flash : Nat → UInt8) (wel : Bool) : Prop
    extends hw.Idle where
  flash_eq : hw.flash = flash
  wel_eq : hw.wel = wel

/-- The status loop ends, and only waits. -/
theorem ccatWaitStatusCleared_spec (hw : FlashHw) (hbusy : hw.busy = 0) :
    (ccatWaitStatusCleared hw).Rests hw.flash hw.wel := by
  induction hn : hw.wip generalizing hw with
  | zero =>
    -- induction on the status reads that find the operation in progress
    obtain ⟨w, r, a, hget⟩ := ccatGetStatus_eq hw hbusy
    have hclear := mt (statusByte_bit7 (hw.timing.status hw.issued.length) hw.wip).mp
      (fun hne => hne hn)
    rw [ccatWaitStatusCleared, hget, if_neg hclear]
    exact ⟨⟨rfl, by simp [hn]⟩, rfl, rfl⟩
  | succ n ih =>
    obtain ⟨w, r, a, hget⟩ := ccatGetStatus_eq hw hbusy
    have hset := (statusByte_bit7 (hw.timing.status hw.issued.length) hw.wip).mpr (by omega)
    rw [ccatWaitStatusCleared, hget, if_pos hset]
    exact ih _ rfl (by simp [hn])

/-- `ccat_update_cmd(CCAT_WRITE_ENABLE)` on an idle device. -/
theorem ccatUpdateCmd_writeEnable (hw : FlashHw) (hidle : hw.Idle) :
    (ccatUpdateCmd hw CCAT_WRITE_ENABLE).Rests hw.flash true := by
  obtain ⟨w, a, hcmd⟩ := ccatUpdateCmd_eq hw CCAT_WRITE_ENABLE (by decide) hidle.busy
  have hperf := perform_writeEnable { hw with wreg := w } hw.issued.length a hidle.wip
  rw [hcmd, FlashHw.cycle]
  simp only [CCAT_WRITE_ENABLE]
  rw [hperf]
  exact ⟨⟨rfl, hidle.wip⟩, rfl, rfl⟩

/-- The erase of `ccat_update_release()`, once the latch is set. -/
theorem ccatUpdateCmd_bulkErase (hw : FlashHw) {flash : Nat → UInt8} (h : hw.Rests flash true) :
    (ccatWaitStatusCleared (ccatUpdateCmd hw CCAT_BULK_ERASE)).Rests (fun _ => 0xFF) false := by
  obtain ⟨w, a, hcmd⟩ := ccatUpdateCmd_eq hw CCAT_BULK_ERASE (by decide) h.busy
  have hperf := perform_bulkErase { hw with wreg := w } hw.issued.length a h.wip h.wel_eq
  rw [hcmd, FlashHw.cycle]
  simp only [CCAT_BULK_ERASE]
  rw [hperf]
  exact ccatWaitStatusCleared_spec _ rfl

/-! ## Programming one block -/

/-- Programming inside one page, cell by cell. -/
theorem programPage_apply (flash : Nat → UInt8) (addr : Nat) (bs : List UInt8)
    (h : addr % 256 + bs.length ≤ 256) (p : Nat) :
    programPage flash addr bs p =
      if addr ≤ p then (bs[p - addr]?).elim (flash p) (flash p &&& ·) else flash p := by
  induction bs generalizing flash addr with
  | nil => simp [programPage]
  | cons b bs ih =>
    rw [programPage]
    simp only [List.length_cons] at h
    by_cases hlast : addr % 256 = 255
    · -- the page ends here, so `b` is the last byte
      have hnil : bs = [] := List.eq_nil_of_length_eq_zero (by omega)
      subst hnil
      simp only [programPage]
      rcases Nat.lt_trichotomy p addr with hlt | rfl | hgt
      · rw [if_neg (by omega), if_neg (by omega)]
      · simp
      · have hnone : [b][p - addr]? = none := List.getElem?_eq_none (by simp; omega)
        rw [if_neg (by omega), if_pos (by omega), hnone, Option.elim_none]
    · -- the next byte goes to the next cell
      have hnext : nextInPage addr = addr + 1 := if_neg hlast
      rw [hnext, ih _ _ (by omega)]
      rcases Nat.lt_trichotomy p addr with hlt | rfl | hgt
      · rw [if_neg (by omega), if_neg (by omega), if_neg (by omega)]
      · rw [if_neg (by omega), if_pos rfl, if_pos (Nat.le_refl p), Nat.sub_self]
        rfl
      · have hshift : (b :: bs)[p - addr]? = bs[p - (addr + 1)]? := by
          rw [show p - addr = p - (addr + 1) + 1 by omega, List.getElem?_cons_succ]
        have hne : ¬p = addr := by omega
        rw [if_pos (by omega), if_pos (show addr ≤ p by omega), hshift]
        simp only [if_neg hne]

/-- Programming erased cells of one page stores the bytes. -/
theorem programPage_erased (flash : Nat → UInt8) (addr : Nat) (bs : List UInt8)
    (hpage : addr % 256 + bs.length ≤ 256)
    (herased : ∀ i, i < bs.length → flash (addr + i) = 0xFF) :
    programPage flash addr bs = blit flash addr bs := by
  funext p
  rw [programPage_apply flash addr bs hpage, blit]
  by_cases hp : addr ≤ p
  · rw [if_pos hp, if_pos hp]
    rcases Nat.lt_or_ge (p - addr) bs.length with hlt | hge
    · -- `0xFF &&& b` is `b`
      have hff := herased (p - addr) hlt
      rw [Nat.add_sub_of_le hp] at hff
      rw [List.getElem?_eq_getElem hlt, hff, Option.elim_some, Option.getD_some]
      exact UInt8.neg_one_and
    · rw [List.getElem?_eq_none hge, Option.elim_none, Option.getD_none]
  · rw [if_neg hp, if_neg hp]

/-- The data registers after the loop of `ccat_write_flash_block()`. -/
private theorem fillBlock_eq (hw : FlashHw) (data : Nat → UInt8) (buf i n : Nat)
    (h : i + n ≤ CCAT_WRITE_BLOCK_SIZE) :
    ∃ w, fillBlock hw data buf i n = { hw with wreg := w } ∧
      (∀ j, j < i → w (0x30 + 8 * j) = hw.wreg (0x30 + 8 * j)) ∧
      (∀ j, i ≤ j → j < i + n → w (0x30 + 8 * j) = data (buf + j)) := by
  simp only [CCAT_WRITE_BLOCK_SIZE] at h
  induction n generalizing hw i with
  | zero => exact ⟨hw.wreg, rfl, fun _ _ => rfl, fun j _ _ => by omega⟩
  | succ n ih =>
    -- none of the data registers is the one that starts a command
    have hwrite : hw.iowrite8 (data (buf + i)) (CCAT_DATA_OUT_4 + 8 * i) =
        { hw with
          wreg := fun o => if o = CCAT_DATA_OUT_4 + 8 * i then data (buf + i) else hw.wreg o } := by
      rw [FlashHw.iowrite8, if_neg (by simp only [CCAT_DATA_OUT_4]; omega)]
    rw [fillBlock, hwrite]
    obtain ⟨w, heq, hlow, hhigh⟩ := ih _ (i + 1) (by omega)
    -- registers below are kept, and register `i` was written first
    refine ⟨w, heq, fun j hj => ?_, fun j hij hj => ?_⟩
    · rw [hlow j (by omega)]
      exact if_neg (by simp only [CCAT_DATA_OUT_4]; omega)
    · rcases Nat.lt_or_ge i j with hlt | hge
      · exact hhigh j hlt (by omega)
      · have hij' : j = i := by omega
        subst hij'
        rw [hlow j (by omega)]
        exact if_pos rfl

/-- `ccat_write_flash_block()` on an idle device and an erased part of one page. -/
theorem ccatWriteFlashBlock_spec (L : LongWidth) (hw : FlashHw) (addr len : Nat)
    (data : Nat → UInt8) (buf : Nat) (hidle : hw.Idle) (haddr : addr < 2 ^ 24)
    (hlen : len ≤ CCAT_WRITE_BLOCK_SIZE) (hpage : addr % CCAT_WRITE_BLOCK_SIZE = 0)
    (herased : ∀ i, i < len → hw.flash (addr + i) = 0xFF) :
    (ccatWriteFlashBlock L hw addr len data buf).Rests
      (blit hw.flash addr (slice data buf len)) false := by
  have hwe := ccatUpdateCmd_writeEnable hw hidle
  simp only [ccatWriteFlashBlock]
  generalize ccatUpdateCmd hw CCAT_WRITE_ENABLE = hw₁ at hwe ⊢
  obtain ⟨w, hfill, -, hdata⟩ := fillBlock_eq hw₁ data buf 0 len (by omega)
  rw [hfill]
  simp only [CCAT_WRITE_BLOCK_SIZE] at hlen hpage
  -- neither the clocks nor their sum with the command's overflow a `u16`
  have hclocks : 8 * len % 2 ^ 16 = 8 * len := Nat.mod_eq_of_lt (by omega)
  have hadd : (CCAT_WRITE_FLASH.addClocks (8 * len % 2 ^ 16)).clocks = 32 + 8 * len := by
    simp only [Cmd.addClocks, CCAT_WRITE_FLASH, hclocks]
    exact Nat.mod_eq_of_lt (by omega)
  obtain ⟨w', hregs, hcmd⟩ := ccatUpdateCmdAddr_eq L { hw₁ with wreg := w }
    (CCAT_WRITE_FLASH.addClocks (8 * len % 2 ^ 16)) addr (by rw [hadd]; omega) haddr hwe.busy
  have hperf := perform_writeFlash { hw₁ with wreg := w' } hw₁.issued.length (32 + 8 * len) addr
    hwe.wip hwe.wel_eq
  -- the data registers hold the block, as the address registers are others
  have hbytes : ((List.range ((32 + 8 * len - 32) / 8)).map fun i => w' (0x30 + 8 * i)) =
      slice data buf len := by
    rw [show (32 + 8 * len - 32) / 8 = len by omega]
    apply List.map_congr_left
    intro i hi
    have hi' := List.mem_range.mp hi
    rw [hregs _ (by omega) (by omega)]
    exact hdata i (by omega) (by omega)
  -- a block of 128 bytes that starts at a multiple of 128 lies in one page
  have hprog : programPage hw₁.flash addr (slice data buf len) =
      blit hw₁.flash addr (slice data buf len) := by
    refine programPage_erased _ _ _ (by rw [length_slice]; omega) fun i hi => ?_
    rw [hwe.flash_eq]
    exact herased i (by rwa [length_slice] at hi)
  rw [hcmd, FlashHw.cycle, hadd]
  simp only [Cmd.addClocks, CCAT_WRITE_FLASH]
  rw [hperf]
  simp only [hbytes, hprog]
  rw [← hwe.flash_eq]
  exact ccatWaitStatusCleared_spec _ rfl

/-! ## Programming the staged image -/

/-- The loop of `ccat_write_flash()`: block by block, the erased range from `off` on takes
    the bytes of the buffer. -/
theorem writeBlocks_spec (L : LongWidth) (hw : FlashHw) (data : Nat → UInt8) (off buf len : Nat)
    (hidle : hw.Idle) (hend : off + len < 2 ^ 24) (hpage : off % CCAT_WRITE_BLOCK_SIZE = 0)
    (herased : ∀ i, i < len → hw.flash (off + i) = 0xFF) :
    (writeBlocks L hw data off buf len).Rests (blit hw.flash off (slice data buf len)) false := by
  induction hn : len using Nat.strongRecOn generalizing hw off buf len with
  | _ n ih =>
    subst hn
    rw [writeBlocks]
    by_cases hlong : len > CCAT_WRITE_BLOCK_SIZE
    · rw [if_pos hlong]
      simp only [CCAT_WRITE_BLOCK_SIZE] at *
      have hblock := ccatWriteFlashBlock_spec L hw off 128 data buf hidle (by omega)
        (Nat.le_refl _) hpage fun i hi => herased i (by omega)
      have hmod : (off + 128) % 2 ^ 32 = off + 128 := Nat.mod_eq_of_lt (by omega)
      -- the rest of the range is still erased
      have hrest : ∀ i, i < len - 128 →
          (ccatWriteFlashBlock L hw off 128 data buf).flash (off + 128 + i) = 0xFF := by
        intro i hi
        rw [hblock.flash_eq, blit_of_ge _ _ (by rw [length_slice]; omega), Nat.add_assoc]
        exact herased (128 + i) (by omega)
      have hloop := ih (len - 128) (by omega) _ (off + 128) (buf + 128) (len - 128)
        hblock.toIdle (by omega) (by omega) hrest rfl
      rw [hmod]
      -- two adjacent blocks are one
      have hjoin : blit (blit hw.flash off (slice data buf 128)) (off + 128)
          (slice data (buf + 128) (len - 128)) = blit hw.flash off (slice data buf len) := by
        have hcat := blit_blit hw.flash off (slice data buf 128)
          (slice data (buf + 128) (len - 128))
        rw [length_slice] at hcat
        rw [hcat, ← slice_add, show 128 + (len - 128) = len by omega]
      rw [hblock.flash_eq, hjoin] at hloop
      exact hloop
    · rw [if_neg hlong]
      -- the last block, which may be empty
      have hmod : len % 2 ^ 16 = len :=
        Nat.mod_eq_of_lt (by simp only [CCAT_WRITE_BLOCK_SIZE] at hlong; omega)
      rw [hmod]
      exact ccatWriteFlashBlock_spec L hw off len data buf hidle (by omega) (by omega) hpage herased

/-- Closing a handle with `size` bytes staged leaves them at the start of an otherwise erased
    flash; with nothing staged the device is not touched. -/
theorem ccatUpdateRelease_flash (L : LongWidth) (d : CcatCdev) (buffer : CdevBuffer)
    (hw : FlashHw) (hidle : hw.Idle) (hsize : buffer.size < 2 ^ 24) :
    (buffer.size = 0 → (ccatUpdateRelease L d buffer hw).2.2 = hw) ∧
    (0 < buffer.size → (ccatUpdateRelease L d buffer hw).2.2.Rests
      (blit (fun _ => 0xFF) 0 (slice buffer.data 0 buffer.size)) false) := by
  constructor
  · intro hzero
    simp only [ccatUpdateRelease, ccatCdevRelease]
    exact if_neg (by omega)
  · intro hpos
    have herase := ccatUpdateCmd_bulkErase _ (ccatUpdateCmd_writeEnable hw hidle)
    have hwrite := writeBlocks_spec L _ buffer.data 0 0 buffer.size herase.toIdle (by omega) rfl
      fun i _ => by rw [herase.flash_eq]
    rw [herase.flash_eq] at hwrite
    simp only [ccatUpdateRelease, ccatCdevRelease]
    rw [if_pos hpos]
    exact hwrite

/-! ## Reading -/

/-- The user buffer after stores of `xs` from address `buf` on. -/
def UserBuf.store (u : UserBuf) (buf : Nat) (xs : List UInt8) : UserBuf :=
  { u with bytes := fun p => if u.faults p then u.bytes p else blit u.bytes buf xs p }

theorem UserBuf.store_nil (u : UserBuf) (buf : Nat) : u.store buf [] = u := by
  simp only [UserBuf.store, blit_nil, ite_self]

/-- Stores to adjacent ranges. -/
theorem UserBuf.store_store (u : UserBuf) (buf : Nat) (xs ys : List UInt8) :
    (u.store buf xs).store (buf + xs.length) ys = u.store buf (xs ++ ys) := by
  simp only [UserBuf.store, UserBuf.mk.injEq, and_true]
  funext p
  -- a cell that faults keeps its old value in either case
  by_cases hf : u.faults p = true
  · simp only [hf, if_true]
  · rw [if_neg hf, if_neg hf, ← blit_blit]
    simp only [blit, hf, if_false, Bool.false_eq_true]

/-- `put_user()` stores one byte, or none if it faults. -/
theorem UserBuf.putUser_eq_store (u : UserBuf) (v : UInt8) (buf : Nat) :
    u.putUser v buf = u.store buf [v] := by
  by_cases hf : u.faults buf = true
  · rw [UserBuf.putUser, if_pos hf]
    cases u with
    | mk bytes faults =>
      simp only [UserBuf.store, UserBuf.mk.injEq, and_true]
      funext p
      by_cases hp : faults p = true
      · rw [if_pos hp]
      · -- the only cell stored to is the one that faults
        have hne : p ≠ buf := fun h => hp (h ▸ hf)
        rw [if_neg hp]
        rcases Nat.lt_or_ge p buf with hlt | hge
        · rw [blit_of_lt _ _ hlt]
        · rw [blit_of_ge _ _ (by simp only [List.length_singleton]; omega)]
  · -- the cell is stored to, and all others are as before
    rw [UserBuf.putUser, if_neg hf]
    simp only [UserBuf.store, UserBuf.mk.injEq, and_true]
    funext p
    by_cases hp : p = buf
    · subst hp
      rw [if_pos rfl, if_neg hf]
      simp [blit]
    · rw [if_neg hp]
      rcases Nat.lt_or_ge p buf with hlt | hge
      · rw [blit_of_lt _ _ hlt, ite_self]
      · rw [blit_of_ge _ _ (by simp only [List.length_singleton]; omega), ite_self]

/-- What was stored where no store faults. -/
theorem UserBuf.slice_store (u : UserBuf) (buf : Nat) (xs : List UInt8)
    (h : ∀ i, i < xs.length → u.faults (buf + i) = false) :
    slice (u.store buf xs).bytes buf xs.length = xs := by
  have hcells : slice (u.store buf xs).bytes buf xs.length =
      slice (blit u.bytes buf xs) buf xs.length := by
    apply slice_congr
    intro i hi
    simp only [UserBuf.store, h i hi, Bool.false_eq_true, if_false]
  rw [hcells, slice_blit]

/-- The loop of `ccat_read_flash_block()` stores the input registers. -/
private theorem putBlock_eq (hw : FlashHw) (u : UserBuf) (buf i n : Nat) :
    putBlock hw u buf i n = (hw, u.store (buf + i)
      (slice (fun j => hw.rreg (CCAT_DATA_IN_4 + 8 * j)) i n)) := by
  induction n generalizing u i with
  | zero => rw [putBlock, slice_zero, UserBuf.store_nil]
  | succ n ih =>
    -- offset 1, the busy flag, is none of the data registers
    have hread : hw.ioread8 (CCAT_DATA_IN_4 + 8 * i) =
        (hw.rreg (CCAT_DATA_IN_4 + 8 * i), hw) := by
      rw [FlashHw.ioread8, if_neg (by simp only [CCAT_DATA_IN_4]; omega)]
    rw [putBlock, hread]
    simp only []
    rw [ih, UserBuf.putUser_eq_store, slice_succ]
    have hstore := u.store_store (buf + i) [hw.rreg (CCAT_DATA_IN_4 + 8 * i)]
      (slice (fun j => hw.rreg (CCAT_DATA_IN_4 + 8 * j)) (i + 1) n)
    rw [← Nat.add_assoc]
    exact congrArg (Prod.mk hw) hstore

/-- `ccat_read_flash_block()` on an idle device. -/
theorem ccatReadFlashBlock_spec (L : LongWidth) (hw : FlashHw) (addr len : Nat) (u : UserBuf)
    (buf : Nat) (hidle : hw.Idle) (haddr : addr < 2 ^ 24) (hlen : len ≤ CCAT_DATA_BLOCK_SIZE) :
    ∃ hw', ccatReadFlashBlock L hw addr len u buf = (hw', u.store buf (slice hw.flash addr len)) ∧
      hw'.Rests hw.flash hw.wel := by
  have hlen' : len ≤ 247 := hlen
  -- eight clocks for each byte, behind those of command and address
  have hclocks : 8 * len % 2 ^ 16 = 8 * len := Nat.mod_eq_of_lt (by omega)
  have hadd : (CCAT_READ_FLASH.addClocks (8 * len % 2 ^ 16)).clocks = 32 + 8 * len := by
    simp only [Cmd.addClocks, CCAT_READ_FLASH, hclocks]
    exact Nat.mod_eq_of_lt (by omega)
  obtain ⟨w, -, hcmd⟩ := ccatUpdateCmdAddr_eq L hw
    (CCAT_READ_FLASH.addClocks (8 * len % 2 ^ 16)) addr (by rw [hadd]; omega) haddr hidle.busy
  have hperf := perform_readFlash { hw with wreg := w } hw.issued.length (32 + 8 * len) addr
    hidle.wip
  rw [FlashHw.cycle, hadd] at hcmd
  simp only [ccatReadFlashBlock, putBlock_eq, Nat.add_zero]
  refine ⟨_, congrArg (Prod.mk _) (congrArg (u.store buf) ?_), ?_⟩
  · rw [hcmd]
    simp only [Cmd.addClocks, CCAT_READ_FLASH]
    rw [hperf]
    -- byte `i` is read from the register that the device has put it into
    apply slice_congr
    intro i hi
    simp only [CCAT_DATA_IN_4, Nat.zero_add]
    rw [if_pos ⟨by omega, by omega, by omega⟩, show (56 + 8 * i - 56) / 8 = i by omega]
  · rw [hcmd]
    simp only [Cmd.addClocks, CCAT_READ_FLASH]
    rw [hperf]
    exact ⟨⟨rfl, hidle.wip⟩, rfl, rfl⟩

/-- The loop of `ccat_read_flash()`: block by block, the bytes from `off` on are stored in the
    user's buffer. -/
theorem readBlocks_spec (L : LongWidth) (hw : FlashHw) (u : UserBuf) (buf len off : Nat)
    (hidle : hw.Idle) (hend : off + len < 2 ^ 24) :
    ∃ hw', readBlocks L hw u buf len off =
      (hw', u.store buf (slice hw.flash off len), off + len) ∧ hw'.Rests hw.flash hw.wel := by
  induction hn : len using Nat.strongRecOn generalizing hw u off buf len with
  | _ n ih =>
    subst hn
    -- addresses stay below 2 ^ 24, so the cast to `u32` changes nothing
    have hoff : off % 2 ^ 32 = off := Nat.mod_eq_of_lt (by omega)
    rw [readBlocks, hoff]
    by_cases hlong : len > CCAT_DATA_BLOCK_SIZE
    · rw [if_pos hlong]
      have hlong' : len > 247 := hlong
      -- one block, then the loop from the next one
      obtain ⟨hw₁, hblock, hrest⟩ := ccatReadFlashBlock_spec L hw off 247 u buf hidle (by omega)
        (Nat.le_refl 247)
      obtain ⟨hw', hloop, hrest'⟩ := ih (len - 247) (by omega) hw₁
        (u.store buf (slice hw.flash off 247)) (buf + 247) (len - 247) (off + 247) hrest.toIdle
        (by omega) rfl
      refine ⟨hw', ?_, ⟨hrest'.toIdle, hrest'.flash_eq.trans hrest.flash_eq,
        hrest'.wel_eq.trans hrest.wel_eq⟩⟩
      rw [show CCAT_DATA_BLOCK_SIZE = 247 from rfl, hblock]
      simp only []
      rw [hloop, hrest.flash_eq]
      have hjoin := u.store_store buf (slice hw.flash off 247)
        (slice hw.flash (off + 247) (len - 247))
      rw [length_slice, ← slice_add, show 247 + (len - 247) = len by omega] at hjoin
      rw [hjoin, show off + 247 + (len - 247) = off + len by omega]
    · rw [if_neg hlong]
      have hle : len ≤ 247 := Nat.le_of_not_lt hlong
      have hmod : len % 2 ^ 16 = len := Nat.mod_eq_of_lt (by omega)
      obtain ⟨hw', hblock, hrest⟩ := ccatReadFlashBlock_spec L hw off len u buf hidle (by omega) hle
      rw [hmod, hblock]
      exact ⟨hw', rfl, hrest⟩

/-- `ccat_update_read()` on an idle device, whatever addresses of the user's buffer fault. -/
theorem ccatUpdateRead_spec (L : LongWidth) (d : CcatCdev) (hw : FlashHw) (u : UserBuf)
    (len off : Nat) (hidle : hw.Idle) (hsize : d.iosize < 2 ^ 24) :
    ∃ hw', ccatUpdateRead L d hw u len off =
      ⟨(min len (d.iosize - off) : Nat), off + min len (d.iosize - off),
        u.store 0 (slice hw.flash off (min len (d.iosize - off))), hw'⟩ ∧
      hw'.Rests hw.flash hw.wel := by
  rw [ccatUpdateRead]
  by_cases hend : off ≥ d.iosize
  · -- at or behind the end nothing is read
    have hzero : d.iosize - off = 0 := by omega
    rw [if_pos hend, hzero, Nat.min_zero, slice_zero, UserBuf.store_nil]
    exact ⟨hw, rfl, hidle, rfl, rfl⟩
  · have hmod : min len (d.iosize - off) % 2 ^ 32 = min len (d.iosize - off) :=
      Nat.mod_eq_of_lt (by omega)
    obtain ⟨hw', hread, hrest⟩ := readBlocks_spec L hw u 0 (min len (d.iosize - off)) off hidle
      (by omega)
    rw [if_neg hend, ccatReadFlash, hmod, hread]
    refine ⟨hw', ?_, hrest⟩
    simp only [ReadResult.mk.injEq, and_true]
    omega

/-! ## The commands that are issued -/

/-- From `hw` to `hw'` only commands with the property `p` were issued. -/
def FlashHw.Issues (p : FlashCmd → Prop) (hw hw' : FlashHw) : Prop :=
  ∃ cmds, hw'.issued = hw.issued ++ cmds ∧ ∀ c ∈ cmds, p c

namespace FlashHw.Issues

variable {p q : FlashCmd → Prop} {hw hw' hw'' : FlashHw}

theorem of_eq (h : hw'.issued = hw.issued) : Issues p hw hw' :=
  ⟨[], by rw [h, List.append_nil], fun _ hc => absurd hc List.not_mem_nil⟩

/-- Commands issued one part after the other. -/
theorem trans (h : Issues p hw hw') (h' : Issues p hw' hw'') : Issues p hw hw'' := by
  obtain ⟨cmds, heq, hall⟩ := h
  obtain ⟨cmds', heq', hall'⟩ := h'
  refine ⟨cmds ++ cmds', by rw [heq', heq, List.append_assoc], fun c hc => ?_⟩
  rcases List.mem_append.mp hc with hc | hc
  · exact hall c hc
  · exact hall' c hc

theorem mono (h : Issues p hw hw') (hpq : ∀ c, p c → q c) : Issues q hw hw' := by
  obtain ⟨cmds, heq, hall⟩ := h
  exact ⟨cmds, heq, fun c hc => hpq c (hall c hc)⟩

end FlashHw.Issues

/-- Only a write to `0x7f8` issues a command, and that is the one in the registers. -/
theorem issues_iowrite8 (hw : FlashHw) (v : UInt8) (off : Nat) {p : FlashCmd → Prop}
    (hp : off = 0x7f8 → ∀ c : FlashCmd, c.cmd = hw.wreg 0x10 → p c) :
    FlashHw.Issues p hw (hw.iowrite8 v off) := by
  unfold FlashHw.iowrite8
  by_cases hoff : off = 0x7f8
  · simp only [if_pos hoff]
    unfold FlashHw.execute
    split
    · exact .of_eq rfl
    · refine ⟨[_], rfl, fun c hc => ?_⟩
      obtain rfl := List.mem_singleton.mp hc
      -- the command register is not the one that was written
      exact hp hoff _ (if_neg (by rw [hoff]; decide))
  · simp only [if_neg hoff]
    exact .of_eq rfl

/-- Starting the command in the registers and waiting for the busy flag. -/
private theorem issues_start (hw : FlashHw) :
    FlashHw.Issues (fun c => c.cmd = hw.wreg 0x10) hw
      (waitUntilBusyReset (hw.iowrite8 0xff 0x7f8)) := by
  rw [waitUntilBusyReset_eq]
  exact (issues_iowrite8 hw 0xff 0x7f8 fun _ _ h => h).trans (.of_eq rfl)

/-- `ccat_update_cmd()` issues its own command, if any. -/
theorem issues_ccatUpdateCmd (hw : FlashHw) (c : Cmd) :
    FlashHw.Issues (fun x => x.cmd = c.cmd) hw (ccatUpdateCmd hw c) :=
  (FlashHw.Issues.of_eq rfl).trans (issues_start (ccatUpdateCmdRegs hw c))

/-- `ccat_update_cmd_addr()` issues its own command, if any. -/
theorem issues_ccatUpdateCmdAddr (L : LongWidth) (hw : FlashHw) (c : Cmd) (addr : Nat) :
    FlashHw.Issues (fun x => x.cmd = c.cmd) hw (ccatUpdateCmdAddr L hw c addr) := by
  let addr0 := UInt8.ofNat (swapBits L (addr &&& 0xff))
  let addr1 := UInt8.ofNat (swapBits L ((addr &&& 0xff00) >>> 8))
  let addr2 := UInt8.ofNat (swapBits L ((addr &&& 0xff0000) >>> 16))
  exact (FlashHw.Issues.of_eq rfl).trans (issues_start
    ((((ccatUpdateCmdRegs hw c).iowrite8 addr2 0x18).iowrite8 addr1 0x20).iowrite8 addr0 0x28))

/-- The status loop issues commands, whichever these are. -/
private theorem issues_ccatWaitStatusCleared (hw : FlashHw) :
    FlashHw.Issues (fun _ => True) hw (ccatWaitStatusCleared hw) := by
  -- one round is a command and the read of its answer
  have hround : ∀ hw : FlashHw, FlashHw.Issues (fun _ => True) hw (ccatGetStatus hw).2 :=
    fun hw => (issues_ccatUpdateCmd hw CCAT_READ_STATUS).mono fun _ _ => trivial
  induction hw using ccatWaitStatusCleared.induct with
  | case1 hw hset ih =>
    rw [ccatWaitStatusCleared, if_pos hset]
    exact (hround hw).trans ih
  | case2 hw hclear =>
    rw [ccatWaitStatusCleared, if_neg hclear]
    exact hround hw

/-- Filling the data registers issues no command. -/
private theorem issues_fillBlock (hw : FlashHw) (data : Nat → UInt8) (buf i n : Nat)
    (h : i + n ≤ CCAT_WRITE_BLOCK_SIZE) :
    FlashHw.Issues (fun _ => True) hw (fillBlock hw data buf i n) := by
  obtain ⟨w, hfill, -⟩ := fillBlock_eq hw data buf i n h
  rw [hfill]
  exact .of_eq rfl

/-- Programming issues commands, whichever these are. -/
private theorem issues_writeBlocks (L : LongWidth) (hw : FlashHw) (data : Nat → UInt8)
    (off buf len : Nat) :
    FlashHw.Issues (fun _ => True) hw (writeBlocks L hw data off buf len) := by
  have hblock : ∀ hw addr len buf, len ≤ CCAT_WRITE_BLOCK_SIZE →
      FlashHw.Issues (fun _ => True) hw (ccatWriteFlashBlock L hw addr len data buf) := by
    intro hw addr len buf hlen
    refine ((issues_ccatUpdateCmd hw CCAT_WRITE_ENABLE).mono fun _ _ => trivial).trans ?_
    refine (issues_fillBlock _ data buf 0 len (by omega)).trans ?_
    exact ((issues_ccatUpdateCmdAddr L _ _ addr).mono fun _ _ => trivial).trans
      (issues_ccatWaitStatusCleared _)
  induction hn : len using Nat.strongRecOn generalizing hw off buf len with
  | _ n ih =>
    subst hn
    rw [writeBlocks]
    by_cases hlong : len > CCAT_WRITE_BLOCK_SIZE
    · rw [if_pos hlong]
      refine (hblock hw off CCAT_WRITE_BLOCK_SIZE buf (Nat.le_refl _)).trans ?_
      exact ih _ (by simp only [CCAT_WRITE_BLOCK_SIZE] at *; omega) _ _ _ _ rfl
    · rw [if_neg hlong]
      exact hblock hw off _ buf (Nat.le_trans (Nat.mod_le _ _) (by omega))

/-- Closing a handle with bytes staged issues an erase. -/
theorem ccatUpdateRelease_issues (L : LongWidth) (d : CcatCdev) (buffer : CdevBuffer)
    (hw : FlashHw) (hidle : hw.Idle) (hpos : 0 < buffer.size) :
    ∃ cmds, (ccatUpdateRelease L d buffer hw).2.2.issued = hw.issued ++ cmds ∧
      ∃ c ∈ cmds, c.cmd = CCAT_BULK_ERASE.cmd := by
  obtain ⟨before, hbefore, -⟩ := issues_ccatUpdateCmd hw CCAT_WRITE_ENABLE
  obtain ⟨w, a, herase⟩ := ccatUpdateCmd_eq (ccatUpdateCmd hw CCAT_WRITE_ENABLE) CCAT_BULK_ERASE
    (by decide) (ccatUpdateCmd_writeEnable hw hidle).busy
  -- what follows the erase only adds to the record
  obtain ⟨rest, hrest, -⟩ := (issues_ccatWaitStatusCleared
    (ccatUpdateCmd (ccatUpdateCmd hw CCAT_WRITE_ENABLE) CCAT_BULK_ERASE)).trans
      (issues_writeBlocks L _ buffer.data 0 0 buffer.size)
  refine ⟨before ++ [⟨CCAT_BULK_ERASE.cmd, CCAT_BULK_ERASE.clocks, a⟩] ++ rest, ?_,
    ⟨CCAT_BULK_ERASE.cmd, CCAT_BULK_ERASE.clocks, a⟩, by simp, rfl⟩
  simp only [ccatUpdateRelease, ccatCdevRelease]
  rw [if_pos hpos, ccatWriteFlash, hrest, herase, FlashHw.cycle]
  simp only [hbefore, List.append_assoc]

/-- Reading issues read commands only. -/
theorem ccatUpdateRead_issues (L : LongWidth) (d : CcatCdev) (hw : FlashHw) (u : UserBuf)
    (len off : Nat) :
    FlashHw.Issues (fun c => c.cmd = CCAT_READ_FLASH.cmd) hw
      (ccatUpdateRead L d hw u len off).hw := by
  -- every block is one read command
  have hblock : ∀ hw addr len u buf,
      FlashHw.Issues (fun c => c.cmd = CCAT_READ_FLASH.cmd) hw
        (ccatReadFlashBlock L hw addr len u buf).1 := by
    intro hw addr len u buf
    simp only [ccatReadFlashBlock, putBlock_eq]
    exact (issues_ccatUpdateCmdAddr L hw (CCAT_READ_FLASH.addClocks (8 * len % 2 ^ 16)) addr).mono
      fun _ hcmd => hcmd
  -- a read longer than a block is a block and a shorter read
  have hblocks : ∀ n hw u buf off, FlashHw.Issues (fun c => c.cmd = CCAT_READ_FLASH.cmd) hw
      (readBlocks L hw u buf n off).1 := by
    intro n
    induction n using Nat.strongRecOn with
    | _ n ih =>
      intro hw u buf off
      rw [readBlocks]
      by_cases hlong : n > CCAT_DATA_BLOCK_SIZE
      · rw [if_pos hlong]
        have hless : n - CCAT_DATA_BLOCK_SIZE < n :=
          Nat.sub_lt (Nat.lt_of_le_of_lt (Nat.zero_le _) hlong) (by decide)
        have hfirst := hblock hw (off % 2 ^ 32) CCAT_DATA_BLOCK_SIZE u buf
        generalize ccatReadFlashBlock L hw (off % 2 ^ 32) CCAT_DATA_BLOCK_SIZE u buf = r at hfirst ⊢
        exact hfirst.trans (ih _ hless r.1 r.2 _ _)
      · rw [if_neg hlong]
        exact hblock hw _ _ u buf
  unfold ccatUpdateRead
  split
  · exact .of_eq rfl
  · exact hblocks _ hw u 0 off

end Ccat.Native.Update
