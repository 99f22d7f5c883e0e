import Ccat.Native.Types
import Ccat.Native.UpdateHw

/-!
# Flash commands of the update driver (`update.c`)

Every access to the flash is a command cycle: fill the registers, start the
command, poll the busy flag. An erase or a program is followed by status reads until
bit 7 of the status is clear. The lemmas say what one cycle does to the device.
-/

namespace Ccat.Native.Update

/-- A command identifier with the number of its clocks. -/
structure Cmd where
  cmd : UInt8
  clocks : Nat

def CCAT_BULK_ERASE : Cmd := ⟨0xE3, 8⟩
def CCAT_READ_FLASH : Cmd := ⟨0xC0, 32⟩
def CCAT_READ_STATUS : Cmd := ⟨0xA0, 16⟩
def CCAT_WRITE_ENABLE : Cmd := ⟨0x60, 8⟩
def CCAT_WRITE_FLASH : Cmd := ⟨0x40, 32⟩

/-- `CCAT_READ_FLASH + clocks` and `CCAT_WRITE_FLASH + clocks`, with `u16` clocks. -/
def Cmd.addClocks (c : Cmd) (clocks : Nat) : Cmd := ⟨c.cmd, (c.clocks + clocks) % 2 ^ 16⟩

/-- `SWAP_BITS`, computed in `unsigned long`. -/
def swapBits (L : LongWidth) (b : Nat) : Nat :=
  (((b * 0x0802 % 2 ^ L.bits &&& 0x22110) ||| (b * 0x8020 % 2 ^ L.bits &&& 0x88440)) * 0x10101
    % 2 ^ L.bits) >>> 16

/-- `wait_until_busy_reset()`. -/
def waitUntilBusyReset (hw : FlashHw) : FlashHw :=
  if (hw.ioread8 1).1 ≠ 0 then waitUntilBusyReset (hw.ioread8 1).2 else (hw.ioread8 1).2
termination_by hw.busy
decreasing_by
  rename_i h
  simp only [FlashHw.ioread8, if_true] at h ⊢
  split at h
  · exact absurd rfl h
  · omega

/-- `__ccat_update_cmd()`. -/
def ccatUpdateCmdRegs (hw : FlashHw) (c : Cmd) : FlashHw :=
  let hw := hw.iowrite8 (UInt8.ofNat ((0xff00 &&& c.clocks) >>> 8)) 0
  let hw := hw.iowrite8 (UInt8.ofNat (0x00ff &&& c.clocks)) 0x8
  hw.iowrite8 c.cmd 0x10

/-- `ccat_update_cmd()`. -/
def ccatUpdateCmd (hw : FlashHw) (c : Cmd) : FlashHw :=
  let hw := ccatUpdateCmdRegs hw c
  let hw := hw.iowrite8 0xff 0x7f8
  waitUntilBusyReset hw

/-- `ccat_update_cmd_addr()`. -/
def ccatUpdateCmdAddr (L : LongWidth) (hw : FlashHw) (c : Cmd) (addr : Nat) : FlashHw :=
  let addr0 := UInt8.ofNat (swapBits L (addr &&& 0xff))
  let addr1 := UInt8.ofNat (swapBits L ((addr &&& 0xff00) >>> 8))
  let addr2 := UInt8.ofNat (swapBits L ((addr &&& 0xff0000) >>> 16))
  let hw := ccatUpdateCmdRegs hw c
  let hw := hw.iowrite8 addr2 0x18
  let hw := hw.iowrite8 addr1 0x20
  let hw := hw.iowrite8 addr0 0x28
  let hw := hw.iowrite8 0xff 0x7f8
  waitUntilBusyReset hw

/-- `ccat_get_status()`. -/
def ccatGetStatus (hw : FlashHw) : UInt8 × FlashHw :=
  (ccatUpdateCmd hw CCAT_READ_STATUS).ioread8 0x20

/-! ## Waiting for the flash

The lemmas here show that both polling loops end; `ccatWaitStatusCleared` needs them
for its termination. -/

/-- The busy loop ends, with the flag down and nothing else changed. -/
theorem waitUntilBusyReset_eq (hw : FlashHw) : waitUntilBusyReset hw = { hw with busy := 0 } := by
  induction hn : hw.busy generalizing hw with
  | zero =>
    rw [waitUntilBusyReset]
    simp [FlashHw.ioread8, hn]
  | succ n ih =>
    rw [waitUntilBusyReset]
    have hread : hw.ioread8 1 = (1, { hw with busy := n }) := by
      simp [FlashHw.ioread8, hn]
    simp only [hread]
    -- one read less finds the flag set
    rw [if_pos (by decide), ih { hw with busy := n } rfl]

/-- Status polls that can still find bit 7 set. -/
def FlashHw.pending (hw : FlashHw) : Nat := hw.wip + if hw.busy = 0 then 0 else 1

/-- Bit 7 of the status says that an operation is in progress. -/
theorem statusByte_bit7 (other : UInt8) (wip : Nat) :
    statusByte other wip &&& 0x80 ≠ 0 ↔ wip ≠ 0 := by
  by_cases h : wip = 0
  · have hmask : (other &&& 0x7f) &&& 0x80 = 0 := by
      rw [UInt8.and_assoc, show (0x7f : UInt8) &&& 0x80 = 0 from rfl, UInt8.and_zero]
    simp [statusByte, h, hmask]
  · have hmask : (other ||| 0x80) &&& 0x80 ≠ 0 := by
      -- bit 7 of the answer is set whatever the other bits are
      intro hzero
      have hbit := congrArg (fun x : UInt8 => x.toBitVec.getLsbD 7) hzero
      simp at hbit
    simp [statusByte, h, hmask]

/-! ## One command cycle -/

/-- Bytes of a `u16`, as `__ccat_update_cmd()` splits it. -/
private theorem u16_bytes {n : Nat} (h : n < 2 ^ 16) :
    (UInt8.ofNat ((0xff00 &&& n) >>> 8)).toNat * 256 + (UInt8.ofNat (0x00ff &&& n)).toNat = n := by
  -- both masks are of the form `2 ^ k - 1` after shifting
  have hlow : 0x00ff &&& n = n % 256 := by
    rw [Nat.and_comm]; exact Nat.and_two_pow_sub_one_eq_mod n 8
  have hhigh : (0xff00 &&& n) >>> 8 = n / 256 := by
    rw [Nat.shiftRight_and_distrib, Nat.shiftRight_eq_div_pow n 8, Nat.and_comm,
      show 0xff00 >>> 8 = 2 ^ 8 - 1 from rfl, Nat.and_two_pow_sub_one_eq_mod]
    omega
  rw [hlow, hhigh]
  simp only [UInt8.toNat_ofNat']
  omega

/-- The registers after `__ccat_update_cmd()`. -/
private def cmdRegs (w : Nat → UInt8) (c : Cmd) : Nat → UInt8 := fun o =>
  if o = 0x10 then c.cmd else if o = 0x8 then UInt8.ofNat (0x00ff &&& c.clocks)
  else if o = 0 then UInt8.ofNat ((0xff00 &&& c.clocks) >>> 8) else w o

/-- The device after it performed command `c` with the registers `w` and the busy
    flag went down again. -/
def FlashHw.cycle (hw : FlashHw) (w : Nat → UInt8) (c : FlashCmd) : FlashHw :=
  { { hw with wreg := w }.perform hw.issued.length c with issued := hw.issued ++ [c], busy := 0 }

/-- Starting the command in the registers and waiting for the busy flag. -/
private theorem start_eq (hw : FlashHw) (hbusy : hw.busy = 0) :
    waitUntilBusyReset (hw.iowrite8 0xff 0x7f8) =
      hw.cycle (fun o => if o = 0x7f8 then 0xff else hw.wreg o) hw.command := by
  have hnot : ¬hw.busy ≠ 0 := fun hne => hne hbusy
  rw [waitUntilBusyReset_eq]
  simp only [FlashHw.iowrite8, if_true, FlashHw.execute, if_neg hnot]
  rfl

/-- `ccat_update_cmd()` on a device that is not busy performs the command. -/
theorem ccatUpdateCmd_eq (hw : FlashHw) (c : Cmd) (hc : c.clocks < 2 ^ 16) (hbusy : hw.busy = 0) :
    ∃ w a, ccatUpdateCmd hw c = hw.cycle w ⟨c.cmd, c.clocks, a⟩ := by
  -- the clock count is split into two registers and put together again by the device
  have hcmd : (ccatUpdateCmdRegs hw c).command =
      ⟨c.cmd, c.clocks, (ccatUpdateCmdRegs hw c).command.addr⟩ := by
    simp only [FlashHw.command, FlashCmd.mk.injEq, and_true]
    exact ⟨rfl, u16_bytes hc⟩
  refine ⟨fun o => if o = 0x7f8 then 0xff else cmdRegs hw.wreg c o,
    (ccatUpdateCmdRegs hw c).command.addr, ?_⟩
  rw [← hcmd]
  exact start_eq (ccatUpdateCmdRegs hw c) hbusy

/-- `SWAP_BITS` reverses a byte, for both widths of `unsigned long`. -/
theorem swapBits_eq (L : LongWidth) (b : Nat) (hb : b < 256) :
    reverseBits (UInt8.ofNat (swapBits L b)) = UInt8.ofNat b := by
  have h : ∀ b : Fin 256, reverseBits (UInt8.ofNat (swapBits .long32 b)) = UInt8.ofNat b ∧
      reverseBits (UInt8.ofNat (swapBits .long64 b)) = UInt8.ofNat b := by
    -- 256 bytes, by evaluation
    decide +kernel
  cases L with
  | long32 => exact (h ⟨b, hb⟩).1
  | long64 => exact (h ⟨b, hb⟩).2

/-- The address bytes the device recovers from the registers. -/
private theorem addr_bytes (L : LongWidth) {addr : Nat} (h : addr < 2 ^ 24) :
    (reverseBits (UInt8.ofNat (swapBits L ((addr &&& 0xff0000) >>> 16)))).toNat * 65536 +
      (reverseBits (UInt8.ofNat (swapBits L ((addr &&& 0xff00) >>> 8)))).toNat * 256 +
      (reverseBits (UInt8.ofNat (swapBits L (addr &&& 0xff)))).toNat = addr := by
  have h0 : addr &&& 0xff = addr % 256 := Nat.and_two_pow_sub_one_eq_mod addr 8
  have h1 : (addr &&& 0xff00) >>> 8 = addr / 256 % 256 := by
    rw [Nat.shiftRight_and_distrib, Nat.shiftRight_eq_div_pow addr 8,
      show 0xff00 >>> 8 = 2 ^ 8 - 1 from rfl, Nat.and_two_pow_sub_one_eq_mod]
  have h2 : (addr &&& 0xff0000) >>> 16 = addr / 65536 % 256 := by
    rw [Nat.shiftRight_and_distrib, Nat.shiftRight_eq_div_pow addr 16,
      show 0xff0000 >>> 16 = 2 ^ 8 - 1 from rfl, Nat.and_two_pow_sub_one_eq_mod]
  rw [h0, h1, h2, swapBits_eq L _ (Nat.mod_lt _ (by decide)),
    swapBits_eq L _ (Nat.mod_lt _ (by decide)), swapBits_eq L _ (Nat.mod_lt _ (by decide))]
  simp only [UInt8.toNat_ofNat']
  omega

/-- `ccat_update_cmd_addr()` on a device that is not busy performs the command at
    `addr`; the data registers still hold what was written before. -/
theorem ccatUpdateCmdAddr_eq (L : LongWidth) (hw : FlashHw) (c : Cmd) (addr : Nat)
    (hc : c.clocks < 2 ^ 16) (haddr : addr < 2 ^ 24) (hbusy : hw.busy = 0) :
    ∃ w, (∀ off, 0x28 < off → off ≠ 0x7f8 → w off = hw.wreg off) ∧
      ccatUpdateCmdAddr L hw c addr = hw.cycle w ⟨c.cmd, c.clocks, addr⟩ := by
  -- the registers when the command is started; data registers lie above `0x28`
  let regs : Nat → UInt8 := fun o =>
    if o = 0x28 then UInt8.ofNat (swapBits L (addr &&& 0xff))
    else if o = 0x20 then UInt8.ofNat (swapBits L ((addr &&& 0xff00) >>> 8))
    else if o = 0x18 then UInt8.ofNat (swapBits L ((addr &&& 0xff0000) >>> 16))
    else cmdRegs hw.wreg c o
  have hcmd : { hw with wreg := regs }.command = ⟨c.cmd, c.clocks, addr⟩ := by
    simp only [FlashHw.command, FlashCmd.mk.injEq]
    exact ⟨rfl, u16_bytes hc, addr_bytes L haddr⟩
  refine ⟨fun o => if o = 0x7f8 then 0xff else regs o, fun off hoff hne => ?_, ?_⟩
  · simp only [if_neg hne, regs, cmdRegs]
    rw [if_neg (by omega), if_neg (by omega), if_neg (by omega), if_neg (by omega),
      if_neg (by omega), if_neg (by omega)]
  · rw [← hcmd]
    exact start_eq { hw with wreg := regs } hbusy

/-! ## Status polling -/

/-- A status read of a device that is not busy. -/
theorem ccatGetStatus_eq (hw : FlashHw) (hbusy : hw.busy = 0) :
    ∃ w r a, ccatGetStatus hw =
      (statusByte (hw.timing.status hw.issued.length) hw.wip,
        { hw with
          wreg := w, rreg := r, wip := hw.wip - 1, busy := 0
          issued := hw.issued ++ [⟨0xA0, 16, a⟩] }) := by
  obtain ⟨w, a, hcmd⟩ := ccatUpdateCmd_eq hw CCAT_READ_STATUS (by decide) hbusy
  refine ⟨w, fun off => if off = 0x20 then statusByte (hw.timing.status hw.issued.length) hw.wip
    else hw.rreg off, a, ?_⟩
  rw [ccatGetStatus, hcmd]
  rfl

/-- While the busy flag is up a start is ignored. -/
private theorem FlashHw.execute_of_busy (hw : FlashHw) (h : hw.busy ≠ 0) : hw.execute = hw :=
  if_pos h

/-- A status poll that finds bit 7 set leaves one poll less pending. -/
theorem ccatGetStatus_pending (hw : FlashHw) (h : (ccatGetStatus hw).1 &&& 0x80 ≠ 0) :
    (ccatGetStatus hw).2.pending < hw.pending := by
  by_cases hbusy : hw.busy = 0
  · -- the status read was accepted and counted down the operation
    obtain ⟨w, r, a, hget⟩ := ccatGetStatus_eq hw hbusy
    rw [hget] at h ⊢
    have hwip := (statusByte_bit7 _ _).mp h
    simp only [FlashHw.pending, if_true]
    omega
  · -- the command is not accepted, but the busy flag goes down
    have hexec := FlashHw.execute_of_busy
      { hw with wreg := fun o => if o = 0x7f8 then 0xff else cmdRegs hw.wreg CCAT_READ_STATUS o }
      hbusy
    have hstart : (ccatUpdateCmdRegs hw CCAT_READ_STATUS).iowrite8 0xff 0x7f8 =
        { hw with
          wreg := fun o => if o = 0x7f8 then 0xff else cmdRegs hw.wreg CCAT_READ_STATUS o } := hexec
    have hcmd : ccatUpdateCmd hw CCAT_READ_STATUS =
        { hw with
          wreg := fun o => if o = 0x7f8 then 0xff else cmdRegs hw.wreg CCAT_READ_STATUS o
          busy := 0 } := by
      simp only [ccatUpdateCmd]
      rw [hstart, waitUntilBusyReset_eq]
    rw [ccatGetStatus, hcmd]
    simp only [FlashHw.ioread8, FlashHw.pending, if_neg hbusy]
    rw [if_neg (by decide), if_pos rfl]
    exact Nat.lt_succ_self _

/-- `ccat_wait_status_cleared()`. -/
def ccatWaitStatusCleared (hw : FlashHw) : FlashHw :=
  if (ccatGetStatus hw).1 &&& 0x80 ≠ 0 then ccatWaitStatusCleared (ccatGetStatus hw).2
  else (ccatGetStatus hw).2
termination_by hw.pending
decreasing_by
  rename_i h
  exact ccatGetStatus_pending hw h

end Ccat.Native.Update
