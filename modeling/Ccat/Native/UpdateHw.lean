/-!
# The configuration flash behind the update function block

The FPGA forwards SPI commands to its configuration flash. The driver fills byte
registers with the command, its number of clocks, a 24-bit address and data, and
starts the command with a write to `0x7f8`. Registers that are read (`rreg`) are not
the ones that are written (`wreg`).

How long a command keeps the busy flag up and how long an erase or a page program
takes is not known; both are given by `Timing`, command by command. While an erase
or a program is in progress the flash only answers status reads, and while the busy
flag is up no command is accepted.
-/

namespace Ccat.Native.Update

/-- The unknown timing of the device, by number of the command. -/
structure Timing where
  /-- Reads of the busy flag that still find it set. -/
  busy : Nat → Nat
  /-- Status reads that still find the erase or program in progress. -/
  wip : Nat → Nat
  /-- The other bits of a status answer. -/
  status : Nat → UInt8

/-- A command as the flash sees it. -/
structure FlashCmd where
  cmd : UInt8
  clocks : Nat
  addr : Nat
  deriving DecidableEq, Repr

structure FlashHw where
  timing : Timing
  wreg : Nat → UInt8
  rreg : Nat → UInt8
  flash : Nat → UInt8
  /-- Write-enable latch of the flash. -/
  wel : Bool
  /-- Remaining status reads that find an operation in progress. -/
  wip : Nat
  /-- Remaining reads of the busy flag that find it set. -/
  busy : Nat
  /-- The commands accepted so far. -/
  issued : List FlashCmd

/-- The byte with the bits of `b` in reverse order. -/
def reverseBits (b : UInt8) : UInt8 := ⟨b.toBitVec.reverse⟩

/-- The command in the registers: clock count from `0x0` and `0x8`, address bytes
    bit-reversed at `0x18`, `0x20` and `0x28`. -/
def FlashHw.command (hw : FlashHw) : FlashCmd where
  cmd := hw.wreg 0x10
  clocks := (hw.wreg 0x0).toNat * 256 + (hw.wreg 0x8).toNat
  addr := (reverseBits (hw.wreg 0x18)).toNat * 65536 + (reverseBits (hw.wreg 0x20)).toNat * 256 +
    (reverseBits (hw.wreg 0x28)).toNat

/-- The next address inside the same 256-byte page. -/
def nextInPage (addr : Nat) : Nat := if addr % 256 = 255 then addr - 255 else addr + 1

/-- Programming can only clear bits, and wraps around at the end of the page. -/
def programPage (flash : Nat → UInt8) (addr : Nat) : List UInt8 → (Nat → UInt8)
  | [] => flash
  | b :: bs =>
    programPage (fun p => if p = addr then flash p &&& b else flash p) (nextInPage addr) bs

/-- Data bytes that follow the 8 command and 24 address clocks. -/
def FlashCmd.count (c : FlashCmd) : Nat := (c.clocks - 32) / 8

/-- The answer to a status read: bit 7 tells that an operation is in progress. -/
def statusByte (other : UInt8) (wip : Nat) : UInt8 :=
  if wip = 0 then other &&& 0x7f else other ||| 0x80

/-- Effect of an accepted command on the flash and the read registers; `n` is the
    number of the command. -/
def FlashHw.perform (hw : FlashHw) (n : Nat) (c : FlashCmd) : FlashHw :=
  if c.cmd = 0xA0 ∧ c.clocks = 16 then
    { hw with
      rreg := fun off => if off = 0x20 then statusByte (hw.timing.status n) hw.wip else hw.rreg off
      wip := hw.wip - 1 }
  -- only status reads are answered while an operation is in progress
  else if hw.wip ≠ 0 then hw
  else if c.cmd = 0x60 ∧ c.clocks = 8 then { hw with wel := true }
  else if c.cmd = 0xE3 ∧ c.clocks = 8 ∧ hw.wel then
    -- an erase or a program clears the latch
    { hw with flash := fun _ => 0xFF, wel := false, wip := hw.timing.wip n }
  -- the data registers are 8 bytes apart, from `0x30` on
  else if c.cmd = 0x40 ∧ hw.wel then
    { hw with
      flash := programPage hw.flash c.addr
        ((List.range c.count).map fun i => hw.wreg (0x30 + 8 * i))
      wel := false
      wip := hw.timing.wip n }
  else if c.cmd = 0xC0 then
    { hw with
      rreg := fun off =>
        if 0x38 ≤ off ∧ (off - 0x38) % 8 = 0 ∧ (off - 0x38) / 8 < c.count then
          hw.flash (c.addr + (off - 0x38) / 8)
        else hw.rreg off }
  else hw

/-- A write to `0x7f8` executes the command, unless the previous one is still busy. -/
def FlashHw.execute (hw : FlashHw) : FlashHw :=
  if hw.busy ≠ 0 then hw
  else
    { hw.perform hw.issued.length hw.command with
      issued := hw.issued ++ [hw.command]
      busy := hw.timing.busy hw.issued.length }

def FlashHw.iowrite8 (hw : FlashHw) (v : UInt8) (off : Nat) : FlashHw :=
  let hw := { hw with wreg := fun o => if o = off then v else hw.wreg o }
  if off = 0x7f8 then hw.execute else hw

/-- The busy flag is at offset 1. -/
def FlashHw.ioread8 (hw : FlashHw) (off : Nat) : UInt8 × FlashHw :=
  if off = 1 then (if hw.busy = 0 then 0 else 1, { hw with busy := hw.busy - 1 })
  else (hw.rreg off, hw)

/-- No command is running and no erase or program is in progress. -/
structure FlashHw.Idle (hw : FlashHw) : Prop where
  busy : hw.busy = 0
  wip : hw.wip = 0

end Ccat.Native.Update
