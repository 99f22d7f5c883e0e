import Ccat.ForStd.Memory
import Ccat.Native.Types

/-!
# Discovery of the functions of a CCAT (`module.c`)

BAR 0 of a CCAT starts with a table of information blocks. `ccat_functions_init()` walks
through it and hands every block of a known type to `mfd_add_devices()`, by the cell for
that type in a static table which carries the function as platform data. What the kernel
answers is a parameter (`Answers`); the calls made are recorded in `MfdState`.
-/

namespace Ccat.Native.Functions

open Memory

/-- `enum ccat_info_t`. -/
inductive CcatInfoT where
  | notUsed
  | ethercatNodma
  | gpio
  | epcsProm
  | systemtime
  | ethercatMasterDma
  | sram
  deriving DecidableEq, Repr

/-- The identifiers of the types. -/
def CcatInfoT.code : CcatInfoT → Nat
  | .notUsed => 0
  | .ethercatNodma => 0x3
  | .gpio => 0xd
  | .epcsProm => 0xf
  | .systemtime => 0x10
  | .ethercatMasterDma => 0x14
  | .sram => 0x16

/-- `struct ccat_info_block`; `config` is the union. -/
structure CcatInfoBlock where
  type : Nat
  rev : Nat
  config : Nat
  addr : Nat
  size : Nat
  deriving DecidableEq, Repr

/-- `sizeof(struct ccat_info_block)`. -/
def BLOCK_SIZE : Nat := 16

/-- The block at `addr`. -/
def CcatInfoBlock.ofBytes (bytes : Nat → UInt8) (addr : Nat) : CcatInfoBlock where
  type := leNat (slice bytes addr 2)
  rev := leNat (slice bytes (addr + 2) 2)
  config := leNat (slice bytes (addr + 4) 4)
  addr := leNat (slice bytes (addr + 8) 4)
  size := leNat (slice bytes (addr + 12) 4)

/-- `struct ccat_device`. -/
structure CcatDevice where
  bar0 : Nat
  bar2 : Nat
  deriving DecidableEq, Repr

/-- `struct ccat_function` ahead of the probe of its driver: `private_data` is not set. -/
structure CcatFunction where
  ccat : Option CcatDevice
  info : CcatInfoBlock
  deriving DecidableEq, Repr

/-- `sizeof(struct ccat_function)`: the block between two pointers. -/
def CcatFunction.sizeof (L : LongWidth) : Nat := 2 * (L.bits / 8) + BLOCK_SIZE

/-- A function as `kzalloc()` returns it. -/
def CcatFunction.zeroed : CcatFunction := ⟨none, ⟨0, 0, 0, 0, 0⟩⟩

/-- `struct ccat_cell`, with the fields of its `struct mfd_cell`. -/
structure CcatCell where
  type : CcatInfoT
  name : String
  platformData : Option CcatFunction := none
  pdataSize : Nat := 0
  deriving DecidableEq, Repr

/-- The static table, as it is initialised. -/
def ccatCells : List CcatCell :=
  [{ type := .ethercatNodma, name := "ccat_eth_eim" },
   { type := .ethercatMasterDma, name := "ccat_eth_dma" },
   { type := .gpio, name := "ccat_gpio" },
   { type := .epcsProm, name := "ccat_update" },
   { type := .sram, name := "ccat_sram" },
   { type := .systemtime, name := "ccat_systemtime" }]

/-- What the kernel answers. -/
structure Answers where
  /-- The `n`-th call of `kzalloc()` does not return `NULL`. -/
  kzalloc : Nat → Bool
  /-- The result of the `n`-th call of `mfd_add_devices()`. -/
  mfdAddDevices : Nat → Int

/-- The table of cells, and the cells that `mfd_add_devices()` was called with. -/
structure MfdState where
  cells : List CcatCell
  calls : List CcatCell

/-- The loop of `ccat_function_connect()`: the first cell for the type of `func` gets it as
    platform data; the result has the table afterwards and that cell. -/
def connectCell (L : LongWidth) (func : CcatFunction) :
    List CcatCell → Option (List CcatCell × CcatCell)
  | [] => none
  | c :: cs =>
    if func.info.type = c.type.code then
      let c := { c with platformData := some func, pdataSize := CcatFunction.sizeof L }
      some (c :: cs, c)
    else (connectCell L func cs).map fun r => (c :: r.1, r.2)

/-- `ccat_function_connect()`. -/
def ccatFunctionConnect (L : LongWidth) (a : Answers) (func : CcatFunction) (st : MfdState) :
    Int × MfdState :=
  match connectCell L func st.cells with
  | some (cells, cell) =>
    (a.mfdAddDevices st.calls.length, ⟨cells, st.calls ++ [cell]⟩)
  -- an unknown type is no failure
  | none => (0, st)

/-- `kzalloc()` of a function, `allocs` calls having been made before. -/
def kzallocFunction (a : Answers) (allocs : Nat) : Option CcatFunction :=
  if a.kzalloc allocs then some .zeroed else none

/-- The loop of `ccat_functions_init()`, with `n` blocks to go from `addr` on. -/
def initBlocks (L : LongWidth) (a : Answers) (ccatdev : CcatDevice) (bytes : Nat → UInt8) :
    (n addr : Nat) → (next : Option CcatFunction) → (allocs : Nat) → MfdState → Int × MfdState
  | n + 1, addr, some next, allocs, st =>
    -- the descriptor of a block that is not used serves the next one
    let next := { next with info := .ofBytes bytes addr }
    if next.info.type ≠ CcatInfoT.notUsed.code then
      let next := { next with ccat := some ccatdev }
      let r := ccatFunctionConnect L a next st
      if r.1 < 0 then r
      else
        initBlocks L a ccatdev bytes n (addr + BLOCK_SIZE) (kzallocFunction a allocs) (allocs + 1)
          r.2
    else initBlocks L a ccatdev bytes n (addr + BLOCK_SIZE) (some next) allocs st
  | _, _, _, _, st => (0, st)

/-- `ccat_functions_init()` of the device whose BAR 0 is in `bytes`. -/
def ccatFunctionsInit (L : LongWidth) (a : Answers) (ccatdev : CcatDevice) (bytes : Nat → UInt8)
    (st : MfdState) : Int × MfdState :=
  let addr := ccatdev.bar0
  -- number of blocks, at offset 4
  let numFunc := (bytes (addr + 4)).toNat
  initBlocks L a ccatdev bytes numFunc addr (kzallocFunction a 0) 1 st

end Ccat.Native.Functions
