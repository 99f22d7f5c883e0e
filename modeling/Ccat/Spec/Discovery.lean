import Ccat.Spec.FunctionsCorrect

/-!
# From the table of a CCAT to its platform devices

An `InfoTable` is a table as a CCAT has it in BAR 0: blocks whose fields fit their
widths, the first of them the entry of the CCAT itself, with the number of blocks.
Discovery reads back what was encoded, and hands it out in order up to the first call
that fails.

## Key results

- `blocksFrom_encode`: the blocks of an encoded table
- `ccatFunctionsInit_roundTrip`: the calls made for an encoded table
-/

namespace Ccat.Native.Functions

open Memory

/-! ## Encoded tables -/

/-- The fields of a block fit their widths. -/
structure CcatInfoBlock.Fits (b : CcatInfoBlock) : Prop where
  type : b.type < 256 ^ 2
  rev : b.rev < 256 ^ 2
  config : b.config < 256 ^ 4
  addr : b.addr < 256 ^ 4
  size : b.size < 256 ^ 4

/-- The bytes of a block. -/
def CcatInfoBlock.toBytes (b : CcatInfoBlock) : List UInt8 :=
  leBytes 2 b.type ++ (leBytes 2 b.rev ++ (leBytes 4 b.config ++ (leBytes 4 b.addr ++
    leBytes 4 b.size)))

/-- A table as a CCAT has it: the number of blocks is in the configuration of the first one. -/
structure InfoTable where
  ccat : CcatInfoBlock
  functions : List CcatInfoBlock
  fits : ∀ b ∈ ccat :: functions, b.Fits
  numFunc : ccat.config % 256 = functions.length + 1

def InfoTable.blocks (t : InfoTable) : List CcatInfoBlock := t.ccat :: t.functions

/-- The bytes of a table. -/
def InfoTable.toBytes (t : InfoTable) : List UInt8 := t.blocks.flatMap CcatInfoBlock.toBytes

/-- A block has 16 bytes. -/
@[simp] theorem CcatInfoBlock.length_toBytes (b : CcatInfoBlock) :
    b.toBytes.length = BLOCK_SIZE := by
  simp [CcatInfoBlock.toBytes, BLOCK_SIZE]

/-- The bytes of a list from `off` on, when they come in two parts. -/
theorem slice_of_append {m : Nat → UInt8} {off : Nat} (xs : List UInt8) (n : Nat)
    {ys : List UInt8} (h : slice m off (xs.length + n) = xs ++ ys) :
    slice m off xs.length = xs ∧ slice m (off + xs.length) n = ys := by
  rw [slice_add] at h
  exact List.append_inj h (length_slice m off xs.length)

/-- A block reads back from its bytes. -/
theorem CcatInfoBlock.ofBytes_toBytes {b : CcatInfoBlock} (hfits : b.Fits) {bytes : Nat → UInt8}
    {addr : Nat} (h : slice bytes addr BLOCK_SIZE = b.toBytes) :
    CcatInfoBlock.ofBytes bytes addr = b := by
  -- the fields one after another
  obtain ⟨htype, h⟩ := slice_of_append (leBytes 2 b.type) 14 h
  obtain ⟨hrev, h⟩ := slice_of_append (leBytes 2 b.rev) 12 h
  obtain ⟨hconfig, h⟩ := slice_of_append (leBytes 4 b.config) 8 h
  obtain ⟨haddr, hsize⟩ := slice_of_append (leBytes 4 b.addr) 4 h
  simp only [length_leBytes, Nat.add_assoc, Nat.reduceAdd] at htype hrev hconfig haddr hsize
  obtain ⟨type, rev, config, baddr, size⟩ := b
  simp only [CcatInfoBlock.ofBytes, htype, hrev, hconfig, haddr, hsize, leNat_leBytes,
    Nat.mod_eq_of_lt hfits.type, Nat.mod_eq_of_lt hfits.rev, Nat.mod_eq_of_lt hfits.config,
    Nat.mod_eq_of_lt hfits.addr, Nat.mod_eq_of_lt hfits.size]

/-- Blocks read back from their bytes. -/
theorem blocksFrom_encode {bs : List CcatInfoBlock} (hfits : ∀ b ∈ bs, b.Fits)
    {bytes : Nat → UInt8} {addr : Nat}
    (h : slice bytes addr (BLOCK_SIZE * bs.length) = bs.flatMap CcatInfoBlock.toBytes) :
    blocksFrom bytes addr bs.length = bs := by
  induction bs generalizing addr with
  | nil => rfl
  | cons b bs ih =>
    rw [List.flatMap_cons, List.length_cons, Nat.mul_succ, Nat.add_comm] at h
    obtain ⟨hb, hbs⟩ := slice_of_append b.toBytes (BLOCK_SIZE * bs.length)
      (by rwa [CcatInfoBlock.length_toBytes])
    rw [CcatInfoBlock.length_toBytes] at hb hbs
    rw [List.length_cons, blocksFrom_succ,
      CcatInfoBlock.ofBytes_toBytes (hfits b List.mem_cons_self) hb,
      ih (fun b' hb' => hfits b' (List.mem_cons_of_mem b hb')) hbs]

namespace InfoTable

variable (t : InfoTable)

@[simp] theorem length_blocks : t.blocks.length = t.functions.length + 1 := rfl

/-- The bytes of a table are those of its blocks. -/
theorem length_toBytes : t.toBytes.length = BLOCK_SIZE * t.blocks.length := by
  have hblocks : ∀ bs : List CcatInfoBlock,
      (bs.flatMap CcatInfoBlock.toBytes).length = BLOCK_SIZE * bs.length := by
    intro bs
    induction bs with
    | nil => rfl
    | cons b bs ih =>
      rw [List.flatMap_cons, List.length_append, ih, CcatInfoBlock.length_toBytes, List.length_cons,
        Nat.mul_succ, Nat.add_comm]
  exact hblocks t.blocks

/-- What a table that was written to BAR 0 calls for. -/
theorem expectedCalls_blit (L : LongWidth) (ccatdev : CcatDevice) (m : Nat → UInt8) :
    expectedCalls L ccatdev (blit m ccatdev.bar0 t.toBytes) =
      t.blocks.filterMap (callFor? L ccatdev) := by
  have hslice : slice (blit m ccatdev.bar0 t.toBytes) ccatdev.bar0
      (BLOCK_SIZE * t.blocks.length) = t.toBytes := by
    rw [← t.length_toBytes]
    exact slice_blit m ccatdev.bar0 t.toBytes
  have hblocks := blocksFrom_encode t.fits hslice
  -- the number of blocks is the low byte of the first configuration
  have hnum : (blit m ccatdev.bar0 t.toBytes (ccatdev.bar0 + 4)).toNat = t.blocks.length := by
    have hlt : 4 < t.toBytes.length := by
      rw [t.length_toBytes, length_blocks, BLOCK_SIZE]
      omega
    have hbyte : t.toBytes[4] = UInt8.ofNat t.ccat.config := rfl
    rw [blit_add m ccatdev.bar0 t.toBytes hlt, hbyte, length_blocks, ← t.numFunc]
    exact UInt8.toNat_ofNat'
  rw [expectedCalls, hnum]
  exact congrArg _ hblocks

end InfoTable

/-- Discovery of a table that was written to BAR 0, with enough memory: a platform device is asked
    for each of its blocks of a known type, in the order of the table and with all fields as they
    were written, up to the first call that fails; its error is the result. -/
theorem ccatFunctionsInit_roundTrip (L : LongWidth) (a : Answers) (ccatdev : CcatDevice)
    (t : InfoTable) (m : Nat → UInt8) (cells : List CcatCell) (halloc : ∀ k, a.kzalloc k = true)
    (hcells : SameTable cells) (n : Nat) (hok : ∀ j, j < n → 0 ≤ a.mfdAddDevices j) :
    let r := ccatFunctionsInit L a ccatdev (blit m ccatdev.bar0 t.toBytes) ⟨cells, []⟩
    let known := t.blocks.filterMap (callFor? L ccatdev)
    (known.length ≤ n → r.1 = 0 ∧ r.2.calls = known) ∧
      (n < known.length → a.mfdAddDevices n < 0 →
        r.1 = a.mfdAddDevices n ∧ r.2.calls = known.take (n + 1)) := by
  intro r known
  obtain ⟨hdisc, -⟩ : Discovered a _ ⟨cells, []⟩ r ∧ SameTable r.2.cells :=
    ccatFunctionsInit_discovered ccatdev (blit m ccatdev.bar0 t.toBytes) hcells
  rw [t.expectedCalls_blit L ccatdev m] at hdisc
  cases hdisc with
  | ended k hk hret hcalls hokk hall =>
    -- there was memory for all, so all calls were made
    have hlen : k = known.length := hall halloc
    refine ⟨fun _ => ⟨hret, ?_⟩, fun hn hfail => ?_⟩
    · rw [hcalls, hlen, List.take_length]
      rfl
    · have hge := hokk n (by omega)
      simp only [List.length_nil, Nat.zero_add] at hge
      omega
  | failed k hk hret hfail hcalls hokk =>
    simp only [List.length_nil, Nat.zero_add] at hret hokk
    -- the first failure is the one that ended the loop
    have hle : n ≤ k := by
      apply Nat.le_of_not_lt
      intro hlt
      have hge := hok k hlt
      omega
    refine ⟨fun hn => ?_, fun hn hfailn => ?_⟩
    · have hk' : k < known.length := hk
      omega
    · -- both are the first call that fails
      have heq : n = k := by
        apply Nat.le_antisymm hle
        apply Nat.le_of_not_lt
        intro hlt
        have hge := hokk n hlt
        omega
      subst heq
      exact ⟨hret, hcalls⟩

/-- A table of three blocks: the entry of the CCAT itself, a GPIO with 8 pins and an SRAM. -/
private def gpioSramTable : InfoTable where
  ccat := ⟨0, 0, 3, 0, 0⟩
  functions := [⟨0xd, 0, 8, 0x100, 0x20⟩, ⟨0x16, 0, 0x0e01, 0x200, 0x4000⟩]
  fits := by
    intro b hb
    simp only [List.mem_cons, List.not_mem_nil, or_false] at hb
    rcases hb with rfl | rfl | rfl <;> constructor <;> decide
  numFunc := rfl

/-- The SRAM is the second platform device, and its size and address are those of its block. -/
theorem ccatFunctionsInit_roundTrip_sram :
    ((ccatFunctionsInit .long64 ⟨fun _ => true, fun _ => 0⟩ ⟨0x1000, 0⟩
      (blit (fun _ => 0) 0x1000 gpioSramTable.toBytes) ⟨ccatCells, []⟩).2.calls.map fun c =>
        (c.name, c.platformData.map fun f => (f.info.config, f.info.addr))) =
      [("ccat_gpio", some (8, 0x100)), ("ccat_sram", some (0x0e01, 0x200))] := by
  have hall := (ccatFunctionsInit_roundTrip .long64 ⟨fun _ => true, fun _ => 0⟩ ⟨0x1000, 0⟩
    gpioSramTable (fun _ => 0) ccatCells (fun _ => rfl) rfl 2 (fun _ _ => Int.le_refl 0)).1
    (by decide)
  rw [hall.2]
  rfl

end Ccat.Native.Functions
