import Ccat.Native.Functions

/-!
# Which functions are discovered

A block is connected through the first cell for its type, so the table of blocks
determines the calls of `mfd_add_devices()`. The loop makes them in order until one of
them fails: it returns the error of that call then, not the number of failures.

## Key results

- `connectCell_some`: the cell of a type, whatever the table was used for before
- `initBlocks_discovered`: all that the loop can do, whatever it is answered
- `ccatFunctionsInit_complete_iff`: discovery is complete iff no call fails
-/

namespace Ccat.Native.Functions

/-- What of a cell never changes. -/
def CcatCell.key (c : CcatCell) : CcatInfoT × String := (c.type, c.name)

/-- The table differs from the initial one in its platform data only. -/
def SameTable (cells : List CcatCell) : Prop := cells.map CcatCell.key = ccatCells.map CcatCell.key

/-- The cell for a type. -/
def cellFor? (type : Nat) : Option CcatCell := ccatCells.find? fun c => type = c.type.code

/-- The call that a block calls for. -/
def callFor? (L : LongWidth) (ccatdev : CcatDevice) (b : CcatInfoBlock) : Option CcatCell :=
  (cellFor? b.type).map fun c =>
    ⟨c.type, c.name, some ⟨some ccatdev, b⟩, CcatFunction.sizeof L⟩

/-- `n` blocks from `addr` on. -/
def blocksFrom (bytes : Nat → UInt8) (addr n : Nat) : List CcatInfoBlock :=
  (List.range n).map fun i => .ofBytes bytes (addr + BLOCK_SIZE * i)

/-- The calls that the table of a device calls for. -/
def expectedCalls (L : LongWidth) (ccatdev : CcatDevice) (bytes : Nat → UInt8) : List CcatCell :=
  (blocksFrom bytes ccatdev.bar0 (bytes (ccatdev.bar0 + 4)).toNat).filterMap (callFor? L ccatdev)

/-- One call for each block of a known type, and the number of those that fail is returned. -/
structure Complete (L : LongWidth) (a : Answers) (ccatdev : CcatDevice) (bytes : Nat → UInt8)
    (r : Int × MfdState) : Prop where
  calls : r.2.calls = expectedCalls L ccatdev bytes
  ret : r.1 = ((List.range (expectedCalls L ccatdev bytes).length).countP
    fun k => a.mfdAddDevices k < 0 : Nat)

/-! ### Cells -/

section

variable {L : LongWidth} (func : CcatFunction)

/-- No cell is for the type, whatever the table was used for before. -/
theorem connectCell_none {cells cells₀ : List CcatCell}
    (hkeys : cells.map CcatCell.key = cells₀.map CcatCell.key)
    (hfind : cells₀.find? (fun c => func.info.type = c.type.code) = none) :
    connectCell L func cells = none := by
  induction cells generalizing cells₀ with
  | nil => rfl
  | cons c cs ih =>
    cases cells₀ with
    | nil => cases hkeys
    | cons c₀ cs₀ =>
      simp only [List.map_cons, List.cons.injEq, CcatCell.key, Prod.mk.injEq] at hkeys
      obtain ⟨⟨htype, -⟩, hrest⟩ := hkeys
      -- the cell has the type of its counterpart in the initial table
      by_cases hc : func.info.type = c₀.type.code
      · rw [List.find?_cons_of_pos (by simpa using hc)] at hfind
        cases hfind
      · rw [List.find?_cons_of_neg (by simpa using hc)] at hfind
        rw [connectCell, htype, if_neg hc, ih hrest hfind]
        rfl

/-- The first cell for the type is taken, whatever the table was used for before. -/
theorem connectCell_some {cells cells₀ : List CcatCell} {c₀ : CcatCell}
    (hkeys : cells.map CcatCell.key = cells₀.map CcatCell.key)
    (hfind : cells₀.find? (fun c => func.info.type = c.type.code) = some c₀) :
    ∃ cells', connectCell L func cells =
        some (cells', ⟨c₀.type, c₀.name, some func, CcatFunction.sizeof L⟩) ∧
      cells'.map CcatCell.key = cells₀.map CcatCell.key := by
  induction cells generalizing cells₀ with
  | nil =>
    cases cells₀ with
    | nil => cases hfind
    | cons _ _ => cases hkeys
  | cons c cs ih =>
    cases cells₀ with
    | nil => cases hkeys
    | cons c' cs₀ =>
      have hkeys' := hkeys
      simp only [List.map_cons, List.cons.injEq, CcatCell.key, Prod.mk.injEq] at hkeys
      obtain ⟨⟨htype, hname⟩, hrest⟩ := hkeys
      -- this cell is the one, or it is among the others
      by_cases hc : func.info.type = c'.type.code
      · rw [List.find?_cons_of_pos (by simpa using hc), Option.some.injEq] at hfind
        subst hfind
        refine ⟨_, by rw [connectCell, htype, if_pos hc, hname], ?_⟩
        rw [← hkeys', List.map_cons, List.map_cons]
        simp only [CcatCell.key, htype, hname]
      · rw [List.find?_cons_of_neg (by simpa using hc)] at hfind
        obtain ⟨cells', hconnect, hcells'⟩ := ih hrest hfind
        refine ⟨c :: cells', by rw [connectCell, htype, if_neg hc, hconnect]; rfl, ?_⟩
        rw [List.map_cons, hcells', List.map_cons]
        simp only [CcatCell.key, htype, hname]

end

section

variable {L : LongWidth} {a : Answers} {ccatdev : CcatDevice} {b : CcatInfoBlock} {st : MfdState}

/-- A block of an unknown type is passed over. -/
theorem ccatFunctionConnect_none (hcells : SameTable st.cells)
    (hcall : callFor? L ccatdev b = none) :
    ccatFunctionConnect L a ⟨some ccatdev, b⟩ st = (0, st) := by
  have hfind : cellFor? b.type = none := Option.map_eq_none_iff.mp hcall
  rw [ccatFunctionConnect, connectCell_none ⟨some ccatdev, b⟩ hcells hfind]

/-- A block of a known type is handed to `mfd_add_devices()`. -/
theorem ccatFunctionConnect_some {c : CcatCell} (hcells : SameTable st.cells)
    (hcall : callFor? L ccatdev b = some c) :
    ∃ cells', ccatFunctionConnect L a ⟨some ccatdev, b⟩ st =
        (a.mfdAddDevices st.calls.length, ⟨cells', st.calls ++ [c]⟩) ∧ SameTable cells' := by
  obtain ⟨c₀, hfind, rfl⟩ := Option.map_eq_some_iff.mp hcall
  obtain ⟨cells', hconnect, hcells'⟩ := connectCell_some (L := L) ⟨some ccatdev, b⟩ hcells hfind
  exact ⟨cells', by rw [ccatFunctionConnect, hconnect], hcells'⟩

/-- A block that is not used calls for nothing. -/
theorem callFor?_notUsed (h : b.type = CcatInfoT.notUsed.code) : callFor? L ccatdev b = none := by
  rw [callFor?, cellFor?, h]
  rfl

/-- The first block and those behind it. -/
theorem blocksFrom_succ (bytes : Nat → UInt8) (addr n : Nat) :
    blocksFrom bytes addr (n + 1) =
      .ofBytes bytes addr :: blocksFrom bytes (addr + BLOCK_SIZE) n := by
  simp only [blocksFrom, List.range_succ_eq_map, List.map_cons, List.map_map, Nat.mul_zero,
    Nat.add_zero, List.cons.injEq, true_and]
  apply List.map_congr_left
  intro i _
  simp only [Function.comp_apply, Nat.succ_eq_add_one, Nat.mul_add, Nat.mul_one]
  congr 1
  omega

end

/-! ### The loop -/

/-- What the loop makes of the calls `E` it should make, after those of `st`: it makes the first
    `m` of them, and ends there for want of memory or with the table; or the last one fails. -/
inductive Discovered (a : Answers) (E : List CcatCell) (st : MfdState) (r : Int × MfdState) :
    Prop where
  | ended (m : Nat) (hm : m ≤ E.length) (hret : r.1 = 0)
      (hcalls : r.2.calls = st.calls ++ E.take m)
      (hok : ∀ j, j < m → 0 ≤ a.mfdAddDevices (st.calls.length + j))
      (hall : (∀ k, a.kzalloc k = true) → m = E.length)
  | failed (m : Nat) (hm : m < E.length) (hret : r.1 = a.mfdAddDevices (st.calls.length + m))
      (hfail : r.1 < 0) (hcalls : r.2.calls = st.calls ++ E.take (m + 1))
      (hok : ∀ j, j < m → 0 ≤ a.mfdAddDevices (st.calls.length + j))

section

variable {L : LongWidth} {a : Answers} {st st' : MfdState} {c : CcatCell} {E : List CcatCell}
  {r : Int × MfdState}

/-- A call that succeeds goes ahead of the others. -/
theorem Discovered.cons (h : Discovered a E st' r) (hcalls : st'.calls = st.calls ++ [c])
    (hthis : 0 ≤ a.mfdAddDevices st.calls.length) : Discovered a (c :: E) st r := by
  have hlen : st'.calls.length = st.calls.length + 1 := by simp [hcalls]
  -- answers are counted from the first call on
  have hshift : ∀ m, (∀ j, j < m → 0 ≤ a.mfdAddDevices (st'.calls.length + j)) →
      ∀ j, j < m + 1 → 0 ≤ a.mfdAddDevices (st.calls.length + j) := by
    intro m hok j hj
    cases j with
    | zero => exact hthis
    | succ j =>
      have hj' := hok j (by omega)
      rwa [hlen, Nat.add_assoc, Nat.add_comm 1 j] at hj'
  cases h with
  | ended m hm hret hc hok hall =>
    refine .ended (m + 1) (by simpa using hm) hret ?_ (hshift m hok) fun hmem => ?_
    · rw [hc, hcalls, List.append_assoc]
      rfl
    · rw [hall hmem, List.length_cons]
  | failed m hm hret hfail hc hok =>
    refine .failed (m + 1) (by simpa using hm) ?_ hfail ?_ (hshift m hok)
    · rw [hret, hlen, Nat.add_assoc, Nat.add_comm 1 m]
    · rw [hc, hcalls, List.append_assoc]
      rfl

/-- The loop makes the calls for its blocks, in order, and keeps the table of cells. -/
theorem initBlocks_discovered (ccatdev : CcatDevice) (bytes : Nat → UInt8) (n addr : Nat)
    (next : Option CcatFunction) (allocs : Nat) (st : MfdState) (hcells : SameTable st.cells)
    (hnext : (∀ k, a.kzalloc k = true) → next ≠ none) :
    Discovered a ((blocksFrom bytes addr n).filterMap (callFor? L ccatdev)) st
        (initBlocks L a ccatdev bytes n addr next allocs st) ∧
      SameTable (initBlocks L a ccatdev bytes n addr next allocs st).2.cells := by
  induction n generalizing addr next allocs st with
  | zero =>
    have hend : initBlocks L a ccatdev bytes 0 addr next allocs st = (0, st) := by
      simp [initBlocks]
    rw [hend]
    exact ⟨.ended 0 (Nat.zero_le _) rfl (by simp) (by simp) fun _ => rfl, hcells⟩
  | succ n ih =>
    cases next with
    | none =>
      -- there was no memory for the next function
      have hend : initBlocks L a ccatdev bytes (n + 1) addr none allocs st = (0, st) := by
        simp [initBlocks]
      rw [hend]
      exact ⟨.ended 0 (Nat.zero_le _) rfl (by simp) (by simp) fun hmem => absurd rfl (hnext hmem),
        hcells⟩
    | some next =>
      have hnew : (∀ k, a.kzalloc k = true) → kzallocFunction a allocs ≠ none := by
        intro hmem
        simp [kzallocFunction, hmem allocs]
      rw [blocksFrom_succ]
      -- a block that is not used leaves its descriptor to the next one
      by_cases hused : (CcatInfoBlock.ofBytes bytes addr).type ≠ CcatInfoT.notUsed.code
      · cases hcall : callFor? L ccatdev (.ofBytes bytes addr) with
        | none =>
          rw [List.filterMap_cons_none hcall, initBlocks]
          simp only [if_pos hused, ccatFunctionConnect_none hcells hcall]
          exact ih _ _ _ st hcells hnew
        | some c =>
          obtain ⟨cells', hconnect, hcells'⟩ := ccatFunctionConnect_some (a := a) hcells hcall
          rw [List.filterMap_cons_some hcall, initBlocks]
          -- the first call that fails ends the loop
          by_cases hfail : a.mfdAddDevices st.calls.length < 0
          · simp only [if_pos hused, hconnect, if_pos hfail]
            exact ⟨.failed 0 (by simp) rfl hfail rfl (by simp), hcells'⟩
          · simp only [if_pos hused, hconnect, if_neg hfail]
            obtain ⟨hrest, hsame⟩ := ih (addr + BLOCK_SIZE) (kzallocFunction a allocs) (allocs + 1)
              ⟨cells', st.calls ++ [c]⟩ hcells' hnew
            exact ⟨hrest.cons rfl (by omega), hsame⟩
      · have hcall : callFor? L ccatdev (.ofBytes bytes addr) = none :=
          callFor?_notUsed (not_not.mp hused)
        rw [List.filterMap_cons_none hcall, initBlocks]
        simp only [if_neg hused]
        exact ih _ _ _ st hcells fun _ => Option.some_ne_none _

/-- Discovery makes the calls that the table calls for, in order. -/
theorem ccatFunctionsInit_discovered (ccatdev : CcatDevice) (bytes : Nat → UInt8)
    (hcells : SameTable st.cells) :
    Discovered a (expectedCalls L ccatdev bytes) st (ccatFunctionsInit L a ccatdev bytes st) ∧
      SameTable (ccatFunctionsInit L a ccatdev bytes st).2.cells := by
  apply initBlocks_discovered ccatdev bytes _ ccatdev.bar0 _ 1 st hcells
  intro hmem
  simp [kzallocFunction, hmem 0]

end

/-! ### Discovery -/

/-- With enough memory, discovery makes one call for each block of a known type and returns the
    number of calls that fail iff none of them fails: the loop ends at the first failure, and its
    error is what is returned. -/
theorem ccatFunctionsInit_complete_iff (L : LongWidth) (a : Answers) (ccatdev : CcatDevice)
    (bytes : Nat → UInt8) (cells : List CcatCell) (halloc : ∀ k, a.kzalloc k = true)
    (hcells : SameTable cells) :
    Complete L a ccatdev bytes (ccatFunctionsInit L a ccatdev bytes ⟨cells, []⟩) ↔
      ∀ k, k < (expectedCalls L ccatdev bytes).length → 0 ≤ a.mfdAddDevices k := by
  obtain ⟨hdisc, -⟩ : Discovered a (expectedCalls L ccatdev bytes) ⟨cells, []⟩
      (ccatFunctionsInit L a ccatdev bytes ⟨cells, []⟩) ∧ _ :=
    ccatFunctionsInit_discovered ccatdev bytes hcells
  cases hdisc with
  | ended m hm hret hcalls hok hall =>
    -- with enough memory the loop ended with the table
    obtain rfl := hall halloc
    simp only [List.length_nil, Nat.zero_add] at hok
    rw [List.take_length, List.nil_append] at hcalls
    -- no call failed, so the count is 0
    have hzero : (List.range (expectedCalls L ccatdev bytes).length).countP
        (fun k => a.mfdAddDevices k < 0) = 0 := by
      rw [List.countP_eq_zero]
      intro k hk
      have hk' := hok k (List.mem_range.mp hk)
      simp only [decide_eq_true_eq]
      omega
    refine iff_of_true ⟨hcalls, hret.trans ?_⟩ hok
    rw [hzero]
    rfl
  | failed m hm hret hfail hcalls hok =>
    refine iff_of_false (fun h => ?_) fun h => ?_
    · -- a negative result is no number of failures
      have hcount := h.ret
      omega
    · have hm' := h m hm
      rw [List.length_nil, Nat.zero_add] at hret
      omega

/-- A table of three blocks: the entry of the CCAT itself, a GPIO and an SRAM. -/
private def gpioAndSram : Nat → UInt8 := fun p =>
  if p = 4 then 3 else if p = 16 then 0xd else if p = 32 then 0x16 else 0

/-- Both functions of the table are connected. -/
theorem ccatFunctionsInit_complete_gpioAndSram :
    Complete .long64 ⟨fun _ => true, fun _ => 0⟩ ⟨0, 0⟩ gpioAndSram
        (ccatFunctionsInit .long64 ⟨fun _ => true, fun _ => 0⟩ ⟨0, 0⟩ gpioAndSram ⟨ccatCells, []⟩) ∧
      (expectedCalls .long64 ⟨0, 0⟩ gpioAndSram).map CcatCell.name = ["ccat_gpio", "ccat_sram"] :=
  ⟨(ccatFunctionsInit_complete_iff .long64 ⟨fun _ => true, fun _ => 0⟩ ⟨0, 0⟩ gpioAndSram ccatCells
    (fun _ => rfl) rfl).mpr (fun _ _ => Int.le_refl 0), by decide⟩

/-- When the GPIO fails the SRAM is not connected, and the result is no count. -/
theorem not_complete_gpioFails :
    ¬ ∀ (L : LongWidth) (a : Answers) (ccatdev : CcatDevice) (bytes : Nat → UInt8)
      (cells : List CcatCell), (∀ k, a.kzalloc k = true) → SameTable cells →
      Complete L a ccatdev bytes (ccatFunctionsInit L a ccatdev bytes ⟨cells, []⟩) := by
  intro h
  have hret := (h .long64 ⟨fun _ => true, fun k => if k = 0 then -ENOMEM else 0⟩ ⟨0, 0⟩ gpioAndSram
    ccatCells (fun _ => rfl) rfl).ret
  have hfail : (ccatFunctionsInit .long64 ⟨fun _ => true, fun k => if k = 0 then -ENOMEM else 0⟩
      ⟨0, 0⟩ gpioAndSram ⟨ccatCells, []⟩).1 = -12 := by decide
  omega

end Ccat.Native.Functions
