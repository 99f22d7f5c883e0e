import Ccat.Spec.BoardCorrect
import Mathlib.Data.List.Nodup

/-!
# What user space sees of the cards

The invariant of a board, in terms of what is visible: which platform devices there are,
what each of them gives access to, and that there is nothing else.

## Key results

- `functionsOf_spec`: the functions of a card carry its own address and a block of its table
- `board_published`: what is published in every state of a run
-/

namespace Ccat.Native.Device

open Functions (CcatDevice CcatInfoT CcatInfoBlock)

/-! ## Functions of a card -/

/-- A function of a card: the device it belongs to, and the cell for the type of its block. -/
theorem functionsOf_spec {L : LongWidth} {bar0 : Nat → UInt8} {dev : CcatDevice}
    {f : String × Functions.CcatFunction} (h : f ∈ functionsOf L bar0 dev) :
    f.2.ccat = some dev ∧ ∃ cell ∈ Functions.ccatCells, f.1 = cell.name ∧
      f.2.info.type = cell.type.code := by
  obtain ⟨cell, hcell, rfl⟩ := List.mem_map.mp h
  obtain ⟨block, -, hcall⟩ := List.mem_filterMap.mp hcell
  obtain ⟨c, hfind, rfl⟩ := Option.map_eq_some_iff.mp hcall
  have htype : block.type = c.type.code := by simpa using List.find?_some hfind
  exact ⟨rfl, c, List.mem_of_find?_eq_some hfind, rfl, htype⟩

/-- A driver is found by its name. -/
theorem driverFor?_name {name : String} {d : Driver} (h : driverFor? name = some d) :
    d.name = name := by
  simpa using List.find?_some h

/-- The types that a driver is there for. -/
def Driver.serves : Driver → CcatInfoT
  | .ccatEthEim => .ethercatNodma
  | .ccatEthDma => .ethercatMasterDma
  | .ccatGpio => .gpio
  | .ccatUpdate => .epcsProm
  | .ccatSram => .sram
  | .ccatSystemtime => .systemtime

/-- The cell with the name of a driver is the one for its type. -/
theorem cell_type_of_name {cell : Functions.CcatCell} (hcell : cell ∈ Functions.ccatCells)
    {d : Driver} (hname : d.name = cell.name) : cell.type = d.serves := by
  simp only [Functions.ccatCells, List.mem_cons, List.not_mem_nil, or_false] at hcell
  rcases hcell with rfl | rfl | rfl | rfl | rfl | rfl <;> cases d <;>
    first | rfl | exact absurd hname (by decide)

/-! ## Children -/

/-- What a child with a driver gives access to, in terms of the block of its function. -/
def Child.Serves (b : Board) (c : Child) : Prop :=
  ∃ dev, (b.cards c.card).ccatdev = some dev ∧ c.func.ccat = some dev ∧
    ∀ data, c.bound = some data → ∃ d : Driver, d.sets data = true ∧ c.name = d.name ∧
      c.func.info.type = d.serves.code ∧
      match data with
      | .netdev => True
      | .gpio gpio => gpio = ⟨dev.bar0 + c.func.info.addr, c.func.info.numGpios⟩
      | .systemtime st => st.ioaddr = dev.bar0 + c.func.info.addr
      | .update slot => c.func.info.rev = 0 ∧
        (b.registry.update.base.devices slot).ioaddr = dev.bar0 + c.func.info.addr ∧
        (b.registry.update.base.devices slot).iosize = Update.CCAT_FLASH_SIZE
      | .sram slot => c.func.info.sramWidth &&& 0x3 ≠ 0 ∧
        (b.registry.sram.base.devices slot).ioaddr = dev.bar0 + c.func.info.addr ∧
        (b.registry.sram.base.devices slot).iosize = 1 <<< c.func.info.sramSize

/-- A child of a board in good order belongs to a card that is bound, and its driver has published
    what its block describes. -/
theorem BoardInv.serves {L : LongWidth} {b : Board} (hinv : BoardInv L b) {c : Child}
    (hc : c ∈ b.children) : c.Serves b := by
  -- the child is one of the functions of its card
  have hkey : c.key ∈ (b.cards c.card).functions L := by
    apply (hinv.children c.card).mem
    apply List.mem_map_of_mem
    simp [Board.childrenOf, hc]
  -- a card that is not bound has no functions
  cases hdev : (b.cards c.card).ccatdev with
  | none =>
    rw [Card.functions, hdev] at hkey
    cases hkey
  | some dev =>
    rw [Card.functions, hdev] at hkey
    obtain ⟨hccat, cell, hcell, hname, htype⟩ := functionsOf_spec hkey
    refine ⟨dev, hdev, hccat, fun data hdata => ?_⟩
    -- the driver is the one for the type of the block
    obtain ⟨d, hd, hsets⟩ := hinv.driven c hc data hdata
    have hdname : d.name = c.name := driverFor?_name hd
    have hserves : cell.type = d.serves := cell_type_of_name hcell (hdname.trans hname)
    refine ⟨d, hsets, hdname.symm, ?_, ?_⟩
    · rw [← hserves]
      exact htype
    · -- what the driver did is one of the bindings of the registry
      have hbinding : (⟨c.func, data⟩ : Binding) ∈ b.children.filterMap Child.binding? := by
        apply List.mem_filterMap.mpr
        exact ⟨c, hc, by rw [Child.binding?, hdata]; rfl⟩
      have hserved := hinv.registry.served _ hbinding
      have hioaddr : (⟨c.func, data⟩ : Binding).ioaddr = dev.bar0 + c.func.info.addr := by
        have hc' : c.func.ccat = some dev := hccat
        simp [Binding.ioaddr, hc']
      cases data with
      | netdev => trivial
      | gpio gpio =>
        rw [← hioaddr]
        exact hserved
      | systemtime st =>
        rw [← hioaddr]
        exact hserved
      | update slot =>
        rw [← hioaddr]
        have hwindow := hinv.registry.update.window _ (List.mem_filterMap.mpr ⟨_, hbinding, rfl⟩)
        exact ⟨hserved, hwindow⟩
      | sram slot =>
        rw [← hioaddr]
        have hwindow := hinv.registry.sram.window _ (List.mem_filterMap.mpr ⟨_, hbinding, rfl⟩)
        exact ⟨hserved, hwindow⟩

/-! ## Nothing else -/

namespace PrivateData

def sram? : PrivateData → Option Nat
  | .sram slot => some slot
  | _ => none

def update? : PrivateData → Option Nat
  | .update slot => some slot
  | _ => none

def gpio? : PrivateData → Option CcatGpio
  | .gpio chip => some chip
  | _ => none

def systemtime? : PrivateData → Option Systemtime.CcatSystemtime
  | .systemtime st => some st
  | _ => none

theorem sram?_eq_some {data : PrivateData} {i : Nat} : data.sram? = some i ↔ data = .sram i := by
  cases data <;> simp [sram?]

theorem update?_eq_some {data : PrivateData} {i : Nat} :
    data.update? = some i ↔ data = .update i := by
  cases data <;> simp [update?]

end PrivateData

/-- What the drivers of children have of a kind. -/
def published {α : Type} (kind : PrivateData → Option α) (cs : List Child) : List α :=
  cs.filterMap fun c => c.bound.bind kind

/-- What the bindings of a kind contribute is what their children publish. -/
theorem filterMap_binding {α : Type} (kind : PrivateData → Option α) (f : Binding → Option α)
    (h : ∀ x, f x = kind x.data) (cs : List Child) :
    (cs.filterMap Child.binding?).filterMap f = published kind cs := by
  rw [List.filterMap_filterMap, published]
  apply List.filterMap_congr
  intro c _
  cases hc : c.bound with
  | none => simp [Child.binding?, hc]
  | some data => simp [Child.binding?, hc, h]

/-- All that is published, by kinds: the slots in use are those of children, each of one; so are
    the chips, the clocksources and the net devices; and the clocksources have names of their
    own, until `ccat_systemtime_cnt` has wrapped around. -/
structure NothingElse (b : Board) : Prop where
  sram : ∀ i, b.children.countP (fun c => c.bound = some (.sram i)) =
    if (b.registry.sram.base.devices i).dev = 0 then 0 else 1
  update : ∀ i, b.children.countP (fun c => c.bound = some (.update i)) =
    if (b.registry.update.base.devices i).dev = 0 then 0 else 1
  sramCdevs : b.registry.sram.kernel.cdevs.Perm
    ((published PrivateData.sram? b.children).map fun i => (b.registry.sram.base.devices i).dev)
  updateCdevs : b.registry.update.kernel.cdevs.Perm
    ((published PrivateData.update? b.children).map fun i =>
      (b.registry.update.base.devices i).dev)
  chips : b.registry.chips.Perm (published PrivateData.gpio? b.children)
  clocks : b.registry.clocks.Perm (published PrivateData.systemtime? b.children)
  clockNames : b.registry.systemtimeProbes ≤ 2 ^ 32 →
    (b.registry.clocks.filterMap (·.clock.name)).Nodup
  netdevs : b.registry.netdevs = b.children.countP fun c => c.bound = some .netdev

/-- The slots of the windows of a class are those of the children it publishes. -/
theorem slots_binding (kind : PrivateData → Option Nat) (f : Binding → Option Window)
    (h : ∀ x, (f x).map Window.slot = kind x.data) (cs : List Child) :
    ((cs.filterMap Child.binding?).filterMap f).map Window.slot = published kind cs := by
  rw [List.map_filterMap]
  exact filterMap_binding kind (fun x => (f x).map Window.slot) h cs

/-- A slot is in use exactly if it is the one of a child, and then of one. -/
theorem countP_slot {w : World} {ws : List Window} (hinv : CdevInv w ws)
    {kind : PrivateData → Option Nat} {cs : List Child}
    (hslots : ws.map Window.slot = published kind cs) (i : Nat) :
    cs.countP (fun c => decide (c.bound.bind kind = some i)) =
      if (w.base.devices i).dev = 0 then 0 else 1 := by
  have hcount : cs.countP (fun c => decide (c.bound.bind kind = some i)) =
      (ws.map Window.slot).count i := by
    rw [hslots, published, List.count_filterMap]
    apply List.countP_congr
    intro c _
    simp
  rw [hcount]
  -- the slots in use are different, so each has one child
  have hmem := hinv.table.dev_ne_zero i
  by_cases hdev : (w.base.devices i).dev = 0
  · rw [if_pos hdev, List.count_eq_zero]
    exact fun h => hmem.mpr h hdev
  · rw [if_neg hdev]
    exact List.count_eq_one_of_mem hinv.table.nodup (hmem.mp hdev)

/-- On a board in good order nothing is published but by the children. -/
theorem BoardInv.nothingElse {L : LongWidth} {b : Board} (hinv : BoardInv L b) :
    NothingElse b := by
  have hreg := hinv.registry
  -- the two tables of slots
  have hsram : ((b.children.filterMap Child.binding?).filterMap Binding.sram?).map Window.slot =
      published PrivateData.sram? b.children := by
    apply slots_binding
    rintro ⟨func, data⟩
    cases data <;> rfl
  have hupdate : ((b.children.filterMap Child.binding?).filterMap Binding.update?).map
      Window.slot = published PrivateData.update? b.children := by
    apply slots_binding
    rintro ⟨func, data⟩
    cases data <;> rfl
  constructor
  · intro i
    rw [← countP_slot hreg.sram hsram i]
    apply List.countP_congr
    intro c _
    simp [Option.bind_eq_some_iff, PrivateData.sram?_eq_some]
  · intro i
    rw [← countP_slot hreg.update hupdate i]
    apply List.countP_congr
    intro c _
    simp [Option.bind_eq_some_iff, PrivateData.update?_eq_some]
  · rw [← hsram, List.map_map]
    exact hreg.sram.cdevs
  · rw [← hupdate, List.map_map]
    exact hreg.update.cdevs
  · -- chips and clocksources
    rw [← filterMap_binding PrivateData.gpio? Binding.chip?]
    · exact hreg.chips
    · rintro ⟨func, data⟩
      cases data <;> rfl
  · rw [← filterMap_binding PrivateData.systemtime? Binding.clock?]
    · exact hreg.clocks
    · rintro ⟨func, data⟩
      cases data <;> rfl
  · exact hreg.distinct
  · -- net devices are only counted
    rw [hreg.netdevs, List.countP_filterMap]
    apply List.countP_congr
    intro c _
    cases hc : c.bound with
    | none => simp [Child.binding?, hc]
    | some data => cases data <;> simp [Child.binding?, hc, Binding.isNetdev]

/-- Nothing is published, and nothing registered with the kernel. -/
structure Registry.Empty (r : Registry) : Prop where
  sram : r.sram.base.instances = 0 ∧ (∀ i, (r.sram.base.devices i).dev = 0) ∧
    r.sram.kernel = ⟨[], [], [], []⟩
  update : r.update.base.instances = 0 ∧ (∀ i, (r.update.base.devices i).dev = 0) ∧
    r.update.kernel = ⟨[], [], [], []⟩
  chips : r.chips = []
  clocks : r.clocks = []
  netdevs : r.netdevs = 0

/-- Without bound cards there are no children, and nothing of them is left. -/
theorem BoardInv.empty {L : LongWidth} {b : Board} (hinv : BoardInv L b)
    (h : ∀ k, (b.cards k).ccatdev = none) : b.children = [] ∧ b.registry.Empty := by
  have hnil : b.children = [] := by
    apply List.eq_nil_iff_forall_not_mem.mpr
    intro c hc
    have hmem : c ∈ b.childrenOf c.card := by simp [Board.childrenOf, hc]
    rw [hinv.childrenOf_nil (h c.card)] at hmem
    cases hmem
  have hreg := hinv.registry
  rw [hnil] at hreg
  exact ⟨hnil, hreg.sram.nil, hreg.update.nil, hreg.chips.eq_nil, hreg.clocks.eq_nil, hreg.netdevs⟩

/-- In every state of a run, on either bus: the platform devices of a card are the first functions
    of its table, in order; each of them with a driver gives access to the window that its block
    describes, at the address of its own card; nothing else is published; and nothing at all is
    left when no card is bound. -/
theorem board_published (bus : Bus) (hbus : bus = pci ∨ bus = eim) (L : LongWidth)
    (bar0 : Nat → Nat → UInt8) (b : Board) (h : Reach bus L (.init bar0) b) :
    (∀ k, (b.childrenOf k).map Child.key <+: (b.cards k).functions L) ∧
      (∀ c ∈ b.children, c.Serves b) ∧ NothingElse b ∧
      ((∀ k, (b.cards k).ccatdev = none) → b.children = [] ∧ b.registry.Empty) := by
  have hlawful : bus.Lawful := by
    rcases hbus with rfl | rfl
    · exact pci_lawful
    · exact eim_lawful
  have hinv := (BoardInv.init L bar0).reach hlawful h
  exact ⟨hinv.children, fun c hc => hinv.serves hc, hinv.nothingElse, hinv.empty⟩

/-- BAR 0 of a card with an SRAM of 16 KiB at `0x200`. -/
private def sramBar0 (p : Nat) : UInt8 :=
  if p = 4 then 2 else if p = 16 then 0x16 else if p = 20 then 1 else if p = 21 then 14
  else if p = 25 then 2 else 0

/-- Everything is granted, and the drivers are loaded. -/
private def grantedDriver : DriverAnswers :=
  ⟨⟨some 240, some 1, true, true⟩, true, 0, ⟨true, true, 0⟩, 0⟩

private def grantedInit : InitAnswers := ⟨fun _ => true, fun _ => ⟨0, some grantedDriver⟩⟩

private def grantedPci : PciAnswers := ⟨true, 0, 0, 0, 0, 0, 0x1000, 0, grantedInit⟩

/-- The SRAM of a card that is probed is the first character device. -/
theorem board_published_sram :
    ∃ r, (Op.bind 3 grantedPci : Op pci).apply .long64 (.init fun _ => sramBar0) = .ok r ∧
      (r.2.registry.sram.base.devices 0).ioaddr = 0x1200 ∧
      (r.2.registry.sram.base.devices 0).iosize = 0x4000 ∧
      r.2.children.countP (fun c => c.bound = some (.sram 0)) = 1 := by
  have hop : (Op.bind 3 grantedPci : Op pci).Allowed (.init fun _ => sramBar0) := by
    refine ⟨rfl, fun n d hd m hm => ?_⟩
    cases hd
    cases hm
    decide
  refine ⟨_, rfl, rfl, rfl, ?_⟩
  obtain ⟨-, -, hnothing, -⟩ := board_published pci (.inl rfl) .long64 (fun _ => sramBar0) _
    (.step .refl hop rfl)
  rw [hnothing.sram 0]
  rfl

end Ccat.Native.Device
