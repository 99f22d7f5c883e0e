import Ccat.Spec.BoardCorrect

/-!
# Resources of a PCI card

What `ccat_pci_probe()` takes of a card, a failing probe and `ccat_pci_remove()` give
back: the device is disabled, the regions are released and the BARs unmapped as often as
they were enabled, requested and mapped. This goes wrong for one kind of card. A probe
that fails with a status above 0, as `pci_read_config_byte()` does, has given everything
back, but the card is bound; when it is removed, the driver gives back what it does not
hold.

## Key results

- `attach_error`: what can go wrong in the probe of a function
- `ccatPciProbe_spec`: a probe of a card that is not bound, by what is granted
- `unbind_held`, `unbind_stranded`: a remove, by what is held of the card
- `pci_resources`: what is held, in every state of a run
-/

namespace Ccat.Native.Device

open Functions (CcatCell CcatDevice SameTable expectedCalls)

/-! ## Faults of the drivers -/

/-- The faults of the functions' drivers: those of the device class, and a shift too far. -/
def Fault.OfDriver (f : Fault) : Prop := (∃ e, f = .oops e) ∨ ∃ n, f = .shift n

section Faults

variable {func : Functions.CcatFunction} {dev : CcatDevice} {r : Registry} {f : Fault}

/-- A character device driver that goes wrong is to blame. -/
theorem cdevProbe_error {env : ProbeEnv} {iosize : Nat} {w : World}
    (hdev : func.ccat = some dev) (h : cdevProbe env func iosize w = .error f) : f.OfDriver := by
  rcases Except.bind_eq_error_iff.mp h with h | ⟨dev', -, h⟩
  · rw [ccatOf, hdev] at h
    cases h
  · obtain ⟨e, -, rfl⟩ := Except.mapError_eq_error_iff.mp h
    exact .inl ⟨e, rfl⟩

/-- So is the probe of any of the drivers. -/
theorem Driver.probe_error {a : DriverAnswers} {d : Driver} (hdev : func.ccat = some dev)
    (h : d.probe a func r = .error f) : f.OfDriver := by
  -- a function of a table always has its CCAT
  have hccat : ∀ f', ccatOf func ≠ .error f' := by
    intro f' hf'
    rw [ccatOf, hdev] at hf'
    cases hf'
  cases d with
  | ccatEthEim =>
    simp only [Driver.probe, ethProbe] at h
    split at h <;> cases h
  | ccatEthDma =>
    simp only [Driver.probe, ethProbe] at h
    split at h <;> cases h
  | ccatGpio =>
    simp only [Driver.probe, ccatGpioProbe] at h
    split at h
    · cases h
    · rcases Except.bind_eq_error_iff.mp h with h | ⟨dev', -, h⟩
      · exact absurd h (hccat f)
      · split at h <;> cases h
  | ccatUpdate =>
    simp only [Driver.probe, ccatUpdateProbe] at h
    split at h
    · cases h
    · rcases Except.bind_eq_error_iff.mp h with h | ⟨p, -, h⟩
      · exact cdevProbe_error hdev h
      · cases h
  | ccatSram =>
    simp only [Driver.probe, ccatSramProbe] at h
    split at h
    · cases h
      -- the shift of a size that is too large
      exact .inr ⟨_, rfl⟩
    · split at h
      · cases h
      · rcases Except.bind_eq_error_iff.mp h with h | ⟨p, -, h⟩
        · exact cdevProbe_error hdev h
        · cases h
  | ccatSystemtime =>
    simp only [Driver.probe, systemtimeProbe] at h
    split at h
    · cases h
    · rcases Except.bind_eq_error_iff.mp h with h | ⟨dev', -, h⟩
      · exact absurd h (hccat f)
      · cases h

/-- And the driver that is bound to a child. -/
theorem attach_error {a : DriverAnswers} {c : Child} (hdev : c.func.ccat = some dev)
    (h : attach a c r = .error f) : f.OfDriver := by
  rw [attach] at h
  split at h
  · cases h
  · rcases Except.bind_eq_error_iff.mp h with h | ⟨p, -, h⟩
    · exact Driver.probe_error hdev h
    · cases h

/-- What goes wrong while the children are added goes wrong in a driver. -/
theorem mfdAddDevices_error {k n : Nat} {a : Nat → MfdAnswer} {cells : List CcatCell} {b : Board}
    (hdev : ∀ cell ∈ cells, (cellKey cell).2.ccat = some dev)
    (h : mfdAddDevices k a n cells b = .error f) : f.OfDriver := by
  induction cells generalizing n b with
  | nil => cases h
  | cons cell cells ih =>
    rcases Except.bind_eq_error_iff.mp h with h | ⟨b₁, -, h⟩
    · rw [mfdAddDevice] at h
      split at h
      · cases h
      · split at h
        · cases h
        · rcases Except.bind_eq_error_iff.mp h with h | ⟨s, -, h⟩
          · exact attach_error (c := childOf k cell) (hdev cell List.mem_cons_self) h
          · cases h
    · exact ih (fun cell' hcell' => hdev cell' (List.mem_cons_of_mem cell hcell')) h

/-- `ccat_functions_init()` goes wrong in the drivers of the functions only. -/
theorem functionsInit_error {L : LongWidth} {a : InitAnswers} {k : Nat} {b : Board}
    (hcells : SameTable b.cells) (h : functionsInit L a k dev b = .error f) : f.OfDriver := by
  simp only [functionsInit] at h
  obtain ⟨hdisc, -⟩ := Functions.ccatFunctionsInit_discovered (L := L)
    (a := ⟨a.kzalloc, fun n => (a.mfd n).ret⟩) dev (fun p => (b.cards k).bar0 (p - dev.bar0))
    (show SameTable (Functions.MfdState.mk b.cells []).cells from hcells)
  -- every call is for a function of this CCAT
  have hdev : ∀ cell ∈ expectedCalls L dev fun p => (b.cards k).bar0 (p - dev.bar0),
      (cellKey cell).2.ccat = some dev := by
    intro cell hcell
    obtain ⟨block, -, hcall⟩ := List.mem_filterMap.mp hcell
    obtain ⟨c, -, rfl⟩ := Option.map_eq_some_iff.mp hcall
    rfl
  refine mfdAddDevices_error (fun cell hcell => hdev cell ?_) h
  cases hdisc with
  | ended m hm hret hcalls hok hall =>
    rw [hcalls] at hcell
    exact List.mem_of_mem_take hcell
  | failed m hm hret hfail hcalls hok =>
    rw [hcalls] at hcell
    exact List.mem_of_mem_take hcell

end Faults

/-! ## A card -/

/-- What the driver holds of a card that is bound. -/
def Card.held (bar0 : Nat → UInt8) (dev : CcatDevice) : Card where
  bar0 := bar0
  ccatdev := some dev
  enabled := 1
  master := true
  regions := true
  maps := (if dev.bar2 = 0 then [] else [dev.bar2]) ++ [dev.bar0]

/-- A card that is bound, and of which the driver holds nothing. -/
def Card.stranded (bar0 : Nat → UInt8) : Card := { Card.unseen bar0 with ccatdev := some ⟨0, 0⟩ }

/-- A card of which the driver holds nothing, or all it needs. -/
inductive PciInv (c : Card) : Prop where
  | unseen : c = .unseen c.bar0 → PciInv c
  | held (dev : CcatDevice) : dev.bar0 ≠ 0 → c = .held c.bar0 dev → PciInv c
  | stranded : c = .stranded c.bar0 → PciInv c

/-- What a probe needs. -/
def PciAnswers.Granted (a : PciAnswers) : Prop :=
  a.kzalloc = true ∧ a.enableDeviceMem = 0 ∧ a.readRevision = 0 ∧ a.requestRegions = 0 ∧
    (a.dmaMask64 = 0 ∨ a.dmaMask32 = 0) ∧ a.bar0 ≠ 0

/-- The status of the first service that is not granted. -/
def PciAnswers.status (a : PciAnswers) : Int :=
  if !a.kzalloc then -ENOMEM
  else if a.enableDeviceMem ≠ 0 then a.enableDeviceMem
  else if a.readRevision ≠ 0 then a.readRevision
  else if a.requestRegions ≠ 0 then a.requestRegions
  else if a.dmaMask64 ≠ 0 ∧ a.dmaMask32 ≠ 0 then a.dmaMask32
  else if a.bar0 = 0 then - EIO
  else 0

section Card

variable {L : LongWidth} {a : PciAnswers} {k : Nat} {b : Board} {bar0 : Nat → UInt8}

/-- The probe of a card that is not bound: it goes on to the functions if all is granted that it
    needs, and else gives back all it took. -/
theorem ccatPciProbe_spec (hcard : b.cards k = .unseen bar0) :
    (a.Granted ∧ a.status = 0 ∧ ccatPciProbe L a k b = (do
      let b ← functionsInit L a.init k ⟨a.bar0, a.bar2⟩
        (b.setCard k (.held bar0 ⟨a.bar0, a.bar2⟩))
      return (0, b))) ∨
    (¬ a.Granted ∧ a.status < 0 ∧ ccatPciProbe L a k b = .ok (a.status, b)) ∨
    (¬ a.Granted ∧ a.status ≠ 0 ∧
      ccatPciProbe L a k b = .ok (a.status, b.setCard k (.stranded bar0))) := by
  -- the branches in the order of the source
  by_cases hkzalloc : a.kzalloc = true
  swap
  · have hstatus : a.status = -ENOMEM := by simp [PciAnswers.status, hkzalloc]
    refine .inr (.inl ⟨fun h => hkzalloc h.1, by rw [hstatus]; decide, ?_⟩)
    rw [hstatus]
    simp [ccatPciProbe, hkzalloc, pure, Except.pure]
  -- past the allocation a probe that fails leaves the driver data behind
  have hdenied : ∀ status, a.status = status → status ≠ 0 → ¬ a.Granted →
      ccatPciProbe L a k b = .ok (status, b.setCard k (.stranded bar0)) →
      ¬ a.Granted ∧ a.status ≠ 0 ∧
        ccatPciProbe L a k b = .ok (a.status, b.setCard k (.stranded bar0)) := by
    rintro status rfl hne hdenied hprobe
    exact ⟨hdenied, hne, hprobe⟩
  by_cases henable : a.enableDeviceMem = 0
  swap
  · refine .inr (.inr (hdenied a.enableDeviceMem ?_ henable (fun h => henable h.2.1) ?_))
    · simp [PciAnswers.status, hkzalloc, henable]
    · simp [ccatPciProbe, hcard, hkzalloc, henable, Card.unseen, Card.stranded,
        pciEnableDeviceMem, pure, Except.pure]
  by_cases hrevision : a.readRevision = 0
  swap
  · refine .inr (.inr (hdenied a.readRevision ?_ hrevision (fun h => hrevision h.2.2.1) ?_))
    · simp [PciAnswers.status, hkzalloc, henable, hrevision]
    · simp [ccatPciProbe, hcard, hkzalloc, henable, hrevision, Card.unseen, Card.stranded,
        pciEnableDeviceMem, disableDevice, pciDisableDevice, bind, Except.bind, pure, Except.pure]
  by_cases hregions : a.requestRegions = 0
  swap
  · refine .inr (.inr (hdenied a.requestRegions ?_ hregions (fun h => hregions h.2.2.2.1) ?_))
    · simp [PciAnswers.status, hkzalloc, henable, hrevision, hregions]
    · simp [ccatPciProbe, hcard, hkzalloc, henable, hrevision, hregions, Card.unseen,
        Card.stranded, pciEnableDeviceMem, pciRequestRegions, disableDevice, pciDisableDevice,
        bind, Except.bind, pure, Except.pure]
  -- one of the two masks is enough
  by_cases hmask : a.dmaMask64 ≠ 0 ∧ a.dmaMask32 ≠ 0
  · refine .inr (.inr (hdenied a.dmaMask32 ?_ hmask.2 (fun h => ?_) ?_))
    · simp [PciAnswers.status, hkzalloc, henable, hrevision, hregions, hmask]
    · obtain ⟨-, -, -, -, h, -⟩ := h
      exact h.elim hmask.1 hmask.2
    · simp [ccatPciProbe, hcard, hkzalloc, henable, hrevision, hregions, hmask, Card.unseen,
        Card.stranded, pciEnableDeviceMem, pciRequestRegions, releaseRegions, disableDevice,
        pciReleaseRegions, pciDisableDevice, bind, Except.bind, pure, Except.pure]
  by_cases hbar0 : a.bar0 = 0
  · refine .inr (.inr (hdenied (- EIO) ?_ (by decide) (fun h => h.2.2.2.2.2 hbar0) ?_))
    · simp only [PciAnswers.status, hkzalloc, henable, hrevision, hregions, if_neg hmask, hbar0]
      simp
    · simp only [ccatPciProbe, hcard, hkzalloc, henable, hrevision, hregions, hbar0,
        if_neg hmask, Card.unseen]
      simp [Card.stranded, Card.unseen, pciEnableDeviceMem, pciRequestRegions, releaseRegions,
        disableDevice, pciReleaseRegions, pciDisableDevice, bind, Except.bind, pure, Except.pure]
  left
  have hmask' : a.dmaMask64 = 0 ∨ a.dmaMask32 = 0 := by
    by_cases h64 : a.dmaMask64 = 0
    · exact .inl h64
    · exact .inr (not_not.mp fun h32 => hmask ⟨h64, h32⟩)
  refine ⟨⟨hkzalloc, henable, hrevision, hregions, hmask', hbar0⟩, ?_, ?_⟩
  · simp only [PciAnswers.status, hkzalloc, henable, hrevision, hregions, if_neg hmask,
      if_neg hbar0]
    simp
  -- with all granted the card is held whole, BAR 2 being optional
  have hheld : ({ iomap a.bar2 (iomap a.bar0 ⟨bar0, some ⟨0, 0⟩, 1, false, true, []⟩) with
      ccatdev := some ⟨a.bar0, a.bar2⟩, master := true } : Card) =
      .held bar0 ⟨a.bar0, a.bar2⟩ := by
    by_cases hbar2 : a.bar2 = 0
    · simp [iomap, hbar0, hbar2, Card.held]
    · simp [iomap, hbar0, hbar2, Card.held]
  simp only [ccatPciProbe, hcard, hkzalloc, henable, hrevision, hregions, hbar0,
    if_neg hmask, Card.unseen, pciEnableDeviceMem, pciRequestRegions, Bool.not_true,
    Bool.false_eq_true, if_false, ne_eq, not_true_eq_false, Nat.zero_add, hheld]

/-- The remove of a card that is bound gives back all that is held of it. -/
theorem ccatPciRemove_spec {dev : CcatDevice} {order : List Child} {b₁ : Board}
    (hcard : b.cards k = .held bar0 dev) (hremove : mfdRemoveDevices k order b = .ok b₁)
    (hcards : b₁.cards = b.cards) :
    ccatPciRemove order k b =
      .ok (b₁.setCard k { Card.unseen bar0 with ccatdev := some dev }) := by
  have hcard₁ : b₁.cards k = .held bar0 dev := by rw [hcards, hcard]
  have hdev : (b.cards k).ccatdev = some dev := by
    rw [hcard]
    rfl
  rw [ccatPciRemove, hdev]
  simp only [hremove]
  -- a BAR 2 that was not mapped is not unmapped
  by_cases hbar2 : dev.bar2 = 0
  · simp [hcard₁, hbar2, Card.held, iounmapMapped, iounmap, pciReleaseRegions, pciDisableDevice,
      bind, Except.bind, pure, Except.pure, Card.unseen]
  · simp [hcard₁, hbar2, Card.held, iounmapMapped, iounmap, pciReleaseRegions, pciDisableDevice,
      bind, Except.bind, pure, Except.pure, Card.unseen]

end Card

/-! ## Runs -/

section Runs

variable {L : LongWidth} {b : Board} {k : Nat}

/-- A card without driver data is as never seen. -/
theorem PciInv.unseen_of_none {c : Card} (h : PciInv c) (hnone : c.ccatdev = none) :
    c = .unseen c.bar0 := by
  cases h with
  | unseen h => exact h
  | held dev _ h =>
    rw [h] at hnone
    cases hnone
  | stranded h =>
    rw [h] at hnone
    cases hnone

theorem forget_setCard (b : Board) (k : Nat) (c : Card) :
    (b.setCard k c).forget k = b.setCard k { c with ccatdev := none } := by
  rw [Board.forget, setCard_self, setCard_setCard]

/-- What the PCI core makes of a probe that returns. -/
theorem bind_probed {a : PciAnswers} {status : Int} {b₁ : Board}
    (hprobe : ccatPciProbe L a k b = .ok (status, b₁)) :
    (Op.bind k a : Op pci).apply L b =
      .ok (if 0 ≤ status then (status, b₁) else (status, b₁.forget k)) := by
  show (ccatPciProbe L a k b >>= _) = _
  rw [hprobe]
  show Except.ok (if decide (0 ≤ status) = true then _ else _) = _
  simp only [decide_eq_true_eq]

/-- A probe that is allowed: by its status, it binds the card, changes nothing, or binds the card
    with nothing held of it. -/
theorem bind_pci (hinv : BoardInv L b) (hpci : ∀ j, PciInv (b.cards j)) {a : PciAnswers}
    (hop : (Op.bind k a : Op pci).Allowed b) :
    (∃ f : Fault, f.OfDriver ∧ (Op.bind k a : Op pci).apply L b = .error f) ∨
    ∃ b', (Op.bind k a : Op pci).apply L b = .ok (a.status, b') ∧
      (a.status = 0 ↔ a.Granted) ∧
      (a.status = 0 → b'.cards =
        (b.setCard k (.held (b.cards k).bar0 ⟨a.bar0, a.bar2⟩)).cards) ∧
      (a.status < 0 → b' = b) ∧
      (0 < a.status → b' = b.setCard k (.stranded (b.cards k).bar0)) := by
  obtain ⟨hunbound, hdoc⟩ := hop
  have hcard := (hpci k).unseen_of_none hunbound
  -- everything is granted; there is no memory; or a later call fails
  rcases ccatPciProbe_spec (L := L) (a := a) hcard with
    ⟨hgranted, hstatus, hprobe⟩ | ⟨hdenied, hstatus, hprobe⟩ | ⟨hdenied, hstatus, hprobe⟩
  · cases hinit : functionsInit L a.init k ⟨a.bar0, a.bar2⟩
        (b.setCard k (.held (b.cards k).bar0 ⟨a.bar0, a.bar2⟩)) with
    | error f =>
      left
      refine ⟨f, functionsInit_error (b := b.setCard k _) hinv.cells hinit, ?_⟩
      show (ccatPciProbe L a k b >>= _) = .error f
      rw [hprobe, hinit]
      rfl
    | ok b' =>
      right
      refine ⟨b', ?_, by simp [hgranted, hstatus], fun _ => ?_, ?_, ?_⟩
      · rw [hstatus]
        show (ccatPciProbe L a k b >>= _) = _
        rw [hprobe, hinit]
        rfl
      · -- the functions of the card do not touch the cards
        obtain ⟨cells', cs, r, rfl, -⟩ :=
          functionsInit_spec (b := b.setCard k _) hdoc hinv.cells hinv.registry hinit
        rfl
      · exact fun hneg => by omega
      · exact fun hpos => by omega
  · -- without memory there is no driver data to forget
    right
    have hforget : b.forget k = b := by
      have hc : ({ b.cards k with ccatdev := none } : Card) = b.cards k := by rw [← hunbound]
      rw [Board.forget, hc, setCard_cards]
    have happly := bind_probed hprobe
    rw [if_neg (by omega), hforget] at happly
    refine ⟨b, happly, ?_, ?_, fun _ => rfl, ?_⟩
    · simp [hdenied, Int.ne_of_lt hstatus]
    · exact fun hzero => by omega
    · exact fun hpos => by omega
  · right
    have happly := bind_probed hprobe
    rcases Int.lt_or_gt_of_ne hstatus with hneg | hpos
    · -- the PCI core forgets the driver data, which was all that was left
      have hforget : (b.setCard k (.stranded (b.cards k).bar0)).forget k = b := by
        rw [forget_setCard]
        show b.setCard k (Card.unseen (b.cards k).bar0) = b
        rw [← hcard, setCard_cards]
      rw [if_neg (by omega), hforget] at happly
      refine ⟨b, happly, by simp [hdenied, hstatus], ?_, fun _ => rfl, ?_⟩
      · exact fun hzero => absurd hzero hstatus
      · exact fun hpos => by omega
    · -- the PCI core takes the status for a success
      rw [if_pos (by omega)] at happly
      refine ⟨_, happly, by simp [hdenied, hstatus], ?_, ?_, fun _ => rfl⟩
      · exact fun hzero => absurd hzero hstatus
      · exact fun hneg => by omega

/-- The remove of a card that is held returns, and the card is as if it had never been bound. -/
theorem unbind_held (hinv : BoardInv L b) {dev : CcatDevice}
    (hcard : b.cards k = .held (b.cards k).bar0 dev) {order : List Child}
    (horder : order.Perm (b.childrenOf k)) :
    ∃ b', (Op.unbind k order : Op pci).apply L b = .ok (0, b') ∧
      b'.cards = (b.setCard k (.unseen (b.cards k).bar0)).cards ∧ b'.childrenOf k = [] := by
  obtain ⟨reg, hremove, -⟩ := mfdRemoveDevices_spec horder hinv.registry
  have hspec := ccatPciRemove_spec hcard hremove rfl
  refine ⟨({ b with children := b.children.filter (·.card ≠ k), registry := reg } :
    Board).setCard k (.unseen (b.cards k).bar0), ?_, rfl, ?_⟩
  · show (ccatPciRemove order k b >>= _) = _
    rw [hspec]
    exact congrArg (fun x => Except.ok (0, x)) (forget_setCard _ k _)
  · simp [Board.childrenOf, Board.setCard]

/-- The remove of a card that is bound with nothing held of it unmaps `NULL`. -/
theorem unbind_stranded (hinv : BoardInv L b)
    (hcard : b.cards k = .stranded (b.cards k).bar0) {order : List Child}
    (horder : order.Perm (b.childrenOf k)) :
    (Op.unbind k order : Op pci).apply L b = .error (.notMapped 0) := by
  obtain ⟨reg, hremove, -⟩ := mfdRemoveDevices_spec horder hinv.registry
  have hdev : (b.cards k).ccatdev = some ⟨0, 0⟩ := by
    rw [hcard]
    rfl
  have hmaps : (b.cards k).maps = [] := by
    rw [hcard]
    rfl
  show (ccatPciRemove order k b >>= _) = _
  rw [ccatPciRemove, hdev]
  simp [hremove, iounmapMapped, iounmap, hmaps, bind, Except.bind, pure, Except.pure]

/-- A change of one card. -/
theorem pciInv_setCard (hpci : ∀ j, PciInv (b.cards j)) {c : Card} (hc : PciInv c) (j : Nat) :
    PciInv ((b.setCard k c).cards j) := by
  by_cases hj : j = k
  · rw [hj, setCard_self]
    exact hc
  · rw [setCard_ne b hj]
    exact hpci j

/-- No operation leaves a card half held. -/
theorem pciInv_step {op : Op pci} {r : Int × Board} (hinv : BoardInv L b)
    (hpci : ∀ j, PciInv (b.cards j)) (hop : op.Allowed b) (h : op.apply L b = .ok r) :
    ∀ j, PciInv (r.2.cards j) := by
  cases op with
  | bind k a =>
    rcases bind_pci hinv hpci hop with ⟨f, -, hf⟩ | ⟨b', hok, hiff, hzero, hneg, hpos⟩
    · rw [hf] at h
      cases h
    · rw [hok] at h
      cases h
      -- the PCI core binds the driver unless the status is negative
      rcases Int.lt_trichotomy a.status 0 with hlt | heq | hgt
      · rw [hneg hlt]
        exact hpci
      · rw [hzero heq]
        exact pciInv_setCard hpci (.held _ (hiff.mp heq).2.2.2.2.2 rfl)
      · rw [hpos hgt]
        exact pciInv_setCard hpci (.stranded rfl)
  | unbind k order =>
    obtain ⟨hbound, horder⟩ := hop
    cases hpci k with
    | unseen hcard =>
      rw [hcard] at hbound
      exact absurd rfl hbound
    | held dev _ hcard =>
      obtain ⟨b', hok, hcards, -⟩ := unbind_held hinv hcard horder
      rw [hok] at h
      cases h
      rw [hcards]
      exact pciInv_setCard hpci (.unseen rfl)
    | stranded hcard =>
      -- the remove of a stranded card does not return
      rw [unbind_stranded hinv hcard horder] at h
      cases h
  | attach i a =>
    rw [(attach_cards h).2.1]
    exact hpci
  | detach i =>
    rw [(detach_cards h).2.1]
    exact hpci
  | replace k bar0 =>
    cases h
    -- only a card without a driver can be replaced
    have hcard := (hpci k).unseen_of_none hop
    apply pciInv_setCard hpci
    rw [hcard]
    exact .unseen rfl

/-- It holds in every state of a run. -/
theorem pciInv_reach {bar0 : Nat → Nat → UInt8} (h : Reach pci L (.init bar0) b) :
    BoardInv L b ∧ ∀ j, PciInv (b.cards j) := by
  induction h with
  | refl => exact ⟨BoardInv.init L bar0, fun j => .unseen rfl⟩
  | step _ hop happly ih =>
    exact ⟨ih.1.step pci_lawful hop happly, pciInv_step ih.1 ih.2 hop happly⟩

end Runs

/-- In every state of a run, of each card the driver holds nothing, or exactly its memory, enabled
    once, its regions and the mappings of its BARs. A probe returns 0 exactly if what it needs is
    granted; one that fails with a negative status changes nothing; one that fails with a positive
    status leaves the card bound with nothing held of it; and what goes wrong in it goes wrong in
    the driver of a function. The remove of a card that is held always returns, and the card is as
    if it had never been seen; the remove of one that is bound with nothing held unmaps `NULL`. -/
theorem pci_resources (L : LongWidth) (bar0 : Nat → Nat → UInt8) (b : Board)
    (h : Reach pci L (.init bar0) b) :
    (∀ k, PciInv (b.cards k)) ∧
    (∀ k a, (Op.bind k a : Op pci).Allowed b →
      (∃ f : Fault, f.OfDriver ∧ (Op.bind k a : Op pci).apply L b = .error f) ∨
      ∃ b', (Op.bind k a : Op pci).apply L b = .ok (PciAnswers.status a, b') ∧
        (PciAnswers.status a = 0 ↔ PciAnswers.Granted a) ∧
        (PciAnswers.status a = 0 → b'.cards =
          (b.setCard k (.held (b.cards k).bar0 ⟨a.bar0, a.bar2⟩)).cards) ∧
        (PciAnswers.status a < 0 → b' = b) ∧
        (0 < PciAnswers.status a → b' = b.setCard k (.stranded (b.cards k).bar0))) ∧
    ∀ k order, (Op.unbind k order : Op pci).Allowed b →
      ((∃ dev, b.cards k = .held (b.cards k).bar0 dev) ∧
        ∃ b', (Op.unbind k order : Op pci).apply L b = .ok (0, b') ∧
          b'.cards = (b.setCard k (.unseen (b.cards k).bar0)).cards ∧ b'.childrenOf k = []) ∨
      (b.cards k = .stranded (b.cards k).bar0 ∧
        (Op.unbind k order : Op pci).apply L b = .error (.notMapped 0)) := by
  obtain ⟨hinv, hpci⟩ := pciInv_reach h
  refine ⟨hpci, fun k a hop => bind_pci hinv hpci hop, fun k order ⟨hbound, horder⟩ => ?_⟩
  cases hpci k with
  | unseen hcard =>
    -- a card that is unseen has no driver data
    rw [hcard] at hbound
    exact absurd rfl hbound
  | held dev _ hcard => exact .inl ⟨⟨dev, hcard⟩, unbind_held hinv hcard horder⟩
  | stranded hcard => exact .inr ⟨hcard, unbind_stranded hinv hcard horder⟩

/-- All is granted but the read of the revision, which fails with `PCIBIOS_DEVICE_NOT_FOUND`. -/
private def deviceNotFound : PciAnswers :=
  ⟨true, 0, 0x86, 0, 0, 0, 0x1000, 0, ⟨fun _ => true, fun _ => ⟨0, none⟩⟩⟩

/-- The card stays bound, and its remove goes wrong. -/
theorem pci_resources_deviceNotFound :
    ∃ b', (Op.bind 0 deviceNotFound : Op pci).apply .long64 (.init fun _ _ => 0) = .ok (0x86, b') ∧
      b'.cards 0 = .stranded (b'.cards 0).bar0 ∧
      (Op.unbind 0 [] : Op pci).apply .long64 b' = .error (.notMapped 0) := by
  have hop : (Op.bind 0 deviceNotFound : Op pci).Allowed (.init fun _ _ => 0) :=
    ⟨rfl, fun n d hd => by cases hd⟩
  obtain ⟨-, hbind, -⟩ := pci_resources .long64 (fun _ _ => 0) _ .refl
  rcases hbind 0 deviceNotFound hop with ⟨f, -, hf⟩ | ⟨b', hok, -, -, -, hpos⟩
  · cases hf
  · obtain rfl := hpos (by decide)
    refine ⟨_, hok, rfl, ?_⟩
    obtain ⟨-, -, hunbind⟩ := pci_resources .long64 (fun _ _ => 0) _ (.step .refl hop hok)
    rcases hunbind 0 [] ⟨nofun, .refl _⟩ with ⟨⟨dev, hheld⟩, -⟩ | ⟨-, herror⟩
    · exact absurd (congrArg Card.enabled hheld) Nat.zero_ne_one
    · exact herror

end Ccat.Native.Device
