import Ccat.Spec.PciCorrect

/-!
# The memory region of the EIM

`ccat_eim_probe()` does not give the region back when it cannot map it. So the region has
three phases: it is free, it belongs to the card that is bound, or it is lost to a probe
that failed. The driver follows the phases step by step, and what its probes return is
what the phases say: once the region is lost, no probe ever succeeds again.

## Key results

- `bind_eim`, `unbind_eim`: the operations of the driver core, by the phase
- `eim_region_phases`: every run follows the phases
-/

namespace Ccat.Native.Device

open Functions (CcatDevice)

/-- Who has the region. -/
inductive EimPhase where
  | free
  | bound (k : Nat)
  /-- Nobody, but it is requested. -/
  | lost
  deriving DecidableEq, Repr

/-- The status of a probe that finds the region requested. -/
def EimAnswers.busyStatus (a : EimAnswers) : Int := if a.kzalloc then - EIO else -ENOMEM

/-- What an operation returns, and the phase after it. -/
def EimPhase.next (p : EimPhase) : Op eim → Int × EimPhase
  | .bind k a =>
    match p with
    | .free =>
      if !a.kzalloc then (-ENOMEM, .free)
      else if !a.requestMemRegion then (- EIO, .free)
      else if a.ioremap = 0 then (- EIO, .lost)
      else (0, .bound k)
    | p => (EimAnswers.busyStatus a, p)
  | .unbind _ _ => (0, .free)
  | _ => (0, p)

/-- What the operations of a run return, and the phase in the end. -/
def EimPhase.run (ops : List (Op eim)) : List Int × EimPhase :=
  ops.foldl (fun s op => (s.1 ++ [(s.2.next op).1], (s.2.next op).2)) ([], .free)

/-- What the driver holds of a card that is bound. -/
def Card.eimHeld (bar0 : Nat → UInt8) (dev : CcatDevice) : Card where
  bar0 := bar0
  ccatdev := some dev
  enabled := 0
  master := false
  regions := false
  maps := [dev.bar0]

/-- A board in a phase: at most one card is bound, the others are as never seen. -/
def EimPhase.Holds (b : Board) : EimPhase → Prop
  | .free => b.eimRegion = false ∧ ∀ j, b.cards j = .unseen (b.cards j).bar0
  | .bound k => b.eimRegion = true ∧ (∃ dev, b.cards k = .eimHeld (b.cards k).bar0 dev) ∧
    ∀ j, j ≠ k → b.cards j = .unseen (b.cards j).bar0
  | .lost => b.eimRegion = true ∧ ∀ j, b.cards j = .unseen (b.cards j).bar0

section Step

variable {L : LongWidth} {b : Board} {k : Nat} {p : EimPhase} {r : Int × Board}

/-- A card without driver data is as never seen. -/
theorem EimPhase.Holds.unseen (h : p.Holds b) (hnone : (b.cards k).ccatdev = none) :
    b.cards k = .unseen (b.cards k).bar0 := by
  cases p with
  | free => exact h.2 k
  | lost => exact h.2 k
  | bound j =>
    obtain ⟨-, ⟨dev, hdev⟩, hothers⟩ := h
    by_cases hj : k = j
    · rw [hj, hdev] at hnone
      cases hnone
    · exact hothers k hj

/-- Only the card that has the region has driver data. -/
theorem EimPhase.Holds.bound_of_some (h : p.Holds b) (hsome : (b.cards k).ccatdev ≠ none) :
    p = .bound k := by
  have hnot : b.cards k ≠ .unseen (b.cards k).bar0 := by
    intro heq
    rw [heq] at hsome
    exact hsome rfl
  cases p with
  | free => exact absurd (h.2 k) hnot
  | lost => exact absurd (h.2 k) hnot
  | bound j =>
    by_cases hj : k = j
    · rw [hj]
    · exact absurd (h.2.2 k hj) hnot

/-- The region is requested in every phase but the first. -/
theorem EimPhase.Holds.region_iff (h : p.Holds b) : b.eimRegion = true ↔ p ≠ .free := by
  cases p with
  | free => simp [h.1]
  | bound j => simp [h.1]
  | lost => simp [h.1]

/-- The phase of a board depends on what is held of the cards. -/
theorem EimPhase.Holds.congr {b' : Board} (h : p.Holds b) (hregion : b'.eimRegion = b.eimRegion)
    (hcards : b'.cards = b.cards) : p.Holds b' := by
  cases p with
  | free => exact ⟨hregion.trans h.1, by rw [hcards]; exact h.2⟩
  | bound j => exact ⟨hregion.trans h.1, by rw [hcards]; exact h.2⟩
  | lost => exact ⟨hregion.trans h.1, by rw [hcards]; exact h.2⟩

/-- Another CCAT where none is bound. -/
theorem EimPhase.Holds.setUnseen (h : p.Holds b) (hcard : b.cards k = .unseen (b.cards k).bar0)
    (bar0 : Nat → UInt8) : p.Holds (b.setCard k { b.cards k with bar0 := bar0 }) := by
  -- cards that are not bound stay so
  have hunseen : ∀ j, b.cards j = .unseen (b.cards j).bar0 →
      (b.setCard k { b.cards k with bar0 := bar0 }).cards j =
        .unseen ((b.setCard k { b.cards k with bar0 := bar0 }).cards j).bar0 := by
    intro j hj
    by_cases hjk : j = k
    · rw [hjk, setCard_self, hcard]
      rfl
    · rw [setCard_ne b hjk]
      exact hj
  cases p with
  | free => exact ⟨h.1, fun j => hunseen j (h.2 j)⟩
  | lost => exact ⟨h.1, fun j => hunseen j (h.2 j)⟩
  | bound i =>
    obtain ⟨hregion, ⟨dev, hdev⟩, hothers⟩ := h
    -- the card that is bound is another one
    have hik : i ≠ k := by
      intro heq
      rw [heq, hcard] at hdev
      exact absurd (congrArg Card.ccatdev hdev) (by simp [Card.unseen, Card.eimHeld])
    refine ⟨hregion, ⟨dev, ?_⟩, fun j hj => hunseen j (hothers j hj)⟩
    rw [setCard_ne b hik]
    exact hdev

/-- A probe of a card that is not bound, by what it is answered. -/
theorem bind_eim {a : EimAnswers} {bar0 : Nat → UInt8} (hcard : b.cards k = .unseen bar0) :
    (Op.bind k a : Op eim).apply L b =
      if !a.kzalloc then .ok (-ENOMEM, b)
      else if b.eimRegion ∨ !a.requestMemRegion then .ok (- EIO, b)
      else if a.ioremap = 0 then .ok (- EIO, { b with eimRegion := true })
      else do
        let b ← functionsInit L a.init k ⟨a.ioremap, 0⟩
          (({ b with eimRegion := true } : Board).setCard k (.eimHeld bar0 ⟨a.ioremap, 0⟩))
        return (0, b) := by
  have hself : b.setCard k (.unseen bar0) = b := by rw [← hcard, setCard_cards]
  -- the memory of a probe that fails is gone
  have hforget : ∀ b' : Board, b'.cards = b.cards → ∀ dev : CcatDevice,
      (b'.setCard k { Card.unseen bar0 with ccatdev := some dev }).forget k = b' := by
    intro b' hb' dev
    rw [forget_setCard]
    show b'.setCard k (.unseen bar0) = b'
    rw [← hcard, ← hb', setCard_cards]
  show (ccatEimProbe L a k b >>= _) = _
  rw [ccatEimProbe, hcard]
  -- the answers in the order in which the driver asks for them
  by_cases hkzalloc : (!a.kzalloc) = true
  · rw [if_pos hkzalloc, if_pos hkzalloc]
    show (.ok (-ENOMEM, b.forget k) : Except Fault (Int × Board)) = _
    rw [Board.forget, hcard]
    exact congrArg (fun x => Except.ok (-ENOMEM, x)) hself
  · rw [if_neg hkzalloc, if_neg hkzalloc]
    by_cases hbusy : b.eimRegion = true ∨ (!a.requestMemRegion) = true
    · simp only [if_pos hbusy]
      exact congrArg (fun x => Except.ok (- EIO, x)) (hforget b rfl ⟨0, 0⟩)
    · simp only [if_neg hbusy]
      by_cases hmap : a.ioremap = 0
      · simp only [if_pos hmap]
        exact congrArg (fun x => Except.ok (- EIO, x))
          (hforget { b with eimRegion := true } rfl ⟨0, 0⟩)
      · simp only [if_neg hmap]
        -- all is granted: the card is held with its mapping
        have hheld : ({ iomap a.ioremap { Card.unseen bar0 with ccatdev := some ⟨0, 0⟩ } with
            ccatdev := some ⟨a.ioremap, 0⟩ } : Card) = .eimHeld bar0 ⟨a.ioremap, 0⟩ := by
          simp [iomap, hmap, Card.eimHeld, Card.unseen]
        rw [hheld]
        cases functionsInit L a.init k ⟨a.ioremap, 0⟩ (({ b with eimRegion := true } :
          Board).setCard k (.eimHeld bar0 ⟨a.ioremap, 0⟩)) with
        | error f => rfl
        | ok b' => rfl

/-- The remove of the card that is bound returns, and the region is free. -/
theorem unbind_eim (hinv : BoardInv L b) (h : (EimPhase.bound k).Holds b) {order : List Child}
    (horder : order.Perm (b.childrenOf k)) :
    ∃ b', (Op.unbind k order : Op eim).apply L b = .ok (0, b') ∧ EimPhase.free.Holds b' := by
  obtain ⟨hregion, ⟨dev, hcard⟩, hothers⟩ := h
  obtain ⟨reg, hremove, -⟩ := mfdRemoveDevices_spec horder hinv.registry
  have hdev : (b.cards k).ccatdev = some dev := by
    rw [hcard]
    rfl
  -- the mapping is there to be undone, and so is the request
  have hunmap : iounmap dev.bar0 (b.cards k) =
      .ok { Card.unseen (b.cards k).bar0 with ccatdev := some dev } := by
    rw [hcard]
    simp [iounmap, Card.eimHeld, Card.unseen, pure, Except.pure]
  have hrelease : ∀ b₁ : Board, b₁.eimRegion = true → ∀ c, releaseMemRegion (b₁.setCard k c) =
      .ok (({ b₁ with eimRegion := false } : Board).setCard k c) := fun b₁ h c => if_pos h
  let b₁ : Board := { b with children := b.children.filter (·.card ≠ k), registry := reg }
  refine ⟨({ b₁ with eimRegion := false } : Board).setCard k (.unseen (b.cards k).bar0), ?_, rfl,
    fun j => ?_⟩
  · show (ccatEimRemove order k b >>= _) = _
    rw [ccatEimRemove, hdev]
    simp only [hremove, bind, Except.bind, hunmap]
    rw [hrelease b₁ hregion]
    exact congrArg (fun x => Except.ok (0, x)) (forget_setCard _ k _)
  · by_cases hj : j = k
    · rw [hj, setCard_self]
      rfl
    · rw [setCard_ne _ hj]
      exact hothers j hj

/-- A probe that finds the region free. -/
theorem EimPhase.Holds.bind_free (hinv : BoardInv L b) (h : EimPhase.free.Holds b)
    {a : EimAnswers} (hdoc : a.init.Documented)
    (happly : (Op.bind k a : Op eim).apply L b = .ok r) :
    r.1 = (EimPhase.free.next (.bind k a)).1 ∧ (EimPhase.free.next (.bind k a)).2.Holds r.2 := by
  obtain ⟨hregion, hcards⟩ := h
  replace happly := (bind_eim (L := L) (a := a) (hcards k)).symm.trans happly
  -- the branches of the driver are those of the automaton
  simp only [EimPhase.next]
  split at happly
  · rename_i hkzalloc
    rw [if_pos hkzalloc]
    cases happly
    exact ⟨rfl, hregion, hcards⟩
  · rename_i hkzalloc
    rw [if_neg hkzalloc]
    split at happly
    · rename_i hbusy
      have hrequest : (!a.requestMemRegion) = true := by simpa [hregion] using hbusy
      rw [if_pos hrequest]
      cases happly
      exact ⟨rfl, hregion, hcards⟩
    · rename_i hbusy
      have hrequest : ¬ (!a.requestMemRegion) = true := fun h => hbusy (.inr h)
      rw [if_neg hrequest]
      split at happly
      · rename_i hmap
        rw [if_pos hmap]
        cases happly
        exact ⟨rfl, rfl, hcards⟩
      · rename_i hmap
        rw [if_neg hmap]
        obtain ⟨b', hinit, happly⟩ := Except.bind_eq_ok_iff.mp happly
        rw [← Except.pure_eq_ok_iff.mp happly]
        -- the functions of the card do not touch the cards
        obtain ⟨cells', cs, reg, rfl, -⟩ := functionsInit_spec
          (b := ({ b with eimRegion := true } : Board).setCard k _) hdoc hinv.cells
          hinv.registry hinit
        refine ⟨rfl, rfl, ⟨⟨a.ioremap, 0⟩, ?_⟩, fun j hj => ?_⟩
        · show (Board.setCard _ k _).cards k = .eimHeld ((Board.setCard _ k _).cards k).bar0 _
          rw [setCard_self]
          rfl
        · show (Board.setCard _ k _).cards j = .unseen ((Board.setCard _ k _).cards j).bar0
          rw [setCard_ne _ hj]
          exact hcards j

/-- A probe that finds the region requested already. -/
theorem EimPhase.Holds.bind_busy (h : p.Holds b) (hfree : p ≠ .free)
    (hnone : (b.cards k).ccatdev = none) {a : EimAnswers}
    (happly : (Op.bind k a : Op eim).apply L b = .ok r) :
    r.1 = (p.next (.bind k a)).1 ∧ (p.next (.bind k a)).2.Holds r.2 := by
  have hregion := h.region_iff.mpr hfree
  replace happly := (bind_eim (L := L) (a := a) (h.unseen hnone)).symm.trans happly
  -- no phase but the first one changes in a probe
  have hnext : p.next (.bind k a) = (a.busyStatus, p) := by
    cases p with
    | free => exact absurd rfl hfree
    | bound j => rfl
    | lost => rfl
  rw [hnext]
  show r.1 = (if EimAnswers.kzalloc a then - EIO else -ENOMEM) ∧ p.Holds r.2
  by_cases hkzalloc : a.kzalloc = true
  · rw [if_neg (by simp [hkzalloc]), if_pos (.inl hregion)] at happly
    rw [if_pos hkzalloc]
    cases happly
    exact ⟨rfl, h⟩
  · rw [if_pos (by simpa using hkzalloc)] at happly
    rw [if_neg hkzalloc]
    cases happly
    exact ⟨rfl, h⟩

/-- Every operation returns what the phase says, and leads to the next phase. -/
theorem EimPhase.Holds.step (hinv : BoardInv L b) (h : p.Holds b) {op : Op eim}
    (hop : op.Allowed b) (happly : op.apply L b = .ok r) :
    r.1 = (p.next op).1 ∧ (p.next op).2.Holds r.2 := by
  cases op with
  | bind k a =>
    obtain ⟨hnone, hdoc⟩ := hop
    by_cases hfree : p = .free
    · subst hfree
      exact h.bind_free hinv hdoc happly
    · exact h.bind_busy hfree hnone happly
  -- only the card that is bound can be removed
  | unbind k order =>
    obtain ⟨hsome, horder⟩ := hop
    obtain rfl := h.bound_of_some hsome
    obtain ⟨b', hok, hfree⟩ := unbind_eim hinv h horder
    rw [hok] at happly
    cases happly
    exact ⟨rfl, hfree⟩
  | attach i a =>
    obtain ⟨hstatus, hcards, hregion⟩ := attach_cards happly
    exact ⟨hstatus, h.congr hregion hcards⟩
  | detach i =>
    obtain ⟨hstatus, hcards, hregion⟩ := detach_cards happly
    exact ⟨hstatus, h.congr hregion hcards⟩
  | replace k bar0 =>
    cases happly
    have hcard := h.unseen hop
    exact ⟨rfl, h.setUnseen hcard bar0⟩

/-- One more operation. -/
theorem EimPhase.run_concat (ops : List (Op eim)) (op : Op eim) :
    EimPhase.run (ops ++ [op]) = ((EimPhase.run ops).1 ++ [((EimPhase.run ops).2.next op).1],
      ((EimPhase.run ops).2.next op).2) := by
  rw [EimPhase.run, List.foldl_append]
  rfl

end Step

/-- A probe that finds the region lost fails, and leaves it lost. -/
theorem EimPhase.next_lost (k : Nat) (a : EimAnswers) :
    (EimPhase.lost.next (.bind k a)).1 ≠ 0 ∧ (EimPhase.lost.next (.bind k a)).2 = .lost := by
  refine ⟨?_, rfl⟩
  show EimAnswers.busyStatus a ≠ 0
  rw [EimAnswers.busyStatus]
  split <;> decide

/-- In every run, what the probes return is what the phases of the region say, and the board is in
    the phase reached: the region is requested exactly while a card is bound, or after it was lost
    to a probe that could not map it. From then on it stays requested, and no card is ever bound
    again. -/
theorem eim_region_phases (L : LongWidth) (bar0 : Nat → Nat → UInt8) (ops : List (Op eim × Int))
    (b : Board) (h : Trace eim L (.init bar0) ops b) :
    (EimPhase.run (ops.map Prod.fst)).1 = ops.map Prod.snd ∧
      (EimPhase.run (ops.map Prod.fst)).2.Holds b ∧
      ((EimPhase.run (ops.map Prod.fst)).2 = .lost →
        ∀ ops' b', Trace eim L b ops' b' → b'.eimRegion = true ∧
          (∀ k, (b'.cards k).ccatdev = none) ∧
          ∀ k a status, (Op.bind k a, status) ∈ ops' → status ≠ 0) := by
  -- by induction over the run, with the good order of the board
  have hsim : (EimPhase.run (ops.map Prod.fst)).1 = ops.map Prod.snd ∧
      (EimPhase.run (ops.map Prod.fst)).2.Holds b ∧ BoardInv L b := by
    induction h with
    | nil => exact ⟨rfl, ⟨rfl, fun j => rfl⟩, BoardInv.init L bar0⟩
    | @snoc ops b op r _ hop happly ih =>
      obtain ⟨hstatuses, hphase, hinv⟩ := ih
      obtain ⟨hstatus, hnext⟩ := hphase.step hinv hop happly
      rw [List.map_append, List.map_singleton, EimPhase.run_concat]
      refine ⟨?_, hnext, hinv.step eim_lawful hop happly⟩
      rw [hstatuses, List.map_append, List.map_singleton, hstatus]
  obtain ⟨hstatuses, hphase, hinv⟩ := hsim
  refine ⟨hstatuses, hphase, fun hlost ops' b' hrun => ?_⟩
  rw [hlost] at hphase
  -- the phase in which the region is lost is never left
  have hstays : EimPhase.lost.Holds b' ∧ BoardInv L b' ∧
      ∀ k a status, (Op.bind k a, status) ∈ ops' → status ≠ 0 := by
    clear hstatuses h
    induction hrun with
    | nil => exact ⟨hphase, hinv, by simp⟩
    | @snoc ops' b' op r _ hop happly ih =>
      obtain ⟨hlost', hinv', hbinds⟩ := ih
      obtain ⟨hstatus, hnext⟩ := hlost'.step hinv' hop happly
      have hinv'' := hinv'.step eim_lawful hop happly
      -- nothing but a remove would leave the phase, and there is nothing to remove
      cases op with
      | bind k a =>
        refine ⟨hnext, hinv'', fun k' a' status hmem => ?_⟩
        rcases List.mem_append.mp hmem with hmem | hmem
        · exact hbinds k' a' status hmem
        · cases List.mem_singleton.mp hmem
          rw [hstatus]
          exact (EimPhase.next_lost k a).1
      | unbind k order =>
        cases hlost'.bound_of_some hop.1
      | attach i a =>
        exact ⟨hnext, hinv'', fun k' a' status hmem => hbinds k' a' status (by simpa using hmem)⟩
      | detach i =>
        exact ⟨hnext, hinv'', fun k' a' status hmem => hbinds k' a' status (by simpa using hmem)⟩
      | replace k bar0 =>
        exact ⟨hnext, hinv'', fun k' a' status hmem => hbinds k' a' status (by simpa using hmem)⟩
  obtain ⟨hlost', -, hbinds⟩ := hstays
  refine ⟨hlost'.1, fun k => ?_, hbinds⟩
  rw [hlost'.2 k]
  rfl

/-- A probe that cannot map the region. -/
private def unmapped : EimAnswers := ⟨true, true, 0, ⟨fun _ => true, fun _ => ⟨0, none⟩⟩⟩

/-- A probe that would be granted everything. -/
private def mapped : EimAnswers := ⟨true, true, 0x1000, ⟨fun _ => true, fun _ => ⟨0, none⟩⟩⟩

/-- After a probe that cannot map the region, one that could fails as well. -/
theorem eim_region_phases_lost :
    ∃ b, Trace eim .long32 (.init fun _ _ => 0) [(.bind 0 unmapped, -5), (.bind 0 mapped, -5)] b ∧
      b.eimRegion = true := by
  have hdoc : ∀ a : EimAnswers, a.init = ⟨fun _ => true, fun _ => ⟨0, none⟩⟩ →
      (eim.init a).Documented := by
    intro a ha n d hd
    change (a.init.mfd n).driver = some d at hd
    rw [ha] at hd
    cases hd
  let b₁ : Board := { Board.init (fun _ _ => 0) with eimRegion := true }
  -- the region was requested, but not mapped
  have hmap : (Op.bind 0 unmapped : Op eim).apply .long32 (.init fun _ _ => 0) = .ok (-5, b₁) := by
    rw [bind_eim rfl]
    rfl
  have hagain : (Op.bind 0 mapped : Op eim).apply .long32 b₁ = .ok (-5, b₁) := by
    rw [bind_eim rfl]
    rfl
  have hop : (Op.bind 0 unmapped : Op eim).Allowed (.init fun _ _ => 0) :=
    ⟨rfl, hdoc unmapped rfl⟩
  have hop' : (Op.bind 0 mapped : Op eim).Allowed b₁ := ⟨rfl, hdoc mapped rfl⟩
  have hfirst := Trace.snoc .nil hop hmap
  have hsecond := Trace.snoc .nil hop' hagain
  obtain ⟨-, -, hlost⟩ := eim_region_phases .long32 (fun _ _ => 0) _ _ hfirst
  exact ⟨_, .snoc hfirst hop' hagain, (hlost rfl _ _ hsecond).1⟩

end Ccat.Native.Device
