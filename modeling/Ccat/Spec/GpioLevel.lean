import Ccat.Spec.GpioSerial

/-!
# The level of an output pin

`ccat_gpio_set()` writes the level of a pin and `ccat_gpio_direction_output()` only its
direction, so the output register shows the value of the last `ccat_gpio_set()`, however
the direction of the pin changed. `ccat_gpio_get()` returns the negation of that bit.

## Key results

- `foldlM_outputBit`: a run without `ccat_gpio_set()` on a pin keeps its level
- `ccatGpioGet_inverted`: an output reads back as the opposite of what was set
- `outputBit_iff_requested`: when an output has the level that was asked for last
-/

namespace Ccat.Native.Gpio

/-- The bit of pin `nr` in the output register. -/
def outputBit (regs : Regs) (nr : Nat) : Bool := (regs 0).getLsbD nr

/-- The value that a call asks to drive pin `nr` with. -/
def GpioCall.request? (nr : Nat) : GpioCall → Option Int
  | set n val => if n = nr then some val else none
  | directionOutput n val => if n = nr then some val else none
  | _ => none

/-- What `ccat_gpio_get()` is to return on an output when `val` was set. -/
def ReadsBack (regs : Regs) (nr : Nat) (val : Int) : Prop :=
  ccatGpioGet regs nr = if val ≠ 0 then 1 else 0

instance (regs : Regs) (nr : Nat) (val : Int) : Decidable (ReadsBack regs nr val) :=
  inferInstanceAs (Decidable (_ = _))

/-! ### One call -/

section

variable {L : LongWidth} {nr : Nat}

/-- `ccat_gpio_set()` writes the level of its own pin. -/
theorem GpioCall.run_set_outputBit {regs regs' : Regs} {n : Nat} {val ret : Int} (hnr : nr < 32)
    (h : (GpioCall.set n val).run L regs = some (ret, regs')) :
    outputBit regs' nr = if nr = n then decide (val ≠ 0) else outputBit regs nr := by
  simp only [run, ccatGpioSet, Option.map_map, Option.map_eq_some_iff, Prod.exists,
    Function.comp_apply, Prod.mk.injEq] at h
  obtain ⟨r, regs₁, hset, -, rfl⟩ := h
  rw [outputBit, setBitInRegister_of_some hset 0 nr hnr]
  simp only [true_and, outputBit]

/-- No other call changes the level of the pin. -/
theorem GpioCall.run_outputBit {regs regs' : Regs} {c : GpioCall} {ret : Int} (hnr : nr < 32)
    (hc : ∀ val, c ≠ .set nr val) (h : c.run L regs = some (ret, regs')) :
    outputBit regs' nr = outputBit regs nr := by
  cases c with
  | set n val =>
    have hne : nr ≠ n := fun heq => hc val (by rw [heq])
    rw [run_set_outputBit hnr h, if_neg hne]
  -- the direction register is not the output register
  | directionInput n =>
    rw [outputBit, setBitInRegister_of_some h 0 nr hnr, if_neg (by omega), outputBit]
  | directionOutput n val =>
    rw [outputBit, setBitInRegister_of_some h 0 nr hnr, if_neg (by omega), outputBit]
  | get n =>
    simp only [run, Option.some.injEq, Prod.mk.injEq] at h
    rw [h.2]

/-- Neither does a change of the inputs. -/
theorem GpioEvent.run_outputBit {x y : Regs × List (GpioCall × Int)} {e : GpioEvent}
    (hnr : nr < 32) (he : ∀ val, e ≠ .call (.set nr val)) (h : e.run L x = some y) :
    outputBit y.1 nr = outputBit x.1 nr := by
  cases e with
  | call c =>
    simp only [run, Option.map_eq_some_iff, Prod.exists] at h
    obtain ⟨ret, regs', hrun, rfl⟩ := h
    exact GpioCall.run_outputBit hnr (fun val hc => he val (by rw [hc])) hrun
  | inputs lo hi =>
    simp only [run, Option.some.injEq] at h
    rw [← h]
    rfl

/-! ### Runs -/

/-- A run without `ccat_gpio_set()` on the pin keeps its level. -/
theorem foldlM_outputBit {history : List GpioEvent} {x y : Regs × List (GpioCall × Int)}
    (hnr : nr < 32) (hsets : ∀ e ∈ history, ∀ val, e ≠ .call (.set nr val))
    (h : history.foldlM (GpioEvent.run L) x = some y) : outputBit y.1 nr = outputBit x.1 nr := by
  induction history generalizing x with
  | nil =>
    simp only [List.foldlM_nil, Option.pure_def, Option.some.injEq] at h
    rw [h]
  | cons e history ih =>
    simp only [List.foldlM_cons, Option.bind_eq_bind, Option.bind_eq_some_iff] at h
    obtain ⟨x', hrun, hrest⟩ := h
    rw [ih (fun e' he' => hsets e' (List.mem_cons_of_mem _ he')) hrest]
    exact GpioEvent.run_outputBit hnr (hsets e (List.mem_cons_self ..)) hrun

/-- So does one that asks for nothing on the pin. -/
theorem foldlM_outputBit_of_request {history : List GpioEvent} {x y : Regs × List (GpioCall × Int)}
    (hnr : nr < 32) (hnone : ∀ c, GpioEvent.call c ∈ history → c.request? nr = none)
    (h : history.foldlM (GpioEvent.run L) x = some y) : outputBit y.1 nr = outputBit x.1 nr := by
  apply foldlM_outputBit hnr _ h
  intro e he val heq
  subst heq
  simpa [GpioCall.request?] using hnone _ he

/-- A run that ends is a run up to a call, the call, and the run behind it. -/
theorem serialRun_split {regs regs' : Regs} {rets : List (GpioCall × Int)} {c : GpioCall}
    {before after : List GpioEvent}
    (h : serialRun L regs (before ++ .call c :: after) = some (regs', rets)) :
    ∃ regs₁ rets₁ ret regs₂, serialRun L regs before = some (regs₁, rets₁) ∧
      c.run L regs₁ = some (ret, regs₂) ∧
      after.foldlM (GpioEvent.run L) (regs₂, rets₁ ++ [(c, ret)]) = some (regs', rets) := by
  simp only [serialRun, List.foldlM_append, List.foldlM_cons, Option.bind_eq_bind,
    Option.bind_eq_some_iff] at h
  obtain ⟨⟨regs₁, rets₁⟩, hbefore, x, hcall, hafter⟩ := h
  simp only [GpioEvent.run, Option.map_eq_some_iff, Prod.exists] at hcall
  obtain ⟨ret, regs₂, hrun, rfl⟩ := hcall
  exact ⟨regs₁, rets₁, ret, regs₂, hbefore, hrun, hafter⟩

/-- On pins of the first word every run ends. -/
theorem foldlM_run_some {history : List GpioEvent}
    (hpins : ∀ c, GpioEvent.call c ∈ history → c.nr < 32) (x : Regs × List (GpioCall × Int)) :
    ∃ y, history.foldlM (GpioEvent.run L) x = some y := by
  induction history generalizing x with
  | nil => exact ⟨x, rfl⟩
  | cons e history ih =>
    have hrest := fun c hc => hpins c (List.mem_cons_of_mem _ hc)
    have hstep : ∃ x', e.run L x = some x' := by
      cases e with
      | call c =>
        obtain ⟨ret, regs', hrun⟩ := GpioCall.run_some L x.1 c (hpins c (List.mem_cons_self ..))
        exact ⟨_, by simp only [GpioEvent.run, hrun, Option.map_some]; rfl⟩
      | inputs lo hi => exact ⟨_, rfl⟩
    obtain ⟨x', hx'⟩ := hstep
    obtain ⟨y, hy⟩ := ih hrest x'
    exact ⟨y, by simp only [List.foldlM_cons, hx', Option.bind_eq_bind, Option.bind_some, hy]⟩

end

/-! ### Reading back -/

/-- After any history the output bit of a pin has the value of the last `ccat_gpio_set()` on it,
    and `ccat_gpio_get()` returns the opposite. -/
theorem ccatGpioGet_inverted (L : LongWidth) (regs regs' : Regs) (rets : List (GpioCall × Int))
    (before after : List GpioEvent) (nr : Nat) (val : Int) (hnr : nr < 32)
    (hafter : ∀ c, GpioEvent.call c ∈ after → c.request? nr = none)
    (hrun : serialRun L regs (before ++ .call (.set nr val) :: after) = some (regs', rets))
    (hout : ccatGpioGetDirection regs' nr = 0) :
    ccatGpioGet regs' nr = (if val ≠ 0 then 0 else 1) ∧ ¬ ReadsBack regs' nr val := by
  obtain ⟨regs₁, rets₁, ret, regs₂, -, hset, hrest⟩ := serialRun_split hrun
  have hkeep : outputBit regs' nr = outputBit regs₂ nr :=
    foldlM_outputBit_of_request hnr hafter hrest
  have hbit : outputBit regs' nr = decide (val ≠ 0) := by
    rw [hkeep, GpioCall.run_set_outputBit hnr hset, if_pos rfl]
  have hget : ccatGpioGet regs' nr = if val ≠ 0 then 0 else 1 := by
    rw [ccatGpioGet_output hnr hout, ← outputBit, hbit]
    by_cases hval : val = 0 <;> simp [hval]
  refine ⟨hget, ?_⟩
  rw [ReadsBack, hget]
  by_cases hval : val = 0 <;> simp [hval]

/-- Pin 3 is made an output and set. -/
private def pin3Set : List GpioEvent := [.call (.directionOutput 3 1), .call (.set 3 1)]

/-- The registers afterwards, from zeroed ones. -/
private def pin3High : Regs := iowrite32 8#32 0 (iowrite32 8#32 0x8 fun _ => 0)

/-- Pin 3 is made an output and set. -/
private theorem serialRun_pin3Set : serialRun .long64 (fun _ => 0) pin3Set =
    some (pin3High, [(.directionOutput 3 1, 0), (.set 3 1, 0)]) := rfl

/-- Pin 3 reads back as 0 after it was set. -/
theorem ccatGpioGet_inverted_pin3 :
    ccatGpioGet pin3High 3 = 0 ∧ ¬ ReadsBack pin3High 3 1 :=
  ccatGpioGet_inverted .long64 (fun _ => 0) pin3High _ [.call (.directionOutput 3 1)] [] 3 1
    (by decide) (by simp) serialRun_pin3Set (by decide)

/-- So reading back what was set is not what the code does. -/
theorem not_readsBack_pin3 :
    ¬ ∀ (L : LongWidth) (regs regs' : Regs) (rets : List (GpioCall × Int))
      (before after : List GpioEvent) (nr : Nat) (val : Int), nr < 32 →
      (∀ c, GpioEvent.call c ∈ after → c.request? nr = none) →
      serialRun L regs (before ++ .call (.set nr val) :: after) = some (regs', rets) →
      ccatGpioGetDirection regs' nr = 0 → ReadsBack regs' nr val := by
  intro h
  have hback := h .long64 (fun _ => 0) pin3High _ [.call (.directionOutput 3 1)] [] 3 1
    (by decide) (by simp) serialRun_pin3Set (by decide)
  exact absurd hback (by decide)

/-! ### The level asked for -/

/-- `ccat_gpio_direction_output()` leaves the level of the pin alone: at the end of a history an
    output has the level that the last call on it asked for iff that call was a `ccat_gpio_set()`,
    or the pin had that level before the call already. -/
theorem outputBit_iff_requested (L : LongWidth) (regs : Regs) (before after : List GpioEvent)
    (c : GpioCall) (nr : Nat) (val : Int)
    (hpins : ∀ c', GpioEvent.call c' ∈ before ++ .call c :: after → c'.nr < 32)
    (hc : c.request? nr = some val)
    (hafter : ∀ c', GpioEvent.call c' ∈ after → c'.request? nr = none) :
    ∃ regs₁ regs', (serialRun L regs before).map Prod.fst = some regs₁ ∧
      (serialRun L regs (before ++ .call c :: after)).map Prod.fst = some regs' ∧
      (ccatGpioGetDirection regs' nr = 0 →
        (outputBit regs' nr = decide (val ≠ 0) ↔
          c = .set nr val ∨ outputBit regs₁ nr = decide (val ≠ 0))) := by
  obtain ⟨⟨regs', rets⟩, hrun⟩ := foldlM_run_some (L := L) hpins (regs, [])
  obtain ⟨regs₁, rets₁, ret, regs₂, hbefore, hcall, hrest⟩ := serialRun_split hrun
  refine ⟨regs₁, regs', by rw [hbefore]; rfl, by rw [serialRun, hrun]; rfl, fun _ => ?_⟩
  have hnr : nr < 32 := by
    have hcnr := hpins c (List.mem_append_right _ (List.mem_cons_self ..))
    cases c with
    | set n v => simp [GpioCall.request?] at hc; simpa [GpioCall.nr, hc.1] using hcnr
    | directionOutput n v => simp [GpioCall.request?] at hc; simpa [GpioCall.nr, hc.1] using hcnr
    | _ => cases hc
  -- nothing behind the call touches the level
  rw [foldlM_outputBit_of_request hnr hafter hrest]
  by_cases hset : c = .set nr val
  · subst hset
    simp only [GpioCall.run_set_outputBit hnr hcall, if_true, true_or]
  · -- the call is a `ccat_gpio_direction_output()`
    have hother : ∀ val', c ≠ .set nr val' := by
      intro val' heq
      subst heq
      simp [GpioCall.request?] at hc
      exact hset (by rw [hc])
    rw [GpioCall.run_outputBit hnr hother hcall]
    simp only [hset, false_or]

/-- Pin 3 is made an output, with the level asked for left out. -/
private theorem pin3Output_run :
    (serialRun .long64 (fun _ => 0) [.call (.directionOutput 3 1)]).map Prod.fst =
      some (iowrite32 8#32 0x8 fun _ => 0) := rfl

/-- Pin 3, low before, is made an output that is to be high. -/
theorem outputBit_iff_requested_pin3 :
    ∃ regs', (serialRun .long64 (fun _ => 0) [.call (.directionOutput 3 1)]).map Prod.fst =
        some regs' ∧ ccatGpioGetDirection regs' 3 = 0 ∧ outputBit regs' 3 ≠ true := by
  obtain ⟨regs₁, regs', hbefore, hrun, hiff⟩ := outputBit_iff_requested .long64 (fun _ => 0) [] []
    (.directionOutput 3 1) 3 1 (by simp [GpioCall.nr]) rfl (by simp)
  have hout : ccatGpioGetDirection regs' 3 = 0 := by
    simp only [List.nil_append, pin3Output_run, Option.some.injEq] at hrun
    rw [← hrun]
    decide
  refine ⟨regs', hrun, hout, fun hhigh => ?_⟩
  cases hbefore
  exact absurd ((hiff hout).mp hhigh) (by decide)

/-- The pin stays low, and an output does not always have the level asked for. -/
theorem not_outputBit_requested :
    ¬ ∀ (L : LongWidth) (regs regs' : Regs) (rets : List (GpioCall × Int))
      (before after : List GpioEvent) (c : GpioCall) (nr : Nat) (val : Int),
      (∀ c', GpioEvent.call c' ∈ before ++ .call c :: after → c'.nr < 32) →
      c.request? nr = some val →
      (∀ c', GpioEvent.call c' ∈ after → c'.request? nr = none) →
      serialRun L regs (before ++ .call c :: after) = some (regs', rets) →
      ccatGpioGetDirection regs' nr = 0 → outputBit regs' nr = decide (val ≠ 0) := by
  intro h
  have hhigh := h .long64 (fun _ => 0) (iowrite32 8#32 0x8 fun _ => 0) [(.directionOutput 3 1, 0)]
    [] [] (.directionOutput 3 1) 3 1 (by simp [GpioCall.nr]) rfl (by simp) rfl (by decide)
  exact absurd hhigh (by decide)

end Ccat.Native.Gpio
