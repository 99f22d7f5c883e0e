import Ccat.ForStd.Mealy
import Ccat.Spec.GpioSerial

/-!
# The pins of a chip are independent

`Pin` states what one pin is: a level and a direction that its own calls change, and an
input. All pins of a chip share three registers and a mutex; still each of them behaves
as if it were alone, whatever the other callers do and however their steps interleave.

## Key results

- `GpioCall.run_onPin`, `GpioCall.run_otherPin`: one call, seen from a pin
- `foldlM_onPin`: a serial run, seen from a pin
- `gpio_pins_independent`: every interleaving, seen from a pin
-/

namespace Ccat.Native.Gpio

/-! ### One pin -/

structure Pin where
  level : Bool
  output : Bool
  input : Bool
  deriving DecidableEq, Repr

/-- What can happen to a pin. -/
inductive PinEvent where
  | set (val : Int)
  | directionInput
  | directionOutput
  | get
  | input (level : Bool)
  deriving DecidableEq, Repr

/-- A pin and what its calls return; a change of the input is no call. Reading gives the
    negation, of the level of an output and of the input otherwise. -/
def pin : Mealy Pin PinEvent (Option Int) where
  step p
    | .set val => (some 0, { p with level := decide (val ≠ 0) })
    | .directionInput => (some 0, { p with output := false })
    | .directionOutput => (some 0, { p with output := true })
    | .get => (some (if (if p.output then p.level else p.input) then 0 else 1), p)
    | .input level => (none, { p with input := level })

/-! ### The chip seen from a pin -/

/-- Pin `nr` of the chip's first words. -/
def pinOf (regs : Regs) (nr : Nat) : Pin :=
  ⟨(regs 0).getLsbD nr, (regs 0x8).getLsbD nr, (regs 0x10).getLsbD nr⟩

def GpioCall.toPin : GpioCall → PinEvent
  | set _ val => .set val
  | directionInput _ => .directionInput
  | directionOutput _ _ => .directionOutput
  | get _ => .get

/-- What pin `nr` sees of an event. -/
def GpioEvent.onPin? (nr : Nat) : GpioEvent → Option PinEvent
  | .call c => if c.nr = nr then some c.toPin else none
  | .inputs lo _ => some (.input (lo.getLsbD nr))

/-- The results of the calls on pin `nr`, in order. -/
def resultsOn (nr : Nat) (rets : List (GpioCall × Int)) : List Int :=
  rets.filterMap fun x => if x.1.nr = nr then some x.2 else none

theorem resultsOn_append (nr : Nat) (rets rets' : List (GpioCall × Int)) :
    resultsOn nr (rets ++ rets') = resultsOn nr rets ++ resultsOn nr rets' :=
  List.filterMap_append ..

/-! ### One call -/

section

variable {L : LongWidth} {regs regs' : Regs} {nr : Nat}

/-- A register write returns zero. -/
theorem setBitInRegister_ret {ioaddr n : Nat} {val ret : Int}
    (h : setBitInRegister L regs ioaddr n val = some (ret, regs')) : ret = 0 := by
  simp only [setBitInRegister, Option.bind_eq_bind, Option.bind_eq_some_iff, Option.pure_def,
    Option.some.injEq, Prod.mk.injEq] at h
  obtain ⟨-, -, -, -, hret, -⟩ := h
  exact hret.symm

/-- `ccat_gpio_get()` on a pin of the first words. -/
theorem ccatGpioGet_pinOf (hnr : nr < 32) :
    (ccatGpioGet regs nr : Int) =
      if (if (pinOf regs nr).output then (pinOf regs nr).level else (pinOf regs nr).input)
      then 0 else 1 := by
  have hdiv : nr / 32 = 0 := Nat.div_eq_of_lt hnr
  have hmod : nr % 32 = nr := Nat.mod_eq_of_lt hnr
  simp only [ccatGpioGet, ccatGpioGetDirection_eq, ioread32, hdiv, hmod, Nat.mul_zero,
    Nat.add_zero, Nat.zero_add, mask_and_eq_zero_iff hnr, pinOf]
  by_cases hout : (regs 0x8).getLsbD nr = true
  · by_cases hlevel : (regs 0).getLsbD nr = true <;> simp [hout, hlevel]
  · by_cases hinput : (regs 0x10).getLsbD nr = true <;> simp [hout, hinput]

/-- A call on the pin itself. -/
theorem GpioCall.run_onPin {c : GpioCall} {ret : Int} (hnr : c.nr < 32)
    (h : c.run L regs = some (ret, regs')) :
    pin.step (pinOf regs c.nr) c.toPin = (some ret, pinOf regs' c.nr) := by
  cases c with
  | set n val =>
    simp only [run, ccatGpioSet, Option.map_map, Option.map_eq_some_iff, Prod.exists,
      Function.comp_apply, Prod.mk.injEq] at h
    obtain ⟨r, regs₁, hset, rfl, rfl⟩ := h
    simp only [GpioCall.nr] at hnr
    have hbits := fun off => setBitInRegister_of_some hset off n hnr
    simp [pin, toPin, pinOf, GpioCall.nr, hbits]
  | directionInput n =>
    have hbits := fun off => setBitInRegister_of_some h off n hnr
    simp [pin, toPin, pinOf, GpioCall.nr, hbits, setBitInRegister_ret h]
  | directionOutput n val =>
    have hbits := fun off => setBitInRegister_of_some h off n hnr
    simp [pin, toPin, pinOf, GpioCall.nr, hbits, setBitInRegister_ret h]
  -- `ccat_gpio_get()` reads one of the two registers, by the direction of the pin
  | get n =>
    simp only [run, Option.some.injEq, Prod.mk.injEq] at h
    obtain ⟨rfl, rfl⟩ := h
    simp only [GpioCall.nr] at hnr
    simp only [pin, toPin, GpioCall.nr, ccatGpioGet_pinOf hnr]

/-- A call on another pin. -/
theorem GpioCall.run_otherPin {c : GpioCall} {ret : Int} (hnr : nr < 32) (hne : c.nr ≠ nr)
    (h : c.run L regs = some (ret, regs')) : pinOf regs' nr = pinOf regs nr := by
  cases c with
  | set n val =>
    simp only [run, ccatGpioSet, Option.map_map, Option.map_eq_some_iff, Prod.exists,
      Function.comp_apply, Prod.mk.injEq] at h
    obtain ⟨r, regs₁, hset, rfl, rfl⟩ := h
    have hbits := fun off => setBitInRegister_of_some hset off nr hnr
    simp only [pinOf, hbits, (Ne.symm hne : nr ≠ n), and_false, if_false]
  | directionInput n =>
    have hbits := fun off => setBitInRegister_of_some h off nr hnr
    simp only [pinOf, hbits, (Ne.symm hne : nr ≠ n), and_false, if_false]
  | directionOutput n val =>
    have hbits := fun off => setBitInRegister_of_some h off nr hnr
    simp only [pinOf, hbits, (Ne.symm hne : nr ≠ n), and_false, if_false]
  -- a read changes no register
  | get n =>
    simp only [run, Option.some.injEq, Prod.mk.injEq] at h
    rw [h.2]

end

/-! ### Runs -/

/-- A serial run, seen from a pin: its results and its state are those of the pin alone. -/
theorem foldlM_onPin {L : LongWidth} {nr : Nat} (hnr : nr < 32) {history : List GpioEvent}
    {x y : Regs × List (GpioCall × Int)} (h : history.foldlM (GpioEvent.run L) x = some y) :
    resultsOn nr y.2 = resultsOn nr x.2 ++
        (pin.run (pinOf x.1 nr) (history.filterMap (·.onPin? nr))).1.filterMap id ∧
      pinOf y.1 nr = (pin.run (pinOf x.1 nr) (history.filterMap (·.onPin? nr))).2 := by
  induction history generalizing x with
  | nil =>
    simp only [List.foldlM_nil, Option.pure_def, Option.some.injEq] at h
    simp [h, Mealy.run]
  | cons e history ih =>
    simp only [List.foldlM_cons, Option.bind_eq_bind, Option.bind_eq_some_iff] at h
    obtain ⟨x', hrun, hrest⟩ := h
    obtain ⟨hresults, hpin⟩ := ih hrest
    rw [hresults, hpin]
    cases e with
    | call c =>
      simp only [GpioEvent.run, Option.map_eq_some_iff, Prod.exists] at hrun
      obtain ⟨ret, regs', hcall, rfl⟩ := hrun
      simp only [resultsOn_append, List.append_assoc]
      by_cases heq : c.nr = nr
      · -- the call gives the pin its answer and its next state
        subst heq
        have hstep := c.run_onPin hnr hcall
        simp [GpioEvent.onPin?, resultsOn, Mealy.run_cons, hstep]
      · -- another pin: neither an answer nor a change
        have hsame := c.run_otherPin hnr heq hcall
        simp [GpioEvent.onPin?, resultsOn, heq, hsame]
    | inputs lo hi =>
      simp only [GpioEvent.run, Option.some.injEq] at hrun
      subst hrun
      -- the inputs of all pins change at once, and this pin sees its bit
      have hpinOf : pinOf (setInputs lo hi x.1) nr =
          (pin.step (pinOf x.1 nr) (.input (lo.getLsbD nr))).2 := by
        simp [pinOf, pin, setInputs, iowrite32]
      simp [GpioEvent.onPin?, Mealy.run_cons, hpinOf, pin]

/-- **The pins of a chip are independent.** In every interleaving of any number of callers on any
    pins below 32, the calls that have returned on a pin did so with the results of that pin alone,
    given the calls on it and the changes of its input in the order in which they took effect; and
    whenever the mutex is free all of them have returned and the pin is in the state of the pin
    alone. -/
theorem gpio_pins_independent (L : LongWidth) (regs₀ : Regs) (c : Pool.Config GpioShared GpioTask)
    (hreach : (gpioCallers L).Reach ⟨{ regs := regs₀ }, 0⟩ c) (nr : Nat) (hnr : nr < 32) :
    resultsOn nr c.shared.returned <+:
        (pin.run (pinOf regs₀ nr) (c.shared.history.filterMap (·.onPin? nr))).1.filterMap id ∧
      (c.shared.locked = false →
        resultsOn nr c.shared.returned =
            (pin.run (pinOf regs₀ nr) (c.shared.history.filterMap (·.onPin? nr))).1.filterMap id ∧
          pinOf c.shared.regs nr =
            (pin.run (pinOf regs₀ nr) (c.shared.history.filterMap (·.onPin? nr))).2) := by
  obtain ⟨regs, rets, h⟩ := serialInv_reach hreach
  obtain ⟨hresults, hpin⟩ := foldlM_onPin hnr h.serial
  rw [← hpin]
  simp only [resultsOn, List.filterMap_nil, List.nil_append] at hresults
  rw [← hresults, ← resultsOn]
  constructor
  · cases hlocked : c.shared.locked with
    | false =>
      obtain ⟨-, rfl⟩ := h.free hlocked
      exact List.prefix_rfl
    | true =>
      -- the call that holds the mutex has taken effect and has not returned yet
      obtain ⟨last, hrets⟩ := h.locked hlocked
      rw [hrets, resultsOn_append]
      exact List.prefix_append ..
  · intro hfree
    obtain ⟨hregs, hrets⟩ := h.free hfree
    rw [hregs, hrets]
    exact ⟨rfl, rfl⟩

/-- Pin 5 is read while pin 3 is being set, and sees nothing of it. -/
theorem gpio_pins_independent_contended :
    ∃ c : Pool.Config GpioShared GpioTask,
      (gpioCallers .long64).Reach ⟨{ regs := fun _ => 0 }, 0⟩ c ∧
      c.shared.history = [.call (.set 3 1), .call (.get 5)] ∧
      resultsOn 5 c.shared.returned = (pin.run ⟨false, false, false⟩ [.get]).1.filterMap id ∧
      pinOf c.shared.regs 3 = (pin.run ⟨false, false, false⟩ [.set 1]).2 := by
  have hreach : ∃ c, (gpioCallers .long64).Reach ⟨{ regs := fun _ => 0 }, 0⟩ c ∧
      c.shared.history = [.call (.set 3 1), .call (.get 5)] ∧ c.shared.locked = false :=
    ⟨_, .tail (.tail (.tail (.tail (.tail (.tail (.tail (.tail (.tail (.tail .refl
      (.spawn ⟨.set 3 1, rfl, by decide⟩)) (.run rfl)) (.run rfl))
      (.spawn ⟨.get 5, rfl, by decide⟩)) (.run_second rfl)) (.run_second rfl))
      (.run rfl)) (.run rfl)) (.run rfl)) (.run rfl), rfl, rfl⟩
  obtain ⟨c, hreach, hhistory, hfree⟩ := hreach
  have h5 := (gpio_pins_independent .long64 (fun _ => 0) c hreach 5 (by decide)).2 hfree
  have h3 := (gpio_pins_independent .long64 (fun _ => 0) c hreach 3 (by decide)).2 hfree
  rw [hhistory] at h5 h3
  exact ⟨c, hreach, hhistory, h5.1, h3.2⟩

end Ccat.Native.Gpio
