import Ccat.Native.GpioTasks
import Ccat.Spec.GpioCorrect
import Mathlib.Data.Multiset.Filter

/-!
# GPIO calls are serialisable

Whoever holds the mutex is alone with the registers: nobody else touches them, and the
inputs change only where the call does not look. So from the moment a call takes the
mutex its outcome is settled, and the invariant compares the chip with the serial run
of the history up to and including that call.

## Key results

- `access_eq_run`: the steps of an undisturbed call are the sequential function
- `SerialInv.step`: every step keeps the chip in line with the serial run
- `gpio_serialisable`: registers and results are those of the serial run
-/

namespace Ccat.Native.Gpio

/-! ### One call -/

/-- Reading the first register and doing the second access is the whole call. -/
theorem access_eq_run (L : LongWidth) (regs : Regs) (c : GpioCall) :
    GpioTask.access L (ioread32 regs c.firstRead) regs c = c.run L regs := by
  cases c with
  | set nr val =>
    simp only [GpioTask.access, GpioCall.run, ccatGpioSet, setBitInRegister, GpioTask.writeBack,
      GpioCall.firstRead]
    cases changeBit nr val ((ioread32 regs 0).setWidth L.bits) with
    | none => rfl
    | some old => cases h : changeBit nr val old <;> simp [h]
  | directionInput nr => rfl
  | directionOutput nr val => rfl
  | get nr =>
    simp only [GpioTask.access, GpioCall.run, ccatGpioGet, ccatGpioGetDirection, GpioCall.firstRead]
    congr 2
    exact (apply_ite (fun n : Nat => (n : Int)) _ 1 0).symm

/-- On pins of the first word every call ends. -/
theorem GpioCall.run_some (L : LongWidth) (regs : Regs) (c : GpioCall) (hnr : c.nr < 32) :
    ∃ ret regs', c.run L regs = some (ret, regs') := by
  cases c with
  | set nr val =>
    obtain ⟨regs', hset, -⟩ := setBitInRegister_bit L regs 0 nr val hnr
    exact ⟨0, regs', by simp [GpioCall.run, ccatGpioSet, hset]⟩
  | directionInput nr =>
    obtain ⟨regs', hset, -⟩ := setBitInRegister_bit L regs 0x8 nr 0 hnr
    exact ⟨0, regs', hset⟩
  | directionOutput nr val =>
    obtain ⟨regs', hset, -⟩ := setBitInRegister_bit L regs 0x8 nr 1 hnr
    exact ⟨0, regs', hset⟩
  | get nr => exact ⟨_, _, rfl⟩

/-- A register write is not affected by a change of the inputs. -/
private theorem setBitInRegister_setInputs {L : LongWidth} {regs regs' : Regs} {ioaddr nr : Nat}
    {val ret : Int} (lo hi : BitVec 32) (haddr : ioaddr < 0x10)
    (h : setBitInRegister L regs ioaddr nr val = some (ret, regs')) :
    setBitInRegister L (setInputs lo hi regs) ioaddr nr val =
      some (ret, setInputs lo hi regs') := by
  -- the inputs are other registers than the one that is written
  have hread : ioread32 (setInputs lo hi regs) ioaddr = ioread32 regs ioaddr := by
    simp only [ioread32, setInputs, iowrite32, if_neg (show ioaddr ≠ 0x14 by omega),
      if_neg (show ioaddr ≠ 0x10 by omega)]
  have hwrite : ∀ v, iowrite32 v ioaddr (setInputs lo hi regs) =
      setInputs lo hi (iowrite32 v ioaddr regs) := by
    intro v
    funext o
    simp only [setInputs, iowrite32]
    split <;> split <;> first | rfl | (split <;> first | rfl | omega) | omega
  simp only [setBitInRegister, Option.bind_eq_bind, Option.bind_eq_some_iff, Option.pure_def,
    Option.some.injEq, Prod.mk.injEq] at h ⊢
  obtain ⟨old, hold, new, hnew, rfl, rfl⟩ := h
  exact ⟨old, by rw [hread]; exact hold, new, hnew, rfl, hwrite _⟩

/-- The inputs may change under every call that is not a `ccat_gpio_get()`. -/
theorem GpioCall.run_setInputs {L : LongWidth} {regs regs' : Regs} {c : GpioCall} {ret : Int}
    (lo hi : BitVec 32) (hget : c.isGet = false) (h : c.run L regs = some (ret, regs')) :
    c.run L (setInputs lo hi regs) = some (ret, setInputs lo hi regs') := by
  cases c with
  | set nr val =>
    simp only [GpioCall.run, ccatGpioSet, Option.map_map, Option.map_eq_some_iff, Prod.exists,
      Function.comp_apply, Prod.mk.injEq] at h ⊢
    obtain ⟨ret', regs₁, hset, rfl, rfl⟩ := h
    exact ⟨ret', _, setBitInRegister_setInputs lo hi (by decide) hset, rfl, rfl⟩
  | directionInput nr => exact setBitInRegister_setInputs lo hi (by decide) h
  | directionOutput nr val => exact setBitInRegister_setInputs lo hi (by decide) h
  | get nr => simp [GpioCall.isGet] at hget

/-- Such a call does not look at the inputs first. -/
theorem GpioCall.firstRead_setInputs {c : GpioCall} (lo hi : BitVec 32) (regs : Regs)
    (hget : c.isGet = false) :
    ioread32 (setInputs lo hi regs) c.firstRead = ioread32 regs c.firstRead := by
  cases c with
  | get nr => exact nomatch hget
  | _ => rfl

/-! ### The invariant of all interleavings -/

section

variable (c : GpioCall) (word : BitVec 32) (ret : Int)

/-- A caller is inside from `mutex_lock()` to `mutex_unlock()`. -/
@[simp] theorem GpioTask.inside_waiting : (waiting c).inside = false := rfl
@[simp] theorem GpioTask.inside_locked : (locked c).inside = true := rfl
@[simp] theorem GpioTask.inside_loaded : (loaded c word).inside = true := rfl
@[simp] theorem GpioTask.inside_accessed : (accessed c ret).inside = true := rfl
@[simp] theorem GpioTask.inside_returned : (returned c ret).inside = false := rfl

end

/-- What is settled about a call that holds the mutex: it ends in `ret` and `regs'`. -/
def GpioTask.Settled (L : LongWidth) (regs regs' : Regs) (ret : Int) : GpioTask → Prop
  | .locked c => c.run L regs = some (ret, regs')
  | .loaded c word => c.run L regs = some (ret, regs') ∧ word = ioread32 regs c.firstRead
  | .accessed _ r => r = ret ∧ regs = regs'
  | _ => True

/-- The results of the callers that have returned. -/
def GpioTask.result? : GpioTask → Option (GpioCall × Int)
  | .returned c ret => some (c, ret)
  | _ => none

/-- The chip in line with a serial run of the history that ends in `regs'` and `rets`. -/
structure SerialInv (L : LongWidth) (regs₀ : Regs) (c : Pool.Config GpioShared GpioTask)
    (regs' : Regs) (rets : List (GpioCall × Int)) : Prop where
  serial : serialRun L regs₀ c.shared.history = some (regs', rets)
  pins : ∀ t ∈ c.threads, t.call.nr < 32
  /-- Mutual exclusion. -/
  excl : c.threads.countP (·.inside) = if c.shared.locked then 1 else 0
  free : c.shared.locked = false → c.shared.regs = regs' ∧ c.shared.returned = rets
  busy : ∀ t ∈ c.threads, t.inside → ∃ ret, rets = c.shared.returned ++ [(t.call, ret)] ∧
    t.Settled L c.shared.regs regs' ret
  results : c.threads.filterMap GpioTask.result? = ↑c.shared.returned

/-- The results do not change while a caller has none. -/
theorem filterMap_result_cons {t t' : GpioTask} (ts : Multiset GpioTask) (ht : t.result? = none)
    (ht' : t'.result? = none) : (t' ::ₘ ts).filterMap GpioTask.result? =
      (t ::ₘ ts).filterMap GpioTask.result? := by
  rw [Multiset.filterMap_cons_none _ _ ht, Multiset.filterMap_cons_none _ _ ht']

section

variable {L : LongWidth} {regs₀ regs' : Regs} {s : GpioShared} {ts : Multiset GpioTask}
  {rets : List (GpioCall × Int)}

/-- One more call of the serial run. -/
theorem serialRun_append_call {c : GpioCall} {history : List GpioEvent} {regs'' : Regs}
    {ret : Int} (h : serialRun L regs₀ history = some (regs', rets))
    (hrun : c.run L regs' = some (ret, regs'')) :
    serialRun L regs₀ (history ++ [.call c]) = some (regs'', rets ++ [(c, ret)]) := by
  unfold serialRun at h ⊢
  simp [List.foldlM_append, h, GpioEvent.run, hrun]

/-- One more change of the inputs. -/
theorem serialRun_append_inputs {history : List GpioEvent} (lo hi : BitVec 32)
    (h : serialRun L regs₀ history = some (regs', rets)) :
    serialRun L regs₀ (history ++ [.inputs lo hi]) = some (setInputs lo hi regs', rets) := by
  unfold serialRun at h ⊢
  simp [List.foldlM_append, h, GpioEvent.run]

/-- What is to be known of the callers inside, when none of the others is. -/
theorem forall_inside_cons {P : GpioTask → Prop} {t : GpioTask} (hts : ts.countP (·.inside) = 0)
    (ht : t.inside = true → P t) : ∀ u ∈ t ::ₘ ts, u.inside = true → P u := by
  intro u hu hinside
  cases Multiset.mem_cons.mp hu with
  | inl htask =>
    subst htask
    exact ht hinside
  | inr hold => exact absurd hinside (Multiset.countP_eq_zero.mp hts u hold)

/-- While one caller holds the mutex no other does. -/
theorem SerialInv.alone {t : GpioTask} (h : SerialInv L regs₀ ⟨s, t ::ₘ ts⟩ regs' rets)
    (ht : t.inside = true) :
    s.locked = true ∧ ts.countP (·.inside) = 0 := by
  have hexcl := h.excl
  simp only [Multiset.countP_cons, ht, if_true] at hexcl
  cases hlocked : s.locked with
  | false => simp [hlocked] at hexcl
  | true => exact ⟨rfl, by simpa [hlocked] using hexcl⟩

/-- `mutex_lock()` appends the call to the serial run. -/
theorem SerialInv.acquire {c : GpioCall} (h : SerialInv L regs₀ ⟨s, .waiting c ::ₘ ts⟩ regs' rets)
    (hfree : s.locked = false) :
    ∃ regs'' ret, SerialInv L regs₀
      ⟨{ s with locked := true, history := s.history ++ [.call c] }, .locked c ::ₘ ts⟩
      regs'' (rets ++ [(c, ret)]) := by
  obtain ⟨hregs, hreturned⟩ := h.free hfree
  have hpin : c.nr < 32 := h.pins (.waiting c) (Multiset.mem_cons_self _ _)
  obtain ⟨ret, regs'', hrun⟩ := c.run_some L regs' hpin
  -- with the mutex free nobody is inside
  have hexcl : ts.countP (·.inside) = 0 := by
    simpa [Multiset.countP_cons, hfree] using h.excl
  refine ⟨regs'', ret, ?_⟩
  constructor
  case serial => exact serialRun_append_call h.serial hrun
  case pins => simpa [GpioTask.call] using h.pins
  case excl => simp [Multiset.countP_cons, hexcl]
  case free => exact fun hunlocked => nomatch hunlocked
  -- the registers are those of the serial run, so the call can be run ahead of its accesses
  case busy =>
    refine forall_inside_cons hexcl fun _ => ?_
    exact ⟨ret, congrArg (· ++ [(c, ret)]) hreturned.symm, hregs ▸ hrun⟩
  case results => exact (filterMap_result_cons ts rfl rfl).trans h.results

/-- The first register read. -/
theorem SerialInv.read {c : GpioCall} (h : SerialInv L regs₀ ⟨s, .locked c ::ₘ ts⟩ regs' rets) :
    SerialInv L regs₀ ⟨s, .loaded c (ioread32 s.regs c.firstRead) ::ₘ ts⟩ regs' rets := by
  obtain ⟨ret, hrets, hrun⟩ := h.busy (.locked c) (Multiset.mem_cons_self _ _) rfl
  obtain ⟨-, hothers⟩ := h.alone rfl
  constructor
  case serial => exact h.serial
  case pins => simpa [GpioTask.call] using h.pins
  case excl => simpa [Multiset.countP_cons] using h.excl
  case free => exact h.free
  case busy => exact forall_inside_cons hothers fun _ => ⟨ret, hrets, hrun, rfl⟩
  case results => exact (filterMap_result_cons ts rfl rfl).trans h.results

/-- The second register access. -/
theorem SerialInv.access {c : GpioCall} {word : BitVec 32} {ret : Int} {regs : Regs}
    (h : SerialInv L regs₀ ⟨s, .loaded c word ::ₘ ts⟩ regs' rets)
    (haccess : GpioTask.access L word s.regs c = some (ret, regs)) :
    SerialInv L regs₀ ⟨{ s with regs }, .accessed c ret ::ₘ ts⟩ regs' rets := by
  obtain ⟨ret', hrets, hrun, hword⟩ := h.busy (.loaded c word) (Multiset.mem_cons_self _ _) rfl
  obtain ⟨hlocked, hothers⟩ := h.alone rfl
  -- nobody has touched the register since it was read
  rw [hword, access_eq_run, hrun] at haccess
  cases haccess
  constructor
  case serial => exact h.serial
  case pins => simpa [GpioTask.call] using h.pins
  case excl => simpa [Multiset.countP_cons] using h.excl
  case free => exact fun hunlocked => absurd (hlocked.symm.trans hunlocked) (by decide)
  case busy => exact forall_inside_cons hothers fun _ => ⟨_, hrets, rfl, rfl⟩
  case results => exact (filterMap_result_cons ts rfl rfl).trans h.results

/-- `mutex_unlock()`. -/
theorem SerialInv.release {c : GpioCall} {ret : Int}
    (h : SerialInv L regs₀ ⟨s, .accessed c ret ::ₘ ts⟩ regs' rets) :
    SerialInv L regs₀ ⟨{ s with locked := false, returned := s.returned ++ [(c, ret)] },
      .returned c ret ::ₘ ts⟩ regs' rets := by
  obtain ⟨ret', hrets, rfl, hregs⟩ := h.busy (.accessed c ret) (Multiset.mem_cons_self _ _) rfl
  obtain ⟨-, hothers⟩ := h.alone rfl
  constructor
  case serial => exact h.serial
  case pins => simpa [GpioTask.call] using h.pins
  case excl => simpa [Multiset.countP_cons] using hothers
  case free => exact fun _ => ⟨hregs, hrets.symm⟩
  case busy => exact forall_inside_cons hothers fun hinside => nomatch hinside
  -- the result joins the others, in the order of the unlocks
  case results =>
    have hresults := h.results
    rw [Multiset.filterMap_cons_none _ _ rfl] at hresults
    calc Multiset.filterMap GpioTask.result? (.returned c ret ::ₘ ts)
        = (c, ret) ::ₘ ts.filterMap GpioTask.result? :=
          Multiset.filterMap_cons_some GpioTask.result? _ _ rfl
      _ = (c, ret) ::ₘ ↑s.returned := by rw [hresults]
      _ = ↑(s.returned ++ [(c, ret)]) :=
          Multiset.coe_eq_coe.mpr (List.perm_append_singleton _ _).symm

/-- A change of the inputs is one more event of the serial run. -/
theorem SerialInv.inputs {lo hi : BitVec 32} (h : SerialInv L regs₀ ⟨s, ts⟩ regs' rets)
    (hget : ∀ t ∈ ts, t.inside → t.call.isGet = false) :
    SerialInv L regs₀ ⟨{ s with
      regs := setInputs lo hi s.regs
      history := s.history ++ [.inputs lo hi] }, ts⟩ (setInputs lo hi regs') rets := by
  constructor
  case serial => exact serialRun_append_inputs lo hi h.serial
  case pins => exact h.pins
  case excl => exact h.excl
  case free =>
    intro hunlocked
    obtain ⟨hregs, hreturned⟩ := h.free hunlocked
    exact ⟨congrArg (setInputs lo hi) hregs, hreturned⟩
  -- the inputs may change behind a caller that does not read them
  case busy =>
    intro t ht hinside
    obtain ⟨ret, hrets, hsettled⟩ := h.busy t ht hinside
    refine ⟨ret, hrets, ?_⟩
    cases t with
    | waiting c => trivial
    | locked c => exact c.run_setInputs lo hi (hget _ ht rfl) hsettled
    | loaded c word =>
      obtain ⟨hrun, hword⟩ := hsettled
      refine ⟨c.run_setInputs lo hi (hget _ ht rfl) hrun, ?_⟩
      rw [c.firstRead_setInputs lo hi s.regs (hget _ ht rfl)]
      exact hword
    | accessed c r => exact ⟨hsettled.1, congrArg (setInputs lo hi) hsettled.2⟩
    | returned c r => trivial
  case results => exact h.results

/-- A new caller has done nothing yet. -/
theorem SerialInv.spawn {c : GpioCall} (h : SerialInv L regs₀ ⟨s, ts⟩ regs' rets)
    (hnr : c.nr < 32) : SerialInv L regs₀ ⟨s, .waiting c ::ₘ ts⟩ regs' rets := by
  constructor
  case serial => exact h.serial
  case pins => simpa [GpioTask.call, hnr] using h.pins
  case excl => simpa [Multiset.countP_cons] using h.excl
  case free => exact h.free
  case busy =>
    intro t ht hinside
    cases Multiset.mem_cons.mp ht with
    | inl htask =>
      subst htask
      exact nomatch hinside
    | inr hold => exact h.busy t hold hinside
  case results => exact (Multiset.filterMap_cons_none _ _ rfl).trans h.results

end

/-- Every step keeps the chip in line with a serial run. -/
theorem SerialInv.step {L : LongWidth} {regs₀ : Regs} {c c' : Pool.Config GpioShared GpioTask}
    (h : ∃ regs' rets, SerialInv L regs₀ c regs' rets) (hstep : (gpioCallers L).Step c c') :
    ∃ regs' rets, SerialInv L regs₀ c' regs' rets := by
  obtain ⟨regs', rets, h⟩ := h
  cases hstep with
  | spawn hstart =>
    obtain ⟨call, rfl, hnr⟩ := hstart
    exact ⟨regs', rets, h.spawn hnr⟩
  | @run s s' ts t t' hrun =>
    replace hrun : t.next L s = some (s', t') := hrun
    cases t with
    | waiting call =>
      simp only [GpioTask.next] at hrun
      split at hrun
      · -- the mutex is taken, and the caller cannot move
        exact nomatch hrun
      · rename_i hfree
        cases hrun
        obtain ⟨regs'', ret, hinv⟩ := h.acquire (by simpa using hfree)
        exact ⟨regs'', _, hinv⟩
    | locked call =>
      cases hrun
      exact ⟨regs', rets, h.read⟩
    | loaded call word =>
      simp only [GpioTask.next, Option.map_eq_some_iff, Prod.exists, Prod.mk.injEq] at hrun
      obtain ⟨ret, regs, haccess, rfl, rfl⟩ := hrun
      exact ⟨regs', rets, h.access haccess⟩
    | accessed call ret =>
      cases hrun
      exact ⟨regs', rets, h.release⟩
    | returned call ret => exact nomatch hrun
  | env henv =>
    obtain ⟨hget, lo, hi, rfl⟩ := henv
    exact ⟨_, rets, h.inputs hget⟩

/-- Every interleaving is in line with a serial run. -/
theorem serialInv_reach {L : LongWidth} {regs₀ : Regs} {c : Pool.Config GpioShared GpioTask}
    (hreach : (gpioCallers L).Reach ⟨{ regs := regs₀ }, 0⟩ c) :
    ∃ regs' rets, SerialInv L regs₀ c regs' rets := by
  have hinit : SerialInv L regs₀ ⟨{ regs := regs₀ }, 0⟩ regs₀ [] := by
    constructor
    case serial => rfl
    case free => exact fun _ => ⟨rfl, rfl⟩
    case results => rfl
    all_goals simp
  exact Pool.reach_inv (fun _ _ => SerialInv.step) ⟨_, _, hinit⟩ hreach

/-- While the mutex is held, the serial run has the result of the call that holds it already. -/
theorem SerialInv.locked {L : LongWidth} {regs₀ regs' : Regs} {rets : List (GpioCall × Int)}
    {c : Pool.Config GpioShared GpioTask} (h : SerialInv L regs₀ c regs' rets)
    (hlocked : c.shared.locked = true) : ∃ last, rets = c.shared.returned ++ [last] := by
  have hpos : 0 < c.threads.countP (·.inside) := by
    rw [h.excl, if_pos hlocked]
    exact Nat.one_pos
  obtain ⟨t, ht, hinside⟩ := Multiset.countP_pos.mp hpos
  obtain ⟨ret, hrets, -⟩ := h.busy t ht hinside
  exact ⟨_, hrets⟩

/-- In every interleaving: the serial run of the history exists; the calls that have returned
    did so with the results of that run, in its order, all but the call that holds the mutex;
    and whenever the mutex is free the registers are those of the serial run. -/
theorem gpio_serialisable (L : LongWidth) (regs₀ : Regs) (c : Pool.Config GpioShared GpioTask)
    (hreach : (gpioCallers L).Reach ⟨{ regs := regs₀ }, 0⟩ c) :
    ∃ regs rets, serialRun L regs₀ c.shared.history = some (regs, rets) ∧
      c.threads.filterMap GpioTask.result? = ↑c.shared.returned ∧
      (c.shared.locked = false → c.shared.regs = regs ∧ c.shared.returned = rets) ∧
      (c.shared.locked = true → ∃ last, rets = c.shared.returned ++ [last]) := by
  obtain ⟨regs, rets, h⟩ := serialInv_reach hreach
  exact ⟨regs, rets, h.serial, h.results, h.free, h.locked⟩

/-- A chip whose pin 3 is an output. -/
private def pin3Output : Regs := iowrite32 8#32 0x8 fun _ => 0

/-- A `ccat_gpio_get()` that waits while pin 3 is being set. -/
theorem gpio_serialisable_contended :
    ∃ c : Pool.Config GpioShared GpioTask,
      c.threads = {.returned (.get 3) 0, .returned (.set 3 1) 0} ∧
      serialRun .long64 pin3Output [.call (.set 3 1), .call (.get 3)] =
        some (c.shared.regs, [(.set 3 1, 0), (.get 3, 0)]) := by
  have hreach : ∃ c, (gpioCallers .long64).Reach ⟨{ regs := pin3Output }, 0⟩ c ∧
      c.threads = {.returned (.get 3) 0, .returned (.set 3 1) 0} ∧ c.shared.locked = false ∧
      c.shared.history = [.call (.set 3 1), .call (.get 3)] ∧
      c.shared.returned = [(.set 3 1, 0), (.get 3, 0)] :=
    ⟨_, .tail (.tail (.tail (.tail (.tail (.tail (.tail (.tail (.tail (.tail .refl
      (.spawn ⟨.set 3 1, rfl, by decide⟩)) (.run rfl)) (.run rfl))
      -- the second caller comes while the first is between its two accesses
      (.spawn ⟨.get 3, rfl, by decide⟩)) (.run_second rfl)) (.run_second rfl))
      (.run rfl)) (.run rfl)) (.run rfl)) (.run rfl), rfl, rfl, rfl, rfl⟩
  obtain ⟨c, hreach, hthreads, hlocked, hhistory, hreturned⟩ := hreach
  obtain ⟨regs, rets, hserial, -, hfree, -⟩ := gpio_serialisable .long64 pin3Output c hreach
  obtain ⟨hregs, hrets⟩ := hfree hlocked
  rw [hhistory, ← hrets, hreturned, ← hregs] at hserial
  exact ⟨c, hthreads, hserial⟩

end Ccat.Native.Gpio
