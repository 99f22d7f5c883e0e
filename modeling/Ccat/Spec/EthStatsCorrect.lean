import Mathlib.Logic.Function.Iterate
import Ccat.Native.EthStats
import Ccat.Spec.EthQueueCorrect

/-!
# When statistics run backwards

No update of the driver takes anything off a counter, so what has been counted never
gets less. A report shows it modulo the range of each counter, though: it does not run
backwards as long as no counter passes a multiple of its range, which an 8-bit register
of the MAC does every 256 events and a 32-bit one every 4294967296.

## Key results

- `countsUp_updates`: every update of a callback counts up or leaves the counters alone
- `StatsRun.total_le`: what has been counted, along a run
- `StatsRun.stats_le`: two reports of a run in which no counter wraps around
-/

namespace Ccat.Native.Eth

open Interleave

/-- No field of the second report is smaller than in the first. -/
structure StatsLe (a b : RtnlLinkStats64) : Prop where
  rxPackets : a.rxPackets ≤ b.rxPackets
  txPackets : a.txPackets ≤ b.txPackets
  rxBytes : a.rxBytes ≤ b.rxBytes
  txBytes : a.txBytes ≤ b.txBytes
  rxErrors : a.rxErrors ≤ b.rxErrors
  txErrors : a.txErrors ≤ b.txErrors
  rxDropped : a.rxDropped ≤ b.rxDropped
  txDropped : a.txDropped ≤ b.txDropped

/-- No counter passes a multiple of its range. -/
def NoWrap {δ : Type} (x y : StatsConfig δ) : Prop :=
  ∀ item : StatItem, y.total item / 2 ^ item.width = x.total item / 2 ^ item.width

/-! ## One step -/

section

variable {δ : Type} {v : Variant δ} {hw : Machine δ → Machine δ → Prop}

/-- The counters of the FIFOs did not lose anything. -/
structure CountersLe (n n' : Net) : Prop where
  rxBytes : n.rxBytes ≤ n'.rxBytes
  txBytes : n.txBytes ≤ n'.txBytes
  rxDropped : n.rxDropped ≤ n'.rxDropped
  txDropped : n.txDropped ≤ n'.txDropped

theorem CountersLe.refl (n : Net) : CountersLe n n := ⟨le_rfl, le_rfl, le_rfl, le_rfl⟩

/-- The update takes nothing off the counters. -/
def CountsUp (upd : Machine δ → Machine δ) : Prop := ∀ s, CountersLe s.net (upd s).net

/-- None of the updates of the driver counts down. -/
theorem countsUp_updates : QueueUpdates (CountsUp : (Machine δ → Machine δ) → Prop) where
  sameNet upd hsame s := by
    rw [hsame s]
    exact .refl _
  stop _ := ⟨le_rfl, le_rfl, le_rfl, le_rfl⟩
  full _ := ⟨le_rfl, le_rfl, le_rfl, le_rfl⟩
  drop _ := ⟨le_rfl, le_rfl, le_rfl, Nat.le_succ _⟩
  txBytes _ _ := ⟨le_rfl, Nat.le_add_right _ _, le_rfl, le_rfl⟩
  rxBytes _ _ := ⟨Nat.le_add_right _ _, le_rfl, le_rfl, le_rfl⟩
  noMem _ := ⟨le_rfl, le_rfl, Nat.le_succ _, le_rfl⟩

/-- A timer callback only counts up. -/
theorem pollTimerCallback_countsUp (hv : NetFree v) (priv : Priv) :
    (pollTimerCallback v priv).All CountsUp fun _ => True := by
  apply countsUp_updates.pollTimerCallback
  case hon => exact fun _ => ⟨le_rfl, le_rfl, le_rfl, le_rfl⟩
  case hoff => exact fun _ => ⟨le_rfl, le_rfl, le_rfl, le_rfl⟩
  case hwake => exact fun _ => ⟨le_rfl, le_rfl, le_rfl, le_rfl⟩
  case hv => exact hv

/-- The rest of a callback that is running counts up. -/
def RestCountsUp (n : NetConfig δ) : Prop :=
  ∀ prog, n.config.control = .running prog → prog.All CountsUp fun _ => True

/-- One step of the driver, its net device or its hardware. -/
theorem netStep_countersLe (hv : NetFree v) (hhw : HwNetFree hw) {n n' : NetConfig δ}
    (h : RestCountsUp n) (hstep : NetStep v hw n n') :
    CountersLe n.config.state.net n'.config.state.net ∧ RestCountsUp n' := by
  cases hstep with
  | env hR =>
    constructor
    · rw [show _ = _ from hhw _ _ hR]
      exact .refl _
    · exact h
  | timer _ =>
    refine ⟨.refl _, fun prog hprog => ?_⟩
    cases hprog
    exact pollTimerCallback_countsUp hv _
  | startXmit skb =>
    refine ⟨.refl _, fun prog hprog => ?_⟩
    cases hprog
    exact Prog.all_bind (countsUp_updates.startXmit hv _ skb) fun _ _ => trivial
  | @act upd k s a =>
    have hall := h _ rfl
    refine ⟨hall.1 s, fun prog hprog => ?_⟩
    cases hprog
    exact hall.2 s
  | pick b =>
    have hall := h _ rfl
    refine ⟨.refl _, fun prog hprog => ?_⟩
    cases hprog
    exact hall b
  | done => exact ⟨.refl _, fun prog hprog => nomatch hprog⟩
  | ccatEthOpen _ => exact ⟨.refl _, h⟩
  -- `ccat_eth_stop()` touches the queue, none of the counters
  | stopQueue _ _ => exact ⟨⟨le_rfl, le_rfl, le_rfl, le_rfl⟩, h⟩
  | cancelTimer _ => exact ⟨.refl _, h⟩

/-- One step of a run. -/
theorem statsStep_total (hv : NetFree v) (hhw : HwNetFree hw) {x y : StatsConfig δ}
    (h : RestCountsUp x.net) (hstep : StatsStep v hw x y) :
    (∀ item, x.total item ≤ y.total item) ∧ RestCountsUp y.net := by
  obtain ⟨hnet, hmac⟩ := hstep
  have hle : CountersLe x.net.config.state.net y.net.config.state.net ∧ RestCountsUp y.net := by
    cases hnet with
    | inl hnet => exact netStep_countersLe hv hhw h hnet
    | inr hnet =>
      rw [hnet]
      exact ⟨.refl _, h⟩
  refine ⟨fun item => ?_, hle.2⟩
  -- the registers count frames of the wire, the rest is counted by the driver
  cases item with
  | mac c =>
    show x.mac c ≤ y.mac c
    have := hmac c
    omega
  | rxBytes => exact hle.1.rxBytes
  | txBytes => exact hle.1.txBytes
  | rxDropped => exact hle.1.rxDropped
  | txDropped => exact hle.1.txDropped

end

/-! ## Runs -/

namespace StatsRun

variable {δ : Type} {v : Variant δ} {hw : Machine δ → Machine δ → Prop}

/-- Nothing that is left of a callback counts down, at any moment of a run. -/
theorem restCountsUp (hv : NetFree v) (hhw : HwNetFree hw) (r : StatsRun v hw) (i : Nat) :
    RestCountsUp (r.config i).net := by
  induction i with
  | zero =>
    obtain ⟨priv, hidle⟩ := r.start
    intro prog hprog
    rw [hidle] at hprog
    cases hprog
  | succ i ih => exact (statsStep_total hv hhw ih (r.step i)).2

/-- What has been counted never gets less. -/
theorem total_le (hv : NetFree v) (hhw : HwNetFree hw) (r : StatsRun v hw) (item : StatItem)
    {i j : Nat} (hij : i ≤ j) : (r.config i).total item ≤ (r.config j).total item := by
  induction hij with
  | refl => exact le_rfl
  | @step j _ ih =>
    have hstep := statsStep_total hv hhw (r.restCountsUp hv hhw j) (r.step j)
    exact Nat.le_trans ih (hstep.1 item)

/-- Without a wrap-around a counter stays in the range it is in. -/
theorem total_div_eq (r : StatsRun v hw)
    (hwrap : ∀ i, NoWrap (r.config i) (r.config (i + 1))) (item : StatItem) {i j : Nat}
    (hij : i ≤ j) :
    (r.config j).total item / 2 ^ item.width = (r.config i).total item / 2 ^ item.width := by
  induction hij with
  | refl => rfl
  | @step j _ ih => exact (hwrap j item).trans ih

/-- The value that is read from a counter. -/
theorem read_le (hv : NetFree v) (hhw : HwNetFree hw) (r : StatsRun v hw)
    (hwrap : ∀ i, NoWrap (r.config i) (r.config (i + 1))) (item : StatItem) {i j : Nat}
    (hij : i ≤ j) : (r.config i).read item ≤ (r.config j).read item := by
  have htotal := r.total_le hv hhw item hij
  have hdiv := r.total_div_eq hwrap item hij
  unfold StatsConfig.read
  -- both totals are the same multiple of the range and what is read on top of it
  rw [← Nat.div_add_mod ((r.config i).total item) (2 ^ item.width),
    ← Nat.div_add_mod ((r.config j).total item) (2 ^ item.width), hdiv] at htotal
  exact Nat.le_of_add_le_add_left htotal

/-- A later report of a run in which no counter wraps around. -/
theorem stats_le (hv : NetFree v) (hhw : HwNetFree hw) (r : StatsRun v hw)
    (hwrap : ∀ i, NoWrap (r.config i) (r.config (i + 1))) {first second : StatItem → Nat}
    (hlater : ∀ a b, first a ≤ second b) : StatsLe (r.stats first) (r.stats second) := by
  have hread : ∀ item, (r.config (first item)).read item ≤ (r.config (second item)).read item :=
    fun item => r.read_le hv hhw hwrap item (hlater item item)
  constructor
  case rxPackets => exact hread (.mac .rxFrames)
  case txPackets => exact hread (.mac .txFrames)
  case rxBytes => exact hread .rxBytes
  case txBytes => exact hread .txBytes
  case rxErrors =>
    -- a sum of four registers that are read one after another
    have hlen := hread (.mac .frameLenErr)
    have hfull := hread (.mac .rxMemFull)
    have hcrc := hread (.mac .crcErr)
    exact Nat.add_le_add (Nat.add_le_add (Nat.add_le_add hlen hfull) hcrc) (hread (.mac .rxErr))
  case txErrors => exact hread (.mac .txMemFull)
  case rxDropped => exact hread .rxDropped
  case txDropped => exact hread .txDropped

end StatsRun

/-- In both variants, of any two calls in a run in which no counter passes a multiple of its
    range, the later one reports nothing smaller. -/
theorem getStats64_monotone (r : StatsRun dma Hw) (q : StatsRun eim EimHw)
    (first second : StatItem → Nat) (hlater : ∀ a b, first a ≤ second b) :
    ((∀ i, NoWrap (r.config i) (r.config (i + 1))) → StatsLe (r.stats first) (r.stats second)) ∧
      ((∀ i, NoWrap (q.config i) (q.config (i + 1))) →
        StatsLe (q.stats first) (q.stats second)) :=
  ⟨fun hwrap => r.stats_le dma_netFree hw_netFree hwrap hlater,
    fun hwrap => q.stats_le eim_netFree eimHw_netFree hwrap hlater⟩

/-! ### Frames that the MAC counts -/

/-- Counts of the counter `c` alone, up to `most`. -/
def countUpTo (c : MacCounter) (most i : Nat) (d : MacCounter) : Nat :=
  if d = c then min i most else 0

/-- The register of the witness counts one by one. -/
theorem countUpTo_step (c : MacCounter) (most i : Nat) (d : MacCounter) :
    countUpTo c most (i + 1) d = countUpTo c most i d ∨
      countUpTo c most (i + 1) d = countUpTo c most i d + 1 := by
  unfold countUpTo
  by_cases h : d = c
  · rw [if_pos h, if_pos h]
    omega
  · rw [if_neg h, if_neg h]
    exact .inl rfl

section

variable {δ : Type} {v : Variant δ} {hw : Machine δ → Machine δ → Prop}

/-- The hardware does `f` over and over while the net device is open and no callback runs. The
    counter `c` counts this, up to `most`. -/
def hwRun (hhw : HwNetFree hw) (f : Machine δ → Machine δ) (hf : ∀ s, hw s (f s))
    (s : Machine δ) (c : MacCounter) (most : Nat) : StatsRun v hw where
  config i :=
    ⟨⟨⟨.idle ⟨oneSlotRx, oneSlotTx⟩, f^[i] s⟩, ⟨true, false, false, false, none⟩⟩,
      countUpTo c most i⟩
  start := ⟨_, rfl⟩
  step i := by
    refine ⟨.inl ?_, countUpTo_step c most i⟩
    have hrun : NetStep v hw
        ⟨⟨.idle ⟨oneSlotRx, oneSlotTx⟩, f^[i] s⟩, ⟨true, false, false, false, none⟩⟩ _ :=
      .env (hf (f^[i] s))
    rw [observe_of_carrier_eq (by rw [hhw _ _ (hf _)]), ← Function.iterate_succ_apply' f] at hrun
    exact hrun

/-- Steps of the hardware do not count frames or bytes of the driver. -/
theorem iterate_net (hhw : HwNetFree hw) {f : Machine δ → Machine δ} (hf : ∀ s, hw s (f s))
    (s : Machine δ) (i : Nat) : (f^[i] s).net = s.net := by
  induction i with
  | zero => rfl
  | succ i ih => rw [Function.iterate_succ_apply', hhw _ _ (hf _), ih]

/-- As many frames as the register can hold. -/
theorem hwRun_noWrap (hhw : HwNetFree hw) {f : Machine δ → Machine δ} (hf : ∀ s, hw s (f s))
    (s : Machine δ) {c : MacCounter} {most : Nat} (hmost : most < 2 ^ c.width) (i : Nat) :
    NoWrap ((hwRun (v := v) hhw f hf s c most).config i)
      ((hwRun (v := v) hhw f hf s c most).config (i + 1)) := by
  have hnet : (f^[i + 1] s).net = (f^[i] s).net := by
    rw [iterate_net hhw hf, iterate_net hhw hf]
  -- the register stays below its width all the time
  have hmac : ∀ j d, countUpTo c most j d / 2 ^ d.width = 0 := by
    intro j d
    apply Nat.div_eq_of_lt
    unfold countUpTo
    by_cases h : d = c
    · rw [if_pos h, h]
      omega
    · rw [if_neg h]
      exact Nat.two_pow_pos _
  intro item
  cases item with
  | mac d => exact (hmac (i + 1) d).trans (hmac i d).symm
  | rxBytes => exact congrArg (fun n : Net => n.rxBytes / 2 ^ 64) hnet
  | txBytes => exact congrArg (fun n : Net => n.txBytes / 2 ^ 64) hnet
  | rxDropped => exact congrArg (fun n : Net => n.rxDropped / 2 ^ 64) hnet
  | txDropped => exact congrArg (fun n : Net => n.txDropped / 2 ^ 64) hnet

end

/-- Frames that arrive, up to `most` of them counted. -/
def goodFrames (most : Nat) : StatsRun dma Hw :=
  hwRun hw_netFree (hwStep (.rxArrive [0xff] (by decide) (by decide))) (fun _ => ⟨_, rfl⟩)
    (DmaMachine.zeroed 0x100 0 0) .rxFrames most

/-- Frames with a bad checksum, which the MAC counts while the link is up. -/
def badFrames (most : Nat) : StatsRun dma Hw :=
  hwRun hw_netFree (hwStep (.link (2 ^ 24))) (fun _ => ⟨_, rfl⟩) (DmaMachine.zeroed 0x100 0 0)
    .crcErr most

/-- Frames that the EIM variant sent, up to `most` of them counted. -/
def sentFrames (most : Nat) : StatsRun eim EimHw :=
  hwRun eimHw_netFree (eimHwStep .txSent) (fun _ => ⟨_, rfl⟩) (EimMachine.zeroed 0x100 0x1000)
    .txFrames most

/-- A report before and one after seven frames. -/
theorem getStats64_monotone_sevenFrames :
    ((goodFrames 7).stats fun _ => 0).rxPackets = 0 ∧
      ((goodFrames 7).stats fun _ => 7).rxPackets = 7 ∧
      StatsLe ((goodFrames 7).stats fun _ => 0) ((goodFrames 7).stats fun _ => 7) ∧
      StatsLe ((sentFrames 7).stats fun _ => 0) ((sentFrames 7).stats fun _ => 7) := by
  obtain ⟨hdma, heim⟩ := getStats64_monotone (goodFrames 7) (sentFrames 7) (fun _ => 0)
    (fun _ => 7) fun _ _ => by decide
  refine ⟨rfl, rfl, hdma ?_, heim ?_⟩
  · exact hwRun_noWrap hw_netFree _ _ (by decide)
  · exact hwRun_noWrap eimHw_netFree _ _ (by decide)

/-- `rx_errors` falls from 255 to 0 with the 256th frame whose checksum is bad, and `rx_packets`
    to 0 with the 4294967296th frame. -/
theorem not_getStats64_monotone :
    ((badFrames 256).stats fun _ => 255).rxErrors = 255 ∧
      ((badFrames 256).stats fun _ => 256).rxErrors = 0 ∧
      ((goodFrames (2 ^ 32)).stats fun _ => 2 ^ 32 - 1).rxPackets = 2 ^ 32 - 1 ∧
      ((goodFrames (2 ^ 32)).stats fun _ => 2 ^ 32).rxPackets = 0 ∧
      ¬ ∀ (r : StatsRun dma Hw) (first second : StatItem → Nat), (∀ a b, first a ≤ second b) →
        StatsLe (r.stats first) (r.stats second) := by
  have hbefore : ((badFrames 256).stats fun _ => 255).rxErrors = 255 := rfl
  have hafter : ((badFrames 256).stats fun _ => 256).rxErrors = 0 := rfl
  refine ⟨hbefore, hafter, rfl, rfl, fun h => ?_⟩
  have hle := (h (badFrames 256) (fun _ => 255) (fun _ => 256) fun _ _ => by decide).rxErrors
  rw [hbefore, hafter] at hle
  exact absurd hle (by decide)

end Ccat.Native.Eth
