import Ccat.Spec.EthRxSlot

/-!
# What one receive poll takes out of the ring

`poll_rx()` takes slots out of the ring while `ready` returns a length, 31 at most.
`ready` returns 0 for a slot that was not received, and also for one whose length does
not exceed the overhead: such a slot ends every poll, and the slots behind it are not
reached.

## Key results

- `exec_receive_bind`, `exec_rxAdd_bind`: one turn of the loop
- `exec_pollRxLoop`: the loop up to the first slot that is not ready
- `pollRx_drains_iff`: when a poll takes out all that is there, up to its limit
-/

namespace Ccat.Native.Eth

open Interleave

/-- A poll has consumed the `c` slots from slot `b` on: `next` is behind them, each was cleared
    and armed again once, and nothing else in the ring has changed. -/
structure Drained (reg start b c : Nat) (s : DmaMachine) (r : Fifo × DmaMachine) : Prop where
  next : RingFifo (reg + 0x10) start (b + c) r.1
  armed : r.2.dev.rx.queue = s.dev.rx.queue ++ slots b c
  cleared : ∀ j, j < c → r.2.dev.rx.mem (start + slotOff (b + j)) =
    { s.dev.rx.mem (start + slotOff (b + j)) with rxFlags := 0 }
  others : ∀ addr, (∀ j, j < c → addr ≠ start + slotOff (b + j)) →
    r.2.dev.rx.mem addr = s.dev.rx.mem addr

/-! ### One turn of the loop -/

section

variable {α : Type} {f : Fifo} {reg start b : Nat} (oracle : Nat → Bool) (n : Nat)

/-- `ccat_eth_receive()` does not touch the device, whether or not there is memory. -/
theorem exec_receive_bind (len : Nat) (q : Unit → Prog DmaMachine α) (s : DmaMachine) :
    ∃ s' : DmaMachine,
      (ccatEthReceive dma f len >>= q).exec oracle n s = (q ()).exec oracle (n + 1) s' ∧
      s'.dev = s.dev := by
  unfold ccatEthReceive
  show ∃ s' : DmaMachine, Prog.exec oracle
    ((if oracle n = true then _ else _) >>= q) (n + 1) s = _ ∧ s'.dev = s.dev
  by_cases hmem : oracle n = true
  · rw [if_pos hmem]
    exact ⟨_, rfl, rfl⟩
  · rw [if_neg hmem]
    exact ⟨_, rfl, rfl⟩

/-- The slot at `next` is cleared and armed. -/
theorem exec_rxAdd_bind (hf : RingFifo (reg + 0x10) start b f) (q : Unit → Prog DmaMachine α)
    {s : DmaMachine} (hs : s.dev.txReg = reg) :
    ∃ s' : DmaMachine, (dma.rxOps.add f >>= q).exec oracle n s = (q ()).exec oracle n s' ∧
      s'.dev.txReg = reg ∧ s'.dev.rx.queue = s.dev.rx.queue ++ [slotOff b] ∧
      s'.dev.rx.mem =
        setFrame s.dev.rx.mem (start + slotOff b) fun fr => { fr with rxFlags := 0 } := by
  have hoff : f.next - f.start = slotOff b := by
    rw [hf.next_eq, hf.start_eq, Nat.add_sub_cancel_left]
  have hdecode : (2 ^ 31 ||| slotOff b) % 2 ^ 31 = slotOff b :=
    decode_armed (Nat.lt_trans (slotOff_lt b) (by decide))
  -- the flag is cleared first
  let s₁ : DmaMachine :=
    { s with dev.rx.mem := setFrame s.dev.rx.mem f.next fun fr => { fr with rxFlags := 0 } }
  have hexec : (dma.rxOps.add f >>= q).exec oracle n s =
      (q ()).exec oracle n (dmaIowrite32 (2 ^ 31 ||| (f.next - f.start)) f.reg s₁) := rfl
  have hs₁ : s₁.dev.txReg = reg := hs
  rw [hoff, hf.reg_eq, iowrite32_rx hs₁, hdecode] at hexec
  refine ⟨_, hexec, hs, rfl, ?_⟩
  rw [← hf.next_eq]

end

/-! ### The loop -/

section

variable {f : Fifo} {reg start b c : Nat} {s : DmaMachine}

/-- No slot consumed. -/
theorem drained_zero (hf : RingFifo (reg + 0x10) start b f) :
    Drained reg start b 0 s (f, s) where
  next := hf
  armed := (List.append_nil _).symm
  cleared j hj := absurd hj (Nat.not_lt_zero j)
  others _ _ := rfl

/-- One slot consumed, then `c` more. -/
theorem Drained.cons {s' : DmaMachine} {r : Fifo × DmaMachine} (hc : c < FIFO_LENGTH)
    (hqueue : s'.dev.rx.queue = s.dev.rx.queue ++ [slotOff b])
    (hmem : s'.dev.rx.mem =
      setFrame s.dev.rx.mem (start + slotOff b) fun fr => { fr with rxFlags := 0 })
    (h : Drained reg start (b + 1) c s' r) : Drained reg start b (c + 1) s r := by
  -- the slot consumed first is none of the others, as the ring is not walked around
  have hfirst : ∀ j, j < c → start + slotOff b ≠ start + slotOff (b + 1 + j) := by
    intro j hj heq
    exact slotOff_inj (by omega) (by omega) (Nat.add_left_cancel heq)
  constructor
  case next =>
    rw [Nat.add_comm c 1, ← Nat.add_assoc]
    exact h.next
  case armed => rw [h.armed, hqueue, slots_cons, List.append_assoc, List.singleton_append]
  case cleared =>
    intro j hj
    -- the first slot was cleared by this turn, the others by the later ones
    cases j with
    | zero =>
      rw [Nat.add_zero, h.others _ hfirst, hmem, setFrame_self]
    | succ j =>
      rw [Nat.add_comm j 1, ← Nat.add_assoc, h.cleared j (by omega), hmem]
      rw [setFrame, if_neg (hfirst j (by omega)).symm]
  case others =>
    intro addr haddr
    have hne₀ : addr ≠ start + slotOff b := haddr 0 (by omega)
    rw [h.others addr fun j hj => ?_, hmem, setFrame, if_neg hne₀]
    have hne := haddr (j + 1) (by omega)
    rwa [Nat.add_comm j 1, ← Nat.add_assoc] at hne

/-- The loop with `m` slots left to take: it consumes the slots that are ready, up to the first
    that is not. -/
theorem exec_pollRxLoop (oracle : Nat → Bool) (n m : Nat) (hf : RingFifo (reg + 0x10) start b f)
    (hs : s.dev.txReg = reg) (hm : m < FIFO_LENGTH) (hcm : c ≤ m)
    (hready : ∀ j, j < c → (s.dev.rx.mem (start + slotOff (b + j))).readyLen ≠ 0)
    (hstop : c = m ∨ (s.dev.rx.mem (start + slotOff (b + c))).readyLen = 0) :
    Drained reg start b c s
      ((pollRxLoop dma f (s.dev.rx.mem (start + slotOff b)).readyLen (m + 1)).exec oracle n s) := by
  induction c generalizing b f s n m with
  | zero =>
    -- the limit is reached, or nothing is ready
    have hend : ¬((s.dev.rx.mem (start + slotOff b)).readyLen ≠ 0 ∧ m ≠ 0) := by
      rintro ⟨hlen, hm0⟩
      exact hstop.elim (fun h => hm0 h.symm) hlen
    rw [pollRxLoop, if_neg hend]
    exact drained_zero hf
  | succ c ih =>
    obtain ⟨m, rfl⟩ : ∃ m', m = m' + 1 := ⟨m - 1, by omega⟩
    have hturn : (s.dev.rx.mem (start + slotOff b)).readyLen ≠ 0 ∧ m + 1 ≠ 0 :=
      ⟨hready 0 (by omega), by omega⟩
    rw [pollRxLoop, if_pos hturn]
    obtain ⟨s₁, hreceive, hdev⟩ := exec_receive_bind (f := f) oracle n
      (s.dev.rx.mem (start + slotOff b)).readyLen (fun _ => do
        dma.rxOps.add f
        let len ← dma.rxOps.ready (ccatEthFifoInc f)
        pollRxLoop dma (ccatEthFifoInc f) len (m + 1)) s
    obtain ⟨s₂, hadd, hreg, hqueue, hmem⟩ := exec_rxAdd_bind oracle (n + 1) hf (fun _ => do
        let len ← dma.rxOps.ready (ccatEthFifoInc f)
        pollRxLoop dma (ccatEthFifoInc f) len (m + 1)) (s := s₁) (hdev ▸ hs)
    rw [hreceive, hadd, exec_rxReady_bind, (ringFifo_inc hf).next_eq]
    rw [hdev] at hqueue hmem
    -- the slots behind the first one are as they were
    have hkeep : ∀ j, j < FIFO_LENGTH - 1 → s₂.dev.rx.mem (start + slotOff (b + 1 + j)) =
        s.dev.rx.mem (start + slotOff (b + (j + 1))) := by
      intro j hj
      rw [hmem, Nat.add_assoc, Nat.add_comm 1 j]
      exact setFrame_slot_ne s.dev.rx.mem start b _ (i := j + 1) (j := 0) (by omega) (by omega)
        (by decide)
    refine Drained.cons (by omega) hqueue hmem (ih (n + 1) m (ringFifo_inc hf) hreg (by omega)
      (by omega) (fun j hj => ?_) ?_)
    · rw [hkeep j (by omega)]
      exact hready (j + 1) (by omega)
    · rw [hkeep c (by omega)]
      exact hstop.imp_left fun h => by omega

/-- `poll_rx()` consumes the slots that are ready, up to the first that is not or to 31. -/
theorem exec_pollRx (oracle : Nat → Bool) (n : Nat) (hf : RingFifo (reg + 0x10) start b f)
    (hs : s.dev.txReg = reg) (hc : c ≤ 31)
    (hready : ∀ j, j < c → (s.dev.rx.mem (start + slotOff (b + j))).readyLen ≠ 0)
    (hstop : c = 31 ∨ (s.dev.rx.mem (start + slotOff (b + c))).readyLen = 0) :
    Drained reg start b c s ((pollRx dma f).exec oracle n s) := by
  unfold pollRx
  rw [exec_rxReady_bind, hf.next_eq]
  exact exec_pollRxLoop oracle n 31 hf hs (by decide) hc hready hstop

end

/-! ### A poll -/

/-- A slot is ready when it was received and is longer than the overhead. -/
theorem DmaFrame.readyLen_ne_zero_iff (fr : DmaFrame) :
    fr.readyLen ≠ 0 ↔ fr.Received ∧ OFFSET_RX_FLAGS < fr.length := by
  by_cases hflag : fr.Received
  · rw [readyLen_of_received hflag]
    simp only [hflag, true_and]
    split <;> omega
  · rw [readyLen_of_not_received hflag]
    simp only [hflag, false_and, ne_eq, not_true_eq_false]

/-- With `m` received slots from `next` on, a poll that is not disturbed consumes `min m 31` of
    them iff each of these is longer than the overhead. -/
theorem pollRx_drains_iff (reg start b m : Nat) (f : Fifo) (s : DmaMachine)
    (hf : RingFifo (reg + 0x10) start b f) (hs : s.dev.txReg = reg)
    (hreceived : ∀ j, j < m → (s.dev.rx.mem (start + slotOff (b + j))).Received)
    (hnext : m < FIFO_LENGTH → ¬(s.dev.rx.mem (start + slotOff (b + m))).Received)
    (oracle : Nat → Bool) (n : Nat) :
    Drained reg start b (min m 31) s ((pollRx dma f).exec oracle n s) ↔
      ∀ j, j < min m 31 → OFFSET_RX_FLAGS < (s.dev.rx.mem (start + slotOff (b + j))).length := by
  constructor
  · intro h j
    induction j using Nat.strongRecOn with
    | _ j ih =>
      intro hj
      apply Nat.lt_of_not_le
      intro hshort
      -- the poll ends at the first slot that is too short
      have hdrained : Drained reg start b j s ((pollRx dma f).exec oracle n s) := by
        refine exec_pollRx oracle n hf hs (by omega) (fun i hi => ?_) (.inr ?_)
        · exact (DmaFrame.readyLen_ne_zero_iff _).mpr
            ⟨hreceived i (by omega), ih i hi (by omega)⟩
        · apply Decidable.not_not.mp
          intro hlen
          exact Nat.not_lt.mpr hshort ((DmaFrame.readyLen_ne_zero_iff _).mp hlen).2
      have hslots : slots b (min m 31) = slots b j :=
        List.append_cancel_left (h.armed.symm.trans hdrained.armed)
      have hlen := congrArg List.length hslots
      simp only [slots, List.length_map, List.length_range] at hlen
      omega
  · intro hlong
    refine exec_pollRx oracle n hf hs (by omega) (fun j hj => ?_) ?_
    · exact (DmaFrame.readyLen_ne_zero_iff _).mpr ⟨hreceived j (by omega), hlong j hj⟩
    · by_cases hm31 : m < 31
      · rw [Nat.min_eq_left (by omega)]
        have hm64 : m < FIFO_LENGTH := Nat.lt_trans hm31 (by decide)
        exact .inr (DmaFrame.readyLen_of_not_received (hnext hm64))
      · exact .inl (by omega)

/-- A machine whose first slot was received with the given length. -/
private def firstReceived (length : Nat) : DmaMachine :=
  let s := DmaMachine.zeroed 0x1000 0 0
  { s with dev.rx.mem := setFrame s.dev.rx.mem 0 fun fr => ⟨1, length, fr.txFlags, fr.data⟩ }

private def firstRing : Fifo := ⟨0x1010, 0, 0, CCAT_ALIGNMENT - FRAME_SIZE⟩

/-- The first slot of the witness is received, the second one is not. -/
private theorem firstReceived_slots (length : Nat) :
    (∀ j, j < 1 → ((firstReceived length).dev.rx.mem (0 + slotOff (0 + j))).Received) ∧
      ¬((firstReceived length).dev.rx.mem (0 + slotOff (0 + 1))).Received := by
  refine ⟨fun j hj => ?_, ?_⟩
  · obtain rfl : j = 0 := by omega
    exact (by decide : (1 &&& CCAT_FRAME_RECEIVED) ≠ 0)
  · have hne : 0 + slotOff (0 + 1) ≠ 0 := by decide
    simp only [firstReceived, setFrame, if_neg hne]
    exact fun hflag => hflag rfl

/-- A frame of 60 bytes is taken out of the ring. -/
theorem pollRx_drains_one :
    Drained 0x1000 0 0 (min 1 31) (firstReceived 64)
      ((pollRx dma firstRing).exec (fun _ => true) 0 (firstReceived 64)) :=
  (pollRx_drains_iff 0x1000 0 0 1 firstRing (firstReceived 64) ⟨rfl, rfl, rfl, rfl⟩ rfl
    (firstReceived_slots 64).1 (fun _ => (firstReceived_slots 64).2) (fun _ => true) 0).mpr
    fun j hj => by
      obtain rfl : j = 0 := by omega
      decide

/-- A received slot whose length is the overhead alone is not taken out. -/
theorem not_drained_overhead :
    ¬ ∀ (reg start b m : Nat) (f : Fifo) (s : DmaMachine), RingFifo (reg + 0x10) start b f →
      s.dev.txReg = reg → m ≤ FIFO_LENGTH →
      (∀ j, j < m → (s.dev.rx.mem (start + slotOff (b + j))).Received) →
      (m < FIFO_LENGTH → ¬(s.dev.rx.mem (start + slotOff (b + m))).Received) →
      ∀ (oracle : Nat → Bool) (n : Nat),
        Drained reg start b (min m 31) s ((pollRx dma f).exec oracle n s) := by
  intro h
  have hdrained := h 0x1000 0 0 1 firstRing (firstReceived 4) ⟨rfl, rfl, rfl, rfl⟩ rfl (by decide)
    (firstReceived_slots 4).1 (fun _ => (firstReceived_slots 4).2) (fun _ => true) 0
  -- nothing was armed again
  have hqueue : ((pollRx dma firstRing).exec (fun _ => true) 0
      (firstReceived 4)).2.dev.rx.queue = [] := rfl
  exact absurd (hqueue.symm.trans hdrained.armed) (by decide)

end Ccat.Native.Eth
