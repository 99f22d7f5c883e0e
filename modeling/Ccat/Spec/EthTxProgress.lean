import Ccat.Spec.EthQueueCorrect
import Ccat.Spec.EthTxOrder

/-!
# The transmit queue is woken again

The queue of the net device is stopped when the ring is full, and only `poll_tx()` looks
whether there is room again. So a stopped queue stays stopped for good if the slot at
`next` is neither in flight nor flagged. This does not happen: every slot of the ring is
in the hardware's queue or flagged, except while the driver fills it or while the FIFO is
reset. Hence a timer callback that starts with a free slot at `next` ends with the queue
awake, whatever the hardware does meanwhile, or it has seen the link go down.

## Key results

- `wp_timer_wakes`: a callback that starts with a ready transmitter wakes the queue
- `txOwned_hw`, `wp_queueSkb_owned`, `wp_txFifoReset_owned`: whose the slots are
- `dma_tx_woken`, `eim_tx_woken`: no wake-up is lost, in both variants
-/

namespace Ccat.Native.Eth

open Interleave

/-! ## The timer callback -/

section Timer

variable {δ : Type} {v : Variant δ} {R : Machine δ → Machine δ → Prop} {s : Machine δ}

/-- The queue is awake, or the link is down. -/
def AwakeOrDown (s : Machine δ) : Prop := s.net.awake = true ∨ s.net.carrier = false

/-- It depends on the net device alone. -/
theorem awakeOrDown_congr {s t : Machine δ} (h : AwakeOrDown s) (hnet : t.net = s.net) :
    AwakeOrDown t := by
  unfold AwakeOrDown
  rw [hnet]
  exact h

/-- The hardware neither stops the queue nor turns the carrier on. -/
theorem awakeOrDown_stable (hR : HwNetFree R) : Stable R AwakeOrDown :=
  fun s t h hstep => awakeOrDown_congr h (hR s t hstep)

/-- The update does not put the queue to sleep. -/
def KeepsAwake (upd : Machine δ → Machine δ) : Prop := ∀ s, AwakeOrDown s → AwakeOrDown (upd s)

/-- `poll_rx()` does not. -/
theorem pollRx_keepsAwake (hv : NetFree v) (f : Fifo) :
    (pollRx v f).All KeepsAwake fun _ => True := by
  have hsame : ∀ upd : Machine δ → Machine δ, SameNet upd → KeepsAwake upd :=
    fun upd hupd s h => awakeOrDown_congr h (hupd s)
  have hall : ∀ {α : Type} {ψ : α → Prop} {prog : Prog (Machine δ) α}, prog.All SameNet ψ →
      prog.All KeepsAwake ψ := fun h => Prog.all_mono h hsame
  apply pollRx_all (I := fun _ => True)
  case hinc => exact fun _ _ => trivial
  case hready => exact fun f => hall (hv.rxReady f)
  case hadd => exact fun f _ => hall (hv.rxAdd f)
  case hcopy => exact fun f len => hall (hv.rxCopy f len)
  case hbytes => exact fun _ _ h => h
  case hnetif => exact fun _ => hsame _ fun _ => rfl
  case hnoMem => exact fun _ h => h
  case hf => trivial

/-- Neither does `poll_tx()`. -/
theorem pollTx_keepsAwake (hv : NetFree v) (f : Fifo) :
    (pollTx v f).All KeepsAwake fun _ => True := by
  refine Prog.all_bind (Prog.all_mono (hv.txReady f) fun upd hupd s h => ?_) fun _ _ => ?_
  · exact awakeOrDown_congr h (hupd s)
  · exact Prog.all_ite (Prog.all_modify fun _ _ => .inl rfl) trivial

/-- A program that does not stop the queue. -/
theorem wp_keepsAwake (hR : HwNetFree R) {α : Type} {ψ : α → Prop} {prog : Prog (Machine δ) α}
    (hall : prog.All KeepsAwake ψ) (hs : AwakeOrDown s) :
    wp R (fun _ _ => True) prog (fun _ => AwakeOrDown) s := by
  have hkeep : prog.All (fun upd => ∀ t, AwakeOrDown t → True ∧ AwakeOrDown (upd t)) ψ :=
    Prog.all_mono hall fun upd hupd t ht => ⟨trivial, hupd t ht⟩
  exact wp_mono (wp_of_all (awakeOrDown_stable hR) hs hkeep) fun _ _ h => h.2

/-- `poll_link()` without a change of the link leaves the FIFOs alone; after a change the link is
    down or the queue awake. `Free` is any assertion that the hardware keeps. -/
theorem wp_pollLink_wakes {Free : Machine δ → Prop} (hfree : Stable R Free) (priv : Priv)
    (hs : Free s) :
    wp R (fun _ _ => True) (pollLink v priv)
      (fun priv' t => AwakeOrDown t ∨ (priv' = priv ∧ Free t)) s := by
  unfold pollLink ccatEthPrivReadLinkState
  refine wp_seq (M := fun _ => Free) (wp_read hfree hs fun t ht => ⟨trivial, ht⟩)
    fun link s hs => ?_
  refine wp_seq (M := fun _ => Free) (wp_read hfree hs fun t ht => ⟨trivial, ht⟩)
    fun carrier s hs => ?_
  have hany : Stable R fun _ => True := fun _ _ _ _ => trivial
  split
  · split
    · -- the link came up, and the queue is started
      unfold ccatEthLinkUp
      refine wp_seq (wp_end (fun _ _ => trivial) _ _) fun rxFifo s _ => ?_
      refine wp_seq (wp_end (fun _ _ => trivial) _ _) fun txFifo s _ => ?_
      refine wp_seq (wp_end (fun _ _ => trivial) _ _) fun txFifo s _ => ?_
      refine wp_seq (wp_end (fun _ _ => trivial) _ _) fun _ s _ => ?_
      refine wp_seq (M := fun _ => AwakeOrDown)
        (wp_modify hany trivial fun t _ => ⟨trivial, .inl rfl⟩) fun _ s hs => ?_
      exact wp_pure (.inl hs)
    · -- the link went down, and stays so until the next poll
      unfold ccatEthLinkDown
      refine wp_seq (M := fun _ => AwakeOrDown) ?_ fun _ s hs => wp_pure (.inl hs)
      refine wp_seq (wp_end (fun _ _ => trivial) _ _) fun _ s _ => ?_
      exact wp_modify hany trivial fun t _ => ⟨trivial, .inr rfl⟩
  · exact wp_pure (.inr ⟨rfl, hs⟩)

/-- `poll_timer_callback()` with a ready transmitter, which the hardware and `poll_rx()` leave
    ready. -/
theorem wp_timer_wakes (hv : NetFree v) (hR : HwNetFree R) {priv : Priv}
    {Free : Machine δ → Prop} (hfree : Stable R Free)
    (hrx : (pollRx v priv.rxFifo).All (fun upd => ∀ s, Free s → Free (upd s)) fun _ => True)
    (hready : ∀ s, Free s →
      wp R (fun _ _ => True) (v.txOps.ready priv.txFifo) (fun ready _ => ready ≠ 0) s)
    (hs : Free s) :
    wp R (fun _ _ => True) (pollTimerCallback v priv) (fun _ => AwakeOrDown) s := by
  unfold pollTimerCallback
  refine wp_seq (wp_pollLink_wakes hfree priv hs) fun priv' s hs => ?_
  rcases hs with hs | ⟨rfl, hs⟩
  · -- the link changed: what follows does not stop the queue again
    refine wp_seq (wp_keepsAwake hR (pollRx_keepsAwake hv _) hs) fun rxFifo s hs => ?_
    refine wp_seq (wp_keepsAwake hR (pollTx_keepsAwake hv _) hs) fun _ s hs => ?_
    exact wp_pure hs
  · -- the transmitter is still ready when `poll_tx()` looks
    refine wp_seq (wp_of_all hfree hs (Prog.all_mono hrx fun upd hupd t ht =>
      ⟨trivial, hupd t ht⟩)) fun rxFifo s hs => ?_
    refine wp_seq (M := fun _ => AwakeOrDown) ?_ fun _ s hs => wp_pure hs
    unfold pollTx
    refine wp_seq (hready s hs.2) fun ready s hne => ?_
    rw [if_pos hne]
    have hany : Stable R fun _ => True := fun _ _ _ _ => trivial
    exact wp_modify hany trivial fun t _ => ⟨trivial, .inl rfl⟩

end Timer

/-! ## Whose the slots are -/

/-- Every slot of the ring is queued, held by the driver or flagged. -/
structure TxOwned (reg start : Nat) (held : Nat → Prop) (s : DmaMachine) : Prop where
  reg_eq : s.dev.txReg = reg
  base_eq : s.dev.tx.base = start
  sent : ∀ k, slotOff k ∉ s.dev.tx.queue → ¬held (slotOff k) →
    (s.dev.tx.mem (start + slotOff k)).Sent

section Owned

variable {reg start off : Nat} {held held' : Nat → Prop} {s t : DmaMachine} {f : Fifo}

/-- Who owns the slots depends on the TX FIFO alone. -/
theorem TxOwned.congr (h : TxOwned reg start held s) (hsame : SameTx s t) :
    TxOwned reg start held t := by
  obtain ⟨hreg, hbase, hsent⟩ := h
  refine ⟨hsame.reg_eq.trans hreg, ?_, ?_⟩
  · rw [hsame.tx_eq]
    exact hbase
  · rw [hsame.tx_eq]
    exact hsent

/-- The hardware flags what it takes out of its queue. -/
theorem txOwned_hw (h : TxOwned reg start held s) (hR : Hw s t) : TxOwned reg start held t := by
  cases hR.effect with
  | lost p _ => exact h.congr ⟨rfl, rfl, rfl, rfl, rfl⟩
  | stored p off queue _ _ => exact h.congr ⟨rfl, rfl, rfl, rfl, rfl⟩
  | wire off queue _ _ => exact ⟨h.reg_eq, h.base_eq, h.sent⟩
  | done off queue hqueue _ =>
    obtain ⟨hreg, rfl, hsent⟩ := h
    refine ⟨hreg, rfl, fun k hnot hheld => ?_⟩
    show (setFrame s.dev.tx.mem _ _ _).Sent
    -- the slot that leaves the queue is completed, and the others are as before
    by_cases heq : slotOff k = off
    · rw [heq, setFrame_self]
      exact DmaFrame.complete_sent _
    · rw [setFrame_ne _ _ _ heq]
      refine hsent k ?_ hheld
      rw [hqueue]
      exact fun hin => (List.mem_cons.mp hin).elim heq hnot
  | link w => exact h.congr ⟨rfl, rfl, rfl, rfl, rfl⟩
  | nothing => exact h

theorem txOwned_stable : Stable Hw (TxOwned reg start held) := fun _ _ h hR => txOwned_hw h hR

/-- An assignment to one slot. -/
theorem TxOwned.write (h : TxOwned reg start held s) (g : DmaFrame → DmaFrame)
    (hheld : ∀ o, ¬held' o → o ≠ off → ¬held o)
    (hoff : ¬held' off → (g (s.dev.tx.mem (start + off))).Sent) :
    TxOwned reg start held'
      { s with dev.tx.mem := setFrame s.dev.tx.mem (start + off) g } := by
  refine ⟨h.reg_eq, h.base_eq, fun k hnot hk => ?_⟩
  show (setFrame s.dev.tx.mem _ _ _).Sent
  by_cases heq : slotOff k = off
  · rw [heq, setFrame_self]
    exact hoff (heq ▸ hk)
  · rw [setFrame_ne _ _ _ heq]
    exact h.sent k hnot (hheld _ hk heq)

/-- `fifo_dma_queue_skb()` holds the slot until it is queued. -/
theorem wp_queueSkb_owned {k : Nat} (hf : RingFifo reg start k f) (skb : Skb)
    (hs : TxOwned reg start (fun _ => False) s) :
    wp Hw (fun _ _ => True) (fifoDmaQueueSkb f skb)
      (fun _ => TxOwned reg start fun _ => False) s := by
  -- while the driver holds the slot its flag says nothing
  have hheld : ∀ t g, TxOwned reg start (fun o => o = slotOff k) t →
      TxOwned reg start (fun o => o = slotOff k)
        { t with dev.tx.mem := setFrame t.dev.tx.mem (start + slotOff k) g } :=
    fun t g ht => ht.write g (fun o ho _ => ho) fun hne => absurd rfl hne
  unfold fifoDmaQueueSkb
  rw [hf.next_eq]
  refine wp_seq (M := fun _ => TxOwned reg start fun o => o = slotOff k) ?_ fun _ s hs => ?_
  · refine wp_modify txOwned_stable hs fun t ht => ⟨trivial, ?_⟩
    exact ht.write _ (fun _ _ _ h => h) fun hne => absurd rfl hne
  refine wp_seq (M := fun _ => TxOwned reg start fun o => o = slotOff k)
    (wp_modify txOwned_stable hs fun t ht => ⟨trivial, hheld t _ ht⟩) fun _ s hs => ?_
  refine wp_seq (M := fun _ => TxOwned reg start fun o => o = slotOff k)
    (wp_modify txOwned_stable hs fun t ht => ⟨trivial, hheld t _ ht⟩) fun _ s hs => ?_
  refine wp_modify txOwned_stable hs fun t ht => ⟨trivial, ?_⟩
  have hwrite := iowrite32_tx (s := { t with txLog := t.txLog ++ [.queued skb.data] }) ht.reg_eq
    (addrAndLength f skb.len)
  -- the descriptor leads to the slot the driver holds
  rw [hf.reg_eq, hwrite, decode_addrAndLength hf]
  refine ⟨ht.reg_eq, ht.base_eq, fun j hnot _ => ?_⟩
  refine ht.sent j (fun hin => hnot (List.mem_append_left _ hin)) fun heq => hnot ?_
  exact List.mem_append_right _ (by rw [heq]; exact List.mem_singleton_self _)

/-- A program that does not touch the TX FIFO keeps the slots accounted for. -/
theorem wp_owned_of_keepsTx {α : Type} {ψ : α → Prop} {prog : Prog DmaMachine α}
    (hall : prog.All (KeepsTx reg) ψ) (hs : TxOwned reg start held s) :
    wp Hw (fun _ _ => True) prog (fun a t => ψ a ∧ TxOwned reg start held t) s := by
  refine wp_of_all txOwned_stable hs (Prog.all_mono hall fun upd hupd t ht => ?_)
  exact ⟨trivial, ht.congr (hupd t ht.reg_eq)⟩

/-- An update of the net device, which the log may record. -/
theorem wp_owned_modify {upd : DmaMachine → DmaMachine} (hdev : ∀ s, (upd s).dev = s.dev)
    (hs : TxOwned reg start held s) :
    wp Hw (fun _ _ => True) (.modify upd) (fun _ => TxOwned reg start held) s := by
  refine wp_modify txOwned_stable hs fun t ht => ⟨trivial, ?_, ?_, ?_⟩
  · rw [hdev]
    exact ht.reg_eq
  · rw [hdev]
    exact ht.base_eq
  · rw [hdev]
    exact ht.sent

/-- `ccat_eth_start_xmit()` ends with no slot in the hands of the driver, whether or not the queue
    was awake. -/
theorem wp_startXmit_owned {k : Nat} (hf : RingFifo reg start k f) (skb : Skb)
    (hs : TxOwned reg start (fun _ => False) s) :
    wp Hw (fun _ _ => True) (ccatEthStartXmit dma f skb)
      (fun r t => (∃ k, RingFifo reg start k r.2) ∧ TxOwned reg start (fun _ => False) t) s := by
  -- looking at a slot does not change who owns it
  have hready : ∀ f s, TxOwned reg start (fun _ => False) s →
      wp Hw (fun _ _ => True) (dma.txOps.ready f)
        (fun _ => TxOwned reg start fun _ => False) s :=
    fun f s hs => wp_read txOwned_stable hs fun t ht => ⟨trivial, ht⟩
  have hdrop : wp Hw (fun _ _ => True) (do Prog.modify txDrop; return (NetdevTx.ok, f))
      (fun r t => (∃ k, RingFifo reg start k r.2) ∧ TxOwned reg start (fun _ => False) t) s :=
    wp_seq (wp_owned_modify (fun _ => rfl) hs) fun _ t ht => wp_pure ⟨⟨k, hf⟩, ht⟩
  unfold ccatEthStartXmit
  split
  · exact hdrop
  · split
    · exact hdrop
    · refine wp_seq (hready f s hs) fun ready s hs => ?_
      split
      · refine wp_seq (wp_owned_modify (fun _ => rfl) hs) fun _ t ht => ?_
        exact wp_pure ⟨⟨k, hf⟩, ht⟩
      · refine wp_seq (wp_queueSkb_owned hf skb hs) fun _ s hs => ?_
        refine wp_seq (wp_owned_modify (fun _ => rfl) hs) fun _ s hs => ?_
        refine wp_seq (hready _ s hs) fun ready s hs => ?_
        split
        · refine wp_seq (wp_owned_modify (fun _ => rfl) hs) fun _ t ht => ?_
          exact wp_pure ⟨⟨k + 1, ringFifo_inc hf⟩, ht⟩
        · exact wp_pure ⟨⟨k + 1, ringFifo_inc hf⟩, hs⟩

/-- The slots behind the first `n`. -/
def BehindFirst (n o : Nat) : Prop := ∀ j, j < n → o ≠ slotOff j

/-- `ccat_eth_fifo_reset()` flags slot by slot, and at its end holds none. -/
theorem wp_txFifoReset_owned (hreg : f.reg = reg) (hstart : f.start = start)
    (hend : f.fifoEnd = start + CCAT_ALIGNMENT - FRAME_SIZE) (hne : reg ≠ 0)
    (hs : s.dev.txReg = reg ∧ s.dev.tx.base = start) :
    wp Hw (fun _ _ => True) (ccatEthFifoReset dma ccatEthTxFifoDmaAddFree f)
      (fun f' t => RingFifo reg start 0 f' ∧ TxOwned reg start (fun _ => False) t) s := by
  -- at first nothing is known of any slot
  have hall : TxOwned reg start (fun _ => True) s := ⟨hs.1, hs.2, fun _ _ h => absurd trivial h⟩
  unfold ccatEthFifoReset ccatEthFifoHwReset
  rw [if_pos (by rw [hreg]; exact hne)]
  refine wp_seq (M := fun _ => TxOwned reg start (BehindFirst 0)) ?_ fun _ s hs => ?_
  · refine wp_modify txOwned_stable hall fun t ht => ⟨trivial, ?_⟩
    show TxOwned reg start _ (dmaIowrite32 0 (f.reg + 0x8) t)
    rw [hreg, iowrite32_txReset ht.reg_eq]
    exact ⟨ht.reg_eq, ht.base_eq, fun k _ h => absurd (fun j hj => absurd hj (Nat.not_lt_zero j)) h⟩
  · have hf : RingFifo reg start 0 { f with next := f.start } :=
      ringFifo_start hreg hstart hend
    refine wp_mono (wp_addSlots (fun n => TxOwned reg start (BehindFirst n)) ?_ (by decide) hf hs)
      fun f' t ht => ⟨ht.1, ht.2.reg_eq, ht.2.base_eq, fun k hnot _ => ?_⟩
    · intro k hk f s hf hs
      unfold ccatEthTxFifoDmaAddFree
      rw [hf.next_eq]
      refine wp_modify txOwned_stable hs fun t ht => ⟨trivial, ht.write _ ?_ fun _ => ?_⟩
      · -- the slots flagged so far are the first `k`, and now `k` itself
        intro o ho hne hbehind
        refine ho fun j hj => ?_
        rcases Nat.lt_or_ge j k with hlt | hge
        · exact hbehind j hlt
        · obtain rfl : j = k := by omega
          exact hne
      · show CCAT_FRAME_SENT &&& CCAT_FRAME_SENT ≠ 0
        decide
    · -- no slot is behind all 64
      refine ht.2.sent k hnot fun hbehind => ?_
      refine hbehind (k % FIFO_LENGTH) (Nat.mod_lt _ (by decide)) ?_
      unfold slotOff
      rw [Nat.mod_mod]

/-! ## Callbacks -/

/-- What holds of the ring between callbacks. -/
def TxOwnedJ (reg start : Nat) (priv : Priv) (s : DmaMachine) : Prop :=
  (∃ k, RingFifo reg start k priv.txFifo) ∧ priv.rxFifo.reg = reg + 0x10 ∧
    TxOwned reg start (fun _ => False) s

/-- `ccat_eth_link_up()` gives all slots back and uses the first one. -/
theorem wp_linkUp_owned {priv : Priv} (hne : reg ≠ 0) (hs : TxOwnedJ reg start priv s) :
    wp Hw (fun _ _ => True) (ccatEthLinkUp dma priv) (TxOwnedJ reg start) s := by
  obtain ⟨⟨k, hf⟩, hrx, hs⟩ := hs
  unfold ccatEthLinkUp ccatEthXmitRaw
  refine wp_seq (wp_owned_of_keepsTx (rxFifoReset_keepsTx hrx) hs) fun rxFifo s hs₁ => ?_
  refine wp_seq (wp_txFifoReset_owned hf.reg_eq hf.start_eq hf.end_eq hne
    ⟨hs₁.2.reg_eq, hs₁.2.base_eq⟩) fun txFifo s hs => ?_
  refine wp_seq (M := fun f t => (∃ k, RingFifo reg start k f) ∧
    TxOwned reg start (fun _ => False) t) ?_ fun txFifo s hs => ?_
  · exact wp_seq (wp_startXmit_owned hs.1 _ hs.2) fun r t ht => wp_pure ht
  refine wp_seq (wp_owned_modify (fun _ => rfl) hs.2) fun _ t ht => ?_
  refine wp_seq (wp_owned_modify (fun _ => rfl) ht) fun _ t ht => ?_
  exact wp_pure ⟨hs.1, hs₁.1, ht⟩

/-- A timer callback ends with no slot in the hands of the driver. -/
theorem wp_pollTimerCallback_owned {priv : Priv} (hne : reg ≠ 0)
    (hs : TxOwnedJ reg start priv s) :
    wp Hw (fun _ _ => True) (pollTimerCallback dma priv) (TxOwnedJ reg start) s := by
  have hread : ∀ {α : Type} (g : DmaMachine → α) {s}, TxOwned reg start (fun _ => False) s →
      wp Hw (fun _ _ => True) (.read g) (fun _ => TxOwned reg start fun _ => False) s :=
    fun g s hs => wp_read txOwned_stable hs fun t ht => ⟨trivial, ht⟩
  unfold pollTimerCallback
  refine wp_seq (M := TxOwnedJ reg start) ?_ fun priv s hs => ?_
  · obtain ⟨hf, hrx, hs⟩ := hs
    unfold pollLink ccatEthPrivReadLinkState
    refine wp_seq (hread _ hs) fun link s hs => ?_
    refine wp_seq (hread _ hs) fun carrier s hs => ?_
    split
    · split
      · exact wp_linkUp_owned hne ⟨hf, hrx, hs⟩
      · unfold ccatEthLinkDown
        refine wp_seq (M := fun _ => TxOwned reg start fun _ => False) ?_
          fun _ s hs => wp_pure ⟨hf, hrx, hs⟩
        refine wp_seq (wp_owned_modify (fun _ => rfl) hs) fun _ s hs => ?_
        exact wp_owned_modify (fun _ => rfl) hs
    · exact wp_pure ⟨hf, hrx, hs⟩
  · obtain ⟨hf, hrx, hs⟩ := hs
    refine wp_seq (wp_owned_of_keepsTx (pollRx_keepsTx hrx) hs) fun rxFifo s hs => ?_
    refine wp_seq (M := fun _ => TxOwned reg start fun _ => False) ?_
      fun _ t ht => wp_pure ⟨hf, hs.1, ht⟩
    unfold pollTx
    refine wp_seq (hread _ hs.2) fun ready s hs => ?_
    split
    · exact wp_owned_modify (fun _ => rfl) hs
    · exact wp_pure hs

/-- Every callback does. -/
theorem dmaSystem_correct_owned (hne : reg ≠ 0) :
    dmaSystem.Correct (TxOwnedJ reg start) fun _ _ => True := by
  constructor
  · rintro priv s t ⟨hf, hrx, hs⟩ hR
    exact ⟨hf, hrx, txOwned_hw hs hR⟩
  · intro priv s prog hs hcall
    cases hcall with
    | timer => exact wp_pollTimerCallback_owned hne hs
    | startXmit skb _ =>
      obtain ⟨⟨k, hf⟩, hrx, hs⟩ := hs
      refine wp_seq (wp_startXmit_owned hf skb hs) fun r s hs => ?_
      exact wp_pure ⟨hs.1, hrx, hs.2⟩

/-- And so does the set-up of the FIFOs. -/
theorem wp_setUpFifos_owned {rx tx : Fifo} (h : Fresh rx tx s) :
    wp Hw (fun _ _ => True) (setUpFifos rx tx) (TxOwnedJ s.dev.txReg s.dev.tx.base) s := by
  have hall : TxOwned s.dev.txReg s.dev.tx.base (fun _ => True) s :=
    ⟨rfl, rfl, fun _ _ h => absurd trivial h⟩
  unfold setUpFifos fifoSetEnd
  refine wp_seq (wp_owned_of_keepsTx (rxFifoReset_keepsTx h.rxReg_eq) hall) fun rxFifo t ht₁ => ?_
  refine wp_seq (wp_txFifoReset_owned h.txReg_eq h.txStart_eq (by rw [h.txStart_eq]) h.txReg_ne
    ⟨ht₁.2.reg_eq, ht₁.2.base_eq⟩) fun txFifo t ht => ?_
  exact wp_pure ⟨⟨0, ht.1⟩, ht₁.1, ht.2⟩

end Owned

/-! ## Every run -/

/-- The slot at `next` of the TX FIFO is flagged. -/
def NextSent (reg : Nat) (f : Fifo) (s : DmaMachine) : Prop :=
  s.dev.txReg = reg ∧ (s.dev.tx.mem f.next).Sent

/-- A flag stays set until the driver fills the slot. -/
theorem nextSent_stable (reg : Nat) (f : Fifo) : Stable Hw (NextSent reg f) := by
  rintro s t ⟨hreg, hsent⟩ hR
  cases hR.effect with
  | done off queue _ _ =>
    refine ⟨hreg, ?_⟩
    show (setFrame s.dev.tx.mem (s.dev.tx.base + off) DmaFrame.complete f.next).Sent
    unfold setFrame
    split
    · exact DmaFrame.complete_sent _
    · exact hsent
  | _ => exact ⟨hreg, hsent⟩

/-- **No wake-up is lost.** In every run of the DMA variant, when between two callbacks the slot
    at `next` is not in flight, the next timer callback leaves the queue awake, with the hardware
    stepping anywhere; unless it leaves the link down. -/
theorem dma_tx_woken (rx tx : Fifo) (s₀ : DmaMachine) (h : Fresh rx tx s₀)
    (c : Config DmaMachine Priv)
    (hreach : dmaSystem.Reach ⟨.running (setUpFifos rx tx), s₀⟩ c) (priv priv' : Priv)
    (hidle : c.control = .idle priv)
    (hfree : priv.txFifo.next - priv.txFifo.start ∉ c.state.dev.tx.queue) (t : DmaMachine)
    (hrun : RunsTo Hw (pollTimerCallback dma priv) c.state priv' t) :
    t.net.awake = true ∨ t.net.carrier = false := by
  have hok : dmaSystem.Ok (TxOwnedJ s₀.dev.txReg s₀.dev.tx.base) (fun _ _ => True)
      ⟨.running (setUpFifos rx tx), s₀⟩ := wp_setUpFifos_owned h
  have hend := System.reach_ok (dmaSystem_correct_owned h.txReg_ne) hok hreach
  unfold System.Ok at hend
  rw [hidle] at hend
  obtain ⟨⟨k, hf⟩, hrx, howned⟩ := hend
  -- the slot is nobody's but the driver's, so it is flagged
  have hsent : NextSent s₀.dev.txReg priv.txFifo c.state := by
    refine ⟨howned.reg_eq, ?_⟩
    rw [hf.next_eq, hf.start_eq, Nat.add_sub_cancel_left] at hfree
    rw [hf.next_eq]
    exact howned.sent k hfree id
  have hwp : wp Hw (fun _ _ => True) (pollTimerCallback dma priv) (fun _ => AwakeOrDown)
      c.state := by
    -- it stays flagged until `poll_tx()` looks
    refine wp_timer_wakes dma_netFree hw_netFree (nextSent_stable s₀.dev.txReg priv.txFifo) ?_ ?_
      hsent
    · refine Prog.all_imp (Prog.all_mono (pollRx_keepsTx hrx) fun upd hupd s hs => ?_)
        fun _ _ => trivial
      have hsame := hupd s hs.1
      exact ⟨hsame.reg_eq.trans hs.1, by rw [hsame.tx_eq]; exact hs.2⟩
    · exact fun s hs => wp_read (nextSent_stable _ _) hs fun t ht => ⟨trivial, ht.2⟩
  exact wp_runsTo (fun _ => awakeOrDown_stable hw_netFree) hwp hrun

/-- The stack sends up to `n` frames, and none to a stopped queue. -/
def dmaXmits : Nat → Priv → DmaMachine → Priv × DmaMachine
  | 0, priv, s => (priv, s)
  | n + 1, priv, s =>
    if s.net.awake then
      let sent := dmaXmit ⟨false, [7]⟩ priv s
      dmaXmits n sent.1 sent.2
    else (priv, s)

/-- The transmissions of the witness are steps of the driver. -/
theorem dmaXmits_reach (n : Nat) (priv : Priv) (s : DmaMachine) :
    dmaSystem.Reach ⟨.idle priv, s⟩ ⟨.idle (dmaXmits n priv s).1, (dmaXmits n priv s).2⟩ := by
  induction n generalizing priv s with
  | zero => exact .refl
  | succ n ih =>
    unfold dmaXmits
    split
    · rename_i hawake
      exact (dmaXmit_reach _ hawake).trans (ih _ _)
    · exact .refl

/-- The stack sends until the queue is stopped. -/
def dmaFull : Priv × DmaMachine := dmaXmits FIFO_LENGTH dmaLinkedUp.1 dmaLinkedUp.2

/-- The hardware sends the first frame of the full ring. -/
def dmaFirstSent : DmaMachine := hwStep .txComplete (hwStep .txTransmit dmaFull.2)

/-- With all 64 slots in flight the queue is stopped, and it is still when the first frame is
    sent. The next callback wakes it. -/
theorem dma_tx_woken_full :
    dmaFull.2.dev.tx.queue.length = FIFO_LENGTH ∧ dmaFirstSent.net.awake = false ∧
      ((pollTimerCallback dma dmaFull.1).exec (fun _ => true) 0 dmaFirstSent).2.net.awake =
        true := by
  have hreach : dmaSystem.Reach
      ⟨.running (setUpFifos ⟨0x110, 0x20000, 0, 0⟩ ⟨0x100, 0x40000, 0, 0⟩),
        .zeroed 0x100 0x20000 0x40000⟩ ⟨.idle dmaFull.1, dmaFirstSent⟩ :=
    dmaLinkedUp_reach.trans ((dmaXmits_reach _ _ _).trans
      (.head (.env ⟨.txTransmit, rfl⟩) (.single (.env ⟨.txComplete, rfl⟩))))
  have hend := dma_tx_woken ⟨0x110, 0x20000, 0, 0⟩ ⟨0x100, 0x40000, 0, 0⟩
    (.zeroed 0x100 0x20000 0x40000) fresh_zeroed _ hreach dmaFull.1 _ rfl (by decide +kernel) _
    (runsTo_exec (fun _ => true) _ 0 _)
  -- the link is up, so the queue is awake
  exact ⟨by decide +kernel, by decide +kernel, hend.resolve_right (by decide +kernel)⟩

/-- The same of the EIM variant, whose transmitter is ready when the MAC has nothing to send. -/
theorem eim_tx_woken (priv priv' : Priv) (s t : EimMachine)
    (hfree : s.dev.txLevel = 0) (hrx : priv.rxFifo.reg = s.dev.txReg + 0x10)
    (hrun : RunsTo EimHw (pollTimerCallback eim priv) s priv' t) :
    t.net.awake = true ∨ t.net.carrier = false := by
  have hwp : wp EimHw (fun _ _ => True) (pollTimerCallback eim priv) (fun _ => AwakeOrDown) s := by
    refine wp_timer_wakes eim_netFree eimHw_netFree
      (show Stable EimHw (EimAt s.dev.txReg Empty) from empty_stable) ?_ ?_ ⟨rfl, hfree⟩
    · refine Prog.all_imp (Prog.all_mono (pollRx_keepsEim eimQueueView_blind hrx)
        fun upd hupd t ht => ?_) fun _ _ => trivial
      obtain ⟨hreg, hview⟩ := hupd t ht.1
      exact ⟨hreg, (congrArg Prod.fst hview).trans ht.2⟩
    · refine fun t ht => wp_read empty_stable ht fun u hu => ⟨trivial, ?_⟩
      have hready : u.dev.txLevel % 2 ^ 7 &&& TX_FIFO_LEVEL_MASK = 0 := eimReady_of_empty hu
      rw [if_pos hready]
      decide
  exact wp_runsTo (fun _ => awakeOrDown_stable eimHw_netFree) hwp hrun

/-- The callback that sees the link come up. -/
theorem eim_tx_woken_linkUp : AwakeOrDown linkUpEnd.2 :=
  eim_tx_woken ⟨oneSlotRx, oneSlotTx⟩ _ eimSetUp _ rfl rfl (runsTo_exec (fun _ => true) _ 0 _)

end Ccat.Native.Eth
