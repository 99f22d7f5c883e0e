import Ccat.Spec.EthTxCorrect
import Ccat.Native.EthEim

/-!
# The EIM transmit path

In EIM mode there is room for one frame: the transmitter is ready when the MAC has
nothing left to send. Every frame goes out through `ccat_eth_start_xmit()`, which leaves
the queue stopped while its frame is being sent, but `ccat_eth_link_up()` sends the
forward frame and starts the queue right behind it. An awake queue means that the
transmitter is ready in all runs in which that frame is sent by then.

## Key results

- `wp_startXmit_eim`: a frame is queued only on an empty MAC
- `wpIf_linkUp_eim`: the place where the assumption is needed
- `eim_awake_ready`: awake means ready, and the ring is never found full
- `not_eim_awake_ready`: the run in which a link-up ends with the MAC still sending
-/

namespace Ccat.Native.Eth

open Interleave

/-- What `fifo_eim_tx_ready()` looks at. -/
def EimReady (s : EimMachine) : Prop := s.dev.txLevel % 2 ^ 7 &&& TX_FIFO_LEVEL_MASK = 0

/-- The queue is started or woken only on a ready transmitter. -/
def StartsReady (upd : EimMachine → EimMachine) (s : EimMachine) : Prop :=
  upd = netifWakeQueue → EimReady s

/-- No update reports a full ring. -/
def SameBusy (s t : EimMachine) : Prop :=
  t.txLog.countP TxEvent.isBusy = s.txLog.countP TxEvent.isBusy

/-- The TX register is at `reg`, and the level and the queue are as `P` says. -/
def EimAt (reg : Nat) (P : Nat → Bool → Prop) (s : EimMachine) : Prop :=
  s.dev.txReg = reg ∧ P s.dev.txLevel s.net.awake

section Run

variable {reg : Nat} {P Q : Nat → Bool → Prop} {s t : EimMachine}

/-- The hardware only sends frames. -/
theorem eimAt_stable (hP : ∀ l a, P l a → P (l - 1) a) : Stable EimHw (EimAt reg P) := by
  rintro s _ ⟨hreg, hlevel⟩ ⟨a, rfl⟩
  cases a with
  | rxArrive p _ _ =>
    show EimAt reg P (eimRxArrive p s)
    unfold eimRxArrive
    split <;> exact ⟨hreg, hlevel⟩
  | txSent => exact ⟨hreg, hP _ _ hlevel⟩
  | link w => exact ⟨hreg, hlevel⟩

theorem EimAt.mono (h : EimAt reg P s) (hPQ : ∀ l a, P l a → Q l a) : EimAt reg Q s :=
  ⟨h.1, hPQ _ _ h.2⟩

/-- The MAC is empty. -/
def Empty (l : Nat) (_ : Bool) : Prop := l = 0

/-- Between callbacks: one frame at most, and none when the queue is awake. -/
def OneDeep (l : Nat) (awake : Bool) : Prop := l ≤ 1 ∧ (awake = true → l = 0)

/-- A MAC that is empty stays so as long as the driver does nothing. -/
theorem empty_stable : Stable EimHw (EimAt reg Empty) :=
  eimAt_stable fun l _ (h : l = 0) => show l - 1 = 0 by omega

theorem oneDeep_stable : Stable EimHw (EimAt reg OneDeep) :=
  eimAt_stable fun l a h => ⟨by have := h.1; omega, fun ha => by have := h.2 ha; omega⟩

theorem le_one_stable : Stable EimHw (EimAt reg fun l _ => l ≤ 1) :=
  eimAt_stable fun l _ h => by omega

/-- An empty MAC is ready. -/
theorem eimReady_of_empty (h : EimAt reg Empty s) : EimReady s := by
  unfold EimReady
  rw [show s.dev.txLevel = 0 from h.2]
  rfl

/-- With at most one frame, ready means empty. -/
theorem empty_of_eimReady (h : s.dev.txLevel ≤ 1) (hready : EimReady s) : s.dev.txLevel = 0 := by
  unfold EimReady at hready
  rcases Nat.le_one_iff_eq_zero_or_eq_one.mp h with hl | hl
  · exact hl
  · rw [hl] at hready
    exact absurd hready (by decide)

/-! ## Updates that do not matter -/

section Keeps

variable {α β : Type} {view : EimMachine → β}

/-- The update keeps what `view` sees of a machine whose TX register is at `reg`. -/
def KeepsEim (view : EimMachine → β) (reg : Nat) (upd : EimMachine → EimMachine) : Prop :=
  ∀ t, t.dev.txReg = reg → (upd t).dev.txReg = reg ∧ view (upd t) = view t

/-- The view sees nothing of the receive side. -/
def BlindToRx (view : EimMachine → β) : Prop :=
  ∀ t mem log bytes dropped, view { t with
    dev.rxMem := mem, rxLog := log, net.rxBytes := bytes, net.rxDropped := dropped } = view t

theorem read_keepsEim (g : EimMachine → α) :
    (Prog.read g).All (KeepsEim view reg) fun _ => True :=
  Prog.all_read (fun _ h => ⟨h, rfl⟩) fun _ => trivial

/-- `poll_rx()` keeps what is not of the receive side. -/
theorem pollRx_keepsEim (hview : BlindToRx view) {f : Fifo} (hf : f.reg = reg + 0x10) :
    (pollRx eim f).All (KeepsEim view reg) fun f' => f'.reg = reg + 0x10 := by
  apply pollRx_all (I := fun f => f.reg = reg + 0x10)
  case hinc => exact fun f hf => (ccatEthFifoInc_reg f).trans hf
  case hready => exact fun f => Prog.all_bind (read_keepsEim _) fun _ _ => trivial
  case hadd => exact fun f _ => Prog.all_modify fun t h => ⟨h, hview t _ _ _ _⟩
  case hcopy => exact fun f len => read_keepsEim _
  case hbytes => exact fun _ t h => ⟨h, hview t _ _ _ _⟩
  case hnetif => exact fun _ t h => ⟨h, hview t _ _ _ _⟩
  case hnoMem => exact fun t h => ⟨h, hview t _ _ _ _⟩
  case hf => exact hf

/-- So does the reset of the RX FIFO. -/
theorem rxFifoReset_keepsEim (hview : BlindToRx view) {f : Fifo} (hf : f.reg = reg + 0x10) :
    (ccatEthFifoReset eim fifoEimRxAdd f).All (KeepsEim view reg)
      fun f' => f'.reg = reg + 0x10 := by
  refine fifoReset_all_reg (v := eim) ?_ (fun f _ => ?_) hf
  · intro t ht
    have hwrite : eim.iowrite32 0 (reg + 0x10 + 0x8) t =
        { t with rxLog := t.rxLog ++ [.reset] } := if_pos (by rw [ht])
    rw [hwrite]
    exact ⟨ht, hview t _ _ _ _⟩
  · exact Prog.all_modify fun t h => ⟨h, hview t _ _ _ _⟩

end Keeps

/-- The level, the queue and the TX log. -/
def eimQueueView (s : EimMachine) : Nat × Bool × List TxEvent :=
  (s.dev.txLevel, s.net.awake, s.txLog)

theorem eimQueueView_blind : BlindToRx eimQueueView := fun _ _ _ _ _ => rfl

/-- A program that keeps the level, the queue and the TX log. -/
theorem wp_of_keepsEimTx {α : Type} {ψ : α → Prop} {prog : Prog EimMachine α}
    (hstable : Stable EimHw (EimAt reg P)) (hall : prog.All (KeepsEim eimQueueView reg) ψ)
    (hs : EimAt reg P s) :
    wp EimHw SameBusy prog (fun a t => ψ a ∧ EimAt reg P t) s := by
  refine wp_of_all hstable hs (Prog.all_mono hall fun upd hkeeps t ht => ?_)
  obtain ⟨hreg, hview⟩ := hkeeps t ht.1
  obtain ⟨hlevel, hview⟩ := Prod.mk.inj hview
  obtain ⟨hawake, hlog⟩ := Prod.mk.inj hview
  refine ⟨by rw [SameBusy, hlog], hreg, ?_⟩
  rw [hlevel, hawake]
  exact ht.2

/-- An update that keeps level and queue. -/
theorem wp_modify_keepsEimTx {upd : EimMachine → EimMachine}
    (hstable : Stable EimHw (EimAt reg P)) (hupd : KeepsEim eimQueueView reg upd)
    (hs : EimAt reg P s) :
    wp EimHw SameBusy (.modify upd) (fun _ => EimAt reg P) s :=
  wp_mono (wp_of_keepsEimTx hstable (Prog.all_modify hupd) hs) fun _ _ h => h.2

/-! ## Transmitting -/

/-- `fifo_eim_tx_ready()` with at most one frame in the MAC. -/
theorem wp_eimTxReady (f : Fifo) (hs : EimAt reg (fun l _ => l ≤ 1) s) :
    wp EimHw SameBusy (fifoEimTxReady f)
      (fun ready t => EimAt reg (fun l _ => l ≤ 1) t ∧ (ready ≠ 0 → EimAt reg Empty t)) s := by
  refine wp_read le_one_stable hs fun t ht => ⟨rfl, ht, fun hready => ⟨ht.1, ?_⟩⟩
  apply empty_of_eimReady ht.2
  by_contra hnot
  exact hready (if_neg hnot)

/-- `fifo_eim_queue_skb()` on an empty MAC. -/
theorem wp_eimQueueSkb {f : Fifo} {skb : Skb} (hf : f.reg = reg) (hs : EimAt reg Empty s) :
    wp EimHw SameBusy (fifoEimQueueSkb f skb) (fun _ => EimAt reg fun l _ => l ≤ 1) s := by
  unfold fifoEimQueueSkb
  refine wp_seq (wp_modify_keepsEimTx empty_stable (fun _ h => ⟨h, rfl⟩) hs)
    fun _ t ht => ?_
  refine wp_seq (wp_modify_keepsEimTx empty_stable (fun _ h => ⟨h, rfl⟩) ht)
    fun _ t ht => ?_
  refine wp_modify empty_stable ht ?_
  rintro t ⟨hreg, hlevel⟩
  unfold eimIowrite32
  rw [if_neg (by simp only [hreg, hf]; omega), if_pos (by simp only [hreg, hf])]
  refine ⟨by simp [SameBusy, TxEvent.isBusy], hreg, ?_⟩
  show t.dev.txLevel + 1 ≤ 1
  rw [show t.dev.txLevel = 0 from hlevel]

/-- `ccat_eth_start_xmit()` on an empty MAC: the queue is left stopped while the frame is
    being sent. -/
theorem wp_startXmit_eim {f : Fifo} {skb : Skb} (hf : f.reg = reg) (hs : EimAt reg Empty s) :
    wp EimHw SameBusy (ccatEthStartXmit eim f skb)
      (fun r t => r.2.reg = reg ∧ EimAt reg OneDeep t) s := by
  have hdeep : ∀ t, EimAt reg Empty t → EimAt reg OneDeep t := fun t ht =>
    ht.mono fun l _ (h : l = 0) => ⟨by omega, fun _ => h⟩
  have hf' : (ccatEthFifoInc f).reg = reg := (ccatEthFifoInc_reg f).trans hf
  -- a frame that is dropped does not get to the MAC
  have hdrop : wp EimHw SameBusy (do Prog.modify txDrop; return (NetdevTx.ok, f))
      (fun r t => r.2.reg = reg ∧ EimAt reg OneDeep t) s := by
    refine wp_seq (wp_modify_keepsEimTx empty_stable (fun _ h => ⟨h, rfl⟩) hs)
      fun _ t ht => ?_
    exact wp_pure ⟨hf, hdeep t ht⟩
  unfold ccatEthStartXmit
  split
  · exact hdrop
  · split
    · exact hdrop
    · refine wp_seq (M := fun ready t => ready ≠ 0 ∧ EimAt reg Empty t) ?_ fun ready t ht => ?_
      · refine wp_read empty_stable hs fun t ht => ⟨rfl, ?_, ht⟩
        have hready : t.dev.txLevel % 2 ^ 7 &&& TX_FIFO_LEVEL_MASK = 0 := eimReady_of_empty ht
        rw [if_pos hready]
        decide
      rw [if_neg ht.1]
      refine wp_seq (wp_eimQueueSkb hf ht.2) fun _ t ht => ?_
      refine wp_seq (wp_modify_keepsEimTx le_one_stable (fun _ h => ⟨h, rfl⟩) ht)
        fun _ t ht => ?_
      -- the queue stays awake only if the MAC has sent the frame already
      refine wp_seq (wp_eimTxReady (ccatEthFifoInc f) ht) fun ready t ht => ?_
      by_cases hready : ready = 0
      · rw [if_pos hready]
        refine wp_seq (M := fun _ => EimAt reg OneDeep) ?_ fun _ t ht => wp_pure ⟨hf', ht⟩
        exact wp_modify le_one_stable ht.1 fun t ht => ⟨rfl, ht.1, ht.2, fun h => nomatch h⟩
      · rw [if_neg hready]
        exact wp_pure ⟨hf', hdeep t (ht.2 hready)⟩

/-- `ccat_eth_fifo_reset()` of the TX FIFO empties the MAC. -/
theorem wp_txFifoReset_eim {f : Fifo} (hf : f.reg = reg) (hne : reg ≠ 0)
    (hstable : Stable EimHw (EimAt reg P)) (hs : EimAt reg P s) :
    wp EimHw SameBusy (ccatEthFifoReset eim fifoEimTxAdd f)
      (fun f' t => f'.reg = reg ∧ EimAt reg Empty t) s := by
  unfold ccatEthFifoReset ccatEthFifoHwReset
  rw [if_pos (by rw [hf]; exact hne)]
  refine wp_seq (M := fun _ => EimAt reg Empty) ?_ fun _ t ht => ?_
  · refine wp_modify hstable hs fun t ht => ?_
    -- the reset register is behind the one of the FIFO
    show SameBusy t (eimIowrite32 0 (f.reg + 0x8) t) ∧
      EimAt reg Empty (eimIowrite32 0 (f.reg + 0x8) t)
    unfold eimIowrite32
    rw [if_neg (by rw [ht.1, hf]; omega), if_neg (by rw [ht.1, hf]; omega),
      if_pos (by rw [ht.1, hf])]
    exact ⟨by simp [SameBusy, TxEvent.isBusy], ht.1, rfl⟩
  · -- the slots of this FIFO need no descriptors
    have hadd : ∀ f s, f.reg = reg → EimAt reg Empty s →
        wp EimHw SameBusy (fifoEimTxAdd f) (fun _ => EimAt reg Empty) s :=
      fun _ _ _ hs => wp_pure hs
    have hf' : Fifo.reg { f with next := f.start } = reg := hf
    have hinc : ∀ f : Fifo, f.reg = reg → (ccatEthFifoInc f).reg = reg :=
      fun f hf => (ccatEthFifoInc_reg f).trans hf
    exact wp_addSlots_of_add hinc hadd (fun _ h => h) hf' ht

/-! ## Callbacks -/

/-- What holds between callbacks. -/
def EimJ (reg : Nat) (priv : Priv) (s : EimMachine) : Prop :=
  priv.rxFifo.reg = reg + 0x10 ∧ priv.txFifo.reg = reg ∧ EimAt reg OneDeep s

/-- `ccat_eth_link_up()`: the queue is started while the forward frame may still be in the MAC. -/
theorem wpIf_linkUp_eim {priv : Priv} (hne : reg ≠ 0) (hs : EimJ reg priv s) :
    wpIf StartsReady EimHw SameBusy (ccatEthLinkUp eim priv) (EimJ reg) s := by
  obtain ⟨hrx, htx, hs⟩ := hs
  unfold ccatEthLinkUp
  refine wpIf_seq (wpIf_of_wp (wp_of_keepsEimTx oneDeep_stable
    (rxFifoReset_keepsEim eimQueueView_blind hrx) hs)) fun rxFifo t ht => ?_
  obtain ⟨hrx, ht⟩ := ht
  refine wpIf_seq (wpIf_of_wp (wp_txFifoReset_eim htx hne oneDeep_stable ht)) fun txFifo t ht => ?_
  refine wpIf_seq (M := fun f t => f.reg = reg ∧ EimAt reg OneDeep t)
    (wpIf_of_wp (wp_seq (wp_startXmit_eim ht.1 ht.2) fun r t ht => wp_pure ht))
    fun txFifo t ht => ?_
  obtain ⟨htx, ht⟩ := ht
  refine wpIf_seq (wpIf_of_wp (wp_modify_keepsEimTx oneDeep_stable
    (fun _ h => ⟨h, rfl⟩) ht)) fun _ t ht => ?_
  refine wpIf_seq (M := fun _ => EimAt reg OneDeep) ?_ fun _ t ht => wpIf_pure ⟨hrx, htx, ht⟩
  -- here the frame has to be sent already
  refine wpIf_modify oneDeep_stable ht fun t ht hstarts => ⟨rfl, ht.1, ?_⟩
  have hempty := empty_of_eimReady ht.2.1 (hstarts rfl)
  exact ⟨ht.2.1, fun _ => hempty⟩

/-- `ccat_eth_link_down()` stops the queue. -/
theorem wp_linkDown_eim (hs : EimAt reg OneDeep s) :
    wp EimHw SameBusy ccatEthLinkDown (fun _ => EimAt reg OneDeep) s := by
  unfold ccatEthLinkDown
  refine wp_seq (M := fun _ => EimAt reg OneDeep) ?_ fun _ t ht => ?_
  · exact wp_modify oneDeep_stable hs fun t ht => ⟨rfl, ht.1, ht.2.1, fun h => nomatch h⟩
  · exact wp_modify_keepsEimTx oneDeep_stable (fun _ h => ⟨h, rfl⟩) ht

/-- `poll_link()`, which may start the queue. -/
theorem wpIf_pollLink_eim {priv : Priv} (hne : reg ≠ 0) (hs : EimJ reg priv s) :
    wpIf StartsReady EimHw SameBusy (pollLink eim priv) (EimJ reg) s := by
  obtain ⟨hrx, htx, hs⟩ := hs
  unfold pollLink
  refine wpIf_seq (wpIf_of_wp (wp_of_keepsEimTx oneDeep_stable (read_keepsEim _) hs))
    fun link t ht => ?_
  refine wpIf_seq (wpIf_of_wp (wp_of_keepsEimTx oneDeep_stable (read_keepsEim _) ht.2))
    fun carrier t ht => ?_
  split
  · split
    · exact wpIf_linkUp_eim hne ⟨hrx, htx, ht.2⟩
    · exact wpIf_seq (wpIf_of_wp (wp_linkDown_eim ht.2)) fun _ t ht => wpIf_pure ⟨hrx, htx, ht⟩
  · exact wpIf_pure ⟨hrx, htx, ht.2⟩

/-- `poll_tx()` wakes the queue only on an empty MAC. -/
theorem wp_pollTx_eim {f : Fifo} (hs : EimAt reg OneDeep s) :
    wp EimHw SameBusy (pollTx eim f) (fun _ => EimAt reg OneDeep) s := by
  unfold pollTx
  refine wp_seq (M := fun ready t => EimAt reg OneDeep t ∧ (ready ≠ 0 → EimAt reg Empty t)) ?_
    fun ready t ht => ?_
  · refine wp_read oneDeep_stable hs fun t ht => ⟨rfl, ht, fun hready => ⟨ht.1, ?_⟩⟩
    apply empty_of_eimReady ht.2.1
    by_contra hnot
    exact hready (if_neg hnot)
  · by_cases hready : ready ≠ 0
    · rw [if_pos hready]
      refine wp_modify empty_stable (ht.2 hready) fun t ht => ⟨rfl, ht.1, ?_⟩
      have hempty : t.dev.txLevel = 0 := ht.2
      exact ⟨by rw [show (netifWakeQueue t).dev.txLevel = 0 from hempty]; omega, fun _ => hempty⟩
    · rw [if_neg hready]
      exact wp_pure ht.1

/-- The timer callback. -/
theorem wpIf_pollTimerCallback_eim {priv : Priv} (hne : reg ≠ 0) (hs : EimJ reg priv s) :
    wpIf StartsReady EimHw SameBusy (pollTimerCallback eim priv) (EimJ reg) s := by
  unfold pollTimerCallback
  refine wpIf_seq (wpIf_pollLink_eim hne hs) fun priv t ht => ?_
  obtain ⟨hrx, htx, ht⟩ := ht
  refine wpIf_seq (wpIf_of_wp (wp_of_keepsEimTx oneDeep_stable
    (pollRx_keepsEim eimQueueView_blind hrx) ht)) fun rxFifo t ht => ?_
  refine wpIf_seq (wpIf_of_wp (wp_pollTx_eim ht.2)) fun _ t ht' => ?_
  exact wpIf_pure ⟨ht.1, htx, ht'⟩

/-- The set-up of the FIFOs leaves the MAC empty. -/
theorem wp_setUpEimFifos {rx tx : Fifo} {txSize : Nat} (hne : reg ≠ 0) (hrx : rx.reg = reg + 0x10)
    (htx : tx.reg = reg) (hs : s.dev.txReg = reg) :
    wp EimHw SameBusy (setUpEimFifos rx tx txSize) (EimJ reg) s := by
  have hany : Stable EimHw (EimAt reg fun _ _ => True) := eimAt_stable fun _ _ h => h
  unfold setUpEimFifos fifoSetEnd
  refine wp_seq (wp_of_keepsEimTx hany (rxFifoReset_keepsEim eimQueueView_blind hrx) ⟨hs, trivial⟩)
    fun rxFifo t ht => ?_
  refine wp_seq (wp_txFifoReset_eim htx hne hany ht.2) fun txFifo t ht' => ?_
  refine wp_pure ⟨ht.1, ht'.1, ht'.2.mono ?_⟩
  intro l a hl
  have hzero : l = 0 := hl
  exact ⟨by omega, fun _ => hzero⟩

end Run

/-! ## Every run -/

/-- The hardware does not spoil what holds between callbacks. -/
theorem eimJ_stable {reg : Nat} (priv : Priv) : Stable eimSystem.env (EimJ reg priv) :=
  fun _ _ h hR => ⟨h.1, h.2.1, oneDeep_stable h.2.2 hR⟩

/-- Every callback leads back to it. -/
theorem eimSystem_restores {reg : Nat} (hne : reg ≠ 0) (priv : Priv) (s : EimMachine)
    (prog : Prog EimMachine Priv) (hs : EimJ reg priv s) (hcall : eimSystem.enabled priv s prog) :
    wpIf StartsReady eimSystem.env SameBusy prog (EimJ reg) s := by
  cases hcall with
  | timer => exact wpIf_pollTimerCallback_eim hne hs
  | startXmit skb hawake =>
    obtain ⟨hrx, htx, hs⟩ := hs
    -- the queue is awake, so the MAC is empty
    have hempty : EimAt reg Empty s := ⟨hs.1, hs.2.2 hawake⟩
    refine wpIf_of_wp (wp_seq (wp_startXmit_eim htx hempty) fun r t ht => ?_)
    exact wp_pure ⟨hrx, ht.1, ht.2⟩

/-- In every run in which the queue is started only on a ready transmitter: between callbacks
    an awake queue means that the transmitter is ready, and `ccat_eth_start_xmit()` never found
    the ring full. -/
theorem eim_awake_ready (rx tx : Fifo) (txSize : Nat) (s₀ : EimMachine)
    (hne : s₀.dev.txReg ≠ 0) (hrx : rx.reg = s₀.dev.txReg + 0x10) (htx : tx.reg = s₀.dev.txReg)
    (c : Config EimMachine Priv)
    (hreach : eimSystem.ReachIf StartsReady ⟨.running (setUpEimFifos rx tx txSize), s₀⟩ c) :
    (∀ priv, c.control = .idle priv → c.state.net.awake = true → EimReady c.state) ∧
      c.state.txLog.countP TxEvent.isBusy = s₀.txLog.countP TxEvent.isBusy := by
  have hstart : eimSystem.OkIf StartsReady (EimJ s₀.dev.txReg) SameBusy
      ⟨.running (setUpEimFifos rx tx txSize), s₀⟩ :=
    wpIf_of_wp (wp_setUpEimFifos hne hrx htx rfl)
  constructor
  · intro priv hidle hawake
    -- the callback that ended last left the MAC empty or the queue stopped
    have hok := System.reachIf_ok eimJ_stable (eimSystem_restores hne) hstart hreach
    unfold System.OkIf at hok
    rw [hidle] at hok
    exact eimReady_of_empty ⟨hok.2.2.1, hok.2.2.2.2 hawake⟩
  · refine System.reachIf_always eimJ_stable (eimSystem_restores hne)
      (P := fun s => s.txLog.countP TxEvent.isBusy = s₀.txLog.countP TxEvent.isBusy) ?_
      (fun s t hs hG => hG.trans hs) hstart rfl hreach
    -- the hardware logs no full ring
    rintro s _ hs ⟨a, rfl⟩
    rw [← hs]
    cases a with
    | rxArrive p _ _ =>
      show (eimRxArrive p s).txLog.countP _ = _
      unfold eimRxArrive
      split <;> rfl
    | txSent => rfl
    | link w => rfl

/-! ## A run -/

def oneSlotRx : Fifo := ⟨0x110, 0x1000, 0x1000, 0x1000⟩

def oneSlotTx : Fifo := ⟨0x100, 0x2000, 0x2000, 0x2000⟩

/-- A machine whose link is up. -/
def eimLinked : EimMachine :=
  { EimMachine.zeroed 0x100 0x1000 with dev.mii := 2 ^ 24 }

/-- The machine after the set-up of FIFOs of one slot each. -/
def eimSetUp : EimMachine :=
  { eimLinked with
    dev.rxMem := setEimFrame eimLinked.dev.rxMem 0x1000 fun fr => { fr with length := 0 }
    rxLog := [.reset, .armed 0]
    txLog := [.reset] }

/-- A FIFO of one slot is reset with one `add`. -/
theorem addSlots_oneSlot (add : Fifo → Prog EimMachine Unit) (reg start : Nat) :
    addSlots add ⟨reg, start, start, start⟩ = (do
      add ⟨reg, start, start, start⟩
      return ⟨reg, start, start, start⟩) := by
  have hinc : ccatEthFifoInc ⟨reg, start, start, start⟩ = ⟨reg, start, start, start⟩ :=
    if_pos (Nat.lt_add_of_pos_right (by decide))
  rw [addSlots, hinc, if_pos rfl]

/-- The set-up with nothing in between. -/
private theorem exec_setUp :
    (setUpEimFifos oneSlotRx oneSlotTx FRAME_SIZE).exec (fun _ => true) 0 eimLinked =
      (⟨oneSlotRx, oneSlotTx⟩, eimSetUp) := by
  simp only [setUpEimFifos, fifoSetEnd, ccatEthFifoReset, oneSlotRx, oneSlotTx]
  rw [show 0x1000 + FRAME_SIZE - FRAME_SIZE = 0x1000 from rfl,
    show 0x2000 + FRAME_SIZE - FRAME_SIZE = 0x2000 from rfl]
  simp only [addSlots_oneSlot]
  rfl

/-- The set-up among the runs of the driver. -/
theorem eimSetUp_reach :
    eimSystem.Reach ⟨.running (setUpEimFifos oneSlotRx oneSlotTx FRAME_SIZE), eimLinked⟩
      ⟨.idle ⟨oneSlotRx, oneSlotTx⟩, eimSetUp⟩ := by
  have hexec : eimSystem.Reach _ _ := System.reach_exec (fun _ => true)
    (setUpEimFifos oneSlotRx oneSlotTx FRAME_SIZE) 0 eimLinked
  rwa [exec_setUp] at hexec

/-- The set-up runs to its end. -/
theorem eimSetUp_runsTo : RunsTo EimHw (setUpEimFifos oneSlotRx oneSlotTx FRAME_SIZE) eimLinked
    ⟨oneSlotRx, oneSlotTx⟩ eimSetUp := by
  have hexec : RunsTo EimHw _ _ _ _ := runsTo_exec (fun _ => true)
    (setUpEimFifos oneSlotRx oneSlotTx FRAME_SIZE) 0 eimLinked
  rwa [exec_setUp] at hexec

/-- The machine has started the queue on a ready transmitter, as far as can be told from the
    update. -/
def startsReady (upd : EimMachine → EimMachine) (s : EimMachine) : Bool :=
  s.dev.txLevel % 2 ^ 7 &&& TX_FIFO_LEVEL_MASK = 0 || !(upd (netifStopQueue s)).net.awake

/-- The check is that of the condition. -/
theorem startsReady_sound (upd : EimMachine → EimMachine) (s : EimMachine)
    (h : startsReady upd s = true) : StartsReady upd s := by
  rintro rfl
  rcases Bool.or_eq_true_iff.mp h with hready | hasleep
  · show s.dev.txLevel % 2 ^ 7 &&& TX_FIFO_LEVEL_MASK = 0
    exact of_decide_eq_true hready
  · -- the wake-up would have woken the queue
    exact absurd hasleep Bool.false_ne_true

/-- The MAC sends the frame in it ahead of the `m`-th update. -/
def sentAhead (m n : Nat) (s : EimMachine) : EimMachine :=
  if n = m then eimHwStep .txSent s else s

/-- What the schedule adds is a step of the hardware. -/
theorem sentAhead_env (m n : Nat) (s : EimMachine) :
    sentAhead m n s = s ∨ EimHw s (sentAhead m n s) := by
  unfold sentAhead
  split
  · exact .inr ⟨.txSent, rfl⟩
  · exact .inl rfl

/-- The set-up of the FIFOs; the callback that sees the link come up, in which the MAC sends the
    forward frame just before the queue is started; a frame of the stack; and, when the MAC has sent
    that one too, another timer callback. -/
def eimReadyRun : Option (Priv × EimMachine) := do
  let (priv, s) ← (setUpEimFifos oneSlotRx oneSlotTx FRAME_SIZE).execIf startsReady (fun _ => id) 0
    eimLinked
  let (priv, s) ← (pollTimerCallback eim priv).execIf startsReady (sentAhead 13) 0 s
  guard s.net.awake
  let (priv, s) ← (ccatEthStartXmit eim priv.txFifo ⟨false, [7, 8]⟩ >>= fun r =>
    pure { priv with txFifo := r.2 }).execIf startsReady (fun _ => id) 0 s
  guard (!s.net.awake)
  (pollTimerCallback eim priv).execIf startsReady (fun _ => id) 0 (eimHwStep .txSent s)

/-- The run meets the condition at every update. -/
theorem eimReadyRun_reach {x : Priv × EimMachine} (h : eimReadyRun = some x) :
    eimSystem.ReachIf StartsReady
      ⟨.running (setUpEimFifos oneSlotRx oneSlotTx FRAME_SIZE), eimLinked⟩ ⟨.idle x.1, x.2⟩ := by
  unfold eimReadyRun at h
  obtain ⟨⟨priv₁, s₁⟩, hsetUp, h⟩ := Option.bind_eq_some_iff.mp h
  obtain ⟨⟨priv₂, s₂⟩, hlink, h⟩ := Option.bind_eq_some_iff.mp h
  obtain ⟨_, hawake, h⟩ := Option.bind_eq_some_iff.mp h
  obtain ⟨⟨priv₃, s₃⟩, hxmit, h⟩ := Option.bind_eq_some_iff.mp h
  obtain ⟨_, -, hpoll⟩ := Option.bind_eq_some_iff.mp h
  -- the run goes on only if the queue is awake
  replace hawake : s₂.net.awake = true := by
    by_contra hasleep
    simp [guard, hasleep] at hawake
  -- except in the second callback the hardware only moves between callbacks
  have halone : ∀ (n : Nat) (s : EimMachine), id s = s ∨ EimHw s (id s) := fun _ _ => .inl rfl
  refine (System.reachIf_execIf startsReady_sound halone hsetUp).trans ?_
  refine .head ⟨.start .timer, fun _ _ hcontrol => by cases hcontrol⟩ ?_
  refine (System.reachIf_execIf startsReady_sound (sentAhead_env 13) hlink).trans ?_
  refine .head ⟨.start (.startXmit ⟨false, [7, 8]⟩ hawake), fun _ _ hcontrol => ?_⟩ ?_
  · cases hcontrol
  refine (System.reachIf_execIf startsReady_sound halone hxmit).trans ?_
  refine .head ⟨.env ⟨.txSent, rfl⟩, fun _ _ hcontrol => by cases hcontrol⟩ ?_
  refine .head ⟨.start .timer, fun _ _ hcontrol => by cases hcontrol⟩ ?_
  exact System.reachIf_execIf startsReady_sound halone hpoll

/-- The link came up, a frame was sent and the queue woken again: with the queue awake the
    transmitter is ready. -/
theorem eim_awake_ready_sent : ∃ x, eimReadyRun = some x ∧ x.2.net.carrier = true ∧
    queuedFrames x.2.txLog = [frameForwardEthernetFrames, [7, 8]] ∧ x.2.net.awake = true ∧
    EimReady x.2 := by
  have hsome : eimReadyRun.map (fun x => (x.2.net.carrier, queuedFrames x.2.txLog, x.2.net.awake)) =
      some (true, [frameForwardEthernetFrames, [7, 8]], true) := by decide +kernel
  obtain ⟨x, hx, hend⟩ := Option.map_eq_some_iff.mp hsome
  obtain ⟨hcarrier, hrest⟩ := Prod.mk.inj hend
  obtain ⟨hqueued, hawake⟩ := Prod.mk.inj hrest
  exact ⟨x, hx, hcarrier, hqueued, hawake, (eim_awake_ready oneSlotRx oneSlotTx FRAME_SIZE eimLinked
    (by decide) rfl rfl _ (eimReadyRun_reach hx)).1 _ rfl hawake⟩

/-! ## The forward frame in the way -/

/-- The callback that sees the link come up. -/
def linkUpEnd : Priv × EimMachine :=
  (pollTimerCallback eim ⟨oneSlotRx, oneSlotTx⟩).exec (fun _ => true) 0 eimSetUp

/-- The link is up and the queue awake, with the forward frame in the MAC. -/
theorem linkUpEnd_spec : linkUpEnd.2.net.carrier = true ∧ linkUpEnd.2.net.awake = true ∧
    linkUpEnd.2.dev.txLevel = 1 := by
  simp only [linkUpEnd, pollTimerCallback, pollLink, ccatEthLinkUp, ccatEthFifoReset, oneSlotRx,
    oneSlotTx, addSlots_oneSlot]
  exact ⟨rfl, rfl, rfl⟩

/-- The callback that sees the link come up ends with the queue awake and the forward frame
    still in the MAC. -/
theorem not_eim_awake_ready : ¬ ∀ (rx tx : Fifo) (txSize : Nat) (s₀ : EimMachine),
    s₀.dev.txReg ≠ 0 → rx.reg = s₀.dev.txReg + 0x10 → tx.reg = s₀.dev.txReg →
    ∀ c, eimSystem.Reach ⟨.running (setUpEimFifos rx tx txSize), s₀⟩ c →
      ∀ priv, c.control = .idle priv → c.state.net.carrier = true → c.state.net.awake = true →
        EimReady c.state := by
  intro h
  have hcallback : eimSystem.Reach ⟨.idle ⟨oneSlotRx, oneSlotTx⟩, eimSetUp⟩
      ⟨.idle linkUpEnd.1, linkUpEnd.2⟩ :=
    .head (.start .timer) (System.reach_exec (fun _ => true) _ 0 _)
  obtain ⟨hcarrier, hawake, hlevel⟩ := linkUpEnd_spec
  have hready := h oneSlotRx oneSlotTx FRAME_SIZE eimLinked (by decide) rfl rfl _
    (eimSetUp_reach.trans hcallback) _ rfl hcarrier hawake
  have hzero := empty_of_eimReady (Nat.le_of_eq hlevel) hready
  rw [hlevel] at hzero
  exact absurd hzero (by decide)

end Ccat.Native.Eth
