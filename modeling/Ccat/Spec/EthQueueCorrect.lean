import Ccat.Native.EthLink
import Ccat.Native.EthQueue
import Ccat.Spec.EthEimTx

/-!
# When the transmit queue stays stopped

The queue is stopped by `ccat_eth_link_down()`, by `ccat_eth_stop()` and by
`ccat_eth_start_xmit()` on a full FIFO, but `poll_tx()` wakes it again with only the
last of these in mind. Whether the queue stays stopped depends on what the hardware
shows to a callback that runs while one of the other two reasons holds: the link bit at
its first access, and whether the TX FIFO is ready behind that.

## Key results

- `NetFree`, `dma_netFree`, `eim_netFree`: FIFO operations do not touch the net device
- `QueueUpdates.pollTimerCallback`: what holds of every update of a callback
- `wp_pollTimerCallback_carrier`: the carrier goes off with the queue stopped
- `wakesReady_pollRest`, `wp_linkUp_linked`: the two reasons to wake the queue
- `Polling.act`: what an access of a timer callback can do to the queue
- `queue_stays_stopped`: the law in every run that meets the condition
- `not_queue_stays_stopped`: both halves fail without it
-/

namespace Ccat.Native.Eth

open Interleave Relation

/-- The queue is stopped while it must be. -/
def QueueLaw {δ : Type} (n : NetConfig δ) : Prop :=
  (n.admin.linkDown = true → n.config.state.net.awake = false) ∧
    (n.admin.stopped = true → n.config.state.net.awake = false)

/-- What a timer callback may meet. Where it finds the link up with the carrier off,
    `ccat_eth_stop()` is not between its two steps. Any other one does not find the TX FIFO ready
    while the link is down or `ccat_eth_stop()` is between its two steps. -/
def NetAdmin.inTime (a : NetAdmin) : Bool :=
  match a.poll with
  | some ⟨_, carrier, some link, ready⟩ =>
    if link && !carrier then !a.stopping else !((a.linkDown || a.stopping) && ready)
  | _ => true

/-! ## Updates of the net device -/

section Net

variable {δ : Type}

/-- The update does not touch the net device. -/
def SameNet (upd : Machine δ → Machine δ) : Prop := ∀ s, (upd s).net = s.net

/-- The update neither wakes the queue nor turns the carrier off. -/
def Harmless (upd : Machine δ → Machine δ) : Prop :=
  ∀ s, ((upd s).net.awake = true → s.net.awake = true) ∧
    (s.net.carrier = true → (upd s).net.carrier = true)

theorem SameNet.harmless {upd : Machine δ → Machine δ} (h : SameNet upd) : Harmless upd := by
  intro s
  rw [h s]
  exact ⟨id, id⟩

theorem netifStopQueue_harmless : Harmless (netifStopQueue : Machine δ → Machine δ) :=
  fun _ => ⟨(fun h => nomatch h), id⟩

/-- The FIFO operations and the registers of a variant leave the net device alone. -/
structure NetFree (v : Variant δ) : Prop where
  rxReady : ∀ f, (v.rxOps.ready f).All SameNet fun _ => True
  rxAdd : ∀ f, (v.rxOps.add f).All SameNet fun _ => True
  rxCopy : ∀ f len, (v.rxOps.copyToSkb f len).All SameNet fun _ => True
  /-- `ready` of the TX FIFO is one access. -/
  txRead : ∀ f, ∃ g, v.txOps.ready f = .read g
  txAdd : ∀ f, (v.txOps.add f).All SameNet fun _ => True
  txQueue : ∀ f skb, (v.txOps.queueSkb f skb).All SameNet fun _ => True
  iowrite32 : ∀ value addr, SameNet (v.iowrite32 value addr)

theorem read_sameNet {α : Type} (g : Machine δ → α) : (Prog.read g).All SameNet fun _ => True :=
  Prog.all_read (fun _ => rfl) fun _ => trivial

/-- Looking at the TX FIFO does not touch the net device. -/
theorem NetFree.txReady {v : Variant δ} (hv : NetFree v) (f : Fifo) :
    (v.txOps.ready f).All SameNet fun _ => True := by
  obtain ⟨g, hg⟩ := hv.txRead f
  rw [hg]
  exact read_sameNet g

theorem dmaIowrite32_sameNet (value addr : Nat) : SameNet (dmaIowrite32 value addr) :=
  fun s => (dmaIowrite32_keeps value addr s).1

/-- The FIFO operations of the DMA variant. -/
theorem dma_netFree : NetFree dma where
  rxReady f := by
    refine Prog.all_bind (read_sameNet _) fun _ _ => Prog.all_ite ?_ trivial
    exact Prog.all_bind (read_sameNet _) fun _ _ => trivial
  rxAdd f := Prog.all_modify_bind (fun _ => rfl) (Prog.all_modify (dmaIowrite32_sameNet _ _))
  rxCopy f len := read_sameNet _
  txRead f := ⟨_, rfl⟩
  txAdd f := Prog.all_modify fun _ => rfl
  txQueue f skb := by
    refine Prog.all_modify_bind (fun _ => rfl) (Prog.all_modify_bind (fun _ => rfl) ?_)
    exact Prog.all_modify_bind (fun _ => rfl) (Prog.all_modify fun s => dmaIowrite32_sameNet _ _ _)
  iowrite32 := dmaIowrite32_sameNet

/-- Registers of the EIM variant are not the net device. -/
theorem eimIowrite32_sameNet (value addr : Nat) : SameNet (eimIowrite32 value addr) := by
  intro s
  unfold eimIowrite32
  split
  · rfl
  · split
    · rfl
    · split <;> rfl

/-- The FIFO operations of the EIM variant. -/
theorem eim_netFree : NetFree eim where
  rxReady f := Prog.all_bind (read_sameNet _) fun _ _ => trivial
  rxAdd f := Prog.all_modify fun _ => rfl
  rxCopy f len := read_sameNet _
  txRead f := ⟨_, rfl⟩
  txAdd f := trivial
  txQueue f skb := by
    refine Prog.all_modify_bind (fun _ => rfl) (Prog.all_modify_bind (fun _ => rfl) ?_)
    exact Prog.all_modify fun s => eimIowrite32_sameNet _ _ _
  iowrite32 := eimIowrite32_sameNet

/-! ## Callbacks -/

variable {v : Variant δ}

/-- What `ccat_eth_start_xmit()`, `poll_rx()` and the FIFO operations do to the net device has the
    property `φ`. -/
structure QueueUpdates (φ : (Machine δ → Machine δ) → Prop) : Prop where
  sameNet : ∀ upd, SameNet upd → φ upd
  stop : φ netifStopQueue
  full : φ txRingFull
  drop : φ txDrop
  txBytes : ∀ len, φ fun s => { s with net.txBytes := s.net.txBytes + len }
  rxBytes : ∀ len, φ fun s => { s with net.rxBytes := s.net.rxBytes + len }
  noMem : φ fun s => { s with net.rxDropped := s.net.rxDropped + 1, rxLog := s.rxLog ++ [.noMem] }

namespace QueueUpdates

variable {φ : (Machine δ → Machine δ) → Prop}

theorem all_of_sameNet {α : Type} {ψ : α → Prop} {prog : Prog (Machine δ) α}
    (hφ : QueueUpdates φ) (h : prog.All SameNet ψ) : prog.All φ ψ :=
  Prog.all_mono h hφ.sameNet

/-- `ccat_eth_fifo_reset()`. -/
theorem fifoReset (hφ : QueueUpdates φ) (hv : NetFree v) {add : Fifo → Prog (Machine δ) Unit}
    (hadd : ∀ f, (add f).All SameNet fun _ => True) (f : Fifo) :
    (ccatEthFifoReset v add f).All φ fun _ => True := by
  apply fifoReset_all (I := fun _ => True)
  case hinc => exact fun _ _ => trivial
  case hadd => exact fun f _ => hφ.all_of_sameNet (hadd f)
  case hwrite => exact hφ.sameNet _ (hv.iowrite32 _ _)
  case hstart => trivial

/-- `ccat_eth_start_xmit()` may stop the queue. -/
theorem startXmit (hφ : QueueUpdates φ) (hv : NetFree v) (f : Fifo) (skb : Skb) :
    (ccatEthStartXmit v f skb).All φ fun _ => True := by
  refine Prog.all_imp (startXmit_all (I := fun _ => True) ?hinc ?hready ?hqueue hφ.drop hφ.full
    hφ.stop hφ.txBytes trivial skb) fun _ _ => trivial
  case hinc => exact fun _ _ => trivial
  case hready => exact fun f => hφ.all_of_sameNet (hv.txReady f)
  case hqueue => exact fun f skb _ => hφ.all_of_sameNet (hv.txQueue f skb)

/-- `poll_rx()` counts bytes and drops. -/
theorem pollRx (hφ : QueueUpdates φ) (hv : NetFree v) (f : Fifo) :
    (pollRx v f).All φ fun _ => True := by
  apply pollRx_all (I := fun _ => True)
  case hinc => exact fun _ _ => trivial
  case hready => exact fun f => hφ.all_of_sameNet (hv.rxReady f)
  case hadd => exact fun f _ => hφ.all_of_sameNet (hv.rxAdd f)
  case hcopy => exact fun f len => hφ.all_of_sameNet (hv.rxCopy f len)
  case hbytes => exact hφ.rxBytes
  case hnetif => exact fun _ => hφ.sameNet _ fun _ => rfl
  case hnoMem => exact hφ.noMem
  case hf => trivial

/-- `ccat_eth_link_up()` turns the carrier on and starts the queue. -/
theorem linkUp (hφ : QueueUpdates φ) (hon : φ netifCarrierOn) (hwake : φ netifWakeQueue)
    (hv : NetFree v) (priv : Priv) : (ccatEthLinkUp v priv).All φ fun _ => True := by
  refine Prog.all_imp (linkUp_all (I := fun _ => True) (T := fun _ => True) ?hrxReset ?htxReset
    ?hxmit hon hwake trivial trivial) fun _ _ => trivial
  case hrxReset => exact fun f _ => hφ.fifoReset hv hv.rxAdd f
  case htxReset => exact fun f _ => hφ.fifoReset hv hv.txAdd f
  case hxmit => exact fun f skb _ => hφ.startXmit hv f skb

/-- `poll_tx()` may wake the queue. -/
theorem pollTx (hφ : QueueUpdates φ) (hwake : φ netifWakeQueue) (hv : NetFree v) (f : Fifo) :
    (pollTx v f).All φ fun _ => True := by
  refine Prog.all_bind (hφ.all_of_sameNet (hv.txReady _)) fun _ _ => ?_
  exact Prog.all_ite (Prog.all_modify hwake) trivial

/-- The whole timer callback. -/
theorem pollTimerCallback (hφ : QueueUpdates φ) (hon : φ netifCarrierOn) (hoff : φ netifCarrierOff)
    (hwake : φ netifWakeQueue) (hv : NetFree v) (priv : Priv) :
    (pollTimerCallback v priv).All φ fun _ => True := by
  refine Prog.all_imp (pollTimerCallback_all (I := fun _ => True) (T := fun _ => True) ?hid ?hup
    ?hdown ?hpollRx ?hready hwake trivial trivial) fun _ _ => trivial
  case hid => exact hφ.sameNet _ fun _ => rfl
  case hup =>
    exact fun priv _ _ => Prog.all_imp (hφ.linkUp hon hwake hv priv) fun _ _ => ⟨trivial, trivial⟩
  case hdown => exact Prog.all_modify_bind hφ.stop (Prog.all_modify hoff)
  case hpollRx => exact fun f _ => hφ.pollRx hv f
  case hready => exact fun f => hφ.all_of_sameNet (hv.txReady f)

end QueueUpdates

/-- `ccat_eth_start_xmit()` and `poll_rx()` only ever stop the queue. -/
theorem harmless_updates : QueueUpdates (Harmless : (Machine δ → Machine δ) → Prop) where
  sameNet _ := SameNet.harmless
  stop := netifStopQueue_harmless
  full _ := netifStopQueue_harmless _
  drop _ := ⟨id, id⟩
  txBytes _ _ := ⟨id, id⟩
  rxBytes _ _ := ⟨id, id⟩
  noMem _ := ⟨id, id⟩

/-- The updates of a callback outside of `ccat_eth_link_down()`. -/
def WakeOrHarmless (upd : Machine δ → Machine δ) : Prop := upd = netifWakeQueue ∨ Harmless upd

/-- A weaker property. -/
theorem QueueUpdates.mono {φ φ' : (Machine δ → Machine δ) → Prop} (hφ : QueueUpdates φ)
    (h : ∀ upd, φ upd → φ' upd) : QueueUpdates φ' where
  sameNet upd hupd := h _ (hφ.sameNet upd hupd)
  stop := h _ hφ.stop
  full := h _ hφ.full
  drop := h _ hφ.drop
  txBytes len := h _ (hφ.txBytes len)
  rxBytes len := h _ (hφ.rxBytes len)
  noMem := h _ hφ.noMem

/-- What wakes the queue does nothing else. -/
theorem wakeOrHarmless_updates :
    QueueUpdates (WakeOrHarmless : (Machine δ → Machine δ) → Prop) :=
  harmless_updates.mono fun _ => .inr

/-- `ccat_eth_link_up()` does not turn the carrier off. -/
theorem linkUp_wakeOr (hv : NetFree v) (priv : Priv) :
    (ccatEthLinkUp v priv).All WakeOrHarmless fun _ => True :=
  wakeOrHarmless_updates.linkUp (.inr fun _ => ⟨id, fun _ => rfl⟩) (.inl rfl) hv priv

/-! ## Turning the carrier off -/

/-- What may happen besides the callback that is running. -/
def StopOrHw (hw : Machine δ → Machine δ → Prop) (s t : Machine δ) : Prop :=
  hw s t ∨ t = netifStopQueue s

/-- An update that turns the carrier off leaves the queue stopped. -/
def DropsStopped (s t : Machine δ) : Prop :=
  s.net.carrier = true → t.net.carrier = false → t.net.awake = false

/-- The hardware does not touch the net device. -/
def HwNetFree (hw : Machine δ → Machine δ → Prop) : Prop := ∀ s t, hw s t → t.net = s.net

variable {hw : Machine δ → Machine δ → Prop}

/-- A program that does not turn the carrier off. -/
theorem wp_of_wakeOr {α : Type} {ψ : α → Prop} {prog : Prog (Machine δ) α}
    (hall : prog.All WakeOrHarmless ψ) (s : Machine δ) :
    wp (StopOrHw hw) DropsStopped prog (fun _ _ => True) s := by
  refine wp_mono (wp_of_all (P := fun _ => True) (fun _ _ _ _ => trivial) trivial
    (Prog.all_mono hall fun upd hupd t _ => ⟨fun hon hoff => ?_, trivial⟩)) fun _ _ _ => trivial
  -- the carrier stays on
  have hkeep : (upd t).net.carrier = true := by
    cases hupd with
    | inl hwake => rw [hwake]; exact hon
    | inr hharmless => exact (hharmless t).2 hon
  rw [hkeep] at hoff
  exact nomatch hoff

/-- `ccat_eth_link_down()` stops the queue first, and nobody wakes it in between. -/
theorem wp_linkDown_carrier (hhw : HwNetFree hw) (s : Machine δ) :
    wp (StopOrHw hw) DropsStopped ccatEthLinkDown (fun _ _ => True) s := by
  have hstable : Stable (StopOrHw hw) fun s => s.net.awake = false := by
    intro s t hs hR
    cases hR with
    | inl hR => rw [hhw s t hR]; exact hs
    | inr hR => rw [hR]; rfl
  unfold ccatEthLinkDown
  refine wp_seq (M := fun _ s => s.net.awake = false) ?_ fun _ t ht => ?_
  · refine wp_modify (P := fun _ => True) (fun _ _ _ _ => trivial) trivial fun t _ => ⟨?_, rfl⟩
    exact fun _ _ => rfl
  · exact wp_modify hstable ht fun t ht => ⟨fun _ _ => ht, trivial⟩

/-- A timer callback turns the carrier off with the queue stopped. -/
theorem wp_pollTimerCallback_carrier (hv : NetFree v) (hhw : HwNetFree hw) (priv : Priv)
    (s : Machine δ) :
    wp (StopOrHw hw) DropsStopped (pollTimerCallback v priv) (fun _ _ => True) s := by
  have hquiet : QueueUpdates (WakeOrHarmless : (Machine δ → Machine δ) → Prop) :=
    wakeOrHarmless_updates
  refine wp_seq (M := fun _ _ => True) ?_ fun priv t _ => ?_
  · refine wp_seq (wp_of_wakeOr (hquiet.all_of_sameNet (read_sameNet _)) s) fun link t _ => ?_
    refine wp_seq (wp_of_wakeOr (hquiet.all_of_sameNet (read_sameNet _)) t) fun carrier t _ => ?_
    split
    · split
      · exact wp_of_wakeOr (linkUp_wakeOr hv priv) t
      · exact wp_seq (wp_linkDown_carrier hhw t) fun _ _ _ => wp_pure trivial
    · exact wp_pure trivial
  refine wp_seq (wp_of_wakeOr (hquiet.pollRx hv _) t) fun _ t _ => ?_
  exact wp_seq (wp_of_wakeOr (hquiet.pollTx (.inl rfl) hv _) t) fun _ _ _ => wp_pure trivial

/-! ## Waking the queue -/

/-- The part of `poll_timer_callback()` behind `poll_link()`. -/
def pollRest (v : Variant δ) (priv : Priv) : Prog (Machine δ) Priv := do
  let rxFifo ← pollRx v priv.rxFifo
  pollTx v priv.txFifo
  return { priv with rxFifo := rxFifo }

/-- The first access of a timer callback is to the link bit. -/
theorem pollTimerCallback_eq (priv : Priv) :
    pollTimerCallback v priv =
      .act id fun s => pollLinkOn v priv ((v.readMii s).testBit 24) >>= pollRest v := rfl

/-- `poll_link()` behind its two reads. -/
def pollLinkAt (v : Variant δ) (priv : Priv) (link carrier : Bool) : Prog (Machine δ) Priv :=
  if link ≠ carrier then
    if link then ccatEthLinkUp v priv
    else do
      ccatEthLinkDown
      return priv
  else return priv

/-- The next access is to the carrier flag. -/
theorem pollLinkOn_eq (priv : Priv) (link : Bool) :
    (pollLinkOn v priv link >>= pollRest v) =
      .act id fun s => pollLinkAt v priv link s.net.carrier >>= pollRest v := rfl

/-- The update does not wake the queue. -/
def NeverWakes (upd : Machine δ → Machine δ) : Prop :=
  ∀ s, (upd s).net.awake = true → s.net.awake = true

/-- The queue is woken only after an access that met the TX FIFO ready. `ready` tells whether
    there was one already. -/
def WakesReady (v : Variant δ) (f : Fifo) {α : Type} : Bool → Prog (Machine δ) α → Prop
  | _, .ret _ => True
  | ready, .act upd k => (ready = true ∨ NeverWakes upd) ∧
      ∀ s, WakesReady v f (ready || txReady v f s) (k s)
  | ready, .pick k => ∀ b, WakesReady v f ready (k b)

/-- What comes ahead of the look at the FIFO does not wake the queue. -/
theorem wakesReady_bind {α β : Type} {ψ : α → Prop} {f : Fifo} {p : Prog (Machine δ) α}
    {q : α → Prog (Machine δ) β} (hp : p.All NeverWakes ψ)
    (hq : ∀ a ready, WakesReady v f ready (q a)) (ready : Bool) :
    WakesReady v f ready (p >>= q) := by
  induction p generalizing ready with
  | ret a => exact hq a ready
  | act upd k ih => exact ⟨.inr hp.1, fun s => ih s (hp.2 s) _⟩
  | pick k ih => exact fun b => ih b (hp b) ready

/-- `ccat_eth_start_xmit()` and `poll_rx()` do not wake the queue. -/
theorem neverWakes_updates : QueueUpdates (NeverWakes : (Machine δ → Machine δ) → Prop) :=
  harmless_updates.mono fun _ h s => (h s).1

/-- `poll_tx()` wakes the queue when it finds the TX FIFO ready. -/
theorem wakesReady_pollRest (hv : NetFree v) (priv : Priv) (ready : Bool) :
    WakesReady v priv.txFifo ready (pollRest v priv) := by
  refine wakesReady_bind (neverWakes_updates.pollRx hv priv.rxFifo) (fun rxFifo ready => ?_) ready
  obtain ⟨g, hg⟩ := hv.txRead priv.txFifo
  have hready : ∀ s, txReady v priv.txFifo s = decide (g s ≠ 0) := by
    intro s
    unfold txReady
    rw [hg]
    rfl
  unfold pollTx
  rw [hg]
  refine ⟨.inr fun _ => id, fun s => ?_⟩
  rw [hready]
  -- the value that is read decides
  show WakesReady v priv.txFifo (ready || decide (g s ≠ 0))
    ((if g s ≠ 0 then Prog.modify netifWakeQueue else pure ()) >>= fun _ =>
      pure { priv with rxFifo := rxFifo })
  by_cases h : g s ≠ 0
  · rw [if_pos h, decide_eq_true h, Bool.or_true]
    exact ⟨.inl rfl, fun _ => trivial⟩
  · rw [if_neg h]
    trivial

/-- Where the link does not come up, the queue is left to `poll_tx()`. -/
theorem wakesReady_pollLinkAt (hv : NetFree v) (priv : Priv) {link carrier : Bool}
    (hup : (link && !carrier) = false) (ready : Bool) :
    WakesReady v priv.txFifo ready (pollLinkAt v priv link carrier >>= pollRest v) := by
  have hrest := wakesReady_pollRest hv priv
  cases link with
  | true =>
    obtain rfl : carrier = true := by simpa using hup
    exact hrest ready
  | false =>
    cases carrier with
    | false => exact hrest ready
    | true =>
      -- `ccat_eth_link_down()` ahead of it stops the queue
      have hdown : (ccatEthLinkDown : Prog (Machine δ) Unit).All NeverWakes fun _ => True :=
        Prog.all_modify_bind neverWakes_updates.stop (Prog.all_modify fun _ => id)
      exact wakesReady_bind hdown (fun _ => hrest) ready

/-- An update that wakes the queue comes with the carrier on. -/
def WakesLinked (s t : Machine δ) : Prop :=
  t.net.awake = true → s.net.awake = true ∨ s.net.carrier = true

/-- The carrier flag is the driver's. -/
theorem carrier_stable (hhw : HwNetFree hw) (b : Bool) :
    Stable (StopOrHw hw) fun s => s.net.carrier = b := by
  intro s t hs hR
  cases hR with
  | inl hR => rw [hhw s t hR]; exact hs
  | inr hR => rw [hR]; exact hs

/-- `ccat_eth_link_up()` starts the queue with the carrier on, and `poll_tx()` comes later. -/
theorem wp_linkUp_linked (hv : NetFree v) (hhw : HwNetFree hw) (priv : Priv) (s : Machine δ) :
    wp (StopOrHw hw) WakesLinked (ccatEthLinkUp v priv >>= pollRest v) (fun _ _ => True) s := by
  -- resets and the forward frame come first, and do not wake the queue
  have hbefore : ∀ {α : Type} {ψ : α → Prop} {prog : Prog (Machine δ) α} (s : Machine δ),
      prog.All NeverWakes ψ →
      wp (StopOrHw hw) WakesLinked prog (fun _ _ => True) s := by
    intro α ψ prog s hall
    refine wp_mono (wp_of_all (P := fun _ => True) (fun _ _ _ _ => trivial) trivial
      (Prog.all_mono hall fun upd hupd t _ => ⟨fun hawake => .inl (hupd t hawake), trivial⟩))
      fun _ _ _ => trivial
  have hcarrier := carrier_stable hhw true
  refine wp_seq (M := fun _ t => t.net.carrier = true) ?_ fun priv t ht => ?_
  · unfold ccatEthLinkUp
    refine wp_seq (hbefore s (neverWakes_updates.fifoReset hv hv.rxAdd _)) fun rxFifo t _ => ?_
    refine wp_seq (hbefore t (neverWakes_updates.fifoReset hv hv.txAdd _)) fun txFifo t _ => ?_
    have hxmit : (ccatEthXmitRaw v txFifo frameForwardEthernetFrames).All NeverWakes
        fun _ => True :=
      Prog.all_bind (neverWakes_updates.startXmit hv txFifo _) fun _ _ => trivial
    refine wp_seq (hbefore t hxmit) fun txFifo t _ => ?_
    refine wp_seq (M := fun _ t => t.net.carrier = true) ?_ fun _ t ht => ?_
    · exact wp_modify (P := fun _ => True) (fun _ _ _ _ => trivial) trivial
        fun t _ => ⟨fun hawake => .inl hawake, rfl⟩
    refine wp_seq (M := fun _ t => t.net.carrier = true) ?_ fun _ t ht => wp_pure ht
    exact wp_modify hcarrier ht fun t ht => ⟨fun _ => .inr ht, ht⟩
  · -- from here on the carrier stays on
    have hrest : (pollRest v priv).All WakeOrHarmless fun _ => True :=
      Prog.all_bind (wakeOrHarmless_updates.pollRx hv _) fun _ _ =>
        Prog.all_bind (wakeOrHarmless_updates.pollTx (.inl rfl) hv _) fun _ _ => trivial
    refine wp_mono (wp_of_all hcarrier ht (Prog.all_mono hrest fun upd hupd t ht =>
      ⟨fun _ => .inr ht, ?_⟩)) fun _ _ _ => trivial
    rcases hupd with rfl | hharmless
    · exact ht
    · exact (hharmless t).2 ht

/-! ## The timer callback that is running -/

/-- What is left of the timer callback, given what it met so far. -/
inductive Polling (v : Variant δ) (hw : Machine δ → Machine δ → Prop) (p : Poll)
    (prog : Prog (Machine δ) Priv) (s : Machine δ) : Prop where
  | started (priv : Priv) : prog = pollTimerCallback v priv → p.link = none →
      p.txFifo = priv.txFifo → s.net.carrier = p.carrier → Polling v hw p prog s
  | looked (priv : Priv) (link : Bool) : prog = pollLinkOn v priv link >>= pollRest v →
      p.link = some link → p.txFifo = priv.txFifo → s.net.carrier = p.carrier →
      Polling v hw p prog s
  | up : p.link = some true → p.carrier = false →
      wp (StopOrHw hw) WakesLinked prog (fun _ _ => True) s → Polling v hw p prog s
  | other (link : Bool) : p.link = some link → (link && !p.carrier) = false →
      WakesReady v p.txFifo p.ready prog → Polling v hw p prog s

/-- Why a timer callback may wake the queue. -/
inductive MayWake (p : Poll) (s : Machine δ) : Prop where
  | up : p.link = some true → p.carrier = false → s.net.carrier = true → MayWake p s
  | other (link : Bool) : p.link = some link → (link && !p.carrier) = false → p.ready = true →
      MayWake p s

namespace Polling

variable {p : Poll} {s t : Machine δ} {prog : Prog (Machine δ) Priv}

/-- The hardware and `ccat_eth_stop()` do not spoil it. -/
theorem env (hhw : HwNetFree hw) (h : Polling v hw p prog s) (hR : StopOrHw hw s t) :
    Polling v hw p prog t := by
  have hcarrier : ∀ b, s.net.carrier = b → t.net.carrier = b :=
    fun b hs => carrier_stable hhw b hs hR
  cases h with
  | started priv hprog hlink hfifo hs => exact .started priv hprog hlink hfifo (hcarrier _ hs)
  | looked priv link hprog hlink hfifo hs =>
    exact .looked priv link hprog hlink hfifo (hcarrier _ hs)
  | up hlink hoff hwp => exact .up hlink hoff (wp_env (fun _ _ _ _ _ => trivial) hwp hR)
  | other link hlink hup hwakes => exact .other link hlink hup hwakes

/-- An access: it wakes the queue for one of the two reasons only. -/
theorem act (hv : NetFree v) (hhw : HwNetFree hw) {upd : Machine δ → Machine δ}
    {k : Machine δ → Prog (Machine δ) Priv} (h : Polling v hw p (.act upd k) s) :
    ((upd s).net.awake = true → s.net.awake = true ∨ MayWake p s) ∧
      Polling v hw (p.access v s) (k s) (upd s) := by
  cases h with
  -- the first access is to the link bit
  | started priv hprog hlink hfifo hs =>
    rw [pollTimerCallback_eq] at hprog
    obtain ⟨rfl, rfl⟩ := Prog.act.inj hprog
    refine ⟨.inl, .looked priv ((v.readMii s).testBit 24) rfl ?_ ?_ ?_⟩
    all_goals simp only [Poll.access, hlink]
    · exact hfifo
    · exact hs
  -- the second one, to the carrier, decides which way the callback goes
  | looked priv link hprog hlink hfifo hs =>
    rw [pollLinkOn_eq] at hprog
    obtain ⟨rfl, rfl⟩ := Prog.act.inj hprog
    refine ⟨.inl, ?_⟩
    have haccess : p.access v s = { p with ready := p.ready || txReady v p.txFifo s } := by
      simp only [Poll.access, hlink]
    rw [haccess]
    show Polling v hw _ (pollLinkAt v priv link s.net.carrier >>= pollRest v) s
    rw [hs]
    cases hup : link && !p.carrier with
    | true =>
      obtain ⟨rfl, hoff⟩ : link = true ∧ p.carrier = false := by simpa using hup
      refine .up hlink hoff ?_
      rw [hoff]
      exact wp_linkUp_linked hv hhw priv s
    | false =>
      refine .other link hlink hup ?_
      show WakesReady v p.txFifo _ _
      rw [hfifo]
      exact wakesReady_pollLinkAt hv priv hup _
  -- the link came up
  | up hlink hoff hwp =>
    obtain ⟨hG, hrest⟩ := hwp s ReflTransGen.refl
    refine ⟨fun hawake => (hG hawake).imp_right (.up hlink hoff), ?_⟩
    have haccess : (p.access v s).link = p.link ∧ (p.access v s).carrier = p.carrier := by
      simp only [Poll.access, hlink, and_self]
    exact .up (haccess.1.trans hlink) (haccess.2.trans hoff) hrest
  -- it did not, so only `poll_tx()` can wake the queue
  | other link hlink hup hwakes =>
    have haccess : p.access v s = { p with ready := p.ready || txReady v p.txFifo s } := by
      simp only [Poll.access, hlink]
    rw [haccess]
    refine ⟨fun hawake => ?_, .other link hlink hup (hwakes.2 s)⟩
    rcases hwakes.1 with hready | hnever
    · exact .inr (.other link hlink hup hready)
    · exact .inl (hnever s hawake)

/-- A choice changes nothing. -/
theorem pick {k : Bool → Prog (Machine δ) Priv} (h : Polling v hw p (.pick k) s) (b : Bool) :
    Polling v hw p (k b) s := by
  cases h with
  | started priv hprog => exact absurd hprog (by rw [pollTimerCallback_eq]; exact nofun)
  | looked priv link hprog => exact absurd hprog (by rw [pollLinkOn_eq]; exact nofun)
  | up hlink hoff hwp => exact .up hlink hoff (hwp b)
  | other link hlink hup hwakes => exact .other link hlink hup (hwakes b)

end Polling

/-- What a callback that is in time finds does not let it wake a queue that must be stopped. -/
theorem MayWake.free {a : NetAdmin} {p : Poll} {s : Machine δ} (h : MayWake p s)
    (hpoll : a.poll = some p) (htime : a.inTime = true)
    (hcarrier : s.net.carrier = true → a.linkDown = false) :
    a.linkDown = false ∧ a.stopping = false := by
  obtain ⟨f, carrier, link, ready⟩ := p
  unfold NetAdmin.inTime at htime
  rw [hpoll] at htime
  cases h with
  | up hlink hoff hon =>
    obtain rfl : link = some true := hlink
    obtain rfl : carrier = false := hoff
    exact ⟨hcarrier hon, by simpa using htime⟩
  | other l hlink hup hready =>
    obtain rfl : link = some l := hlink
    obtain rfl : ready = true := hready
    replace htime : (if l && !carrier then !a.stopping
      else !((a.linkDown || a.stopping) && true)) = true := htime
    rw [if_neg (by rw [show (l && !carrier) = false from hup]; decide)] at htime
    simpa using htime

/-! ## Every run -/

/-- What holds at every step of a run that is in time. -/
structure QueueInv (v : Variant δ) (hw : Machine δ → Machine δ → Prop) (n : NetConfig δ) :
    Prop where
  law : QueueLaw n
  stopping : n.admin.stopping = true → n.config.state.net.awake = false ∧ n.admin.armed = true
  stopped : n.admin.stopped = true → n.admin.armed = false
  carrier : n.config.state.net.carrier = true → n.admin.linkDown = false
  /-- A timer callback is running, and the timer is armed. -/
  poll : ∀ p, n.admin.poll = some p → n.admin.armed = true ∧
    ∃ prog, n.config.control = .running prog ∧ Polling v hw p prog n.config.state
  /-- It is a call of the stack otherwise. -/
  quiet : n.admin.poll = none → ∀ prog, n.config.control = .running prog →
    prog.All NeverWakes fun _ => True
  drops : ∀ prog, n.config.control = .running prog →
    wp (StopOrHw hw) DropsStopped prog (fun _ _ => True) n.config.state

section Step

variable {s t : Machine δ} {a : NetAdmin} {ctl : Control (Machine δ) Priv}

/-- Only a change of the carrier is observed. -/
theorem observe_of_carrier_eq (h : t.net.carrier = s.net.carrier) : a.observe s t = a := by
  unfold NetAdmin.observe
  rw [h]
  cases s.net.carrier <;> rfl

/-- Between callbacks there is none to be followed. -/
theorem QueueInv.poll_idle {priv : Priv} (h : QueueInv v hw ⟨⟨.idle priv, s⟩, a⟩) :
    a.poll = none := by
  cases hpoll : a.poll with
  | none => rfl
  | some p =>
    obtain ⟨-, prog, hcontrol, -⟩ := h.poll p hpoll
    cases hcontrol

/-- A step of the hardware, or the first one of `ccat_eth_stop()`, as far as the callback that is
    running is concerned. -/
theorem QueueInv.poll_env (hhw : HwNetFree hw) (h : QueueInv v hw ⟨⟨ctl, s⟩, a⟩)
    (hR : StopOrHw hw s t) (p : Poll) (hp : a.poll = some p) :
    a.armed = true ∧ ∃ prog, ctl = .running prog ∧ Polling v hw p prog t := by
  obtain ⟨harmed, prog, hcontrol, hpolling⟩ := h.poll p hp
  exact ⟨harmed, prog, hcontrol, hpolling.env hhw hR⟩

/-- A step of the hardware. -/
theorem queueInv_env (hhw : HwNetFree hw) (h : QueueInv v hw ⟨⟨ctl, s⟩, a⟩) (hR : hw s t) :
    QueueInv v hw ⟨⟨ctl, t⟩, a.observe s t⟩ := by
  -- none of it is about the device
  have hnet := hhw s t hR
  rw [observe_of_carrier_eq (by rw [hnet])]
  constructor
  case law =>
    show (_ → t.net.awake = false) ∧ (_ → t.net.awake = false)
    rw [hnet]
    exact h.law
  case stopping =>
    show _ → t.net.awake = false ∧ _
    rw [hnet]
    exact h.stopping
  case stopped => exact h.stopped
  case carrier =>
    show t.net.carrier = true → _
    rw [hnet]
    exact h.carrier
  case poll => exact h.poll_env hhw (.inl hR)
  case quiet => exact h.quiet
  case drops =>
    exact fun prog hprog => wp_env (fun _ _ _ _ _ => trivial) (h.drops prog hprog) (.inl hR)

/-- A callback is started. -/
theorem queueInv_start {priv : Priv} {prog : Prog (Machine δ) Priv} {poll : Option Poll}
    (h : QueueInv v hw ⟨⟨.idle priv, s⟩, a⟩)
    (hpoll : ∀ p, poll = some p → a.armed = true ∧ Polling v hw p prog s)
    (hquiet : poll = none → prog.All NeverWakes fun _ => True)
    (hdrops : wp (StopOrHw hw) DropsStopped prog (fun _ _ => True) s) :
    QueueInv v hw ⟨⟨.running prog, s⟩, { a with poll := poll }⟩ where
  law := h.law
  stopping := h.stopping
  stopped := h.stopped
  carrier := h.carrier
  poll p hp := ⟨(hpoll p hp).1, prog, rfl, (hpoll p hp).2⟩
  quiet hnone prog' hprog := by
    cases hprog
    exact hquiet hnone
  drops prog' hprog := by
    cases hprog
    exact hdrops

/-- A callback that makes no access left is followed no longer. -/
theorem access_poll (a : NetAdmin) (s : Machine δ) (rest : Prog (Machine δ) Priv) :
    (a.access v s rest).poll = a.poll.map (·.access v s) ∨
      (a.access v s rest).poll = none ∧ ∃ priv, rest = .ret priv := by
  cases rest with
  | ret priv => exact .inr ⟨rfl, priv, rfl⟩
  | act upd k => exact .inl rfl
  | pick k => exact .inl rfl

/-- An access of the callback that is running. -/
theorem queueInv_act (hv : NetFree v) (hhw : HwNetFree hw) {upd : Machine δ → Machine δ}
    {k : Machine δ → Prog (Machine δ) Priv}
    (h : QueueInv v hw ⟨⟨.running (.act upd k), s⟩, a⟩) (htime : a.inTime = true) :
    QueueInv v hw ⟨⟨.running (k s), upd s⟩, (a.access v s (k s)).observe s (upd s)⟩ := by
  obtain ⟨hdrops, hdrops'⟩ := h.drops _ rfl s ReflTransGen.refl
  -- a queue that must be stopped stays so
  have hkeep : (a.linkDown = true ∨ a.stopping = true ∨ a.armed = false) →
      s.net.awake = false → (upd s).net.awake = false := by
    intro hmust hasleep
    by_contra hawake
    rw [Bool.not_eq_false] at hawake
    cases hpoll : a.poll with
    -- outside of a timer callback no access wakes the queue
    | none =>
      have hstill := (h.quiet hpoll _ rfl).1 s hawake
      rw [hasleep] at hstill
      exact absurd hstill (by decide)
    | some p =>
      obtain ⟨harmed, prog, hcontrol, hpolling⟩ := h.poll p hpoll
      obtain rfl : Prog.act upd k = prog := by injection hcontrol
      rcases (hpolling.act hv hhw).1 hawake with hstill | hwake
      · rw [hasleep] at hstill
        exact absurd hstill (by decide)
      · -- a callback wakes the queue, but by the condition not now
        obtain ⟨hdown, hstopping⟩ := hwake.free hpoll htime h.carrier
        simp [hdown, hstopping, show a.armed = true from harmed] at hmust
  -- what is observed of the carrier
  have hobserve : ((a.access v s (k s)).observe s (upd s)).linkDown =
      if s.net.carrier && !(upd s).net.carrier then true
      else if !s.net.carrier && (upd s).net.carrier then false else a.linkDown := rfl
  constructor
  case law =>
    constructor
    · intro hdown
      replace hdown := hobserve.symm.trans hdown
      split at hdown
      · rename_i hdrop
        -- the carrier is turned off behind `netif_stop_queue()`
        obtain ⟨hon, hoff⟩ := Bool.and_eq_true_iff.mp hdrop
        exact hdrops hon (by simpa using hoff)
      · split at hdown
        · exact absurd hdown (by decide)
        · exact hkeep (.inl hdown) (h.law.1 hdown)
    · intro hstopped
      exact hkeep (.inr (.inr (h.stopped hstopped))) (h.law.2 hstopped)
  case stopping =>
    intro hstopping
    obtain ⟨hasleep, harmed⟩ := h.stopping hstopping
    exact ⟨hkeep (.inr (.inl hstopping)) hasleep, harmed⟩
  case stopped => exact h.stopped
  case carrier =>
    intro hon
    replace hon : (upd s).net.carrier = true := hon
    show ((a.access v s (k s)).observe s (upd s)).linkDown = false
    rw [hobserve, hon]
    cases hs : s.net.carrier with
    | false => rfl
    | true => exact h.carrier hs
  case poll =>
    intro p' hp'
    rcases access_poll (v := v) a s (k s) with haccess | ⟨hnone, -⟩
    · replace hp' : (a.access v s (k s)).poll = some p' := hp'
      rw [haccess] at hp'
      obtain ⟨p, hp, rfl⟩ := Option.map_eq_some_iff.mp hp'
      obtain ⟨harmed, prog, hcontrol, hpolling⟩ := h.poll p hp
      obtain rfl : Prog.act upd k = prog := by injection hcontrol
      exact ⟨harmed, k s, rfl, (hpolling.act hv hhw).2⟩
    · exact absurd (hnone.symm.trans hp') (by simp)
  -- a call of the stack never wakes the queue
  case quiet =>
    intro hnone prog hprog
    cases hprog
    rcases access_poll (v := v) a s (k s) with haccess | ⟨-, priv, hret⟩
    · replace hnone : (a.access v s (k s)).poll = none := hnone
      rw [haccess] at hnone
      exact (h.quiet (Option.map_eq_none_iff.mp hnone) _ rfl).2 s
    · rw [hret]
      trivial
  case drops =>
    intro prog hprog
    cases hprog
    exact hdrops'

/-- Every step of the driver and of its net device. -/
theorem queueInv_step (hv : NetFree v) (hhw : HwNetFree hw) {n n' : NetConfig δ}
    (h : QueueInv v hw n) (hstep : NetStep v hw n n') (htime : n.admin.inTime = true) :
    QueueInv v hw n' := by
  cases hstep with
  | env hR => exact queueInv_env hhw h hR
  -- the callback starts with nothing looked at
  | @timer priv s a harmed =>
    refine queueInv_start h (fun p hp => ?_) (fun hnone => absurd hnone (by simp))
      (wp_pollTimerCallback_carrier hv hhw priv s)
    obtain rfl := Option.some.inj hp
    exact ⟨harmed, .started priv rfl rfl rfl rfl⟩
  -- a call of the stack is not followed
  | @startXmit priv s a skb =>
    have hall : (ccatEthStartXmit v priv.txFifo skb >>= fun r =>
        pure { priv with txFifo := r.2 } : Prog (Machine δ) Priv).All Harmless fun _ => True :=
      Prog.all_bind (harmless_updates.startXmit hv _ skb) fun _ _ => trivial
    have hnone : a.poll = none := h.poll_idle
    have hpoll : ∀ p, a.poll = some p → a.armed = true ∧ Polling v hw p (ccatEthStartXmit v
        priv.txFifo skb >>= fun r => pure { priv with txFifo := r.2 }) s :=
      fun p hp => absurd (hnone.symm.trans hp) (by simp)
    refine queueInv_start h hpoll (fun _ => ?_)
      (wp_of_wakeOr (Prog.all_mono hall fun _ => .inr) s)
    exact Prog.all_mono hall fun _ hupd s => (hupd s).1
  | act => exact queueInv_act hv hhw h htime
  -- a choice changes nothing but the program
  | pick b =>
    constructor
    case law => exact h.law
    case stopping => exact h.stopping
    case stopped => exact h.stopped
    case carrier => exact h.carrier
    case poll =>
      intro p hp
      obtain ⟨harmed, prog, hcontrol, hpolling⟩ := h.poll p hp
      obtain rfl : Prog.pick _ = prog := by injection hcontrol
      exact ⟨harmed, _, rfl, hpolling.pick b⟩
    case quiet =>
      intro hnone prog hprog
      cases hprog
      exact h.quiet hnone _ rfl b
    case drops =>
      intro prog hprog
      cases hprog
      exact h.drops _ rfl b
  | done =>
    exact ⟨h.law, h.stopping, h.stopped, h.carrier, (fun p hp => absurd hp (by simp)),
      (fun _ _ hprog => absurd hprog nofun), fun _ hprog => absurd hprog nofun⟩
  | ccatEthOpen hclosed =>
    refine ⟨⟨h.law.1, fun hstopped => absurd hstopped (by simp)⟩,
      fun hstopping => ⟨(h.stopping hstopping).1, rfl⟩, fun hstopped => absurd hstopped (by simp),
      h.carrier, fun p hp => ⟨rfl, (h.poll p hp).2⟩, h.quiet, h.drops⟩
  -- the queue is stopped now, also under a running callback
  | @stopQueue ctl s a harmed hstopping =>
    have hpoll := h.poll_env hhw (t := netifStopQueue s) (.inr rfl)
    refine ⟨⟨fun _ => rfl, fun _ => rfl⟩, fun _ => ⟨rfl, harmed⟩, h.stopped, h.carrier,
      hpoll, h.quiet, fun prog hprog => ?_⟩
    exact wp_env (fun _ _ _ _ _ => trivial) (h.drops prog hprog) (.inr rfl)
  -- no callback is running, and the queue is still stopped
  | cancelTimer hstopping =>
    obtain ⟨hasleep, -⟩ := h.stopping hstopping
    refine ⟨⟨h.law.1, fun _ => hasleep⟩, fun hstopping => absurd hstopping (by simp), fun _ => rfl,
      h.carrier, fun p hp => ?_, h.quiet, h.drops⟩
    exact absurd (h.poll_idle.symm.trans hp) (by simp)

end Step

/-- Configurations that are reached by a run which meets the condition `ok` at every step. -/
def NetReachIf (v : Variant δ) (hw : Machine δ → Machine δ → Prop) (ok : NetAdmin → Bool)
    (n n' : NetConfig δ) : Prop :=
  ReflTransGen (fun a b => NetStep v hw a b ∧ ok a.admin = true) n n'

/-- The law, by induction over the run. -/
theorem queueLaw_of_reach (hv : NetFree v) (hhw : HwNetFree hw) {priv : Priv} {s : Machine δ}
    {n : NetConfig δ} (hreach : NetReachIf v hw NetAdmin.inTime ⟨⟨.idle priv, s⟩, .closed⟩ n) :
    QueueLaw n := by
  have hinit : QueueInv v hw (⟨⟨.idle priv, s⟩, .closed⟩ : NetConfig δ) :=
    ⟨⟨nofun, nofun⟩, nofun, nofun, fun _ => rfl, nofun, (fun _ _ h => absurd h nofun),
      fun _ h => absurd h nofun⟩
  -- one step after the other
  have hinv : QueueInv v hw n := by
    induction hreach with
    | refl => exact hinit
    | tail _ hstep ih => exact queueInv_step hv hhw ih hstep.1 hstep.2
  exact hinv.law

end Net

/-- The hardware of the DMA variant does not touch the net device. -/
theorem hw_netFree : HwNetFree Hw := by
  intro s t h
  cases h.effect <;> rfl

/-- Neither does that of the EIM variant. -/
theorem eimHw_netFree : HwNetFree EimHw := by
  rintro s _ ⟨a, rfl⟩
  cases a with
  | rxArrive p _ _ =>
    show (eimRxArrive p s).net = s.net
    unfold eimRxArrive
    split <;> rfl
  | txSent => rfl
  | link w => rfl

/-- In both variants, in every run that is in time at every step: the queue is stopped from
    `ccat_eth_link_down()` to the next `ccat_eth_link_up()`, and from the end of `ccat_eth_stop()`
    to the next `ccat_eth_open()`. -/
theorem queue_stays_stopped (priv : Priv) (s₀ : DmaMachine) (t₀ : EimMachine)
    (n : NetConfig DmaDev) (m : NetConfig EimDev) :
    (NetReachIf dma Hw NetAdmin.inTime ⟨⟨.idle priv, s₀⟩, .closed⟩ n → QueueLaw n) ∧
      (NetReachIf eim EimHw NetAdmin.inTime ⟨⟨.idle priv, t₀⟩, .closed⟩ m → QueueLaw m) :=
  ⟨queueLaw_of_reach dma_netFree hw_netFree, queueLaw_of_reach eim_netFree eimHw_netFree⟩

/-! ## Schedules -/

/-- A driver that is in no callback. -/
structure EimNet where
  priv : Priv
  state : EimMachine
  admin : NetAdmin

def EimNet.config (x : EimNet) : NetConfig EimDev := ⟨⟨.idle x.priv, x.state⟩, x.admin⟩

/-- What may happen to it; a timer callback runs to its end before anything else happens. -/
inductive EimMove where
  | hw (a : EimHwStep)
  | timer
  | ccatEthOpen
  | stopQueue
  | cancelTimer

/-- The rest of a callback, if the condition `ok` is met at every step. -/
def pollIf (ok : NetAdmin → Bool) : Prog EimMachine Priv → EimMachine → NetAdmin → Option EimNet
  | .ret priv, s, a => if ok a then some ⟨priv, s, { a with poll := none }⟩ else none
  | .act upd k, s, a =>
    if ok a then pollIf ok (k s) (upd s) ((a.access eim s (k s)).observe s (upd s)) else none
  | .pick k, s, a => if ok a then pollIf ok (k true) s a else none

/-- A move, if it is possible and meets the condition. -/
def EimMove.apply (ok : NetAdmin → Bool) (x : EimNet) (m : EimMove) : Option EimNet :=
  if ok x.admin then
    match m with
    | .hw a => some ⟨x.priv, eimHwStep a x.state, x.admin.observe x.state (eimHwStep a x.state)⟩
    | .timer =>
      if x.admin.armed then
        pollIf ok (pollTimerCallback eim x.priv) x.state
          { x.admin with poll := some ⟨x.priv.txFifo, x.state.net.carrier, none, false⟩ }
      else none
    | .ccatEthOpen =>
      if x.admin.armed then none else some { x with admin.armed := true, admin.stopped := false }
    | .stopQueue =>
      if x.admin.armed && !x.admin.stopping then
        some { x with state := netifStopQueue x.state, admin.stopping := true }
      else none
    | .cancelTimer =>
      if x.admin.stopping then
        some { x with admin.armed := false, admin.stopping := false, admin.stopped := true }
      else none
  else none

/-- One move after another. -/
def EimNet.schedule (ok : NetAdmin → Bool) (x : EimNet) (ms : List EimMove) : Option EimNet :=
  ms.foldlM (EimMove.apply ok) x

/-- The steps of a callback that meets the condition. -/
theorem pollIf_reach {ok : NetAdmin → Bool} {prog : Prog EimMachine Priv} {s : EimMachine}
    {a : NetAdmin} {y : EimNet} (h : pollIf ok prog s a = some y) :
    NetReachIf eim EimHw ok ⟨⟨.running prog, s⟩, a⟩ y.config := by
  induction prog generalizing s a with
  | ret priv =>
    unfold pollIf at h
    obtain ⟨hok, hy⟩ := Option.ite_none_right_eq_some.mp h
    obtain rfl := Option.some.inj hy
    exact .single ⟨.done, hok⟩
  | act upd k ih =>
    unfold pollIf at h
    obtain ⟨hok, hrest⟩ := Option.ite_none_right_eq_some.mp h
    exact .head ⟨.act, hok⟩ (ih s hrest)
  | pick k ih =>
    unfold pollIf at h
    obtain ⟨hok, hrest⟩ := Option.ite_none_right_eq_some.mp h
    exact .head ⟨.pick true, hok⟩ (ih true hrest)

/-- A move is one or more steps. -/
theorem EimMove.apply_reach {ok : NetAdmin → Bool} {m : EimMove} {x y : EimNet}
    (h : m.apply ok x = some y) : NetReachIf eim EimHw ok x.config y.config := by
  unfold EimMove.apply at h
  obtain ⟨hok, h⟩ := Option.ite_none_right_eq_some.mp h
  cases m with
  | hw a =>
    obtain rfl := Option.some.inj h
    exact .single ⟨.env ⟨a, rfl⟩, hok⟩
  -- a callback is a start and then its accesses, one after another
  | timer =>
    obtain ⟨harmed, hexec⟩ := Option.ite_none_right_eq_some.mp h
    exact .head ⟨.timer harmed, hok⟩ (pollIf_reach hexec)
  | ccatEthOpen =>
    obtain ⟨harmed, hy⟩ := Option.ite_none_left_eq_some.mp h
    obtain rfl := Option.some.inj hy
    exact .single ⟨.ccatEthOpen (by simpa using harmed), hok⟩
  | stopQueue =>
    obtain ⟨hcond, hy⟩ := Option.ite_none_right_eq_some.mp h
    obtain rfl := Option.some.inj hy
    obtain ⟨harmed, hstopping⟩ := Bool.and_eq_true_iff.mp hcond
    exact .single ⟨.stopQueue harmed (by simpa using hstopping), hok⟩
  | cancelTimer =>
    obtain ⟨hstopping, hy⟩ := Option.ite_none_right_eq_some.mp h
    obtain rfl := Option.some.inj hy
    exact .single ⟨.cancelTimer hstopping, hok⟩

/-- What a schedule leads to is reached by a run. -/
theorem EimNet.schedule_reach {ok : NetAdmin → Bool} {ms : List EimMove} {x y : EimNet}
    (h : x.schedule ok ms = some y) : NetReachIf eim EimHw ok x.config y.config := by
  induction ms generalizing x with
  | nil =>
    obtain rfl := Option.some.inj h
    exact .refl
  | cons m ms ih =>
    unfold EimNet.schedule at h
    rw [List.foldlM_cons] at h
    obtain ⟨z, hz, hrest⟩ := Option.bind_eq_some_iff.mp h
    exact (EimMove.apply_reach hz).trans (ih hrest)

/-- The net device after the set-up of its FIFOs, with the cable plugged in. -/
def EimNet.setUp : EimNet := ⟨⟨oneSlotRx, oneSlotTx⟩, eimSetUp, .closed⟩

/-- The link comes up and the forward frame is queued. The cable is unplugged before the MAC could
    send it, `ccat_eth_stop()` is called, and a timer callback runs at each of these points. -/
def busyStop : List EimMove :=
  [.ccatEthOpen, .timer, .hw (.link 0), .timer, .timer, .stopQueue, .timer, .cancelTimer]

/-- With the forward frame still in the MAC the queue stays stopped. -/
theorem queue_stays_stopped_busy : ∃ n : NetConfig EimDev,
    NetReachIf eim EimHw NetAdmin.inTime EimNet.setUp.config n ∧ eimSetUp.net.awake = true ∧
      n.admin = ⟨false, false, true, true, none⟩ ∧ n.config.state.net.awake = false := by
  have hsome : (EimNet.setUp.schedule NetAdmin.inTime busyStop).map EimNet.admin =
      some ⟨false, false, true, true, none⟩ := by decide +kernel
  obtain ⟨y, hy, hadmin⟩ := Option.map_eq_some_iff.mp hsome
  have hreach := EimNet.schedule_reach hy
  have hlaw := (queue_stays_stopped ⟨oneSlotRx, oneSlotTx⟩ (DmaMachine.zeroed 0x100 0 0) eimSetUp
    ⟨⟨.idle ⟨oneSlotRx, oneSlotTx⟩, DmaMachine.zeroed 0x100 0 0⟩, .closed⟩ _).2 hreach
  exact ⟨_, hreach, rfl, hadmin, hlaw.2 (by rw [show y.config.admin = y.admin from rfl, hadmin])⟩

/-! ## Waking too early -/

/-- Configurations that a run reaches. -/
def NetReach {δ : Type} (v : Variant δ) (hw : Machine δ → Machine δ → Prop) (n n' : NetConfig δ) :
    Prop :=
  ReflTransGen (NetStep v hw) n n'

/-- A run that meets a condition is a run. -/
theorem NetReachIf.reach {δ : Type} {v : Variant δ} {hw : Machine δ → Machine δ → Prop}
    {ok : NetAdmin → Bool} {n n' : NetConfig δ} (h : NetReachIf v hw ok n n') :
    NetReach v hw n n' :=
  ReflTransGen.mono (fun _ _ (hstep : NetStep v hw _ _ ∧ _) => hstep.1) n n' h

/-- The MAC has sent the forward frame when the cable is unplugged. -/
def freeUnplug : List EimMove :=
  [.ccatEthOpen, .timer, .hw .txSent, .hw (.link 0), .timer]

/-- It has sent the frame when `ccat_eth_stop()` is called, and the timer fires once more before it
    is cancelled. -/
def freeStop : List EimMove :=
  [.ccatEthOpen, .timer, .hw .txSent, .stopQueue, .timer, .cancelTimer]

/-- The queue is awake again after the callback in which the link went down, and after
    `ccat_eth_stop()` when a callback ran before the timer was cancelled. -/
theorem not_queue_stays_stopped :
    (¬ ∀ (priv : Priv) (s₀ : EimMachine) (n : NetConfig EimDev),
      NetReach eim EimHw ⟨⟨.idle priv, s₀⟩, .closed⟩ n →
        n.admin.linkDown = true → n.config.state.net.awake = false) ∧
    (¬ ∀ (priv : Priv) (s₀ : EimMachine) (n : NetConfig EimDev),
      NetReach eim EimHw ⟨⟨.idle priv, s₀⟩, .closed⟩ n →
        n.admin.stopped = true → n.config.state.net.awake = false) := by
  constructor
  · intro h
    -- `poll_tx()` of the callback that sees the link down wakes the queue
    have hsome : (EimNet.setUp.schedule (fun _ => true) freeUnplug).map
        (fun x => (x.admin.linkDown, x.state.net.awake)) = some (true, true) := by decide +kernel
    obtain ⟨y, hy, hend⟩ := Option.map_eq_some_iff.mp hsome
    obtain ⟨hdown, hawake⟩ := Prod.mk.inj hend
    have hasleep := h _ _ _ (EimNet.schedule_reach hy).reach hdown
    exact absurd (hawake.symm.trans hasleep) (by decide)
  · intro h
    -- the timer fires between the two steps of `ccat_eth_stop()`
    have hsome : (EimNet.setUp.schedule (fun _ => true) freeStop).map
        (fun x => (x.admin.stopped, x.state.net.awake)) = some (true, true) := by decide +kernel
    obtain ⟨y, hy, hend⟩ := Option.map_eq_some_iff.mp hsome
    obtain ⟨hstopped, hawake⟩ := Prod.mk.inj hend
    have hasleep := h _ _ _ (EimNet.schedule_reach hy).reach hstopped
    exact absurd (hawake.symm.trans hasleep) (by decide)

end Ccat.Native.Eth
