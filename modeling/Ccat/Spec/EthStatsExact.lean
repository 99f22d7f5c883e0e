import Ccat.Spec.EthQueueCorrect
import Ccat.Spec.EthRxDmaChannel
import Ccat.Spec.EthRxEimChannel

/-!
# What the byte counters count

`bytes` and `dropped` of the two FIFOs are counted in places that differ from those where a
frame goes to the stack or to the hardware: `rx_bytes` ahead of `netif_rx()`, `tx_bytes` behind
the write that queues the frame. Between callbacks both have happened, so over any stretch
of a run the counters go up by exactly what was passed on, and `tx_dropped` by the number
of skbs of the stack that `ccat_eth_start_xmit()` does not accept.

## Key results

- `wp_receive_ledger`, `wp_startXmit_ledger`: the two places where the counters change
- `stats_exact`: the counters between callbacks, in every run of both variants
-/

namespace Ccat.Native.Eth

open Interleave Memory

/-! ## Ledgers -/

/-- Bytes that went to `netif_rx()`. -/
def deliveredBytes (log : List RxEvent) : Nat :=
  (log.map fun | .netifRx p => p.length | _ => 0).sum

/-- Frames for which there was no skb. -/
def noMemFrames (log : List RxEvent) : Nat :=
  (log.map fun | .noMem => 1 | _ => 0).sum

/-- Bytes that were queued for the hardware. -/
def queuedBytes (log : List TxEvent) : Nat :=
  (log.map fun | .queued p => p.length | _ => 0).sum

/-- The skb is dropped by `ccat_eth_start_xmit()`: it has fragments or is too long. -/
def Skb.refused (skb : Skb) : Bool := skb.nonlinear || decide (skb.len > MAX_PAYLOAD_SIZE)

/-- The counters of the FIFOs, and what the logs tell of the frames. -/
structure Ledger where
  rxBytes : Nat
  rxDropped : Nat
  txBytes : Nat
  txDropped : Nat
  delivered : Nat
  noMem : Nat
  queued : Nat

section

variable {δ : Type}

def ledger (s : Machine δ) : Ledger where
  rxBytes := s.net.rxBytes
  rxDropped := s.net.rxDropped
  txBytes := s.net.txBytes
  txDropped := s.net.txDropped
  delivered := deliveredBytes s.rxLog
  noMem := noMemFrames s.rxLog
  queued := queuedBytes s.txLog

/-- With the frames `skbs` handed in by the stack, the counters went up by what was passed on or
    dropped, except that `rx` bytes were counted and not passed on yet, and `tx` bytes were queued
    and not counted yet. -/
structure OffBy (skbs : List Skb) (l : Ledger) (rx tx : Nat) (l' : Ledger) : Prop where
  rxBytes : l'.rxBytes + l.delivered = l.rxBytes + l'.delivered + rx
  rxDropped : l'.rxDropped + l.noMem = l.rxDropped + l'.noMem
  txBytes : l'.txBytes + l.queued + tx = l.txBytes + l'.queued
  txDropped : l'.txDropped = l.txDropped + skbs.countP Skb.refused

/-- The counters went up by exactly what was passed on or dropped. -/
def Tallies (skbs : List Skb) (l l' : Ledger) : Prop := OffBy skbs l 0 0 l'

/-- A frame that is accepted makes no difference to `tx_dropped`. -/
theorem offBy_accepted {skbs : List Skb} {skb : Skb} {l l' : Ledger} {rx tx : Nat}
    (h : skb.refused = false) : OffBy (skbs ++ [skb]) l rx tx l' ↔ OffBy skbs l rx tx l' := by
  have hcount : (skbs ++ [skb]).countP Skb.refused = skbs.countP Skb.refused := by
    simp [List.countP_append, h]
  constructor
  · rintro ⟨hrx, hrxDrop, htx, hdrop⟩
    exact ⟨hrx, hrxDrop, htx, hcount ▸ hdrop⟩
  · rintro ⟨hrx, hrxDrop, htx, hdrop⟩
    exact ⟨hrx, hrxDrop, htx, hcount ▸ hdrop⟩

/-- The update neither counts nor passes a frame on. -/
def Unledgered (upd : Machine δ → Machine δ) : Prop := ∀ s, ledger (upd s) = ledger s

/-- What the byte counters rely on: the FIFO operations neither count nor pass frames on, except
    that a frame is queued. -/
structure Accountable (v : Variant δ) (R : Machine δ → Machine δ → Prop) : Prop where
  env : ∀ s t, R s t → ledger t = ledger s
  iowrite32 : ∀ value addr, Unledgered (v.iowrite32 value addr)
  rxReady : ∀ f, (v.rxOps.ready f).All Unledgered fun _ => True
  rxAdd : ∀ f, (v.rxOps.add f).All Unledgered fun _ => True
  rxCopy : ∀ f len, (v.rxOps.copyToSkb f len).All Unledgered fun data => data.length = len
  txReady : ∀ f, (v.txOps.ready f).All Unledgered fun _ => True
  txAdd : ∀ f, (v.txOps.add f).All Unledgered fun _ => True
  txQueue : ∀ f skb skbs l s, Tallies skbs l (ledger s) →
    wp R (fun _ _ => True) (v.txOps.queueSkb f skb)
      (fun _ t => OffBy skbs l 0 skb.len (ledger t)) s

variable {v : Variant δ} {R : Machine δ → Machine δ → Prop} {skbs : List Skb} {l : Ledger}
  {P : Ledger → Prop} {s : Machine δ}

/-- Steps that keep the ledger keep what is said of it. -/
theorem ledger_stable (henv : ∀ s t : Machine δ, R s t → ledger t = ledger s)
    (P : Ledger → Prop) : Stable R fun s => P (ledger s) := by
  intro s t hs hR
  show P (ledger t)
  rw [henv s t hR]
  exact hs

/-- A program whose updates keep the ledger. -/
theorem wp_unledgered (henv : ∀ s t : Machine δ, R s t → ledger t = ledger s) {α : Type}
    {ψ : α → Prop} {prog : Prog (Machine δ) α} (hall : prog.All Unledgered ψ) (hs : P (ledger s)) :
    wp R (fun _ _ => True) prog (fun a t => ψ a ∧ P (ledger t)) s := by
  refine wp_of_all (ledger_stable henv P) hs (Prog.all_mono hall fun upd hupd t ht => ⟨trivial, ?_⟩)
  show P (ledger (upd t))
  rw [hupd t]
  exact ht

theorem wp_unledgered_modify (henv : ∀ s t : Machine δ, R s t → ledger t = ledger s)
    {upd : Machine δ → Machine δ} (hupd : Unledgered upd) (hs : P (ledger s)) :
    wp R (fun _ _ => True) (.modify upd) (fun _ t => P (ledger t)) s :=
  wp_mono (wp_unledgered henv (Prog.all_modify hupd) hs) fun _ _ h => h.2

/-! ## Receiving -/

theorem deliveredBytes_concat (log : List RxEvent) (e : RxEvent) :
    deliveredBytes (log ++ [e]) = deliveredBytes log + deliveredBytes [e] := by
  simp only [deliveredBytes, List.map_append, List.sum_append]

theorem noMemFrames_concat (log : List RxEvent) (e : RxEvent) :
    noMemFrames (log ++ [e]) = noMemFrames log + noMemFrames [e] := by
  simp only [noMemFrames, List.map_append, List.sum_append]

theorem queuedBytes_concat (log : List TxEvent) (e : TxEvent) :
    queuedBytes (log ++ [e]) = queuedBytes log + queuedBytes [e] := by
  simp only [queuedBytes, List.map_append, List.sum_append]

/-- `ccat_eth_receive()` counts the bytes it passes on, or the frame it drops. -/
theorem wp_receive_ledger (hv : Accountable v R) (f : Fifo) (len : Nat)
    (hs : Tallies skbs l (ledger s)) :
    wp R (fun _ _ => True) (ccatEthReceive v f len) (fun _ t => Tallies skbs l (ledger t)) s := by
  unfold ccatEthReceive
  refine wp_seq (M := fun _ t => Tallies skbs l (ledger t)) (wp_choose fun _ => hs)
    fun skb s hs => ?_
  cases skb with
  | true =>
    refine wp_seq (wp_unledgered hv.env (hv.rxCopy f len) hs) fun data s hs => ?_
    obtain ⟨hlen, hs⟩ := hs
    -- the bytes are counted first, and then passed on
    refine wp_seq (M := fun _ t => OffBy skbs l len 0 (ledger t)) ?_ fun _ s hs => ?_
    · refine wp_modify (ledger_stable hv.env (Tallies skbs l)) hs fun t ht => ⟨trivial, ?_⟩
      obtain ⟨hrx, hdrop, htx, htxDrop⟩ := ht
      refine ⟨?_, hdrop, htx, htxDrop⟩
      simp only [ledger] at hrx ⊢
      omega
    · refine wp_modify (ledger_stable hv.env (OffBy skbs l len 0)) hs fun t ht => ⟨trivial, ?_⟩
      have hdel : deliveredBytes (t.rxLog ++ [.netifRx data]) = deliveredBytes t.rxLog + len := by
        rw [deliveredBytes_concat, ← hlen]
        simp [deliveredBytes]
      have hno : noMemFrames (t.rxLog ++ [.netifRx data]) = noMemFrames t.rxLog := by
        rw [noMemFrames_concat]
        simp [noMemFrames]
      obtain ⟨hrx, hdrop, htx, htxDrop⟩ := ht
      simp only [ledger] at hrx hdrop
      refine ⟨?_, ?_, htx, htxDrop⟩
      · simp only [ledger, hdel]
        omega
      · simp only [ledger, hno]
        omega
  -- no memory for an skb: the frame is counted as dropped and not passed on
  | false =>
    refine wp_modify (ledger_stable hv.env (Tallies skbs l)) hs fun t ht => ⟨trivial, ?_⟩
    have hdel : deliveredBytes (t.rxLog ++ [.noMem]) = deliveredBytes t.rxLog := by
      rw [deliveredBytes_concat]
      simp [deliveredBytes]
    have hno : noMemFrames (t.rxLog ++ [.noMem]) = noMemFrames t.rxLog + 1 := by
      rw [noMemFrames_concat]
      simp [noMemFrames]
    obtain ⟨hrx, hdrop, htx, htxDrop⟩ := ht
    simp only [ledger] at hrx hdrop
    refine ⟨?_, ?_, htx, htxDrop⟩
    · simp only [ledger, hdel]
      omega
    · simp only [ledger, hno]
      omega

/-- `poll_rx()`, by induction over the frames it may still receive. -/
theorem wp_pollRxLoop_ledger (hv : Accountable v R) (n : Nat) (f : Fifo) (len : Nat)
    (hs : Tallies skbs l (ledger s)) :
    wp R (fun _ _ => True) (pollRxLoop v f len n) (fun _ t => Tallies skbs l (ledger t)) s := by
  induction n generalizing f len s with
  | zero => exact wp_pure hs
  | succ n ih =>
    unfold pollRxLoop
    split
    · refine wp_seq (wp_receive_ledger hv f len hs) fun _ s hs => ?_
      refine wp_seq (wp_unledgered hv.env (hv.rxAdd f) hs) fun _ s hs => ?_
      refine wp_seq (wp_unledgered hv.env (hv.rxReady _) hs.2) fun len s hs => ?_
      exact ih _ len hs.2
    · exact wp_pure hs

/-! ## Transmitting -/

/-- `ccat_eth_start_xmit()` counts the bytes it queues, or the frame it drops. -/
theorem wp_startXmit_ledger (hv : Accountable v R) (f : Fifo) (skb : Skb)
    (hs : Tallies skbs l (ledger s)) :
    wp R (fun _ _ => True) (ccatEthStartXmit v f skb)
      (fun _ t => Tallies (skbs ++ [skb]) l (ledger t)) s := by
  -- both kinds of refused frames are dropped the same way
  have hdrop : skb.refused = true →
      wp R (fun _ _ => True) (do Prog.modify txDrop; return (NetdevTx.ok, f))
        (fun _ t => Tallies (skbs ++ [skb]) l (ledger t)) s := by
    intro hrefused
    refine wp_seq (M := fun _ t => Tallies (skbs ++ [skb]) l (ledger t)) ?_
      fun _ t ht => wp_pure ht
    refine wp_modify (ledger_stable hv.env (Tallies skbs l)) hs fun t ht => ⟨trivial, ?_⟩
    obtain ⟨hrx, hrxDrop, htx, htxDrop⟩ := ht
    refine ⟨hrx, hrxDrop, htx, ?_⟩
    simp only [ledger] at htxDrop
    simp only [ledger, txDrop, List.countP_append, List.countP_singleton, hrefused, if_true]
    omega
  unfold ccatEthStartXmit
  split
  · rename_i hnonlinear
    exact hdrop (by simp [Skb.refused, hnonlinear])
  rename_i hlinear
  split
  · rename_i hlong
    exact hdrop (by simp [Skb.refused, hlong])
  rename_i hshort
  -- from here on the frame is accepted
  have haccepted : skb.refused = false := by simpa [Skb.refused, hlinear] using hshort
  replace hs : Tallies (skbs ++ [skb]) l (ledger s) := (offBy_accepted haccepted).mpr hs
  refine wp_seq (wp_unledgered hv.env (hv.txReady f) hs) fun ready s hs => ?_
  split
  · -- the ring is full: the kernel keeps the frame, and nothing is counted
    refine wp_seq (wp_unledgered_modify hv.env (fun t => ?_) hs.2) fun _ t ht => wp_pure ht
    have hqueued : queuedBytes (t.txLog ++ [.busy]) = queuedBytes t.txLog := by
      rw [queuedBytes_concat]
      simp [queuedBytes]
    simp only [ledger, txRingFull, netifStopQueue, hqueued]
  · -- the frame is in the log before its bytes are counted
    refine wp_seq (hv.txQueue f skb _ l s hs.2) fun _ s hs => ?_
    refine wp_seq (M := fun _ t => Tallies (skbs ++ [skb]) l (ledger t)) ?_ fun _ s hs => ?_
    · refine wp_modify (ledger_stable hv.env (OffBy (skbs ++ [skb]) l 0 skb.len)) hs
        fun t ht => ⟨trivial, ?_⟩
      obtain ⟨hrx, hrxDrop, htx, htxDrop⟩ := ht
      refine ⟨hrx, hrxDrop, ?_, htxDrop⟩
      simp only [ledger] at htx ⊢
      omega
    · refine wp_seq (wp_unledgered hv.env (hv.txReady _) hs) fun ready s hs => ?_
      split
      · exact wp_seq (wp_unledgered_modify hv.env (fun _ => rfl) hs.2) fun _ t ht => wp_pure ht
      · exact wp_pure hs.2

/-! ## Callbacks -/

/-- `ccat_eth_link_up()` resets the FIFOs and counts nothing. -/
theorem wp_linkUp_ledger (hv : Accountable v R) (priv : Priv) (hs : Tallies skbs l (ledger s)) :
    wp R (fun _ _ => True) (ccatEthLinkUp v priv) (fun _ t => Tallies skbs l (ledger t)) s := by
  have hreset : ∀ {add : Fifo → Prog (Machine δ) Unit},
      (∀ f, (add f).All Unledgered fun _ => True) →
      ∀ f, (ccatEthFifoReset v add f).All Unledgered fun _ => True := fun hadd f =>
    fifoReset_all (I := fun _ => True) (fun _ _ => trivial) (fun f _ => hadd f)
      (hv.iowrite32 _ _) trivial
  unfold ccatEthLinkUp ccatEthXmitRaw
  refine wp_seq (wp_unledgered hv.env (hreset hv.rxAdd _) hs) fun rxFifo s hs => ?_
  refine wp_seq (wp_unledgered hv.env (hreset hv.txAdd _) hs.2) fun txFifo s hs => ?_
  -- the forward frame is not one of the stack, and it is accepted
  refine wp_seq (M := fun _ t => Tallies skbs l (ledger t))
    (wp_seq (wp_startXmit_ledger hv txFifo _ hs.2) fun r t ht => wp_pure
      ((offBy_accepted (by decide)).mp ht)) fun txFifo s hs => ?_
  refine wp_seq (wp_unledgered_modify hv.env (fun _ => rfl) hs) fun _ t ht => ?_
  refine wp_seq (wp_unledgered_modify hv.env (fun _ => rfl) ht) fun _ t ht => ?_
  exact wp_pure ht

/-- A timer callback keeps the books balanced. -/
theorem wp_pollTimerCallback_ledger (hv : Accountable v R) (priv : Priv)
    (hs : Tallies skbs l (ledger s)) :
    wp R (fun _ _ => True) (pollTimerCallback v priv) (fun _ t => Tallies skbs l (ledger t)) s := by
  have hread : ∀ {α : Type} (g : Machine δ → α), (Prog.read g).All Unledgered fun _ => True :=
    fun g => Prog.all_read (fun _ => rfl) fun _ => trivial
  unfold pollTimerCallback pollLink ccatEthPrivReadLinkState pollRx pollTx
  refine wp_seq (M := fun _ t => Tallies skbs l (ledger t)) ?_ fun priv s hs => ?_
  · -- `poll_link()`
    refine wp_seq (wp_unledgered hv.env (hread _) hs) fun link s hs => ?_
    refine wp_seq (wp_unledgered hv.env (hread _) hs.2) fun carrier s hs => ?_
    split
    · split
      · exact wp_linkUp_ledger hv priv hs.2
      · refine wp_seq (M := fun _ t => Tallies skbs l (ledger t)) ?_ fun _ t ht => wp_pure ht
        unfold ccatEthLinkDown
        refine wp_seq (wp_unledgered_modify hv.env (fun _ => rfl) hs.2) fun _ t ht => ?_
        exact wp_unledgered_modify hv.env (fun _ => rfl) ht
    · exact wp_pure hs.2
  · -- `poll_rx()` and `poll_tx()`
    refine wp_seq (M := fun _ t => Tallies skbs l (ledger t)) ?_ fun rxFifo s hs => ?_
    · refine wp_seq (wp_unledgered hv.env (hv.rxReady _) hs) fun len s hs => ?_
      exact wp_pollRxLoop_ledger hv _ _ len hs.2
    · refine wp_seq (M := fun _ t => Tallies skbs l (ledger t)) ?_ fun _ t ht => wp_pure ht
      refine wp_seq (wp_unledgered hv.env (hv.txReady _) hs) fun ready s hs => ?_
      split
      · exact wp_unledgered_modify hv.env (fun _ => rfl) hs.2
      · exact wp_pure hs.2

/-- The frames that a callback takes from the stack. -/
inductive Handed (v : Variant δ) (priv : Priv) : Prog (Machine δ) Priv → List Skb → Prop where
  | timer : Handed v priv (pollTimerCallback v priv) []
  | startXmit (skb : Skb) : Handed v priv (do
      let (_, txFifo) ← ccatEthStartXmit v priv.txFifo skb
      return { priv with txFifo := txFifo }) [skb]

/-- Every callback is one of the two. -/
theorem exists_handed {sys : System (Machine δ) Priv} (hsys : RxView.Serves sys v) (priv : Priv)
    (s : Machine δ) (prog : Prog (Machine δ) Priv) (hcall : sys.enabled priv s prog) :
    ∃ skbs, Handed v priv prog skbs := by
  rcases hsys.callback priv s prog hcall with rfl | ⟨skb, rfl⟩
  · exact ⟨[], .timer⟩
  · exact ⟨[skb], .startXmit skb⟩

/-- Over any stretch of a run between two moments outside of callbacks the counters go up by what
    was passed on or dropped. -/
theorem tallies_of_fed {sys : System (Machine δ) Priv} (hv : Accountable v sys.env)
    {c c' : Config (Machine δ) Priv} (hrun : sys.Fed (Handed v) c skbs c') {priv priv' : Priv}
    (hidle : c.control = .idle priv) (hidle' : c'.control = .idle priv') :
    Tallies skbs (ledger c.state) (ledger c'.state) := by
  have hstart : sys.Ok (fun _ t => Tallies [] (ledger c.state) (ledger t)) (fun _ _ => True) c := by
    unfold System.Ok
    rw [hidle]
    exact ⟨rfl, rfl, rfl, rfl⟩
  -- each callback adds what it was handed to the account
  have hend := System.fed_ok (J := fun skbs _ t => Tallies skbs (ledger c.state) (ledger t))
    (fun skbs _ => ledger_stable hv.env (Tallies skbs (ledger c.state)))
    (fun skbs priv s prog js hs _ hprog => ?_) hstart hrun
  · unfold System.Ok at hend
    rw [hidle'] at hend
    exact hend
  · cases hprog with
    | timer =>
      rw [List.append_nil]
      exact wp_pollTimerCallback_ledger hv priv hs
    | startXmit skb => exact wp_seq (wp_startXmit_ledger hv _ skb hs) fun r t ht => wp_pure ht

end

/-! ## The variants -/

section Variants

/-- The ledger depends on the counters and on what the logs sum up to. -/
theorem ledger_of_same {δ : Type} {s t : Machine δ} (hnet : t.net = s.net)
    (hdel : deliveredBytes t.rxLog = deliveredBytes s.rxLog)
    (hno : noMemFrames t.rxLog = noMemFrames s.rxLog)
    (hqueued : queuedBytes t.txLog = queuedBytes s.txLog) : ledger t = ledger s := by
  simp only [ledger, hnet, hdel, hno, hqueued]

/-- An event of the RX FIFO that is neither of the two that count. -/
theorem ledger_rxLog {δ : Type} {s t : Machine δ} {e : RxEvent} (hnet : t.net = s.net)
    (hrx : t.rxLog = s.rxLog ++ [e]) (hdel : deliveredBytes [e] = 0) (hno : noMemFrames [e] = 0)
    (htx : t.txLog = s.txLog) : ledger t = ledger s := by
  apply ledger_of_same hnet
  · rw [hrx, deliveredBytes_concat, hdel, Nat.add_zero]
  · rw [hrx, noMemFrames_concat, hno, Nat.add_zero]
  · rw [htx]

/-- An event of the TX FIFO other than a frame queued. -/
theorem ledger_txLog {δ : Type} {s t : Machine δ} {e : TxEvent} (hnet : t.net = s.net)
    (hrx : t.rxLog = s.rxLog) (htx : t.txLog = s.txLog ++ [e]) (hqueued : queuedBytes [e] = 0) :
    ledger t = ledger s := by
  apply ledger_of_same hnet
  · rw [hrx]
  · rw [hrx]
  · rw [htx, queuedBytes_concat, hqueued, Nat.add_zero]

/-- The write that queues a frame. -/
theorem Tallies.queued {δ : Type} {skbs : List Skb} {l : Ledger} {s t : Machine δ} {skb : Skb}
    (h : Tallies skbs l (ledger s)) (hnet : t.net = s.net) (hrx : t.rxLog = s.rxLog)
    (htx : t.txLog = s.txLog ++ [.queued skb.data]) : OffBy skbs l 0 skb.len (ledger t) := by
  have hqueued : queuedBytes t.txLog = queuedBytes s.txLog + skb.len := by
    rw [htx, queuedBytes_concat]
    simp [queuedBytes, Skb.len]
  obtain ⟨hrxBytes, hdrop, htxBytes, htxDrop⟩ := h
  simp only [ledger] at hrxBytes hdrop htxBytes htxDrop
  refine ⟨?_, ?_, ?_, ?_⟩
  · simp only [ledger, hnet, hrx]
    exact hrxBytes
  · simp only [ledger, hnet, hrx]
    exact hdrop
  · simp only [ledger, hnet, hqueued]
    omega
  · simp only [ledger, hnet]
    exact htxDrop

/-- A command of the DMA variant counts nothing. -/
theorem dmaIowrite32_unledgered (value addr : Nat) : Unledgered (dmaIowrite32 value addr) := by
  intro s
  unfold dmaIowrite32
  split
  · exact ledger_rxLog rfl rfl rfl rfl rfl
  · split
    · exact ledger_rxLog rfl rfl rfl rfl rfl
    · split
      · rfl
      · split
        · exact ledger_txLog rfl rfl rfl rfl
        · rfl

/-- Nor does its hardware. -/
theorem hw_ledger (s t : DmaMachine) (hR : Hw s t) : ledger t = ledger s := by
  cases hR.effect with
  | lost p _ => exact ledger_rxLog rfl rfl rfl rfl rfl
  | stored p off queue _ _ => exact ledger_rxLog rfl rfl rfl rfl rfl
  | wire off queue _ _ => exact ledger_txLog rfl rfl rfl rfl
  | done off queue _ _ => rfl
  | link w => rfl
  | nothing => rfl

/-- The operations of the DMA variant. -/
theorem dma_accountable : Accountable dma Hw where
  env := hw_ledger
  iowrite32 := dmaIowrite32_unledgered
  rxReady f := by
    have hread : ∀ {α : Type} (g : DmaMachine → α), (Prog.read g).All Unledgered fun _ => True :=
      fun g => Prog.all_read (fun _ => rfl) fun _ => trivial
    refine Prog.all_bind (hread _) fun _ _ => Prog.all_ite ?_ trivial
    exact Prog.all_bind (hread _) fun _ _ => trivial
  rxAdd f := Prog.all_modify_bind (fun _ => rfl) (Prog.all_modify (dmaIowrite32_unledgered _ _))
  rxCopy f len := Prog.all_read (fun _ => rfl) fun s => length_slice _ _ _
  txReady f := Prog.all_read (fun _ => rfl) fun _ => trivial
  txAdd f := Prog.all_modify fun _ => rfl
  txQueue f skb skbs l s hs := by
    show wp Hw _ (fifoDmaQueueSkb f skb) _ s
    unfold fifoDmaQueueSkb
    refine wp_seq (wp_unledgered_modify hw_ledger (fun _ => rfl) hs) fun _ s hs => ?_
    refine wp_seq (wp_unledgered_modify hw_ledger (fun _ => rfl) hs) fun _ s hs => ?_
    refine wp_seq (wp_unledgered_modify hw_ledger (fun _ => rfl) hs) fun _ s hs => ?_
    -- flags, length and data of the slot are no entries; the command behind them is
    refine wp_modify (ledger_stable hw_ledger (Tallies skbs l)) hs fun t ht => ⟨trivial, ?_⟩
    rw [dmaIowrite32_unledgered]
    exact ht.queued rfl rfl rfl

/-- A command of the EIM variant counts nothing. -/
theorem eimIowrite32_unledgered (value addr : Nat) : Unledgered (eimIowrite32 value addr) := by
  intro s
  unfold eimIowrite32
  split
  · exact ledger_rxLog rfl rfl rfl rfl rfl
  · split
    · rfl
    · split
      · exact ledger_txLog rfl rfl rfl rfl
      · rfl

/-- Nor does its hardware. -/
theorem eimHw_ledger (s t : EimMachine) (hR : EimHw s t) : ledger t = ledger s := by
  obtain ⟨a, rfl⟩ := hR
  cases a with
  | rxArrive p _ _ =>
    show ledger (eimRxArrive p s) = ledger s
    unfold eimRxArrive
    split
    · exact ledger_rxLog rfl rfl rfl rfl rfl
    · exact ledger_rxLog rfl rfl rfl rfl rfl
  | txSent => rfl
  | link w => rfl

/-- The operations of the EIM variant. -/
theorem eim_accountable : Accountable eim EimHw where
  env := eimHw_ledger
  iowrite32 := eimIowrite32_unledgered
  rxReady f := Prog.all_bind (ψ := fun _ => True)
    (Prog.all_read (fun _ => rfl) fun _ => trivial) fun _ _ => trivial
  rxAdd f := Prog.all_modify fun s => ledger_rxLog rfl rfl rfl rfl rfl
  rxCopy f len := Prog.all_read (fun _ => rfl) fun s => length_slice _ _ _
  txReady f := Prog.all_read (fun _ => rfl) fun _ => trivial
  txAdd f := Prog.all_pure trivial
  txQueue f skb skbs l s hs := by
    show wp EimHw _ (fifoEimQueueSkb f skb) _ s
    unfold fifoEimQueueSkb
    refine wp_seq (wp_unledgered_modify eimHw_ledger (fun _ => rfl) hs) fun _ s hs => ?_
    refine wp_seq (wp_unledgered_modify eimHw_ledger (fun _ => rfl) hs) fun _ s hs => ?_
    refine wp_modify (ledger_stable eimHw_ledger (Tallies skbs l)) hs fun t ht => ⟨trivial, ?_⟩
    rw [eimIowrite32_unledgered]
    exact ht.queued rfl rfl rfl

end Variants

/-- The counters of the driver over any stretch of a run between two moments outside of callbacks,
    whatever frames `skbs` the stack hands in meanwhile. -/
def CountersExact {δ : Type} (sys : System (Machine δ) Priv) (v : Variant δ) : Prop :=
  ∀ (c c' : Config (Machine δ) Priv) (priv priv' : Priv), sys.Reach c c' →
    c.control = .idle priv → c'.control = .idle priv' →
    (∃ skbs, sys.Fed (Handed v) c skbs c') ∧
      ∀ skbs, sys.Fed (Handed v) c skbs c' → Tallies skbs (ledger c.state) (ledger c'.state)

/-- Any run can be told by the skbs that were handed to the driver, and the counters agree with each
    such account of it. -/
theorem countersExact {δ : Type} {v : Variant δ} {sys : System (Machine δ) Priv}
    (hv : Accountable v sys.env) (hsys : RxView.Serves sys v) : CountersExact sys v :=
  fun _ _ _ _ hreach hidle hidle' => ⟨System.exists_fed (exists_handed hsys) hreach,
    fun _ hrun => tallies_of_fed hv hrun hidle hidle'⟩

/-- **The byte counters are exact.** In both variants, from any state and over any stretch of a
    run between two moments outside of callbacks: `rx_bytes` went up by the lengths of the frames
    passed to `netif_rx()`, `rx_dropped` by the number of frames for which there was no skb,
    `tx_bytes` by the lengths of the frames queued, and `tx_dropped` by the number of skbs handed
    in by the stack that have fragments or are too long. -/
theorem stats_exact : CountersExact dmaSystem dma ∧ CountersExact eimSystem eim :=
  ⟨countersExact dma_accountable dmaSystem_serves, countersExact eim_accountable eimSystem_serves⟩

/-- After the link came up the stack hands in a frame that has fragments. -/
def dropEnd : Priv × EimMachine :=
  (do
    let (_, txFifo) ← ccatEthStartXmit eim linkUpEnd.1.txFifo ⟨true, [7]⟩
    return { linkUpEnd.1 with txFifo := txFifo }).exec (fun _ => true) 0 linkUpEnd.2

/-- The forward frame is counted by its 30 bytes, and the frame of the stack as dropped. -/
theorem stats_exact_dropped : Tallies [⟨true, [7]⟩] (ledger eimSetUp) (ledger dropEnd.2) ∧
    dropEnd.2.net.txDropped = eimSetUp.net.txDropped + 1 ∧
    dropEnd.2.net.txBytes = eimSetUp.net.txBytes + 30 := by
  have hawake : linkUpEnd.2.net.awake = true := linkUpEnd_spec.2.1
  have hreach : eimSystem.Reach ⟨.idle ⟨oneSlotRx, oneSlotTx⟩, eimSetUp⟩
      ⟨.idle dropEnd.1, dropEnd.2⟩ :=
    .head (.start .timer) ((System.reach_exec (fun _ => true) _ 0 _).trans
      (.head (.start (.startXmit ⟨true, [7]⟩ hawake)) (System.reach_exec (fun _ => true) _ 0 _)))
  -- the same run with the frames of the stack recorded
  have hlink : eimSystem.Fed (Handed eim) ⟨.idle ⟨oneSlotRx, oneSlotTx⟩, eimSetUp⟩ []
      ⟨.idle linkUpEnd.1, linkUpEnd.2⟩ :=
    System.fed_exec (fun _ => true) 0 (.start .refl .timer .timer)
  have hfed : eimSystem.Fed (Handed eim) ⟨.idle ⟨oneSlotRx, oneSlotTx⟩, eimSetUp⟩ [⟨true, [7]⟩]
      ⟨.idle dropEnd.1, dropEnd.2⟩ :=
    System.fed_exec (fun _ => true) 0 (.start hlink (.startXmit _ hawake) (.startXmit _))
  have hend := (stats_exact.2 _ _ _ _ hreach rfl rfl).2 _ hfed
  exact ⟨hend, hend.txDropped, by decide +kernel⟩

end Ccat.Native.Eth
