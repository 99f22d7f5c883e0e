import Mathlib.Data.List.Infix
import Ccat.Spec.EthRxRing

/-!
# The receive path as a queue of slots

`ccat_eth_receive()`, `poll_rx()` and `ccat_eth_link_up()` serve both variants through their
tables of FIFO operations. What they rely on is stated here once (`RxView.Lawful`): the
hardware puts frames into a queue of slots and the operations look at it, take from it
and hand slots out. For every variant that keeps this promise, the log of every run is
one of an abstract queue, and polling works through it at a known rate.

## Key results

- `wp_receive_channel`, `wp_pollRxLoop_channel`: a frame, and a poll, taken out of the queue
- `wp_timer_channel`: what a timer callback does to the queue
- `rxChannel_of_queue`: what it means that a log is one of a queue
- `RxView.Lawful.reach`: every log is one of a queue of slots
- `RxView.Lawful.rounds`: how many frames a number of timer callbacks takes out
-/

namespace Ccat.Native.Eth

open Interleave

/-! ## Logs -/

/-- The queue of `cap` slots after the events of a log. -/
def rxQueue (cap : Nat) (log : List RxEvent) : Option (SlotQueue.State (List UInt8)) :=
  SlotQueue.run cap (log.map RxEvent.queueEvent)

/-- How many frames the driver took out. -/
def rxTaken (log : List RxEvent) : Nat := (outcomes log).length

/-- How often the FIFO was reset. -/
def rxResets (log : List RxEvent) : Nat := log.countP RxEvent.isReset

/-- One more event is one more step of the queue. -/
theorem rxQueue_concat {cap : Nat} {log : List RxEvent} {st : SlotQueue.State (List UInt8)}
    (h : rxQueue cap log = some st) (e : RxEvent) :
    rxQueue cap (log ++ [e]) = SlotQueue.step cap st e.queueEvent := by
  unfold rxQueue
  rw [List.map_append]
  exact SlotQueue.run_concat h

theorem rxTaken_concat (log : List RxEvent) (e : RxEvent) :
    rxTaken (log ++ [e]) = rxTaken log + (outcomes [e]).length := by
  unfold rxTaken outcomes SlotQueue.takes
  rw [List.map_append, List.filterMap_append, List.length_append]

theorem rxResets_concat (log : List RxEvent) (e : RxEvent) :
    rxResets (log ++ [e]) = rxResets log + [e].countP RxEvent.isReset := List.countP_append ..

/-- The log is one of a queue of `cap` slots that is now in the state `st`. -/
structure RxChannel (cap : Nat) (log : List RxEvent) (st : SlotQueue.State (List UInt8)) :
    Prop where
  queue_eq : rxQueue cap log = some st
  length_le : st.pending.length ≤ cap
  /-- Since the first slot was armed after the last reset, the frames taken out and those
      pending are the frames stored, in their order. -/
  conserved : ∀ l, SlotQueue.sinceFirst (log.map RxEvent.queueEvent) = some l →
    SlotQueue.Conserved l st.pending
  /-- A frame was lost only when the queue was full, or not filled again after a reset. -/
  lost : ∀ before p after, log = before ++ .lost p :: after →
    ∃ st₁, rxQueue cap before = some st₁ ∧ st₁.Full cap

/-- A log that the queue accepts has all its properties. -/
theorem rxChannel_of_queue {cap : Nat} {log : List RxEvent} {st : SlotQueue.State (List UInt8)}
    (h : rxQueue cap log = some st) : RxChannel cap log st where
  queue_eq := h
  length_le := by
    have hle := SlotQueue.run_length_le h
    have hroom : st.phase.room cap ≤ cap := by
      cases st.phase with
      | filling k | ready => exact Nat.le_refl _
      | inHand => exact Nat.sub_le cap 1
    omega
  conserved := (SlotQueue.run_conserved h).2
  lost before p after hlog := by
    rw [hlog, rxQueue, List.map_append] at h
    exact SlotQueue.run_lose h

/-! ## How a variant keeps the queue -/

/-- What is known of the queue: its oldest frames, and how many frames were taken out and how
    often it was reset, at least. -/
structure RxKnown where
  oldest : List (List UInt8)
  taken : Nat
  resets : Nat

def RxKnown.nothing : RxKnown := ⟨[], 0, 0⟩

/-- What is known after up to `n` frames were taken out. -/
def RxKnown.polled (K : RxKnown) (n : Nat) : RxKnown :=
  ⟨K.oldest.drop n, K.taken + min K.oldest.length n, K.resets⟩

/-- How many frames a poll takes out at most: the counter of `poll_rx()` starts at
    `FIFO_LENGTH / 2` and is decremented ahead of the test. -/
def rxBudget : Nat := FIFO_LENGTH / 2 - 1

/-- What is known after a reset. -/
def RxKnown.cleared (K : RxKnown) : RxKnown := ⟨[], K.taken, K.resets + 1⟩

/-- Frames taken by two polls. -/
theorem RxKnown.polled_polled (K : RxKnown) (n k : Nat) :
    (K.polled n).polled k = K.polled (n + k) := by
  simp only [RxKnown.polled, List.drop_drop, List.length_drop, RxKnown.mk.injEq, true_and, and_true]
  omega

/-- Where a variant keeps the queue. -/
structure RxView (δ : Type) where
  /-- The phase of the queue, the slot `next` is at and the frames in the queue. -/
  At : SlotQueue.Phase → Nat → List (List UInt8) → Machine δ → Prop
  /-- The RX FIFO has its register and its memory. -/
  Shape : Fifo → Prop
  /-- Its `next` is at the slot. -/
  Fits : Nat → Fifo → Prop
  /-- The TX FIFO has its register. -/
  TxShape : Fifo → Prop

namespace RxView

variable {δ : Type} (V : RxView δ) (cap : Nat)

/-- The queue of the log is in the machine, and as much is known of it. -/
def Live (ph : SlotQueue.Phase) (b : Nat) (K : RxKnown) (s : Machine δ) : Prop :=
  ∃ new, V.At ph b (K.oldest ++ new) s ∧ rxQueue cap s.rxLog = some ⟨ph, K.oldest ++ new⟩ ∧
    K.taken ≤ rxTaken s.rxLog ∧ K.resets ≤ rxResets s.rxLog

/-- What every update of the driver leaves. -/
def Guar (_ t : Machine δ) : Prop := ∃ ph b, V.Live cap ph b .nothing t

/-- What `ready` returned: the length of the oldest frame, or 0 when no frame is known. -/
def Ready (b : Nat) (K : RxKnown) (len : Nat) (s : Machine δ) : Prop :=
  (len = 0 ∧ K.oldest = [] ∧ V.Live cap .ready b K s) ∨
    ∃ p fs, K.oldest <+: p :: fs ∧ p.length = len ∧ len ≠ 0 ∧
      V.Live cap .ready b { K with oldest := p :: fs } s

/-- Between callbacks. -/
def Idle (K : RxKnown) (priv : Priv) (s : Machine δ) : Prop :=
  (∃ b, V.Fits b priv.rxFifo ∧ V.Live cap .ready b K s) ∧ V.TxShape priv.txFifo

/-- The update leaves the queue alone. -/
def Keeps (upd : Machine δ → Machine δ) : Prop :=
  ∀ ph b fs s, V.At ph b fs s → V.At ph b fs (upd s) ∧ (upd s).rxLog = s.rxLog

/-- What a step of the hardware does to the queue. -/
inductive HwOk (ph : SlotQueue.Phase) (b : Nat) (fs : List (List UInt8)) (s t : Machine δ) :
    Prop where
  | same : t.rxLog = s.rxLog → V.At ph b fs t → HwOk ph b fs s t
  | stored (p : List UInt8) : t.rxLog = s.rxLog ++ [.stored p] → fs.length < ph.room cap →
      V.At ph b (fs ++ [p]) t → HwOk ph b fs s t
  | lost (p : List UInt8) : t.rxLog = s.rxLog ++ [.lost p] →
      SlotQueue.State.Full cap ⟨ph, fs⟩ → V.At ph b fs t → HwOk ph b fs s t

/-- What the driver relies on. -/
structure Lawful (v : Variant δ) (R : Machine δ → Machine δ → Prop) : Prop where
  congr : ∀ {ph b fs s t}, V.At ph b fs s → t.dev = s.dev → t.rxLog = s.rxLog → V.At ph b fs t
  env : ∀ {ph b fs s t}, V.At ph b fs s → R s t → V.HwOk cap ph b fs s t
  shape : ∀ {b f}, V.Fits b f → V.Shape f
  fits_inc : ∀ {b f}, V.Fits b f → V.Fits (b + 1) (ccatEthFifoInc f)
  take : ∀ {b p fs s e o}, V.At .ready b (p :: fs) s → e.queueEvent = .take o →
    SlotQueue.Delivered o p → ∀ net,
      V.At .inHand b fs { s with net := net, rxLog := s.rxLog ++ [e] }
  ready : ∀ {b f K s}, V.Fits b f → V.Live cap .ready b K s →
    wp R (V.Guar cap) (v.rxOps.ready f) (V.Ready cap b K) s
  copy : ∀ {b f p fs n m s}, V.Fits b f → V.Live cap .ready b ⟨p :: fs, n, m⟩ s →
    wp R (V.Guar cap) (v.rxOps.copyToSkb f p.length)
      (fun data t => data = p ∧ V.Live cap .ready b ⟨p :: fs, n, m⟩ t) s
  add : ∀ {b f K s}, V.Fits b f → V.Live cap .inHand b K s →
    wp R (V.Guar cap) (v.rxOps.add f) (fun _ => V.Live cap .ready (b + 1) K) s
  reset : ∀ {ph b f K s}, V.Shape f → V.Live cap ph b K s →
    wp R (V.Guar cap) (ccatEthFifoReset v v.rxOps.add f)
      (fun f' t => ∃ b, V.Fits b f' ∧ V.Live cap .ready b K.cleared t) s
  startXmit : ∀ {f}, V.TxShape f → ∀ skb,
    (ccatEthStartXmit v f skb).All V.Keeps fun r => V.TxShape r.2
  txReset : ∀ {f}, V.TxShape f → (ccatEthFifoReset v v.txOps.add f).All V.Keeps V.TxShape
  txReady : ∀ f, (v.txOps.ready f).All V.Keeps fun _ => True

variable {V cap} {v : Variant δ} {R : Machine δ → Machine δ → Prop} {ph : SlotQueue.Phase}
  {b : Nat} {K : RxKnown} {s t : Machine δ} {f : Fifo} {priv : Priv}

/-! ## Knowing less -/

/-- One may know less. -/
theorem Live.forget {fs : List (List UInt8)} {n m : Nat} (h : V.Live cap ph b K s)
    (hfs : fs <+: K.oldest) (hn : n ≤ K.taken) (hm : m ≤ K.resets) :
    V.Live cap ph b ⟨fs, n, m⟩ s := by
  obtain ⟨new, hat, hqueue, htaken, hresets⟩ := h
  obtain ⟨rest, hrest⟩ := hfs
  rw [← hrest, List.append_assoc] at hat hqueue
  exact ⟨rest ++ new, hat, hqueue, Nat.le_trans hn htaken, Nat.le_trans hm hresets⟩

/-- The log is accepted, whatever else is known. -/
theorem Live.guar (h : V.Live cap ph b K s) : V.Guar cap t s :=
  ⟨ph, b, h.forget List.nil_prefix (Nat.zero_le _) (Nat.zero_le _)⟩

/-- One may know less between callbacks, too. -/
theorem Idle.forget {fs : List (List UInt8)} {n m : Nat} (h : V.Idle cap K priv s)
    (hfs : fs <+: K.oldest) (hn : n ≤ K.taken) (hm : m ≤ K.resets) :
    V.Idle cap ⟨fs, n, m⟩ priv s := by
  obtain ⟨⟨b, hf, hlive⟩, htx⟩ := h
  exact ⟨⟨b, hf, hlive.forget hfs hn hm⟩, htx⟩

/-! ## Steps of the queue -/

/-- One more event in the log: the queue makes its step, and what was taken out and reset is
    counted. -/
theorem live_concat {ph' : SlotQueue.Phase} {b' : Nat} {K' : RxKnown}
    {fs : List (List UInt8)} (new : List (List UInt8)) {e : RxEvent}
    (hlog : t.rxLog = s.rxLog ++ [e])
    (hqueue : rxQueue cap s.rxLog = some ⟨ph, fs⟩)
    (hstep : SlotQueue.step cap ⟨ph, fs⟩ e.queueEvent = some ⟨ph', K'.oldest ++ new⟩)
    (hat : V.At ph' b' (K'.oldest ++ new) t)
    (htaken : K'.taken ≤ rxTaken s.rxLog + (outcomes [e]).length)
    (hresets : K'.resets ≤ rxResets s.rxLog + [e].countP RxEvent.isReset) :
    V.Live cap ph' b' K' t := by
  refine ⟨new, hat, ?_, ?_, ?_⟩
  · rw [hlog, rxQueue_concat hqueue]
    exact hstep
  · rw [hlog, rxTaken_concat]
    exact htaken
  · rw [hlog, rxResets_concat]
    exact hresets

/-- A step of the hardware is an event of the queue. -/
theorem Live.hw (h : V.Live cap ph b K s)
    (henv : ∀ fs, V.At ph b fs s → V.HwOk cap ph b fs s t) : V.Live cap ph b K t := by
  obtain ⟨new, hat, hqueue, htaken, hresets⟩ := h
  cases henv _ hat with
  | same hlog hat' =>
    refine ⟨new, hat', ?_, ?_, ?_⟩ <;> rw [hlog] <;> assumption
  | stored p hlog hroom hat' =>
    -- a frame that is stored comes behind those the driver knows of
    have hstep : SlotQueue.step cap ⟨ph, K.oldest ++ new⟩ (.put p) =
        some ⟨ph, K.oldest ++ new ++ [p]⟩ := SlotQueue.step_put hroom
    rw [List.append_assoc] at hat' hstep
    exact live_concat (new ++ [p]) hlog hqueue hstep hat' (Nat.le_add_right_of_le htaken)
      (Nat.le_add_right_of_le hresets)
  | lost p hlog hfull hat' =>
    exact live_concat new hlog hqueue (SlotQueue.step_lose hfull) hat'
      (Nat.le_add_right_of_le htaken) (Nat.le_add_right_of_le hresets)

theorem live_stable (hV : V.Lawful cap v R) : Stable R (V.Live cap ph b K) :=
  fun _ _ h hR => h.hw fun _ hat => hV.env hat hR

theorem idle_stable (hV : V.Lawful cap v R) (K : RxKnown) (priv : Priv) :
    Stable R (V.Idle cap K priv) := by
  rintro s t ⟨⟨b, hf, hlive⟩, htx⟩ hR
  exact ⟨⟨b, hf, hlive.hw fun _ hat => hV.env hat hR⟩, htx⟩

/-! ## Updates that leave the queue alone -/

/-- An update outside of the receive side. -/
theorem Live.keep {upd : Machine δ → Machine δ} (hupd : V.Keeps upd) (h : V.Live cap ph b K s) :
    V.Live cap ph b K (upd s) := by
  obtain ⟨new, hat, hqueue, htaken, hresets⟩ := h
  obtain ⟨hat', hlog⟩ := hupd _ _ _ _ hat
  refine ⟨new, hat', ?_, ?_, ?_⟩ <;> rw [hlog] <;> assumption

/-- The update is one of the net device. -/
theorem keeps_of_dev (hV : V.Lawful cap v R) {upd : Machine δ → Machine δ}
    (hdev : ∀ s, (upd s).dev = s.dev) (hlog : ∀ s, (upd s).rxLog = s.rxLog) : V.Keeps upd :=
  fun _ _ _ s hat => ⟨hV.congr hat (hdev s) (hlog s), hlog s⟩

/-- Programs all of whose updates are outside of it. -/
theorem wp_of_keeps {α : Type} {ψ : α → Prop} {prog : Prog (Machine δ) α} (hV : V.Lawful cap v R)
    (hall : prog.All V.Keeps ψ) (hs : V.Live cap ph b K s) :
    wp R (V.Guar cap) prog (fun a t => ψ a ∧ V.Live cap ph b K t) s := by
  refine wp_of_all (live_stable hV) hs (Prog.all_mono hall fun upd hupd t ht => ?_)
  have hlive := ht.keep hupd
  exact ⟨hlive.guar, hlive⟩

theorem wp_modify_of_keeps (hV : V.Lawful cap v R) {upd : Machine δ → Machine δ}
    (hupd : V.Keeps upd) (hs : V.Live cap ph b K s) :
    wp R (V.Guar cap) (.modify upd) (fun _ => V.Live cap ph b K) s :=
  wp_mono (wp_of_keeps hV (Prog.all_modify hupd) hs) fun _ _ h => h.2

theorem read_keeps (hV : V.Lawful cap v R) {α : Type} (g : Machine δ → α) :
    (Prog.read g).All V.Keeps fun _ => True :=
  Prog.all_read (keeps_of_dev hV (fun _ => rfl) fun _ => rfl) fun _ => trivial

/-- A program that leaves the queue alone, between callbacks. -/
theorem wp_idle_of_keeps {α : Type} {ψ : α → Prop} {prog : Prog (Machine δ) α}
    (hV : V.Lawful cap v R) (hall : prog.All V.Keeps ψ)
    (hs : ∃ b, V.Fits b f ∧ V.Live cap .ready b K s) :
    wp R (V.Guar cap) prog (fun a t => ψ a ∧ ∃ b, V.Fits b f ∧ V.Live cap .ready b K t) s := by
  obtain ⟨b, hf, hlive⟩ := hs
  exact wp_mono (wp_of_keeps hV hall hlive) fun a t ht => ⟨ht.1, b, hf, ht.2⟩

/-! ## Receiving -/

/-- The log records what became of the oldest frame. -/
theorem Live.taken (hV : V.Lawful cap v R) {p : List UInt8} {fs : List (List UInt8)} {n m : Nat}
    {e : RxEvent} {o : Option (List UInt8)} (h : V.Live cap .ready b ⟨p :: fs, n, m⟩ s)
    (he : e.queueEvent = .take o) (ho : SlotQueue.Delivered o p) (net : Net) :
    V.Live cap .inHand b ⟨fs, n + 1, m⟩ { s with net := net, rxLog := s.rxLog ++ [e] } := by
  obtain ⟨new, hat, hqueue, htaken, hresets⟩ := h
  have hout : outcomes [e] = [o] := by
    rw [outcomes, List.map_singleton, he]
    rfl
  refine live_concat new rfl hqueue ?_ (hV.take hat he ho net) ?_ (Nat.le_add_right_of_le hresets)
  · rw [he]
    exact SlotQueue.step_take ho
  · rw [hout]
    exact Nat.add_le_add_right htaken 1

/-- `ccat_eth_receive()` takes the oldest frame out, delivered or dropped. -/
theorem wp_receive_channel (hV : V.Lawful cap v R) {p : List UInt8} {fs : List (List UInt8)}
    {n m : Nat} (hf : V.Fits b f) (hs : V.Live cap .ready b ⟨p :: fs, n, m⟩ s) :
    wp R (V.Guar cap) (ccatEthReceive v f p.length)
      (fun _ => V.Live cap .inHand b ⟨fs, n + 1, m⟩) s := by
  unfold ccatEthReceive
  refine wp_seq (M := fun _ => V.Live cap .ready b ⟨p :: fs, n, m⟩) (wp_choose fun _ => hs)
    fun skb s hs => ?_
  cases skb with
  | false =>
    refine wp_modify (live_stable hV) hs fun t ht => ?_
    -- there is no skb, and the frame is lost to the stack
    have hlive := ht.taken hV (e := .noMem) rfl (.inl rfl)
      { t.net with rxDropped := t.net.rxDropped + 1 }
    exact ⟨hlive.guar, hlive⟩
  | true =>
    refine wp_seq (hV.copy hf hs) fun data s hs => ?_
    obtain ⟨rfl, hs⟩ := hs
    refine wp_seq (wp_modify_of_keeps hV (keeps_of_dev hV (fun _ => rfl) fun _ => rfl) hs)
      fun _ s hs => ?_
    refine wp_modify (live_stable hV) hs fun t ht => ?_
    -- what is passed on is the oldest frame
    have hlive := ht.taken hV (e := .netifRx data) rfl (.inr rfl) t.net
    exact ⟨hlive.guar, hlive⟩

/-! ## Polling -/

theorem Ready.live {len : Nat} (h : V.Ready cap b K len s) : V.Live cap .ready b K s := by
  rcases h with ⟨-, -, hlive⟩ | ⟨p, fs, hfs, -, -, hlive⟩
  · exact hlive
  · exact hlive.forget hfs (Nat.le_refl _) (Nat.le_refl _)

/-- The loop of `poll_rx()`: it ends before its counter does only on an empty queue. -/
theorem wp_pollRxLoop_channel (hV : V.Lawful cap v R) (n : Nat) {len : Nat} (hf : V.Fits b f)
    (hs : V.Ready cap b K len s) :
    wp R (V.Guar cap) (pollRxLoop v f len n)
      (fun f' t => ∃ b, V.Fits b f' ∧ V.Live cap .ready b (K.polled (n - 1)) t) s := by
  induction n generalizing f len b K s with
  | zero =>
    refine wp_pure ⟨b, hf, hs.live.forget ?_ ?_ (Nat.le_refl _)⟩
    · exact List.drop_zero.symm ▸ List.prefix_refl _
    · simp
  | succ n ih =>
    unfold pollRxLoop
    -- there is a frame, and budget for it
    by_cases hgo : len ≠ 0 ∧ n ≠ 0
    · rw [if_pos hgo]
      rcases hs with ⟨hlen, -, -⟩ | ⟨p, fs, hfs, rfl, -, hlive⟩
      · exact absurd hlen hgo.1
      refine wp_seq (wp_receive_channel hV hf hlive) fun _ s hs => ?_
      refine wp_seq (hV.add hf hs) fun _ s hs => ?_
      refine wp_seq (hV.ready (hV.fits_inc hf) hs) fun len s hs => ?_
      refine wp_mono (ih (hV.fits_inc hf) hs) fun f' t ht => ?_
      obtain ⟨b', hf', hlive'⟩ := ht
      obtain ⟨k, rfl⟩ := Nat.exists_eq_succ_of_ne_zero hgo.2
      -- one frame here, the others in the rest of the loop
      refine ⟨b', hf', hlive'.forget ?_ ?_ (Nat.le_refl _)⟩
      · exact (List.IsPrefix.drop hfs (k + 1))
      · have hle := hfs.length_le
        simp only [RxKnown.polled, List.length_cons] at hle ⊢
        omega
    · rw [if_neg hgo]
      refine wp_pure ⟨b, hf, ?_⟩
      -- the loop ends: the queue is empty, or the budget is used up
      rcases hs with ⟨-, hnil, hlive⟩ | ⟨p, fs, hfs, rfl, hlen, hlive⟩
      · refine hlive.forget ?_ ?_ (Nat.le_refl _) <;> simp [hnil]
      · obtain rfl : n = 0 := by
          by_contra hn
          exact hgo ⟨hlen, hn⟩
        exact hlive.forget hfs (by simp) (Nat.le_refl _)

/-- `poll_rx()` takes up to 31 frames. -/
theorem wp_pollRx_channel (hV : V.Lawful cap v R) (hs : ∃ b, V.Fits b f ∧ V.Live cap .ready b K s) :
    wp R (V.Guar cap) (pollRx v f)
      (fun f' t => ∃ b, V.Fits b f' ∧ V.Live cap .ready b (K.polled rxBudget) t) s := by
  obtain ⟨b, hf, hlive⟩ := hs
  exact wp_seq (hV.ready hf hlive) fun len s hs => wp_pollRxLoop_channel hV _ hf hs

/-! ## Callbacks -/

/-- `ccat_eth_link_up()` clears the queue. -/
theorem wp_linkUp_channel (hV : V.Lawful cap v R) (hs : V.Idle cap K priv s) :
    wp R (V.Guar cap) (ccatEthLinkUp v priv) (V.Idle cap K.cleared) s := by
  obtain ⟨⟨b, hf, hlive⟩, htx⟩ := hs
  have hnet : ∀ upd : Machine δ → Machine δ, (∀ s, (upd s).dev = s.dev) →
      (∀ s, (upd s).rxLog = s.rxLog) → (Prog.modify upd).All V.Keeps fun _ => True :=
    fun upd hdev hlog => Prog.all_modify (keeps_of_dev hV hdev hlog)
  unfold ccatEthLinkUp
  refine wp_seq (hV.reset (hV.shape hf) hlive) fun rxFifo s hs => ?_
  refine wp_seq (wp_idle_of_keeps hV (hV.txReset htx) hs) fun txFifo s hs => ?_
  have hxmit : (ccatEthXmitRaw v txFifo frameForwardEthernetFrames).All V.Keeps V.TxShape :=
    Prog.all_bind (hV.startXmit hs.1 _) fun _ hr => hr
  refine wp_seq (wp_idle_of_keeps hV hxmit hs.2) fun txFifo s hs => ?_
  -- the carrier and the queue
  refine wp_seq (wp_idle_of_keeps hV (hnet netifCarrierOn (fun _ => rfl) fun _ => rfl) hs.2)
    fun _ s hs₁ => ?_
  refine wp_seq (wp_idle_of_keeps hV (hnet netifWakeQueue (fun _ => rfl) fun _ => rfl) hs₁.2)
    fun _ s hs₂ => ?_
  exact wp_pure ⟨hs₂.2, hs.1⟩

/-- `poll_link()` clears the queue or leaves it alone. -/
theorem wp_pollLink_channel (hV : V.Lawful cap v R) (hs : V.Idle cap K priv s) :
    wp R (V.Guar cap) (pollLink v priv)
      (fun priv t => V.Idle cap K priv t ∨ V.Idle cap K.cleared priv t) s := by
  obtain ⟨hidle, htx⟩ := hs
  unfold pollLink ccatEthPrivReadLinkState
  refine wp_seq (wp_idle_of_keeps hV (read_keeps hV _) hidle) fun link s hs => ?_
  refine wp_seq (wp_idle_of_keeps hV (read_keeps hV _) hs.2) fun carrier s hs => ?_
  split
  · split
    · exact wp_mono (wp_linkUp_channel hV ⟨hs.2, htx⟩) fun _ _ h => .inr h
    · have hdown : (ccatEthLinkDown : Prog (Machine δ) Unit).All V.Keeps fun _ => True :=
        Prog.all_modify_bind (keeps_of_dev hV (fun _ => rfl) fun _ => rfl)
          (Prog.all_modify (keeps_of_dev hV (fun _ => rfl) fun _ => rfl))
      refine wp_seq (wp_idle_of_keeps hV hdown hs.2) fun _ s hs => ?_
      exact wp_pure (.inl ⟨hs.2, htx⟩)
  · exact wp_pure (.inl ⟨hs.2, htx⟩)

/-- The part of `poll_timer_callback()` behind `poll_link()`. -/
theorem wp_poll_channel (hV : V.Lawful cap v R) (hs : V.Idle cap K priv s) :
    wp R (V.Guar cap) (do
      let rxFifo ← pollRx v priv.rxFifo
      pollTx v priv.txFifo
      return { priv with rxFifo := rxFifo }) (V.Idle cap (K.polled rxBudget)) s := by
  obtain ⟨hidle, htx⟩ := hs
  refine wp_seq (wp_pollRx_channel hV hidle) fun rxFifo s hs => ?_
  have hpoll : (pollTx v priv.txFifo).All V.Keeps fun _ => True :=
    Prog.all_bind (hV.txReady priv.txFifo) fun _ _ =>
      Prog.all_ite (Prog.all_modify (keeps_of_dev hV (fun _ => rfl) fun _ => rfl)) trivial
  refine wp_seq (wp_idle_of_keeps hV hpoll hs) fun _ s hs => ?_
  exact wp_pure ⟨hs.2, htx⟩

/-- `poll_timer_callback()`: the queue was reset, or as many frames as a poll takes were taken
    out of it. -/
theorem wp_timer_channel (hV : V.Lawful cap v R) (hs : V.Idle cap K priv s) :
    wp R (V.Guar cap) (pollTimerCallback v priv)
      (fun priv t => V.Idle cap (K.polled rxBudget) priv t ∨ V.Idle cap K.cleared priv t) s := by
  unfold pollTimerCallback
  refine wp_seq (wp_pollLink_channel hV hs) fun priv s hs => ?_
  rcases hs with hs | hs
  · exact wp_mono (wp_poll_channel hV hs) fun _ _ h => .inl h
  · -- nothing is known of the frames that came after the reset
    refine wp_mono (wp_poll_channel hV hs) fun _ _ h => .inr (h.forget ?_ ?_ (Nat.le_refl _))
    · exact List.nil_prefix
    · exact Nat.le_add_right _ _

/-- A transmission does not touch the receive side. -/
theorem wp_startXmit_channel (hV : V.Lawful cap v R) (skb : Skb) (hs : V.Idle cap K priv s) :
    wp R (V.Guar cap) (ccatEthStartXmit v priv.txFifo skb >>= fun r =>
      pure { priv with txFifo := r.2 }) (V.Idle cap K) s := by
  obtain ⟨hidle, htx⟩ := hs
  refine wp_seq (wp_idle_of_keeps hV (hV.startXmit htx skb) hidle) fun r s hs => ?_
  exact wp_pure ⟨hs.2, hs.1⟩

/-! ## Every run -/

/-- The system is the driver over a variant: it starts the timer callback and
    `ccat_eth_start_xmit()`. -/
structure Serves (sys : System (Machine δ) Priv) (v : Variant δ) : Prop where
  callback : ∀ priv s prog, sys.enabled priv s prog → prog = pollTimerCallback v priv ∨
    ∃ skb, prog = ccatEthStartXmit v priv.txFifo skb >>= fun r => pure { priv with txFifo := r.2 }

variable {sys : System (Machine δ) Priv}

/-- What a family of assertions needs so that every callback restores it. -/
theorem correct_of_timer (hV : V.Lawful cap v sys.env) (hsys : Serves sys v)
    {J : Priv → Machine δ → Prop} (hJ : ∀ priv s, J priv s → ∃ K, V.Idle cap K priv s ∧
      (∀ priv s, V.Idle cap K priv s → J priv s) ∧
      (∀ priv s, V.Idle cap (K.polled rxBudget) priv s → J priv s) ∧
      ∀ priv s, V.Idle cap K.cleared priv s → J priv s) : sys.Correct J (V.Guar cap) := by
  constructor
  · intro priv s t hs hR
    obtain ⟨K, hidle, hback, -, -⟩ := hJ priv s hs
    exact hback priv t (idle_stable hV K priv hidle hR)
  · intro priv s prog hs hcall
    obtain ⟨K, hidle, hback, hpolled, hcleared⟩ := hJ priv s hs
    rcases hsys.callback priv s prog hcall with rfl | ⟨skb, rfl⟩
    · refine wp_mono (wp_timer_channel hV hidle) fun priv t ht => ?_
      rcases ht with ht | ht
      · exact hpolled priv t ht
      · exact hcleared priv t ht
    · exact wp_mono (wp_startXmit_channel hV skb hidle) hback

/-- Every callback keeps the log one of the queue. -/
theorem correct (hV : V.Lawful cap v sys.env) (hsys : Serves sys v) :
    sys.Correct (V.Idle cap .nothing) (V.Guar cap) := by
  have hless : ∀ K priv s, V.Idle cap K priv s → V.Idle cap .nothing priv s :=
    fun K priv s h => h.forget List.nil_prefix (Nat.zero_le _) (Nat.zero_le _)
  refine correct_of_timer hV hsys fun priv s hs => ⟨.nothing, hs, ?_, ?_, ?_⟩
  · exact fun _ _ h => h
  · exact fun priv s h => hless _ priv s h
  · exact fun priv s h => hless _ priv s h

/-- In every run the log is that of a queue of slots, which is in the machine, and between
    callbacks none of the slots is in the driver's hand. -/
theorem Lawful.reach (hV : V.Lawful cap v sys.env) (hsys : Serves sys v)
    {c c' : Config (Machine δ) Priv} (hc : sys.Ok (V.Idle cap .nothing) (V.Guar cap) c)
    (hstart : V.Guar cap c.state c.state) (hreach : sys.Reach c c') :
    (∃ ph b, V.Live cap ph b .nothing c'.state) ∧
      ∀ priv, c'.control = .idle priv → V.Idle cap .nothing priv c'.state := by
  have hcorrect := correct hV hsys
  constructor
  · refine System.reach_always hcorrect (A := fun s => ∃ ph b, V.Live cap ph b .nothing s) ?_
      (fun _ _ _ hG => hG) hc hstart hreach
    rintro s t ⟨ph, b, hlive⟩ hR
    exact ⟨ph, b, hlive.hw fun _ hat => hV.env hat hR⟩
  · intro priv hidle
    have hok := System.reach_ok hcorrect hc hreach
    unfold System.Ok at hok
    rw [hidle] at hok
    exact hok

/-- A number of timer callbacks takes out a known number of the frames that were there, unless
    the FIFO is reset. -/
theorem Lawful.rounds (hV : V.Lawful cap v sys.env) (hsys : Serves sys v)
    {c c' : Config (Machine δ) Priv} {priv priv' : Priv} {n : Nat}
    (hidle : c.control = .idle priv) (hK : V.Idle cap K priv c.state)
    (hrun : sys.Rounds (fun p prog => prog = pollTimerCallback v p) c n c')
    (hidle' : c'.control = .idle priv') :
    K.taken + min K.oldest.length (rxBudget * n) ≤ rxTaken c'.state.rxLog ∨
      K.resets < rxResets c'.state.rxLog := by
  -- after `n` rounds at least `n` polls have been made
  let J : Nat → Priv → Machine δ → Prop := fun n priv s =>
    (∃ k, n ≤ k ∧ V.Idle cap (K.polled (rxBudget * k)) priv s) ∨ V.Idle cap K.cleared priv s
  -- one more round takes the frames of one more poll
  have hpoll : ∀ n k priv s, n ≤ k →
      V.Idle cap ((K.polled (rxBudget * k)).polled rxBudget) priv s →
      J (n + 1) priv s := by
    intro n k priv s hk hs
    rw [RxKnown.polled_polled] at hs
    exact .inl ⟨k + 1, Nat.succ_le_succ hk, hs⟩
  -- callbacks outside of a round do not take anything back
  have hJ : ∀ n, sys.Correct (J n) (V.Guar cap) := by
    intro n
    refine correct_of_timer hV hsys fun priv s hs => ?_
    rcases hs with ⟨k, hk, hs⟩ | hs
    · refine ⟨K.polled (rxBudget * k), hs, fun _ _ h => .inl ⟨k, hk, h⟩, fun priv s h => ?_,
        fun priv s h => .inr (h.forget List.nil_prefix ?_ (Nat.le_refl _))⟩
      · rw [RxKnown.polled_polled] at h
        exact .inl ⟨k + 1, Nat.le_succ_of_le hk, h⟩
      · exact Nat.le_add_right _ _
    · have hback : ∀ K' : RxKnown, K.taken ≤ K'.taken → K.resets + 1 ≤ K'.resets →
          ∀ priv s, V.Idle cap K' priv s → J n priv s :=
        fun K' hn hm priv s h => .inr (h.forget List.nil_prefix hn hm)
      refine ⟨K.cleared, hs, fun _ _ h => .inr h, ?_, ?_⟩
      · exact hback _ (Nat.le_add_right _ _) (Nat.le_refl _)
      · exact hback _ (Nat.le_refl _) (Nat.le_succ _)
  -- by induction over the rounds
  have hok : sys.Ok (J n) (V.Guar cap) c' := by
    refine System.rounds_ok hJ ?_ ?_ hrun
    · rintro n priv s prog (⟨k, hk, hs⟩ | hs) rfl
      · refine wp_mono (wp_timer_channel hV hs) fun priv t ht => ?_
        rcases ht with ht | ht
        · exact hpoll n k priv t hk ht
        · exact .inr (ht.forget List.nil_prefix (Nat.le_add_right _ _) (Nat.le_refl _))
      · refine wp_mono (wp_timer_channel hV hs) fun priv t ht => .inr ?_
        rcases ht with ht | ht
        · exact ht.forget List.nil_prefix (Nat.le_add_right _ _) (Nat.le_refl _)
        · exact ht.forget List.nil_prefix (Nat.le_refl _) (Nat.le_succ _)
    · unfold System.Ok
      rw [hidle]
      refine .inl ⟨0, Nat.le_refl _, hK.forget ?_ ?_ (Nat.le_refl _)⟩
      · rw [Nat.mul_zero]
        exact List.prefix_refl _
      · simp
  unfold System.Ok at hok
  rw [hidle'] at hok
  rcases hok with ⟨k, hk, ⟨b, -, new, -, -, htaken, -⟩, -⟩ | ⟨⟨b, -, new, -, -, -, hresets⟩, -⟩
  · left
    have hmul : rxBudget * n ≤ rxBudget * k := Nat.mul_le_mul_left _ hk
    simp only [RxKnown.polled] at htaken
    omega
  · exact .inr hresets

end RxView

end Ccat.Native.Eth
