import Ccat.Native.EthDma
import Ccat.Native.EthEim

/-!
# Opening and stopping the net device (`netdev.c`)

`ccat_eth_open()` arms the poll timer. `ccat_eth_stop()` stops the transmit queue and
then cancels the timer, which waits for a callback that is running; until then callbacks
run, and `netif_stop_queue()` may come anywhere in one. Both variants of the driver are
modelled.

The link bit and the state of the TX FIFO that a timer callback meets are recorded beside
the driver. Nothing in the driver depends on the record.
-/

namespace Ccat.Native.Eth

open Interleave

/-- A timer callback that is running: what it started with, and what it met so far. -/
structure Poll where
  txFifo : Fifo
  carrier : Bool
  /-- The link bit, once it was read. -/
  link : Option Bool
  /-- The TX FIFO was ready at one of the accesses behind that. -/
  ready : Bool
  deriving DecidableEq, Repr

/-- Where the net device is between `ccat_eth_open()` and `ccat_eth_stop()`. -/
structure NetAdmin where
  /-- The poll timer is armed. -/
  armed : Bool
  /-- `ccat_eth_stop()` is between its two steps. -/
  stopping : Bool
  /-- `ccat_eth_stop()` has returned, and `ccat_eth_open()` was not called since. -/
  stopped : Bool
  /-- Ghost: the link went down by `ccat_eth_link_down()` and did not come up since. -/
  linkDown : Bool
  /-- Ghost: the timer callback that is running, up to its last access. -/
  poll : Option Poll
  deriving DecidableEq, Repr

/-- A net device that was never opened. -/
def NetAdmin.closed : NetAdmin := ⟨false, false, false, false, none⟩

section

variable {δ : Type} (v : Variant δ)

/-- What `ready` of the TX FIFO finds in a state. -/
def txReady (f : Fifo) (s : Machine δ) : Bool := ((v.txOps.ready f).exec (fun _ => true) 0 s).1 ≠ 0

/-- An access to the state `s`. The first one of a timer callback is to the link bit. -/
def Poll.access (p : Poll) (s : Machine δ) : Poll :=
  match p.link with
  | none => { p with link := some ((v.readMii s).testBit 24) }
  | some _ => { p with ready := p.ready || txReady v p.txFifo s }

/-- The carrier flag is turned off by `ccat_eth_link_down()` and on by `ccat_eth_link_up()`. -/
def NetAdmin.observe (a : NetAdmin) (s t : Machine δ) : NetAdmin :=
  { a with
    linkDown :=
      if s.net.carrier && !t.net.carrier then true
      else if !s.net.carrier && t.net.carrier then false
      else a.linkDown }

/-- A callback makes an access, and `rest` is left of it. -/
def NetAdmin.access (a : NetAdmin) (s : Machine δ) (rest : Prog (Machine δ) Priv) : NetAdmin :=
  { a with
    poll :=
      match rest with
      | .ret _ => none
      | _ => a.poll.map (·.access v s) }

structure NetConfig (δ : Type) where
  config : Config (Machine δ) Priv
  admin : NetAdmin

/-- The driver with its net device, among the steps `hw` of its hardware. -/
inductive NetStep (hw : Machine δ → Machine δ → Prop) : NetConfig δ → NetConfig δ → Prop where
  | env {ctl s t a} : hw s t → NetStep hw ⟨⟨ctl, s⟩, a⟩ ⟨⟨ctl, t⟩, a.observe s t⟩
  /-- The timer fires while it is armed. -/
  | timer {priv s a} : a.armed = true →
      NetStep hw ⟨⟨.idle priv, s⟩, a⟩
        ⟨⟨.running (pollTimerCallback v priv), s⟩,
          { a with poll := some ⟨priv.txFifo, s.net.carrier, none, false⟩ }⟩
  /-- `ccat_eth_start_xmit()`, at any time. -/
  | startXmit {priv s a} (skb : Skb) :
      NetStep hw ⟨⟨.idle priv, s⟩, a⟩
        ⟨⟨.running (do
          let (_, txFifo) ← ccatEthStartXmit v priv.txFifo skb
          return { priv with txFifo := txFifo }), s⟩, a⟩
  /-- An access of the callback that is running. -/
  | act {upd k s a} :
      NetStep hw ⟨⟨.running (.act upd k), s⟩, a⟩
        ⟨⟨.running (k s), upd s⟩, (a.access v s (k s)).observe s (upd s)⟩
  | pick {k s a} (b : Bool) :
      NetStep hw ⟨⟨.running (.pick k), s⟩, a⟩ ⟨⟨.running (k b), s⟩, a⟩
  | done {priv s a} :
      NetStep hw ⟨⟨.running (.ret priv), s⟩, a⟩ ⟨⟨.idle priv, s⟩, { a with poll := none }⟩
  /-- `ccat_eth_open()`. -/
  | ccatEthOpen {c a} : a.armed = false →
      NetStep hw ⟨c, a⟩ ⟨c, { a with armed := true, stopped := false }⟩
  /-- The first step of `ccat_eth_stop()`, at any time. -/
  | stopQueue {ctl s a} : a.armed = true → a.stopping = false →
      NetStep hw ⟨⟨ctl, s⟩, a⟩ ⟨⟨ctl, netifStopQueue s⟩, { a with stopping := true }⟩
  /-- The second step, when no callback is running; `ccat_eth_stop()` returns. -/
  | cancelTimer {priv s a} : a.stopping = true →
      NetStep hw ⟨⟨.idle priv, s⟩, a⟩
        ⟨⟨.idle priv, s⟩, { a with armed := false, stopping := false, stopped := true }⟩

end

end Ccat.Native.Eth
