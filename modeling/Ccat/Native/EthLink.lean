import Ccat.Native.EthDma

/-!
# Link changes as the driver observes them (`netdev.c`)

The callbacks of the driver with a record of what they saw: the link bit each
`poll_link()` read and the result of each `ccat_eth_start_xmit()`. The stack may call
`ccat_eth_start_xmit()` at any time here, also while the queue is stopped.
-/

namespace Ccat.Native.Eth

open Interleave

/-- What a callback observed. -/
inductive LinkEvent where
  /-- A timer callback whose `poll_link()` read this link bit. -/
  | polled (link : Bool)
  | xmit (skb : Skb) (res : NetdevTx)

/-- The driver's state with the events so far. -/
structure Observed where
  priv : Priv
  events : List LinkEvent

section

variable {δ : Type} (v : Variant δ)

/-- `poll_link()` behind the read of the link bit. -/
def pollLinkOn (priv : Priv) (link : Bool) : Prog (Machine δ) Priv := do
  let carrier ← Prog.read fun s => s.net.carrier
  if link ≠ carrier then
    if link then ccatEthLinkUp v priv
    else do
      ccatEthLinkDown
      return priv
  else return priv

/-- `poll_link()` with the link bit it read. -/
def pollLinkObserved (priv : Priv) : Prog (Machine δ) (Bool × Priv) := do
  let link ← ccatEthPrivReadLinkState v
  let priv ← pollLinkOn v priv link
  return (link, priv)

/-- `poll_timer_callback()` with its event. -/
def pollTimerObserved (o : Observed) : Prog (Machine δ) Observed := do
  let (link, priv) ← pollLinkObserved v o.priv
  let rxFifo ← pollRx v priv.rxFifo
  pollTx v priv.txFifo
  return ⟨{ priv with rxFifo := rxFifo }, o.events ++ [.polled link]⟩

/-- `ccat_eth_start_xmit()` with its event. -/
def startXmitObserved (o : Observed) (skb : Skb) : Prog (Machine δ) Observed := do
  let (res, txFifo) ← ccatEthStartXmit v o.priv.txFifo skb
  return ⟨{ o.priv with txFifo := txFifo }, o.events ++ [.xmit skb res]⟩

end

/-- The callbacks: the timer and `ccat_eth_start_xmit()`, both at any time. -/
inductive LinkCallback (o : Observed) : Prog DmaMachine Observed → Prop where
  | timer : LinkCallback o (pollTimerObserved dma o)
  | startXmit (skb : Skb) : LinkCallback o (startXmitObserved dma o skb)

/-- The driver in DMA mode with its hardware. -/
def linkSystem : System DmaMachine Observed where
  env := Hw
  enabled o _ := LinkCallback o

/-! ### Reading the record -/

/-- The link bit read last, `up` being the state of the link ahead of the events. -/
def linkSeen (up : Bool) : List LinkEvent → Bool
  | [] => up
  | .polled link :: es => linkSeen link es
  | .xmit _ _ :: es => linkSeen up es

/-- Number of changes from down to up between one link bit and the next. -/
def linkUps (up : Bool) : List LinkEvent → Nat
  | [] => 0
  | .polled link :: es => (if link && !up then 1 else 0) + linkUps link es
  | .xmit _ _ :: es => linkUps up es

/-- The events behind the last change from down to up. -/
def sinceLinkUp (up : Bool) : List LinkEvent → Option (List LinkEvent)
  | [] => none
  | .polled link :: es =>
    match sinceLinkUp link es with
    | some later => some later
    | none => if link && !up then some es else none
  | .xmit _ _ :: es => sinceLinkUp up es

/-- The frame of the stack that a call put into the ring. -/
def LinkEvent.frame? : LinkEvent → Option (List UInt8)
  | .xmit skb .ok =>
    if skb.nonlinear = false ∧ skb.len ≤ MAX_PAYLOAD_SIZE then some skb.data else none
  | _ => none

def LinkEvent.isBusy : LinkEvent → Bool
  | .xmit _ .busy => true
  | _ => false

end Ccat.Native.Eth
