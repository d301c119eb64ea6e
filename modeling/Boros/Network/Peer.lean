import Boros.Network.Mempool
import Boros.Semantics.Transition

/-!
# The request loop of a peer

`src/network/peer.rs`: the background task which answers the requests of a peer's
tx-submission server. Time is in milliseconds and passes only in waits; an input port
is the list of what it will deliver, each at its time. Where a message and a timer are
due at the same time, the message comes first, and the inner timer before the outer.
-/

namespace Boros.Network

open Boros.Data Boros.Semantics Boros.Ledger

/-- What `InputPort::recv` returns: a message, or an error as the port lagged. -/
inductive Delivery where
  | message (payload : Bytes)
  | lagged
deriving DecidableEq, Repr

/-- The payload of a message. -/
def Delivery.payload? : Delivery → Option Bytes
  | .message payload => some payload
  | .lagged => none

structure Arrival where
  time : Nat
  delivery : Delivery
deriving DecidableEq, Repr

/-- The payloads of the messages which a port will deliver. -/
def payloads (port : List Arrival) : List Bytes := port.filterMap (·.delivery.payload?)

/-! ## Collecting transactions -/

/-- The timeout of each `recv` in `collect_transactions`. -/
def receiveTimeout : Nat := 500

/-- The timeout around `collect_transactions` for a non-blocking request. -/
def collectTimeout : Nat := 1000

/-- How a call of `collect_transactions` ends, with what is left in the port. -/
inductive Collected where
  | returned (now : Nat) (txs : List Bytes) (port : List Arrival)
  | failed (now : Nat) (port : List Arrival)
  /-- The timeout around the call elapsed; its local `txs` were dropped with it. -/
  | elapsed (dropped : List Bytes) (port : List Arrival)
  /-- The call waits for a message which never comes. -/
  | waiting (port : List Arrival)
deriving DecidableEq, Repr

/-- Whether a timeout around a call has elapsed before a point in time. -/
def elapsedBefore (deadline : Option Nat) (time : Nat) : Bool := deadline.any (· < time)

/-- `collect_transactions`, in its loop, with `remaining` transactions still to receive,
under a timeout which elapses at `deadline`, if any. -/
def collectTransactions (deadline : Option Nat) (now remaining : Nat) (txs : List Bytes) :
    List Arrival → Collected
  | [] =>
    if remaining = 0 then .returned now txs []
    else if elapsedBefore deadline (now + receiveTimeout) then .elapsed txs []
    else if txs.isEmpty then
      if deadline.isSome then .elapsed txs [] else .waiting []
    else .returned (now + receiveTimeout) txs []
  | arrival :: later =>
    let received := max now arrival.time
    if remaining = 0 then .returned now txs (arrival :: later)
    else if received ≤ now + receiveTimeout then
      if elapsedBefore deadline received then .elapsed txs (arrival :: later)
      else
        match arrival.delivery with
        | .message payload =>
          collectTransactions deadline received (remaining - 1) (txs ++ [payload]) later
        | .lagged => collectTransactions deadline received remaining txs later
    else if elapsedBefore deadline (now + receiveTimeout) then .elapsed txs (arrival :: later)
    else if txs.isEmpty then
      -- The `recv` after the first timeout has none of its own.
      if elapsedBefore deadline received then .elapsed txs (arrival :: later)
      else
        match arrival.delivery with
        | .message payload => .returned received [payload] later
        | .lagged => .failed received later
    else .returned (now + receiveTimeout) txs (arrival :: later)

/-! ## Requests -/

/-- `EraTxId`. -/
abbrev EraTxId := UInt16 × Bytes

/-- `txsubmission::Request`. -/
inductive Request where
  | txIds (ack req : UInt16)
  | txIdsNonBlocking (ack req : UInt16)
  | txs (ids : List EraTxId)
deriving DecidableEq, Repr

/-- What is sent back: `TxIdAndSize`s or `EraTxBody`s. -/
inductive Reply where
  | txIds (ids : List (EraTxId × UInt32))
  | txs (bodies : List (UInt16 × Bytes))
deriving DecidableEq, Repr

/-- The number of ids which a request acknowledges. -/
def Request.acknowledges : Request → Nat
  | .txIds ack _ => ack.toNat
  | .txIdsNonBlocking ack _ => ack.toNat
  | .txs _ => 0

/-- The ids which a reply announces. -/
def Reply.announces : Reply → List EraTxId
  | .txIds ids => ids.map Prod.fst
  | .txs _ => []

/-- The id under which a transaction is announced. -/
def Tx.id (tx : Tx) : EraTxId := (tx.era, tx.hash.1)

/-- `propagate_txs`: the payload sent for the transactions. -/
def propagateTxs (txs : List Tx) : Reply :=
  .txIds (txs.map fun tx => (tx.id, UInt32.ofNat tx.bytes.length))

/-- The loop between two requests. `received` records the payloads which were handed to
`receive_raw`, `announced` and `acknowledged` what the server has seen and confirmed. -/
structure State where
  now : Nat
  mempool : Mempool
  port : List Arrival
  received : List Bytes
  announced : List EraTxId
  acknowledged : Nat
deriving DecidableEq

/-- A peer which has just been connected. -/
def State.initial (now : Nat) (port : List Arrival) : State := ⟨now, .new, port, [], [], 0⟩

/-- Why the loop does not come to its next request. -/
inductive Stop where
  | panic (fault : Fault)
  /-- A blocking request waits for a message which never comes. -/
  | waiting
deriving DecidableEq

/-- The raw transactions for a blocking request, when they are there, and the port. -/
def gather (now req : Nat) (port : List Arrival) :
    Except Stop (Nat × List Bytes × List Arrival) :=
  match collectTransactions none now req [] port with
  | .returned now txs port => .ok (now, txs, port)
  | .failed now port => .ok (now, [], port)
  | .elapsed _ _ | .waiting _ => .error .waiting

/-- The raw transactions for a non-blocking request: none if the timeout elapses. -/
def gatherNonBlocking (now req : Nat) (port : List Arrival) :
    Except Stop (Nat × List Bytes × List Arrival) :=
  match collectTransactions (some (now + collectTimeout)) now req [] port with
  | .returned now txs port => .ok (now, txs, port)
  | .failed now port => .ok (now, [], port)
  | .elapsed _ port => .ok (now + collectTimeout, [], port)
  | .waiting _ => .error .waiting

variable (pallas : Pallas)

/-- A request for ids: acknowledge, collect, store in the mempool and announce. -/
def State.handleTxIds (state : State) (ack : UInt16)
    (gathered : Except Stop (Nat × List Bytes × List Arrival)) : Except Stop (State × Reply) :=
  match state.mempool.acknowledge ack.toNat with
  | .error fault => .error (.panic fault)
  | .ok mempool =>
    match gathered with
    | .error stop => .error stop
    | .ok (now, rawTxs, port) =>
      let (mempool, txs) := mempool.receiveAll pallas rawTxs
      let reply := propagateTxs txs
      .ok ({ now, mempool, port
             received := state.received ++ rawTxs
             announced := state.announced ++ reply.announces
             acknowledged := state.acknowledged + ack.toNat }, reply)

/-- One iteration of the loop. -/
def State.handle (state : State) : Request → Except Stop (State × Reply)
  | .txIds ack req => state.handleTxIds pallas ack (gather state.now req.toNat state.port)
  | .txIdsNonBlocking ack req =>
    state.handleTxIds pallas ack (gatherNonBlocking state.now req.toNat state.port)
  | .txs ids =>
    match ids.mapM fun id => Hash32.fromSlice id.2 with
    | .error fault => .error (.panic fault)
    | .ok hashes =>
      .ok (state, .txs ((hashes.filterMap state.mempool.findInflight).map fun tx =>
        (tx.era, tx.bytes)))

/-- A request which comes in after a wait, and the reply to it. -/
structure Label where
  wait : Nat
  request : Request
  reply : Reply
deriving DecidableEq

/-- Some time passes. -/
def State.advance (state : State) (wait : Nat) : State := { state with now := state.now + wait }

/-- A request is answered. -/
def Step (state : State) (label : Label) (next : State) : Prop :=
  (state.advance label.wait).handle pallas label.request = .ok (next, label.reply)

variable {pallas} {state next : State} {ack : UInt16} {reply : Reply} {label : Label}
  {gathered : Except Stop (Nat × List Bytes × List Arrival)}

/-- What a request for ids does when it is answered. -/
theorem handleTxIds_ok (handled : state.handleTxIds pallas ack gathered = .ok (next, reply)) :
    ∃ mempool now rawTxs port, state.mempool.acknowledge ack.toNat = .ok mempool ∧
      gathered = .ok (now, rawTxs, port) ∧
      reply = propagateTxs (rawTxs.filterMap (Mempool.txOfRaw pallas)) ∧
      next = ⟨now, (mempool.receiveAll pallas rawTxs).1, port, state.received ++ rawTxs,
        state.announced ++ reply.announces, state.acknowledged + ack.toNat⟩ := by
  unfold State.handleTxIds at handled
  split at handled
  · cases handled
  · rename_i mempool acknowledged
    split at handled
    · cases handled
    · rename_i now rawTxs port
      obtain ⟨rfl, rfl⟩ := Prod.mk.inj (Except.ok.inj handled)
      refine ⟨mempool, now, rawTxs, port, acknowledged, rfl, ?_, rfl⟩
      rw [Mempool.receiveAll_txs]

/-- A request for transactions leaves the peer as it is. -/
theorem handle_txs_ok {ids : List EraTxId}
    (handled : state.handle pallas (.txs ids) = .ok (next, reply)) :
    next = state ∧ ∃ bodies, reply = .txs bodies := by
  simp only [State.handle] at handled
  split at handled
  · cases handled
  · obtain ⟨rfl, rfl⟩ := Prod.mk.inj (Except.ok.inj handled)
    exact ⟨rfl, _, rfl⟩

/-- A request whose answer is seen to be computed is a step. -/
theorem step_of_view {β : Type} {view : State × Reply → β} {value : β} {request : Request}
    (answered : (state.handle pallas request).toOption.map view = some value) :
    ∃ next reply, Step pallas state ⟨0, request, reply⟩ next ∧ view (next, reply) = value := by
  cases handled : state.handle pallas request with
  | error stop =>
      rw [handled] at answered
      cases answered
  | ok result =>
      rw [handled] at answered
      exact ⟨result.1, result.2, handled, Option.some.inj answered⟩

/-- Two messages, 450 ms apart. -/
def samplePort : List Arrival := [⟨100, .message [1]⟩, ⟨550, .message [2]⟩]

end Boros.Network
