import Boros.Network.Peer

/-!
# Messages between the input port and the mempool

A message which was taken out of the input port is kept in a local variable until
`collect_transactions` returns. For a non-blocking request a timeout is put around
the call, and what it has collected is dropped when the timeout elapses.
`lossless_iff_inTime` says for which arrivals this happens.
-/

namespace Boros.Network

open Boros.Data Boros.Semantics Boros.Ledger

@[simp]
theorem payloads_cons (arrival : Arrival) (later : List Arrival) :
    payloads (arrival :: later) = arrival.delivery.payload?.toList ++ payloads later := by
  cases delivery : arrival.delivery <;> simp [payloads, delivery, Delivery.payload?]

/-! ## What a call takes out of the port -/

/-- The messages which a call has when it ends. -/
def Collected.held : Collected → List Bytes
  | .returned _ txs _ => txs
  | .failed _ _ => []
  | .elapsed dropped _ => dropped
  | .waiting _ => []

/-- The messages which are lost with a call. -/
def Collected.dropped : Collected → List Bytes
  | .elapsed dropped _ => dropped
  | _ => []

/-- The port after a call. -/
def Collected.port : Collected → List Arrival
  | .returned _ _ port => port
  | .failed _ port => port
  | .elapsed _ port => port
  | .waiting port => port

/-- A call takes the messages which it has out of the port, in order. -/
theorem collectTransactions_held (deadline : Option Nat) (now remaining : Nat)
    (txs : List Bytes) (port : List Arrival) :
    txs ++ payloads port = (collectTransactions deadline now remaining txs port).held ++
      payloads (collectTransactions deadline now remaining txs port).port := by
  fun_induction collectTransactions deadline now remaining txs port with
  | case8 now remaining txs arrival later received _ _ _ payload delivery ih =>
      rw [← ih]
      simp [delivery, Delivery.payload?]
  | case9 now remaining txs arrival later received _ _ _ delivery ih =>
      rw [← ih]
      simp [delivery, Delivery.payload?]
  | _ => simp_all [Collected.held, Collected.port, Delivery.payload?]

/-! ## When the timeout elapses -/

/-- The times at which the deliveries of a port are received, from `now` on, by
a receiver which always waits for the next one. -/
def reception (now : Nat) : List Arrival → List (Nat × Delivery)
  | [] => []
  | arrival :: later =>
    let received := max now arrival.time
    (received, arrival.delivery) :: reception received later

/-- The deliveries received until a point in time. -/
def receivedBy (deadline now : Nat) (port : List Arrival) : List (Nat × Delivery) :=
  (reception now port).takeWhile fun received => received.1 ≤ deadline

/-- How many deliveries are messages. -/
def messages (received : List (Nat × Delivery)) : Nat :=
  received.countP fun received => received.2.payload?.isSome

/-- A receiver which has `count` messages at `now` has some of them, but not yet
`remaining` more, when the timeout elapses: no receive timed out before, and the last one
would do so afterwards. -/
structure Overruns (deadline now remaining count : Nat) (received : List (Nat × Delivery)) :
    Prop where
  some : 0 < count + messages received
  missing : messages received < remaining
  steady : (now :: received.map Prod.fst).IsChain fun before time => time ≤ before + receiveTimeout
  last : deadline < (received.map Prod.fst).getLastD now + receiveTimeout

section Received

variable {deadline now remaining count time : Nat} {arrival : Arrival} {later : List Arrival}
  {rest : List (Nat × Delivery)}

@[simp]
theorem receivedBy_nil : receivedBy deadline now [] = [] := rfl

theorem receivedBy_cons_of_lt (late : deadline < max now arrival.time) :
    receivedBy deadline now (arrival :: later) = [] := by
  have notYet : ¬ max now arrival.time ≤ deadline := Nat.not_le_of_lt late
  rw [receivedBy, reception, List.takeWhile_cons_of_neg (by simpa using notYet)]

theorem receivedBy_cons_of_le (early : max now arrival.time ≤ deadline) :
    receivedBy deadline now (arrival :: later) = (max now arrival.time, arrival.delivery) ::
      receivedBy deadline (max now arrival.time) later := by
  simp [receivedBy, reception, early]

theorem overruns_nil_iff : Overruns deadline now remaining count [] ↔
    0 < count ∧ 0 < remaining ∧ deadline < now + receiveTimeout := by
  constructor
  · rintro ⟨some, missing, _, last⟩
    exact ⟨some, missing, last⟩
  · rintro ⟨some, missing, last⟩
    exact ⟨some, missing, .singleton now, last⟩

/-- Whether a receiver overruns is not changed by receiving in time. -/
theorem overruns_cons_iff {delivery : Delivery} {next : Nat}
    (next_eq : next + messages [(time, delivery)] = remaining) :
    Overruns deadline now remaining count ((time, delivery) :: rest) ↔
      time ≤ now + receiveTimeout ∧
        Overruns deadline time next (count + messages [(time, delivery)]) rest := by
  have split : messages ((time, delivery) :: rest) =
      messages [(time, delivery)] + messages rest := by
    simp only [messages, List.countP_cons, List.countP_nil]
    omega
  constructor
  · rintro ⟨some, missing, steady, last⟩
    rw [List.map_cons, List.isChain_cons_cons] at steady
    rw [List.map_cons, List.getLastD_cons] at last
    exact ⟨steady.1, by omega, by omega, steady.2, last⟩
  · rintro ⟨soon, some, missing, steady, last⟩
    refine ⟨by omega, by omega, ?_, ?_⟩
    · rw [List.map_cons, List.isChain_cons_cons]
      exact ⟨soon, steady⟩
    · rw [List.map_cons, List.getLastD_cons]
      exact last

end Received

/-- What a call loses to the timeout around it. -/
theorem collectTransactions_dropped_iff {deadline : Nat} (now remaining : Nat) (txs : List Bytes)
    (port : List Arrival) (early : now ≤ deadline) :
    (collectTransactions (some deadline) now remaining txs port).dropped ≠ [] ↔
      Overruns deadline now remaining txs.length (receivedBy deadline now port) := by
  induction port generalizing now remaining txs with
  | nil =>
      rw [receivedBy_nil, overruns_nil_iff, List.length_pos_iff]
      unfold collectTransactions
      split_ifs with done past empty <;>
        simp_all [Collected.dropped, elapsedBefore, Nat.pos_iff_ne_zero]
  | cons arrival later ih =>
      simp only [collectTransactions, elapsedBefore, Option.any_some, decide_eq_true_eq]
      have nothing (late : deadline < max now arrival.time) :
          receivedBy deadline now (arrival :: later) = [] := receivedBy_cons_of_lt late
      have steady (overruns : Overruns deadline now remaining txs.length
          (receivedBy deadline now (arrival :: later))) (late : max now arrival.time ≤ deadline) :
          max now arrival.time ≤ now + receiveTimeout := by
        rw [receivedBy_cons_of_le late] at overruns
        exact (List.isChain_cons_cons.mp overruns.steady).1
      split_ifs with done soon past past empty late
      · refine iff_of_false (by simp [Collected.dropped]) fun overruns => ?_
        have missing := overruns.missing
        omega
      · rw [nothing past, overruns_nil_iff]
        simp only [Collected.dropped, ne_eq, ← List.length_pos_iff]
        omega
      · have inTime : max now arrival.time ≤ deadline := Nat.le_of_not_lt past
        rw [receivedBy_cons_of_le inTime]
        cases arrival.delivery with
        | message payload =>
            have next : remaining - 1 + messages [(max now arrival.time, .message payload)] =
                remaining := Nat.sub_add_cancel (Nat.pos_of_ne_zero done)
            rw [overruns_cons_iff next, ih _ _ _ inTime, List.length_append]
            exact (and_iff_right soon).symm
        | lagged =>
            have next : remaining + messages [(max now arrival.time, .lagged)] = remaining := rfl
            rw [overruns_cons_iff next, ih _ _ _ inTime]
            exact (and_iff_right soon).symm
      · rw [nothing (by omega), overruns_nil_iff]
        simp only [Collected.dropped, ne_eq, ← List.length_pos_iff]
        omega
      · have none : txs.length = 0 := by simpa using empty
        rw [nothing late, overruns_nil_iff]
        simp only [Collected.dropped, ne_eq, ← List.length_pos_iff]
        omega
      · refine iff_of_false ?_ fun overruns => soon (steady overruns (Nat.le_of_not_lt late))
        cases arrival.delivery <;> simp [Collected.dropped]
      · refine iff_of_false (by simp [Collected.dropped]) fun overruns => ?_
        by_cases late : deadline < max now arrival.time
        · rw [nothing late] at overruns
          have last := overruns.last
          exact past last
        · exact soon (steady overruns (Nat.le_of_not_lt late))

/-! ## Requests -/

/-- The messages which are dropped by a request that comes in at `now`. -/
def lost (now req : Nat) (port : List Arrival) : List Bytes :=
  (collectTransactions (some (now + collectTimeout)) now req [] port).dropped

variable {now later req : Nat} {port rest : List Arrival} {raws : List Bytes}

/-- A blocking request uses the messages which it takes out of the port. -/
theorem gather_ok (gathered : gather now req port = .ok (later, raws, rest)) :
    payloads port = raws ++ payloads rest := by
  have held := collectTransactions_held none now req [] port
  unfold gather at gathered
  split at gathered
  · rename_i collected
    rw [collected] at held
    cases gathered
    exact held
  · rename_i collected
    rw [collected] at held
    cases gathered
    exact held
  · cases gathered
  · cases gathered

/-- A non-blocking request uses the messages which it takes out of the port, or drops
them. -/
theorem gatherNonBlocking_ok (gathered : gatherNonBlocking now req port = .ok (later, raws, rest)) :
    payloads port = raws ++ lost now req port ++ payloads rest := by
  have held := collectTransactions_held (some (now + collectTimeout)) now req [] port
  unfold lost
  unfold gatherNonBlocking at gathered
  split at gathered
  · rename_i collected
    rw [collected] at held ⊢
    cases gathered
    simpa [Collected.held, Collected.dropped, Collected.port] using held
  · rename_i collected
    rw [collected] at held ⊢
    cases gathered
    simpa [Collected.held, Collected.dropped, Collected.port] using held
  · rename_i collected
    rw [collected] at held ⊢
    cases gathered
    simpa [Collected.held, Collected.dropped, Collected.port] using held
  · cases gathered

/-! ## Runs -/

/-- Every message which a request takes out of the port is handed to `receive_raw` by it. -/
def Lossless (transition : Transition State Label) : Prop :=
  ∃ handed, transition.after.received = transition.before.received ++ handed ∧
    payloads transition.before.port = handed ++ payloads transition.after.port

/-- No timeout around a non-blocking request elapses after a message was received. -/
def InTime (state : State) (label : Label) : Prop :=
  ∀ ack req, label.request = .txIdsNonBlocking ack req →
    ¬ Overruns (state.now + label.wait + collectTimeout) (state.now + label.wait) req.toNat 0
      (receivedBy (state.now + label.wait + collectTimeout) (state.now + label.wait) state.port)

variable {pallas : Pallas} {state next : State} {label : Label}

/-- What a request loses is what the timeout around it makes it drop. -/
theorem Step.lossless_iff (step : Step pallas state label next) :
    Lossless ⟨state, label, next⟩ ↔ InTime state label := by
  obtain ⟨wait, request, reply⟩ := label
  change (state.advance wait).handle pallas request = .ok (next, reply) at step
  cases request with
  | txIds ack req =>
      obtain ⟨mempool, now, raws, port, _, gathered, _, rfl⟩ := handleTxIds_ok step
      refine iff_of_true ⟨raws, rfl, gather_ok gathered⟩ ?_
      rintro _ _ same
      cases same
  | txIdsNonBlocking ack req =>
      obtain ⟨mempool, now, raws, port, _, gathered, _, rfl⟩ := handleTxIds_ok step
      have taken := gatherNonBlocking_ok gathered
      have overrun := collectTransactions_dropped_iff (state.now + wait) req.toNat [] state.port
        (Nat.le_add_right _ collectTimeout)
      constructor
      · rintro ⟨handed, received, kept⟩ _ _ same overruns
        obtain ⟨rfl, rfl⟩ := Request.txIdsNonBlocking.inj same
        obtain rfl := List.append_cancel_left received
        have all := kept.symm.trans taken
        rw [List.append_assoc, List.append_cancel_left_eq, List.self_eq_append_left] at all
        exact overrun.mpr overruns all
      · intro inTime
        have none : lost (state.now + wait) req.toNat state.port = [] := by
          by_contra dropped
          exact inTime ack req rfl (overrun.mp dropped)
        refine ⟨raws, rfl, taken.trans ?_⟩
        change raws ++ lost (state.now + wait) req.toNat state.port ++ _ = _
        rw [none, List.append_nil]
  | txs ids =>
      obtain ⟨rfl, _⟩ := handle_txs_ok step
      refine iff_of_true ⟨[], (List.append_nil _).symm, rfl⟩ ?_
      rintro _ _ same
      cases same

/-- In every run, no message is lost exactly where every non-blocking request is in time. -/
theorem lossless_iff_inTime {start final : State} {trace : List (Transition State Label)}
    (run : Run (Step pallas) start trace final) :
    (∀ transition ∈ trace, Lossless transition) ↔ Guarded InTime trace := by
  constructor
  · intro lossless transition member
    exact (run.step_of_mem member).lossless_iff.mp (lossless transition member)
  · intro inTime transition member
    exact (Step.lossless_iff (run.step_of_mem member)).mpr (inTime transition member)

/-- A request for two ids gets both messages. -/
theorem lossless_iff_inTime_sample :
    ∃ (final : State) (trace : List (Transition State Label)),
      Run (Step samplePallas) (State.initial 0 samplePort) trace final ∧
        Guarded InTime trace ∧ final.received = [[1], [2]] := by
  have answered : ((State.initial 0 samplePort).handle samplePallas
      (.txIdsNonBlocking 0 2)).toOption.map (fun result => (result.1.received, result.1.port)) =
      some ([[1], [2]], []) := by
    decide +kernel
  obtain ⟨final, reply, step, seen⟩ := step_of_view answered
  obtain ⟨received, port⟩ := Prod.mk.inj seen
  have run := Run.cons step .nil
  refine ⟨final, _, run, (lossless_iff_inTime run).mp ?_, received⟩
  intro transition member
  rw [List.mem_singleton.mp member]
  refine ⟨[[1], [2]], received, ?_⟩
  simp only at port
  simp [State.initial, samplePort, Delivery.payload?, port]

/-- A request for three ids waits for the third until the timeout, and the two which it
has received are dropped. -/
theorem not_lossless_of_timeout :
    ∃ (final : State) (trace : List (Transition State Label)),
      Run (Step samplePallas) (State.initial 0 samplePort) trace final ∧
        ¬ ∀ transition ∈ trace, Lossless transition := by
  have step : Step samplePallas (State.initial 0 samplePort)
      ⟨0, .txIdsNonBlocking 0 3, .txIds []⟩ ⟨1000, .new, [], [], [], 0⟩ := rfl
  refine ⟨_, _, .cons step .nil, fun lossless => ?_⟩
  obtain ⟨handed, received, kept⟩ := lossless _ List.mem_cons_self
  obtain rfl : handed = [] := received.symm
  cases kept

end Boros.Network
