import Boros.Network.Peer

/-!
# The mempool and the server's window

The server acknowledges ids by their number, the oldest first, and the peer removes
as many transactions from its mempool. `synchronized_of_fits` says that these are the
same ones as long as no more than `cap` ids are outstanding; with more, the mempool
has dropped the oldest transactions while their ids are still outstanding.
-/

namespace Boros.Network

open Boros.Data Boros.Semantics Boros.Ledger

variable {pallas : Pallas} {state next start final : State} {label : Label}
  {trace : List (Transition State Label)}

/-- The ids which were announced to the server and which it has not acknowledged. -/
def State.outstanding (state : State) : List EraTxId := state.announced.drop state.acknowledged

/-- The server acknowledges ids which are outstanding. -/
def Conforming (state : State) (label : Label) : Prop :=
  label.request.acknowledges ≤ state.outstanding.length

/-- With the reply, the ids which are outstanding fit into the mempool. -/
def Fits (state : State) (label : Label) : Prop :=
  state.outstanding.length - label.request.acknowledges + label.reply.announces.length ≤ cap

/-- A body which answers the request for an id: the bytes of a transaction of its hash. -/
def Answers (pallas : Pallas) (id : EraTxId) (body : UInt16 × Bytes) : Prop :=
  ∃ tx, Mempool.txOfRaw pallas body.2 = some tx ∧ tx.hash.1 = id.2 ∧ tx.era = body.1

/-- Outstanding-window agreement: the transactions in flight are the outstanding ids, in
order; acknowledging a number of them removes their transactions; and any of them are
answered with all of their bodies, in order. -/
structure Synchronized (pallas : Pallas) (state : State) : Prop where
  inflight : state.mempool.inflight.map Tx.id = state.outstanding
  acknowledge : ∀ count ≤ state.outstanding.length, ∃ mempool,
    state.mempool.acknowledge count = .ok mempool ∧
      (state.mempool.inflight.take count).map Tx.id = state.outstanding.take count ∧
      mempool.inflight = state.mempool.inflight.drop count
  bodies : ∀ ids, (∀ id ∈ ids, id ∈ state.outstanding) → ∃ bodies,
    state.handle pallas (.txs ids) = .ok (state, .txs bodies) ∧
      List.Forall₂ (Answers pallas) ids bodies

/-- What every request keeps: the server has acknowledged ids which were announced, the
others are those in flight, and what is in flight was decoded from its bytes. -/
structure Agrees (pallas : Pallas) (state : State) : Prop where
  announced : state.acknowledged ≤ state.announced.length
  inflight : state.mempool.inflight.map Tx.id = state.outstanding
  decoded : ∀ tx ∈ state.mempool.inflight, Mempool.txOfRaw pallas tx.bytes = some tx

/-- A record is made of the bytes it carries. -/
theorem txOfRaw_bytes {cbor : Bytes} {tx : Tx} (made : Mempool.txOfRaw pallas cbor = some tx) :
    Mempool.txOfRaw pallas tx.bytes = some tx := by
  obtain ⟨metx, _, rfl⟩ := Option.map_eq_some_iff.mp made
  exact made

theorem propagateTxs_announces (txs : List Tx) :
    (propagateTxs txs).announces = txs.map Tx.id := by
  simp [propagateTxs, Reply.announces]

theorem Agrees.outstanding_length (agrees : Agrees pallas state) :
    state.outstanding.length = state.mempool.inflight.length := by
  rw [← agrees.inflight, List.length_map]

/-- A request for ids keeps the agreement. -/
theorem Agrees.handleTxIds {ack : UInt16} {reply : Reply}
    {gathered : Except Stop (Nat × List Bytes × List Arrival)} (agrees : Agrees pallas state)
    (conforming : ack.toNat ≤ state.outstanding.length)
    (fits : state.outstanding.length - ack.toNat + reply.announces.length ≤ cap)
    (handled : state.handleTxIds pallas ack gathered = .ok (next, reply)) :
    Agrees pallas next := by
  obtain ⟨mempool, now, raws, port, acknowledged, _, rfl, rfl⟩ := handleTxIds_ok handled
  obtain ⟨_, effect⟩ := Mempool.acknowledge_ok_iff.mp acknowledged
  have remaining : mempool.inflight = state.mempool.inflight.drop ack.toNat := by rw [effect]
  have length := agrees.outstanding_length
  rw [propagateTxs_announces, List.length_map] at fits
  have room : mempool.inflight.length + (raws.filterMap (Mempool.txOfRaw pallas)).length ≤ cap := by
    rw [remaining, List.length_drop]
    omega
  have kept := Mempool.receiveAll_inflight raws room
  have bound := agrees.announced
  have outstanding : state.outstanding.length = state.announced.length - state.acknowledged :=
    List.length_drop
  refine ⟨?_, ?_, ?_⟩
  · simp only [List.length_append]
    omega
  · rw [kept, remaining, propagateTxs_announces, List.map_append, List.map_drop, agrees.inflight]
    simp only [State.outstanding]
    rw [List.drop_append_of_le_length (by omega), List.drop_drop]
  · intro tx member
    rw [kept, remaining] at member
    rcases List.mem_append.mp member with before | new
    · exact agrees.decoded tx (List.mem_of_mem_drop before)
    · obtain ⟨cbor, _, made⟩ := List.mem_filterMap.mp new
      exact txOfRaw_bytes made

/-- A request keeps the agreement. -/
theorem Step.agrees (step : Step pallas state label next) (conforming : Conforming state label)
    (fits : Fits state label) (agrees : Agrees pallas state) : Agrees pallas next := by
  obtain ⟨wait, request, reply⟩ := label
  change (state.advance wait).handle pallas request = .ok (next, reply) at step
  have later : Agrees pallas (state.advance wait) :=
    ⟨agrees.announced, agrees.inflight, agrees.decoded⟩
  cases request with
  | txIds ack req => exact later.handleTxIds conforming fits step
  | txIdsNonBlocking ack req => exact later.handleTxIds conforming fits step
  | txs ids =>
      obtain ⟨rfl, _⟩ := handle_txs_ok step
      exact later

/-- Every outstanding id is answered with a body, the oldest of its hash. -/
theorem Agrees.bodies (agrees : Agrees pallas state) (ids : List EraTxId)
    (asked : ∀ id ∈ ids, id ∈ state.outstanding) :
    ∃ hashes, ids.mapM (fun id => Hash32.fromSlice id.2) = .ok hashes ∧
      List.Forall₂ (Answers pallas) ids
        ((hashes.filterMap state.mempool.findInflight).map fun tx => (tx.era, tx.bytes)) := by
  induction ids with
  | nil => exact ⟨[], rfl, .nil⟩
  | cons id rest ih =>
      rw [List.forall_mem_cons] at asked
      obtain ⟨hashes, decoded, answers⟩ := ih asked.2
      rw [← agrees.inflight] at asked
      obtain ⟨tx, member, rfl⟩ := List.mem_map.mp asked.1
      have present : (state.mempool.findInflight tx.hash).isSome := by
        rw [Mempool.findInflight, List.find?_isSome]
        exact ⟨tx, member, by simp⟩
      obtain ⟨found, found_eq⟩ := Option.isSome_iff_exists.mp present
      have same : found.hash = tx.hash := by simpa using List.find?_some found_eq
      refine ⟨tx.hash :: hashes, ?_, ?_⟩
      · rw [List.mapM_cons, decoded]
        simp [Tx.id]
        rfl
      · rw [List.filterMap_cons_some found_eq, List.map_cons]
        refine .cons ⟨found, agrees.decoded found (List.mem_of_find?_eq_some found_eq), ?_, rfl⟩
          answers
        rw [same]
        rfl

/-- Where the peer agrees with the server it is synchronized with it. -/
theorem Agrees.synchronized (agrees : Agrees pallas state) : Synchronized pallas state := by
  refine ⟨agrees.inflight, ?_, ?_⟩
  · intro count within
    rw [agrees.outstanding_length] at within
    refine ⟨_, Mempool.acknowledge_ok_iff.mpr ⟨within, rfl⟩, ?_, rfl⟩
    rw [List.map_take, agrees.inflight]
  · intro ids asked
    obtain ⟨hashes, decoded, answers⟩ := agrees.bodies ids asked
    refine ⟨_, ?_, answers⟩
    simp only [State.handle, decoded]

/-- In every run against a conforming server with at most `cap` ids outstanding, the peer
stays synchronized with the server. -/
theorem synchronized_of_fits (now : Nat) (port : List Arrival)
    (run : Run (Step pallas) (State.initial now port) trace final)
    (conforming : Guarded Conforming trace) (fits : Guarded Fits trace) :
    Synchronized pallas final := by
  have preserved : Preserved (Step pallas) (fun state label => Conforming state label ∧
      Fits state label) (Agrees pallas) := by
    rintro state label next agrees ⟨conforming, fits⟩ step
    exact Step.agrees step conforming fits agrees
  have initial : Agrees pallas (State.initial now port) := by
    refine ⟨Nat.le_refl _, rfl, ?_⟩
    intro tx member
    cases member
  exact (run.invariant preserved initial fun transition member =>
    ⟨conforming transition member, fits transition member⟩).synchronized

/-- A blocking request which acknowledges nothing is announced two transactions. -/
theorem synchronized_of_fits_sample :
    ∃ (trace : List (Transition State Label)) (final : State),
      Run (Step samplePallas) (State.initial 0 samplePort) trace final ∧
        Synchronized samplePallas final ∧ final.outstanding.length = 2 := by
  have answered : ((State.initial 0 samplePort).handle samplePallas (.txIds 0 2)).toOption.map
      (fun result => (result.1.outstanding.length, result.2.announces.length)) = some (2, 2) := by
    decide +kernel
  obtain ⟨final, reply, step, seen⟩ := step_of_view answered
  obtain ⟨outstanding, announces⟩ := Prod.mk.inj seen
  have run := Run.cons step .nil
  refine ⟨_, final, run, synchronized_of_fits 0 samplePort run ?_ ?_, outstanding⟩
  · rw [guarded_cons]
    exact ⟨Nat.zero_le _, guarded_nil _⟩
  · rw [guarded_cons]
    refine ⟨?_, guarded_nil _⟩
    change 0 - 0 + reply.announces.length ≤ cap
    simp only at announces
    rw [announces]
    decide

/-- One transaction more than the mempool holds. -/
def sampleOverflow : List Arrival :=
  (List.range 101).map fun index => ⟨0, .message [UInt8.ofNat index]⟩

/-- A conforming server asks for more ids than the mempool holds; the first transaction is
dropped while its id is outstanding. -/
theorem not_synchronized_of_overflow :
    ∃ (trace : List (Transition State Label)) (final : State),
      Run (Step samplePallas) (State.initial 0 sampleOverflow) trace final ∧
        Guarded Conforming trace ∧ ¬ Synchronized samplePallas final := by
  have answered : ((State.initial 0 sampleOverflow).handle samplePallas
      (.txIds 0 101)).toOption.map (fun result =>
        (result.1.mempool.inflight.length, result.1.outstanding.length)) = some (100, 101) := by
    decide +kernel
  obtain ⟨final, reply, step, seen⟩ := step_of_view answered
  obtain ⟨inflight, outstanding⟩ := Prod.mk.inj seen
  refine ⟨_, final, .cons step .nil, ?_, fun synchronized => ?_⟩
  · rw [guarded_cons]
    exact ⟨Nat.zero_le _, guarded_nil _⟩
  · have same := congrArg List.length synchronized.inflight
    simp only at inflight outstanding
    rw [List.length_map, inflight, outstanding] at same
    cases same

end Boros.Network
