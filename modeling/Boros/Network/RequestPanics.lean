import Boros.Network.Outstanding

/-!
# Requests which make the peer's task panic

Nothing that the server on the other side sends is checked before it is used. The number
of ids which it acknowledges is drained from the transactions in flight, and the ids which
it asks for are made into hashes; `drain` and `Hash::from` panic where the number is too
large or an id has another length. `serve_not_panics_iff` says that these are the only
requests which end the task with a panic, in whatever state the earlier requests left it.
-/

namespace Boros.Network

open Boros.Data Boros.Semantics Boros.Ledger

variable (pallas : Pallas)

/-- The loop answers requests, each of which comes in after a wait. -/
def State.serve (state : State) : List (Nat × Request) → Except Stop State
  | [] => .ok state
  | (wait, request) :: rest =>
    match (state.advance wait).handle pallas request with
    | .ok (next, _) => next.serve rest
    | .error stop => .error stop

variable {pallas} {state next : State} {request : Request} {requests : List (Nat × Request)}
  {ack : UInt16} {gathered : Except Stop (Nat × List Bytes × List Arrival)}

/-- The request acknowledges no more transactions than are in flight, and asks for ids which are
hashes. -/
def Answerable (state : State) : Request → Prop
  | .txIds ack _ | .txIdsNonBlocking ack _ => ack.toNat ≤ state.mempool.inflight.length
  | .txs ids => ∀ id ∈ ids, id.2.length = 32

/-- Answering requests is a run of the loop. -/
theorem serve_ok_iff : state.serve pallas requests = .ok next ↔
    ∃ trace, Run (Step pallas) state trace next ∧
      trace.map (fun transition => (transition.label.wait, transition.label.request)) =
        requests := by
  induction requests generalizing state with
  | nil =>
      constructor
      · rintro ⟨⟩
        exact ⟨[], .nil, rfl⟩
      · rintro ⟨trace, run, labels⟩
        rw [List.map_eq_nil_iff] at labels
        subst labels
        cases run
        rfl
  | cons head rest ih =>
      obtain ⟨wait, request⟩ := head
      constructor
      · intro served
        unfold State.serve at served
        split at served
        · rename_i middle reply handled
          obtain ⟨trace, run, rfl⟩ := ih.mp served
          have step : Step pallas state ⟨wait, request, reply⟩ middle := handled
          exact ⟨_, .cons step run, rfl⟩
        · cases served
      · rintro ⟨trace, run, labels⟩
        cases run with
        | nil => cases labels
        | @cons _ label middle trace _ step later =>
            obtain ⟨first, others⟩ := List.cons.inj labels
            obtain ⟨rfl, rfl⟩ := Prod.mk.inj first
            have handled : (state.advance label.wait).handle pallas label.request =
                .ok (middle, label.reply) := step
            rw [State.serve, handled]
            exact ih.mpr ⟨trace, later, others⟩

/-- Collecting transactions does not panic. -/
theorem gather_ne_panic (now req : Nat) (port : List Arrival) (fault : Fault) :
    gather now req port ≠ .error (.panic fault) := by
  unfold gather
  split <;> simp

theorem gatherNonBlocking_ne_panic (now req : Nat) (port : List Arrival) (fault : Fault) :
    gatherNonBlocking now req port ≠ .error (.panic fault) := by
  unfold gatherNonBlocking
  split <;> simp

/-- A request for ids panics exactly if it acknowledges more than is in flight. -/
theorem handleTxIds_panics_iff (collects : ∀ fault, gathered ≠ .error (.panic fault)) :
    (∃ fault, state.handleTxIds pallas ack gathered = .error (.panic fault)) ↔
      ¬ ack.toNat ≤ state.mempool.inflight.length := by
  by_cases enough : ack.toNat ≤ state.mempool.inflight.length
  · obtain ⟨mempool, acknowledged⟩ : ∃ mempool, state.mempool.acknowledge ack.toNat = .ok mempool :=
      ⟨_, Mempool.acknowledge_ok_iff.mpr ⟨enough, rfl⟩⟩
    refine iff_of_false ?_ (not_not_intro enough)
    rintro ⟨fault, panics⟩
    rw [State.handleTxIds, acknowledged] at panics
    cases outcome : gathered with
    | error stop =>
        simp only [outcome, Except.error.injEq] at panics
        exact collects fault (panics ▸ outcome)
    | ok result => simp [outcome] at panics
  · refine iff_of_true ⟨.index, ?_⟩ enough
    rw [State.handleTxIds, Mempool.acknowledge, if_neg enough]

/-- The ids asked for are made into hashes exactly if they all have 32 bytes. -/
theorem fromSlice_mapM_isOk_iff (ids : List EraTxId) :
    (∃ hashes, ids.mapM (fun id => Hash32.fromSlice id.2) = .ok hashes) ↔
      ∀ id ∈ ids, id.2.length = 32 := by
  induction ids with
  | nil => exact iff_of_true ⟨[], rfl⟩ (by simp)
  | cons id rest ih =>
      simp only [List.mapM_cons, except_bind_isOk_iff, List.forall_mem_cons, ← ih]
      constructor
      · rintro ⟨hash, made, hashes, others, _⟩
        refine ⟨?_, hashes, others⟩
        by_contra other
        rw [Hash32.fromSlice, dif_neg other] at made
        cases made
      · rintro ⟨exact, hashes, others⟩
        exact ⟨⟨id.2, exact⟩, dif_pos exact, hashes, others, _, rfl⟩

/-- A request panics exactly if it is not answerable. -/
theorem handle_panics_iff :
    (∃ fault, state.handle pallas request = .error (.panic fault)) ↔
      ¬ Answerable state request := by
  cases request with
  | txIds ack req => exact handleTxIds_panics_iff (gather_ne_panic _ _ _)
  | txIdsNonBlocking ack req => exact handleTxIds_panics_iff (gatherNonBlocking_ne_panic _ _ _)
  | txs ids =>
      rw [Answerable, ← fromSlice_mapM_isOk_iff]
      simp only [State.handle]
      cases ids.mapM fun id => Hash32.fromSlice id.2 <;> simp

/-- Waiting changes nothing that a request needs. -/
theorem answerable_advance (wait : Nat) :
    Answerable (state.advance wait) request ↔ Answerable state request := by
  cases request <;> exact Iff.rfl

/-- No sequence of requests makes the task of a newly connected peer panic exactly if each request
that is reached is answerable in the state which the earlier ones left. -/
theorem serve_not_panics_iff (now : Nat) (port : List Arrival) :
    (∀ fault, (State.initial now port).serve pallas requests ≠ .error (.panic fault)) ↔
      ∀ served wait request rest middle, requests = served ++ (wait, request) :: rest →
        (State.initial now port).serve pallas served = .ok middle → Answerable middle request := by
  generalize State.initial now port = state
  induction requests generalizing state with
  | nil =>
      refine iff_of_true (fun fault panics => by cases panics) ?_
      intro served _ _ _ _ split
      simp at split
  | cons head later ih =>
      obtain ⟨wait, request⟩ := head
      constructor
      · intro quiet served wait' request' rest middle cut reached
        rcases List.cons_eq_append_iff.mp cut with ⟨rfl, first⟩ | ⟨others, rfl, within⟩
        · obtain ⟨same, rfl⟩ := List.cons.inj first
          obtain ⟨rfl, rfl⟩ := Prod.mk.inj same
          cases reached
          by_contra unanswerable
          rw [← answerable_advance wait', ← @handle_panics_iff pallas] at unanswerable
          obtain ⟨fault, panics⟩ := unanswerable
          exact quiet fault (by rw [State.serve, panics])
        · cases handled : (state.advance wait).handle pallas request with
          | error stop =>
              rw [State.serve, handled] at reached
              cases reached
          | ok result =>
              simp only [State.serve, handled] at quiet reached
              exact (ih result.1).mp quiet others wait' request' rest middle within reached
      · intro answerable fault panics
        have here := answerable [] wait request later state rfl rfl
        cases handled : (state.advance wait).handle pallas request with
        | error stop =>
            simp only [State.serve, handled, Except.error.injEq] at panics
            subst panics
            exact handle_panics_iff.mp ⟨fault, handled⟩ ((answerable_advance wait).mpr here)
        | ok result =>
            simp only [State.serve, handled] at panics
            refine (ih result.1).mpr ?_ fault panics
            intro served wait' request' rest middle cut reached
            refine answerable ((wait, request) :: served) wait' request' rest middle ?_ ?_
            · rw [cut]
              rfl
            · simp only [State.serve, handled, reached]

/-- A server which acknowledges outstanding ids does not make a peer panic which is synchronized
with it. -/
theorem answerable_of_conforming {label : Label} (synchronized : Synchronized pallas state)
    (conforming : Conforming state label)
    (hashes : ∀ ids, label.request = .txs ids → ∀ id ∈ ids, id.2.length = 32) :
    Answerable state label.request := by
  have length := congrArg List.length synchronized.inflight
  rw [List.length_map] at length
  rw [Conforming, ← length] at conforming
  cases asked : label.request with
  | txIds ack req =>
      rw [asked] at conforming
      exact conforming
  | txIdsNonBlocking ack req =>
      rw [asked] at conforming
      exact conforming
  | txs ids => exact hashes ids asked

/-- Acknowledging one transaction when none is in flight, and asking for an id of no bytes, each
make the task panic at its first request. -/
theorem serve_panics_of_unanswerable :
    (State.initial 0 []).serve samplePallas [(0, .txIdsNonBlocking 1 1)] =
        .error (.panic .index) ∧
      (State.initial 0 []).serve samplePallas [(0, .txs [(6, [])])] = .error (.panic .index) :=
  ⟨rfl, rfl⟩

end Boros.Network
