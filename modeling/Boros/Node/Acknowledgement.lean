import Boros.Node.Refinement

/-!
# What an answer promises

The store of the node is a log: it has what the calls created, in the order of their creations,
whatever the stages do and however often the process crashes. A client which was answered the
hashes of its transactions can rely on it: each of them is in the log for good.
-/

namespace Boros.Node

open Boros.Data Boros.Semantics Boros.Storage Boros.Ledger Boros.Queue Boros.Server Boros.Pipeline
open Boros.Server.Submit

variable {pallas : Pallas} {setup : Setup} {state next start final : State}
  {label : Label pallas} {trace : List (Transition State (Label pallas))} {now : Nat}

/-! ## The log -/

/-- The records which a step creates. -/
def created (transition : Transition State (Label pallas)) : List Transaction :=
  match transition.label with
  | .server label => Locking.created transition.before.server label
  | _ => []

/-- A step appends what it creates to the log. -/
theorem Step.log (step : Step setup state label next) :
    next.db.log = state.db.log ++ (created ⟨state, label, next⟩).map Transaction.entry := by
  have none : ∀ log : List Entry, log = log ++ [] := fun log => (List.append_nil log).symm
  cases step with
  | server own step => exact step.log own
  | monitor step => exact step.log.trans (none _)
  | restart => exact none _
  | fanout own step =>
      cases step with
      | ingest step answers => exact step.log.trans (none _)
      | store db => exact absurd rfl (own db)
      | peer | subscribe | refuse => exact none _

/-- In every run, crashes included, the store is the log of what was created, each record in its
place and with the queue and the time it was created with, and no id is created twice. -/
theorem log_of_run (run : Run (@Step pallas setup) (State.initial now) trace final) :
    final.db.log = (trace.flatMap created).map Transaction.entry ∧
      ((trace.flatMap created).map Transaction.id).Nodup := by
  have log : final.db.log = (trace.flatMap created).map Transaction.entry := by
    refine run.history (P := fun trace state =>
      state.db.log = (trace.flatMap created).map Transaction.entry) rfl ?_
    intro prior state label next _ log step
    rw [step.log, log, List.flatMap_append, List.map_append, List.flatMap_singleton]
  refine ⟨log, ?_⟩
  have distinct := final.db.log_distinct
  rw [log, List.map_map] at distinct
  exact distinct

/-- The only record of a node which crashed was created once. -/
theorem log_of_run_sample :
    ∃ (trace : List (Transition State (Label samplePallas))) (final : State),
      Run (Step sampleSetup) (State.initial 0) trace final ∧
        final.db.log = (trace.flatMap created).map Transaction.entry ∧
        ((trace.flatMap created).map Transaction.id).Nodup ∧
        final.db.log = [(sampleTx 1 1).entry] := by
  obtain ⟨trace, final, run, _, rows, _⟩ := sampleLife_run
  obtain ⟨log, distinct⟩ := log_of_run run
  refine ⟨trace, final, run, log, distinct, ?_⟩
  rw [Db.log, rows]
  rfl

/-! ## The answers -/

/-- The item was in the message of the call. -/
def Offered (trace : List (Transition State (Label pallas))) (id : Nat) (item : TxRequest) :
    Prop :=
  ∃ transition ∈ trace, ∃ message, transition.label = .server (.submit id message) ∧
    item ∈ message

/-- In every run, at every step, what the calls have in hand was made of items of their messages. -/
theorem callsFrom_of_mem (run : Run (@Step pallas setup) (State.initial now) trace final) :
    Locking.CallsFrom pallas (Offered trace) final.server ∧ ∀ transition ∈ trace,
      Locking.CallsFrom pallas (Offered trace) transition.before.server := by
  have preserved : Preserved (@Step pallas setup)
      (fun _ label => ∀ id message, label = .server (.submit id message) →
        ∀ item ∈ message, Offered trace id item)
      (fun state => Locking.CallsFrom pallas (Offered trace) state.server) :=
    fun _ _ _ calls offered step => step.callsFrom offered calls
  have offered : Guarded (fun _ label => ∀ id message, label = .server (.submit id message) →
      ∀ item ∈ message, Offered trace id item) trace :=
    fun transition member id message submitted item itemMem =>
      ⟨transition, member, message, submitted, itemMem⟩
  exact ⟨run.invariant preserved (callsFrom_initial _ now) offered, fun transition member =>
    (run.invariant_of_mem preserved (callsFrom_initial _ now) offered member).1⟩

/-- Every step keeps what the calls have stored in the log. -/
theorem Step.stored (step : Step setup state label next) (stored : Locking.Stored state.server) :
    Locking.Stored next.server := by
  have grown : state.db.log ⊆ next.db.log := step.log ▸ List.subset_append_left _ _
  cases step with
  | server own step => exact step.stored own stored
  | fanout own step => exact stored.mono rfl grown
  | monitor step => exact stored.mono rfl grown
  | restart =>
      intro id request found
      cases found

theorem stored_of_run (run : Run (@Step pallas setup) (State.initial now) trace final) :
    Locking.Stored final.server := by
  have preserved : Preserved (@Step pallas setup) (fun _ _ => True)
      (fun state => Locking.Stored state.server) := fun _ _ _ stored _ step => step.stored stored
  refine run.invariant preserved ?_ fun _ _ => trivial
  intro id request found
  cases found

/-- The log only grows. -/
theorem log_subset_of_run (run : Run (@Step pallas setup) start trace final) :
    start.db.log ⊆ final.db.log := by
  have preserved : Preserved (@Step pallas setup) (fun _ _ => True)
      (fun state => start.db.log ⊆ state.db.log) := by
    intro state label next grown _ step
    rw [step.log]
    exact fun _ member => List.mem_append_left _ (grown member)
  exact run.invariant preserved (List.Subset.refl _) fun _ _ => trivial

/-- The hash is that of a transaction in the message of the call, whose record is stored, of the
queue it asks for. -/
def Acknowledged (prior : List (Transition State (Label pallas))) (db : Db) (id : Nat)
    (hash : Hash32) : Prop :=
  ∃ item metx row, Offered prior id item ∧ pallas.decode item.raw = some metx ∧
    pallas.hash metx = hash ∧ db.row hash.display = some row ∧ row.queue = Locking.queueOf item

/-- Durability: at every point of every run after a call was answered with hashes, crashes
included, every one of them is acknowledged by the store. -/
theorem acknowledged_of_answer {earlier later : List (Transition State (Label pallas))}
    {answer : Transition State (Label pallas)} {id : Nat} {request : Request}
    {hashes : List Hash32}
    (run : Run (@Step pallas setup) (State.initial now) (earlier ++ answer :: later) final)
    (answers : answer.label = .server (.answer id))
    (found : answer.after.server.requests id = some request)
    (answered : request.phase = .answered (.ok hashes)) :
    ∀ hash ∈ hashes, Acknowledged earlier final.db id hash := by
  intro hash member
  obtain ⟨prior, step, rest⟩ := run.around
  have offered : Locking.CallsFrom pallas (Offered earlier) answer.after.server := by
    refine step.callsFrom (fun other message submitted => ?_) (callsFrom_of_mem prior).1
    rw [answers] at submitted
    cases submitted
  have calls := offered id request found
  have same := calls.phase
  rw [answered] at same
  simp only [Locking.PhaseFrom] at same
  subst same
  obtain ⟨tx, txMem, item, itemOffered, made⟩ :=
    Locking.exists_of_forall₂ (List.Forall₂.flip calls.made) member
  have logged : tx.entry ∈ final.db.log :=
    log_subset_of_run rest (step.stored (stored_of_run prior) id request found
      (by rw [answered]; rfl) tx txMem)
  obtain ⟨row, stored, same⟩ := Db.row_of_mem_log logged
  have queue : row.queue = tx.queue := congrArg Entry.queue same
  have key : tx.id = hash.display := made.id
  have asked : tx.queue = Locking.queueOf item := made.queue
  obtain ⟨metx, _, decoded, hashed, _⟩ := made
  exact ⟨item, metx, row, itemOffered, decoded, hashed.symm, key ▸ stored, queue.trans asked⟩

/-- A call is answered, the process crashes before the transaction is broadcast, and the record
is there. -/
theorem acknowledged_of_answer_sample :
    ∃ (earlier later : List (Transition State (Label samplePallas)))
      (answer : Transition State (Label samplePallas)) (final : State) (hashes : List Hash32),
      Run (Step sampleSetup) (State.initial 0) (earlier ++ answer :: later) final ∧
        hashes.length = 1 ∧ ∀ hash ∈ hashes, Acknowledged earlier final.db 0 hash := by
  have answered : (follow (State.exec sampleSetup) (State.initial 0) (sampleCall 0 1)).map
      (fun state => (state.server.requests 0).map Request.phase) =
        some (some (.answered (.ok [samplePallas.hash (1 : UInt8)]))) := by
    decide +kernel
  obtain ⟨middle, followed, seen⟩ := Option.map_eq_some_iff.mp answered
  obtain ⟨request, found, phase⟩ := Option.map_eq_some_iff.mp seen
  obtain ⟨trace, run, labels⟩ := Run.of_follow (step_of_exec sampleSetup) followed
  obtain ⟨earlier, answer, rfl⟩ : ∃ earlier answer, trace = earlier ++ [answer] := by
    refine ⟨trace.dropLast, trace.getLast ?_, (List.dropLast_append_getLast _).symm⟩
    rintro rfl
    cases labels
  have last : answer.label = .server (.answer 0) := by
    have ends := congrArg List.getLast? labels
    rw [List.map_append, List.map_singleton, List.getLast?_concat] at ends
    exact Option.some.inj ends
  obtain ⟨_, _, done⟩ := run.around
  cases done
  have whole := run.snoc (.restart : Step sampleSetup answer.after .restart answer.after.restart)
  rw [List.append_assoc, List.singleton_append] at whole
  exact ⟨earlier, _, answer, _, _, whole, rfl, acknowledged_of_answer whole last found phase⟩

end Boros.Node
