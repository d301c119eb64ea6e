import Boros.Pipeline.Ingest

/-!
# One execution of a unit

`Worker::execute` of `src/pipeline/ingest.rs` as one sequential computation over the
store and the output port, given what each call comes to. `reaches_execute` says that
it is a run of the stage which nothing interrupts.
-/

namespace Boros.Pipeline.Ingest

open Boros.Data Boros.Semantics Boros.Storage Boros.Ledger Boros.Queue

/-- What the calls made for one transaction come to, each of them if it is made. -/
structure Calls (pallas : Pallas) where
  replies : Replies pallas
  /-- `output.send` succeeds. -/
  delivered : Bool
  /-- `fetch_tip` after the broadcast. -/
  tip : Option Point
  /-- `storage.update` succeeds. -/
  stored : Bool

/-- What `execute` works on: the store, and the transactions sent with their bytes. -/
structure Output where
  db : Db
  sent : List (String × Bytes)
deriving DecidableEq

/-- `storage.update(&tx).await.or_retry()`. -/
def Output.update (output : Output) (stored : Bool) (tx : Transaction) :
    Output × Except (Abort WorkerError) Unit :=
  if stored then ({ output with db := output.db.update tx }, .ok ())
  else (output, .error (.error .retry))

/-- `output.send(message)`, which succeeds. -/
def Output.send (output : Output) (tx : Transaction) : Output :=
  { output with sent := output.sent ++ [(tx.id, tx.raw)] }

variable {pallas : Pallas}

/-- One iteration of the loop of `execute`. -/
def executeOne (stage : Stage) (calls : Calls pallas) (tx : Transaction) (output : Output) :
    Output × Except (Abort WorkerError) Unit :=
  match examine stage calls.replies tx with
  | .error abort => (output, .error abort)
  | .ok (tx, false) => output.update calls.stored tx
  | .ok (tx, true) =>
    if calls.delivered then
      match calls.tip with
      | none => (output.send tx, .error (.error .retry))
      | some tip =>
        (output.send tx).update calls.stored { tx with status := .inFlight, slot := some tip.1 }
    else (output, .ok ())

/-- `Worker::execute`, with the calls made for each transaction of the unit. -/
def execute (stage : Stage) : List (Transaction × Calls pallas) → Output →
    Output × Except (Abort WorkerError) Unit
  | [], output => (output, .ok ())
  | (tx, calls) :: rest, output =>
    match executeOne stage calls tx output with
    | (output, .ok ()) => execute stage rest output
    | (output, .error abort) => (output, .error abort)

/-- The worker once an iteration, or `execute` itself, has ended. -/
def afterExecute (unit : List Transaction) (next : Worker) :
    Except (Abort WorkerError) Unit → Worker
  | .ok () => next
  | .error (.error .retry) => .retrying unit
  | .error (.error cause) => .stopped cause
  | .error (.panic fault) => .panicked fault

/-- A step of an execution in which `output.send` comes to this. -/
def Label.during (delivered : Bool) : Label pallas → Prop
  | .schedule _ _ | .select _ | .rerun | .restart => False
  | .send outcome => outcome = delivered
  | _ => True

variable {profile : Profile} {stage : Stage} {calls : Calls pallas}
  {unit rest : List Transaction} {tx : Transaction} {output : Output}

/-- The storage call at the end of an iteration. -/
theorem reaches_update (profile : Profile) (stage : Stage) (delivered stored : Bool)
    (unit rest : List Transaction) (tx : Transaction) (output : Output) :
    Reaches (Step profile stage : State → Label pallas → State → Prop)
      (fun _ label => label.during delivered)
      ⟨output.db, output.sent, .awaiting unit tx rest .update⟩
      ⟨(output.update stored tx).1.db, (output.update stored tx).1.sent,
        afterExecute unit (proceed unit rest) (output.update stored tx).2⟩ := by
  cases stored with
  | true => exact .cons .update trivial (.refl _ _)
  | false => exact .cons .updateFail trivial (.refl _ _)

/-- One iteration is a run from the examination of its transaction to the next one. -/
theorem reaches_executeOne (profile : Profile) (stage : Stage) (calls : Calls pallas)
    (unit rest : List Transaction) (tx : Transaction) (output : Output) :
    Reaches (Step profile stage : State → Label pallas → State → Prop)
      (fun _ label => label.during calls.delivered)
      ⟨output.db, output.sent, .awaiting unit tx rest .examine⟩
      ⟨(executeOne stage calls tx output).1.db, (executeOne stage calls tx output).1.sent,
        afterExecute unit (proceed unit rest) (executeOne stage calls tx output).2⟩ := by
  unfold executeOne
  split
  · rename_i abort examined
    refine .cons (.examine calls.replies rfl) trivial ?_
    rw [examined]
    cases abort with
    | error cause => cases cause <;> exact .refl _ _
    | panic fault => exact .refl _ _
  · rename_i failed examined
    refine .cons (.examine calls.replies rfl) trivial ?_
    rw [examined]
    exact reaches_update profile stage calls.delivered calls.stored unit rest failed output
  · rename_i valid examined
    refine .cons (.examine calls.replies rfl) trivial ?_
    rw [examined]
    by_cases delivered : calls.delivered = true
    · rw [if_pos delivered]
      refine .cons .send delivered.symm ?_
      split
      · exact .cons .fetchTipFail trivial (.refl _ _)
      · rename_i tip _
        exact .cons (.fetchTip tip) trivial (reaches_update profile stage calls.delivered
          calls.stored unit rest _ (output.send valid))
    · rw [if_neg delivered]
      exact .cons .sendFail (Bool.eq_false_iff.mpr delivered).symm (.refl _ _)

/-- An execution is a run from its first transaction to its end, whose broadcasts come
to what the calls say. -/
theorem reaches_execute (profile : Profile) (stage : Stage) (unit : List Transaction)
    (entries : List (Transaction × Calls pallas)) (output : Output) :
    Reaches (Step profile stage : State → Label pallas → State → Prop)
      (fun _ label => ∃ entry ∈ entries, label.during entry.2.delivered)
      ⟨output.db, output.sent, proceed unit (entries.map Prod.fst)⟩
      ⟨(execute stage entries output).1.db, (execute stage entries output).1.sent,
        afterExecute unit .schedule (execute stage entries output).2⟩ := by
  induction entries generalizing output with
  | nil => exact .refl _ _
  | cons entry rest ih =>
      obtain ⟨tx, calls⟩ := entry
      have one := reaches_executeOne profile stage calls unit (rest.map Prod.fst) tx output
      have here : ∀ (state : State) (label : Label pallas), label.during calls.delivered →
          ∃ entry ∈ (tx, calls) :: rest, label.during entry.2.delivered :=
        fun _ _ during => ⟨_, List.mem_cons_self, during⟩
      cases iteration : executeOne stage calls tx output with
      | mk after result =>
          rw [iteration] at one
          simp only [execute, iteration]
          cases result with
          | error abort =>
              cases abort with
              | error cause => cases cause <;> exact one.mono here
              | panic fault => exact one.mono here
          | ok value =>
              refine (one.mono here).trans ((ih after).mono ?_)
              rintro _ _ ⟨entry, member, during⟩
              exact ⟨entry, List.mem_cons_of_mem _ member, during⟩

/-- Units are executed one part after the other. -/
theorem execute_append (first second : List (Transaction × Calls pallas)) (output : Output) :
    execute stage (first ++ second) output =
      match execute stage first output with
      | (middle, .ok ()) => execute stage second middle
      | (middle, .error abort) => (middle, .error abort) := by
  induction first generalizing output with
  | nil => rfl
  | cons entry rest ih =>
      obtain ⟨tx, calls⟩ := entry
      rw [List.cons_append, execute, execute]
      cases iteration : executeOne stage calls tx output with
      | mk after result =>
          cases result with
          | error abort => rfl
          | ok value => exact ih after

/-- The storage call at the end of an iteration changes one record at most. -/
theorem Output.hasStatus_update {stored : Bool} {result : Transaction} {id : String}
    {status : TransactionStatus} (apart : id ≠ result.id) :
    (output.update stored result).1.db.HasStatus id status ↔ output.db.HasStatus id status := by
  cases stored with
  | true => exact Db.hasStatus_update_of_ne apart
  | false => exact Iff.rfl

/-- A storage call which succeeds stores the status of its record. -/
theorem Output.hasStatus_update_self {result : Transaction} {before : TransactionStatus}
    (held : output.db.HasStatus result.id before) :
    (output.update true result).1.db.HasStatus result.id result.status := by
  obtain ⟨row, found, _⟩ := held
  exact Db.hasStatus_update_self ⟨row, found⟩

/-- An examination keeps the id. -/
theorem id_of_examine {replies : Replies pallas} {result : Transaction} {valid : Bool}
    (examined : examine stage replies tx = .ok (result, valid)) : result.id = tx.id := by
  obtain ⟨raw, rfl⟩ := examine_ok examined
  rfl

/-- An iteration leaves the status of every other transaction alone. -/
theorem hasStatus_executeOne {id : String} {status : TransactionStatus} (apart : id ≠ tx.id) :
    (executeOne stage calls tx output).1.db.HasStatus id status ↔
      output.db.HasStatus id status := by
  unfold executeOne
  split
  · exact Iff.rfl
  · rename_i failed examined
    rw [← id_of_examine examined] at apart
    exact Output.hasStatus_update apart
  · rename_i valid examined
    rw [← id_of_examine examined] at apart
    split
    · split
      · exact Iff.rfl
      · rename_i tip _
        have same : (output.send valid).db = output.db := rfl
        rw [← same]
        exact Output.hasStatus_update apart
    · exact Iff.rfl

/-- An execution leaves the status of every transaction alone which is not in the unit. -/
theorem hasStatus_execute {entries : List (Transaction × Calls pallas)} {id : String}
    {status : TransactionStatus} (apart : id ∉ entries.map fun entry => entry.1.id) :
    (execute stage entries output).1.db.HasStatus id status ↔ output.db.HasStatus id status := by
  induction entries generalizing output with
  | nil => exact Iff.rfl
  | cons entry rest ih =>
      obtain ⟨tx, calls⟩ := entry
      rw [List.map_cons, List.mem_cons, not_or] at apart
      have one : (executeOne stage calls tx output).1.db.HasStatus id status ↔
          output.db.HasStatus id status := hasStatus_executeOne apart.1
      simp only [execute]
      split
      · rename_i after iteration
        rw [iteration] at one
        exact (ih apart.2).trans one
      · rename_i after abort iteration
        rw [iteration] at one
        exact one

/-- A unit all of whose transactions are valid, delivered and stored is sent as a whole. -/
theorem execute_delivered (entries : List (Transaction × Calls pallas)) (output : Output)
    (all : ∀ entry ∈ entries, (∃ tx, examine stage entry.2.replies entry.1 = .ok (tx, true)) ∧
      entry.2.delivered ∧ (∃ tip, entry.2.tip = some tip) ∧ entry.2.stored) :
    (execute stage entries output).2 = .ok () ∧
      (execute stage entries output).1.sent.length = output.sent.length + entries.length := by
  induction entries generalizing output with
  | nil => exact ⟨rfl, rfl⟩
  | cons entry rest ih =>
      obtain ⟨tx, calls⟩ := entry
      rw [List.forall_mem_cons] at all
      obtain ⟨⟨⟨valid, examined⟩, delivered, ⟨tip, fetched⟩, stored⟩, others⟩ := all
      simp only at examined delivered fetched stored
      have iteration : executeOne stage calls tx output =
          (⟨output.db.update { valid with status := .inFlight, slot := some tip.1 },
            output.sent ++ [(valid.id, valid.raw)]⟩, .ok ()) := by
        simp only [executeOne, examined, if_pos delivered, fetched, Output.update, if_pos stored]
        rfl
      simp only [execute, iteration]
      obtain ⟨finished, length⟩ := ih _ others
      refine ⟨finished, length.trans ?_⟩
      simp only [List.length_append, List.length_cons, List.length_nil]
      omega

/-- A store with nothing but this transaction, pending. -/
def pendingDb (tx : Transaction) : Db :=
  ⟨⟨[.ofTransaction { tx with status := .pending }], by simp⟩, [], none⟩

theorem pendingDb_hasStatus (tx : Transaction) : (pendingDb tx).HasStatus tx.id .pending :=
  ⟨.ofTransaction { tx with status := .pending },
    by simp [pendingDb, Db.row, Table.lookup, TxRow.ofTransaction], rfl⟩

/-- The calls for a transaction which is valid, delivered and stored. -/
def sampleCalls : Calls samplePallas where
  replies := ⟨.ok, sampleAdapter, sampleAdapter⟩
  delivered := true
  tip := some sampleTip
  stored := true

end Boros.Pipeline.Ingest
