import Boros.Ledger.Verdict
import Boros.Pipeline.Execute
import Boros.Pipeline.System
import Boros.Server.Sequential

/-!
# Failing calls to the U5C server

`fetch_tip`, `fetch_pparams` and `fetch_utxos` can fail wherever `validate_tx` and `evaluate_tx`
make them. `execute` then marks the transaction as failed for good, and `submit_tx` leaves it out
of its response, where the other calls of both make them return an error. `fair_iff` says for
which answers of the server a transaction is treated fairly.
-/

namespace Boros.Pipeline.Ingest

open Boros.Data Boros.Semantics Boros.Storage Boros.Ledger Boros.Queue

variable {pallas : Pallas}

/-- `validate_tx` is called for this transaction. -/
def Asked (stage : Stage) (replies : Replies pallas) (tx : Transaction)
    (metx : pallas.MultiEraTx) : Prop :=
  ∃ clone, signed stage replies tx = .ok clone ∧ pallas.decode clone.raw = some metx

/-- Wherever a pending transaction stands in a unit, it is marked as failed only if it was
rejected; and if a fetch made for it fails, its record stays as it is and the unit is to be
executed again. -/
structure Fair (stage : Stage) (replies : Replies pallas) (tx : Transaction) : Prop where
  failed : ∀ (first : List (Transaction × Calls pallas)) (calls : Calls pallas)
    (output middle : Output), calls.replies = replies →
    execute stage first output = (middle, .ok ()) → middle.db.HasStatus tx.id .pending →
      (execute stage (first ++ [(tx, calls)]) output).1.db.HasStatus tx.id .failed →
        ∃ metx, Asked stage replies tx metx ∧ Rejected replies.validation replies.evaluation metx
  retried : ∀ (first second : List (Transaction × Calls pallas)) (calls : Calls pallas)
    (output middle : Output) (metx : pallas.MultiEraTx), calls.replies = replies →
    execute stage first output = (middle, .ok ()) → middle.db.HasStatus tx.id .pending →
      Asked stage replies tx metx →
      FetchFails replies.validation replies.evaluation metx →
        execute stage (first ++ (tx, calls) :: second) output = (middle, .error (.error .retry))

variable {stage : Stage} {replies : Replies pallas} {calls : Calls pallas} {tx : Transaction}
  {metx other : pallas.MultiEraTx} {output : Output}

theorem Asked.unique (first : Asked stage replies tx metx) (second : Asked stage replies tx other) :
    metx = other := by
  obtain ⟨clone, signature, decoded⟩ := first
  obtain ⟨same, signature', decoded'⟩ := second
  rw [signature] at signature'
  cases signature'
  rw [decoded] at decoded'
  exact Option.some.inj decoded'

/-- A storage call which leaves a record with a new status has stored it. -/
theorem Output.status_of_update {stored : Bool} {result : Transaction} {status : TransactionStatus}
    (pending : output.db.HasStatus result.id .pending) (changed : status ≠ .pending)
    (holds : (output.update stored result).1.db.HasStatus result.id status) :
    result.status = status := by
  cases stored with
  | true => exact (Output.hasStatus_update_self pending).unique holds
  | false => exact absurd (holds.unique pending) changed

/-- An iteration which marks a pending transaction as failed has found it to be invalid. -/
theorem invalid_of_failed (pending : output.db.HasStatus tx.id .pending)
    (failed : (executeOne stage calls tx output).1.db.HasStatus tx.id .failed) :
    ∃ metx, Asked stage calls.replies tx metx ∧
      isValid calls.replies.validation calls.replies.evaluation metx = .ok false := by
  have distinct : TransactionStatus.failed ≠ .pending := by decide
  unfold executeOne at failed
  split at failed
  · exact absurd (failed.unique pending) distinct
  · rename_i result examined
    obtain ⟨clone, metx, signature, decoded, invalid, _⟩ := examine_ok_iff.mp examined
    exact ⟨metx, ⟨clone, signature, decoded⟩, invalid⟩
  · rename_i result examined
    rw [← id_of_examine examined] at pending failed
    split at failed
    · split at failed
      · exact absurd (failed.unique pending) distinct
      · rename_i tip _
        let sent : Transaction := { result with status := .inFlight, slot := some tip.1 }
        have waiting : (output.send result).db.HasStatus sent.id .pending := pending
        have status : sent.status = .failed := Output.status_of_update waiting distinct failed
        cases status
    · exact absurd (failed.unique pending) distinct

/-- The iteration marks the transaction as failed if it is found to be invalid. -/
theorem executeOne_of_invalid {clone : Transaction}
    (signature : signed stage calls.replies tx = .ok clone)
    (decoded : pallas.decode clone.raw = some metx)
    (invalid : isValid calls.replies.validation calls.replies.evaluation metx = .ok false) :
    executeOne stage calls tx output =
      output.update calls.stored { clone with status := .failed } := by
  have examined : examine stage calls.replies tx = .ok ({ clone with status := .failed }, false) :=
    examine_ok_iff.mpr ⟨clone, metx, signature, decoded, invalid, rfl⟩
  simp only [executeOne, examined]

/-- An invalid transaction is marked as failed, if the storage call succeeds. -/
theorem hasStatus_failed_of_invalid {clone : Transaction}
    (pending : output.db.HasStatus tx.id .pending) (stored : calls.stored = true)
    (signature : signed stage calls.replies tx = .ok clone)
    (decoded : pallas.decode clone.raw = some metx)
    (invalid : isValid calls.replies.validation calls.replies.evaluation metx = .ok false) :
    (executeOne stage calls tx output).1.db.HasStatus tx.id .failed := by
  have sameId : clone.id = tx.id := by
    obtain ⟨raw, rfl⟩ := signed_ok signature
    rfl
  let failed : Transaction := { clone with status := .failed }
  have held : output.db.HasStatus failed.id .pending := by
    rw [← sameId] at pending
    exact pending
  rw [executeOne_of_invalid signature decoded invalid, stored, ← sameId]
  exact Output.hasStatus_update_self held

/-- One more transaction is executed after the others. -/
theorem execute_concat {first : List (Transaction × Calls pallas)} {middle : Output}
    (before : execute stage first output = (middle, .ok ())) :
    execute stage (first ++ [(tx, calls)]) output = executeOne stage calls tx middle := by
  rw [execute_append, before]
  simp only [execute]
  split <;> simp_all

/-- A transaction is treated fairly exactly if its fetches succeed and what they return
decodes. -/
theorem fair_iff :
    Fair stage replies tx ↔ ∀ metx, Asked stage replies tx metx →
      Answered replies.validation replies.evaluation metx := by
  constructor
  · intro fair metx asked
    by_contra unanswered
    obtain ⟨invalid, accepted⟩ := invalid_of_not_answered unanswered
    obtain ⟨clone, signature, decoded⟩ := id asked
    let calls : Calls pallas := ⟨replies, false, none, true⟩
    let output : Output := ⟨pendingDb tx, []⟩
    have marked : (execute stage ([] ++ [(tx, calls)]) output).1.db.HasStatus tx.id .failed := by
      rw [execute_concat rfl]
      exact hasStatus_failed_of_invalid (pendingDb_hasStatus tx) rfl signature decoded invalid
    obtain ⟨other, askedOther, rejects⟩ :=
      fair.failed [] calls output output rfl rfl (pendingDb_hasStatus tx) marked
    rw [← asked.unique askedOther] at rejects
    exact accepted rejects
  · intro answered
    constructor
    · intro first calls output middle same before pending failed
      subst same
      rw [execute_concat before] at failed
      obtain ⟨metx, asked, invalid⟩ := invalid_of_failed pending failed
      exact ⟨metx, asked, rejected_of_answered (answered metx asked) invalid⟩
    · intro first second calls output middle metx same before pending asked fails
      exact absurd fails (answered metx asked).1

/-! ## Runs of the pipeline -/

theorem proceed_ne_update {unit rest unit' rest' : List Transaction} :
    proceed unit rest ≠ .awaiting unit' tx rest' .update := by
  cases rest <;> simp [proceed]

/-- What a step of ingest does before it stores a transaction as failed: it has just examined
it. -/
theorem Step.invalid_of_awaiting {profile : Profile} {before after : State}
    {label : Label pallas} {unit rest : List Transaction}
    (step : Step profile stage before label after)
    (waiting : after.worker = .awaiting unit tx rest .update) (failed : tx.status = .failed) :
    ∃ replies asked metx, label = .examine replies ∧
      before.worker = .awaiting unit asked rest .examine ∧ asked.id = tx.id ∧
      Asked stage replies asked metx ∧
      isValid replies.validation replies.evaluation metx = .ok false := by
  cases step with
  | @schedule db _ _ queuedLen quotaOrder scheduled =>
      subst scheduled
      rcases schedule_cases profile stage quotaOrder db queuedLen with
        same | ⟨fault, same⟩ | ⟨currentCap, limits, _, same⟩ <;>
      · rw [same] at waiting
        cases waiting
  | select limitOrder selected =>
      subst selected
      simp only [afterSelect] at waiting
      split at waiting
      · exact absurd waiting proceed_ne_update
      · cases waiting
  | @examine _ _ unit' asked rest' _ replies examined =>
      subst examined
      cases result : Ingest.examine stage replies asked with
      | error abort =>
          rw [result] at waiting
          cases abort with
          | error cause => cases cause <;> cases waiting
          | panic fault => cases waiting
      | ok verdict =>
          obtain ⟨marked, valid⟩ := verdict
          rw [result] at waiting
          cases valid with
          | true => cases waiting
          | false =>
              obtain ⟨clone, metx, signature, decoded, invalid, same⟩ := examine_ok_iff.mp result
              cases waiting
              obtain ⟨raw, rfl⟩ := signed_ok signature
              exact ⟨replies, asked, metx, rfl, rfl, (congrArg Transaction.id same).symm,
                ⟨_, signature, decoded⟩, invalid⟩
  | fetchTip tip =>
      cases waiting
      cases failed
  | sendFail => exact absurd waiting proceed_ne_update
  | update => exact absurd waiting proceed_ne_update
  | rerun => exact absurd waiting proceed_ne_update
  | selectFail | send | fetchTipFail | updateFail | restart => cases waiting

/-- A transaction which is about to be stored as failed was found to be invalid earlier in the
run, whatever the other stages did in between. -/
theorem invalid_of_awaiting {setup : Setup} {state final : Pipeline.State}
    {trace : List (Transition Pipeline.State (Pipeline.Label pallas))}
    {unit rest : List Transaction}
    (run : Run (Pipeline.Step setup) state trace final)
    (waiting : final.ingest = .awaiting unit tx rest .update) (failed : tx.status = .failed) :
    state.ingest = .awaiting unit tx rest .update ∨
      ∃ transition ∈ trace, ∃ replies asked metx,
        transition.label = .ingest (.examine replies) ∧
        transition.before.ingest = .awaiting unit asked rest .examine ∧ asked.id = tx.id ∧
        Asked setup.ingest replies asked metx ∧
        isValid replies.validation replies.evaluation metx = .ok false := by
  induction run with
  | nil => exact .inl waiting
  | cons step run ih =>
      rcases ih waiting with here | ⟨transition, member, found⟩
      · cases step with
        | create => exact .inl here
        | monitor => exact .inl here
        | ingest step =>
            obtain ⟨replies, asked, metx, rfl, held, found⟩ := step.invalid_of_awaiting here failed
            exact .inr ⟨_, List.mem_cons_self, replies, asked, metx, rfl, held, found⟩
      · exact .inr ⟨transition, List.mem_cons_of_mem _ member, found⟩

/-- Every fetch made for the transaction which is examined succeeds, and what is fetched for it
decodes. -/
def AnsweredStep (setup : Setup) : Pipeline.State → Pipeline.Label pallas → Prop
  | ⟨_, _, .awaiting _ tx _ .examine, _⟩, .ingest (.examine replies) =>
    ∀ metx, Asked setup.ingest replies tx metx →
      Answered replies.validation replies.evaluation metx
  | _, _ => True

/-- In a run without failing fetches, only a rejected transaction is stored as failed. -/
theorem rejected_of_awaiting {setup : Setup} {db : Db} {final : Pipeline.State}
    {trace : List (Transition Pipeline.State (Pipeline.Label pallas))}
    {unit rest : List Transaction}
    (run : Run (Pipeline.Step setup) (.initial db) trace final)
    (answered : Guarded (AnsweredStep setup) trace)
    (waiting : final.ingest = .awaiting unit tx rest .update) (failed : tx.status = .failed) :
    ∃ transition ∈ trace, ∃ replies asked metx,
      transition.label = .ingest (.examine replies) ∧ asked.id = tx.id ∧
        Asked setup.ingest replies asked metx ∧
        Rejected replies.validation replies.evaluation metx := by
  rcases invalid_of_awaiting run waiting failed with starting | found
  · cases starting
  · obtain ⟨⟨⟨db, sent, worker, monitor⟩, label, after⟩, member, replies, asked, metx, rfl, rfl,
      sameId, called, invalid⟩ := found
    have guard := answered _ member metx called
    exact ⟨_, member, replies, asked, metx, rfl, sameId, called, rejected_of_answered guard invalid⟩

end Boros.Pipeline.Ingest

namespace Boros.Server.Submit

open Boros.Data Boros.Semantics Boros.Storage Boros.Ledger Boros.Queue Boros.Queue.Chaining

variable {pallas : Pallas}

/-- `validate_tx` is called for this transaction. -/
def Asked (queues : Configs) (item : TxRequest) (metx : pallas.MultiEraTx) : Prop :=
  pallas.decode item.raw = some metx ∧ shouldValidate queues item.queue = true

/-- Wherever a transaction stands in a message that is answered with hashes, its hash is among
them unless it was rejected, and no fetch made for it failed. -/
structure Fair (queues : Configs) (answers : Answers pallas) (item : TxRequest) : Prop where
  omitted : ∀ (first second : List TxRequest) (all : Nat → Answers pallas) (now : Nat) (db : Db)
    (locks : Locks) (hashes : List Hash32) (metx : pallas.MultiEraTx),
    all first.length = answers →
    (submitTx queues all now db locks (first ++ item :: second)).1 = .answered (.ok hashes) →
      pallas.decode item.raw = some metx → pallas.hash metx ∉ hashes →
        Asked queues item metx ∧ Rejected answers.validation answers.evaluation metx
  fails : ∀ (first second : List TxRequest) (all : Nat → Answers pallas) (now : Nat) (db : Db)
    (locks : Locks) (metx : pallas.MultiEraTx),
    all first.length = answers → Asked queues item metx →
      FetchFails answers.validation answers.evaluation metx → ∀ hashes,
        (submitTx queues all now db locks (first ++ item :: second)).1 ≠ .answered (.ok hashes)

variable {queues : Configs} {answers : Answers pallas} {item : TxRequest} {now index : Nat}
  {metx : pallas.MultiEraTx}

/-- A transaction is left out exactly if it counts as invalid. -/
theorem judge_eq_drop_iff (decoded : pallas.decode item.raw = some metx) :
    judge queues answers now index item = .drop ↔
      shouldValidate queues item.queue = true ∧
        isValid answers.validation answers.evaluation metx = .ok false := by
  simp only [judge, decoded]
  by_cases validated : shouldValidate queues item.queue = true
  · simp only [if_pos validated]
    cases isValid answers.validation answers.evaluation metx with
    | error fault => simp
    | ok valid =>
        cases valid with
        | false => simp [validated]
        | true =>
            cases item.queue with
            | none => simp
            | some queue => by_cases chained : isChainedQueue queues queue = true <;> simp [chained]
  · rw [iff_false_right fun both => validated both.1]
    simp only [if_neg validated]
    cases item.queue with
    | none => simp
    | some queue => by_cases chained : isChainedQueue queues queue = true <;> simp [chained]

/-- A transaction is treated fairly exactly if it is not validated, or its fetches succeed and
what they return decodes. -/
theorem fair_iff :
    Fair queues answers item ↔ ∀ metx, Asked queues item metx →
      Answered answers.validation answers.evaluation metx := by
  constructor
  · intro fair metx asked
    by_contra unanswered
    obtain ⟨invalid, accepted⟩ := invalid_of_not_answered unanswered
    have dropped : judge queues answers 0 0 item = .drop :=
      (judge_eq_drop_iff asked.1).mpr ⟨asked.2, invalid⟩
    have answered : (submitTx queues (fun _ => answers) 0 Db.empty .new ([] ++ item :: [])).1 =
        .answered (.ok []) := submitTx_of_drop .empty dropped
    obtain ⟨_, rejects⟩ := fair.omitted [] [] (fun _ => answers) 0 Db.empty .new [] metx rfl
      answered asked.1 List.not_mem_nil
    exact accepted rejects
  · intro answered
    constructor
    · intro first second all now db locks hashes metx same ended decoded absent
      subst same
      rcases hash_mem_of_submitTx_ok ended decoded with dropped | member
      · obtain ⟨validated, invalid⟩ := (judge_eq_drop_iff decoded).mp dropped
        have asked : Asked queues item metx := ⟨decoded, validated⟩
        exact ⟨asked, rejected_of_answered (answered metx asked) invalid⟩
      · exact absurd member absent
    · intro first second all now db locks metx same asked fails
      exact absurd fails (answered metx asked).1

/-- Whatever the calls to the U5C server come to, `execute` and `submit_tx` treat a transaction
fairly exactly if every fetch made for it succeeds and the outputs fetched for it decode. -/
theorem fair_iff_answered :
    (∀ (stage : Pipeline.Ingest.Stage) (replies : Pipeline.Ingest.Replies pallas)
      (tx : Transaction), Pipeline.Ingest.Fair stage replies tx ↔
        ∀ metx, Pipeline.Ingest.Asked stage replies tx metx →
          Answered replies.validation replies.evaluation metx) ∧
    ∀ (queues : Configs) (answers : Answers pallas) (item : TxRequest),
      Fair queues answers item ↔ ∀ metx, Asked queues item metx →
        Answered answers.validation answers.evaluation metx :=
  ⟨fun _ _ _ => Pipeline.Ingest.fair_iff, fun _ _ _ => fair_iff⟩

/-- A server which cannot be reached. -/
def unreachable : U5cDataAdapter samplePallas where
  fetchTip := .error (.error "unavailable")
  fetchPparams _ := .error (.error "unavailable")
  fetchUtxos _ _ := .error (.error "unavailable")

/-- A valid transaction is marked as failed by `execute`, and left out by `submit_tx`, when the
server cannot be reached. -/
theorem not_fair_of_unreachable :
    Pipeline.Ingest.execute Pipeline.sampleSetup.ingest
        [(Pipeline.sampleTx 1 1,
          { Pipeline.Ingest.sampleCalls with replies := ⟨.ok, unreachable, unreachable⟩ })]
        ⟨Pipeline.sampleDb, []⟩ =
      (⟨Pipeline.sampleDb.update { Pipeline.sampleTx 1 1 with status := .failed }, []⟩, .ok ()) ∧
    (submitTx Pipeline.sampleSetup.ingest.queues (fun _ => ⟨unreachable, unreachable⟩) 0 .empty .new
        [⟨[1], none, none⟩]).1 = .answered (.ok []) ∧
    FetchFails unreachable unreachable (1 : UInt8) ∧
    ¬ Rejected unreachable unreachable (1 : UInt8) ∧
    ¬ Pipeline.Ingest.Fair Pipeline.sampleSetup.ingest ⟨.ok, unreachable, unreachable⟩
      (Pipeline.sampleTx 1 1) ∧
    ¬ Fair Pipeline.sampleSetup.ingest.queues ⟨unreachable, unreachable⟩ ⟨[1], none, none⟩ := by
  have fails : FetchFails unreachable unreachable (1 : UInt8) := .validation (.tip rfl)
  refine ⟨by decide +kernel, by decide +kernel, fails, fun rejects => rejects.not_fetchFails fails,
    fun fair => ?_, fun fair => ?_⟩
  · exact (Pipeline.Ingest.fair_iff.mp fair (1 : UInt8) ⟨Pipeline.sampleTx 1 1, rfl, rfl⟩).1 fails
  · exact (fair_iff.mp fair (1 : UInt8) ⟨rfl, rfl⟩).1 fails

end Boros.Server.Submit
