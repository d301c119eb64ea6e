import Boros.Ledger.Verdict
import Boros.Pipeline.System

/-!
# Where stored bytes come from

Both stages write back whole records which they read some steps earlier, and gasket runs a
unit or an event again with what it holds. `Broadcast` says that what they hold or have stored
as in flight or confirmed was sent with these bytes. Every step keeps it, and so does a crash:
`provenance_of_run` follows for the whole life of the store.
-/

namespace Boros.Pipeline

open Boros.Data Boros.Semantics Boros.Storage Boros.Ledger Boros.Server

/-! ## Monitor -/

namespace Monitor

/-- The records which the monitor worker holds. -/
def Worker.records : Worker → List Transaction
  | .awaiting _ (.updateConfirm txsInflight confirm) => txsInflight ++ confirm
  | .awaiting _ (.updateRetry retry) => retry
  | .awaiting _ (.updateRollback txs) => txs
  | _ => []

/-- A record has the id and the bytes of one of these. -/
def CopyOf (txs : List Transaction) (tx : Transaction) : Prop :=
  ∃ old ∈ txs, tx.id = old.id ∧ tx.raw = old.raw

/-- A record has the id and the bytes of a stored one which is in flight or confirmed. -/
def CopyOfStored (db : Db) (tx : Transaction) : Prop :=
  ∃ row, db.row tx.id = some row ∧ tx.raw = row.raw ∧
    (row.status = .inFlight ∨ row.status = .confirmed)

variable {profile : Profile} {config : Config} {event : Event} {db next : Db}
  {txs : List Tx} {txsInflight confirm found : List Transaction} {tx : Transaction}

theorem afterConfirm_records
    (member : tx ∈ (afterConfirm profile config event txsInflight confirm).records) :
    CopyOf txsInflight tx := by
  unfold afterConfirm at member
  split at member
  · cases member
  · cases member
  · rename_i retry _ retried
    obtain ⟨itx, itxMem, _, rfl⟩ := (mem_txsRetry_iff retried).mp member
    exact ⟨itx, itxMem, rfl, rfl⟩

theorem afterFind_records
    (member : tx ∈ (afterFind profile config event txs txsInflight).records) :
    CopyOf txsInflight tx := by
  unfold afterFind at member
  split at member
  · exact afterConfirm_records member
  · rcases List.mem_append.mp member with itxMem | confirmMem
    · exact ⟨tx, itxMem, rfl, rfl⟩
    · obtain ⟨itx, itxMem, _, rfl⟩ := mem_txsConfirm_iff.mp confirmMem
      exact ⟨itx, itxMem, rfl, rfl⟩

theorem afterFindToRollback_records (member : tx ∈ (afterFindToRollback event found).records) :
    CopyOf found tx := by
  unfold afterFindToRollback at member
  split at member
  · cases member
  · rename_i written mapped
    obtain ⟨old, oldMem, produced⟩ := mem_rollback mapped member
    obtain ⟨_, _, rfl⟩ := rollbackTx_ok_iff.mp produced
    exact ⟨old, oldMem, by split <;> rfl, by split <;> rfl⟩

/-- The worker holds the record which a row was written from. -/
def Worker.Wrote (worker : Worker) (row : TxRow) : Prop :=
  ∃ tx ∈ worker.records, row.id = tx.id ∧ row.raw = tx.raw

theorem rewritten_batch {worker : Worker} {batch : List Transaction}
    (held : batch ⊆ worker.records) : Db.Rewritten worker.Wrote db (db.updateBatch batch) :=
  Db.rewritten_updateBatch fun tx member _ same => ⟨tx, held member, same, rfl⟩

theorem resume_records {await : Await} {after : Worker}
    (resumed : resume profile config event db await = (next, after)) :
    Db.Rewritten (Worker.awaiting event await).Wrote db next ∧
      ∀ tx ∈ after.records,
        CopyOf (Worker.awaiting event await).records tx ∨ CopyOfStored db tx := by
  cases await with
  | find =>
      obtain ⟨rfl, found⟩ := resume_find resumed
      refine ⟨.of_row fun _ => rfl, fun tx member => .inr ?_⟩
      rcases found with rfl | ⟨point, txs, txsInflight, rfl, query, rfl⟩ |
        ⟨slot, hash, found, rfl, query, rfl⟩
      · cases member
      · obtain ⟨itx, itxMem, sameId, sameRaw⟩ := afterFind_records member
        obtain ⟨row, stored, status, decoded⟩ := Db.find_sound query itxMem
        exact ⟨row, sameId ▸ stored, sameRaw.trans (TxRow.fromRow_ok decoded).2.1, .inl status⟩
      · obtain ⟨old, oldMem, sameId, sameRaw⟩ := afterFindToRollback_records member
        obtain ⟨row, stored, selected, decoded⟩ :=
          (Db.findToRollback_selected query).sound old oldMem
        simp only [Bool.and_eq_true, decide_eq_true_eq] at selected
        exact ⟨row, sameId ▸ stored, sameRaw.trans (TxRow.fromRow_ok decoded).2.1,
          .inr selected.1⟩
  | updateConfirm txsInflight confirm =>
      cases resumed
      refine ⟨rewritten_batch (List.subset_append_right _ _), fun tx member => .inl ?_⟩
      obtain ⟨itx, itxMem, same⟩ := afterConfirm_records member
      exact ⟨itx, List.mem_append_left _ itxMem, same⟩
  | updateRetry retry =>
      cases resumed
      exact ⟨rewritten_batch (List.Subset.refl _), by simp [Worker.records]⟩
  | updateRollback txs =>
      cases resumed
      exact ⟨rewritten_batch (List.Subset.refl _), by simp [Worker.records]⟩
  | setCursor =>
      cases resumed
      exact ⟨.of_row fun _ => rfl, by simp [Worker.records]⟩

/-- A step of the monitor writes records which it holds, and comes to hold none but these and
stored ones which are in flight or confirmed. -/
theorem Step.records {worker after : Worker} {label : Label}
    (step : Step profile config (db, worker) label (next, after)) :
    Db.Rewritten worker.Wrote db next ∧
      ∀ tx ∈ after.records, CopyOf worker.records tx ∨ CopyOfStored db tx := by
  cases step with
  | resume resumed => exact resume_records resumed
  | receive | fail | rerun => exact ⟨.of_row fun _ => rfl, by simp [Worker.records]⟩

end Monitor

/-! ## Ingest -/

namespace Ingest

/-- What the ingest worker has in hand was sent, from its broadcast on. -/
def Worker.Sent (sent : List (String × Bytes)) : Worker → Prop
  | .awaiting _ tx _ .fetchTip => (tx.id, tx.raw) ∈ sent
  | .awaiting _ tx _ .update => tx.status = .failed ∨ (tx.id, tx.raw) ∈ sent
  | _ => True

theorem proceed_sent {sent : List (String × Bytes)} (unit rest : List Transaction) :
    (proceed unit rest).Sent sent := by
  cases rest <;> trivial

theorem afterSelect_sent {sent : List (String × Bytes)}
    (selected : Except DbError (List Transaction)) : (afterSelect selected).Sent sent := by
  cases selected with
  | ok transactions => exact proceed_sent _ _
  | error cause => trivial

theorem schedule_sent {sent : List (String × Bytes)} (profile : Profile) (stage : Stage)
    (quotaOrder : Queue.Priority.HashOrder (String × UInt16)) (db : Db) (queuedLen : Nat) :
    (schedule profile stage quotaOrder db queuedLen).Sent sent := by
  rcases schedule_cases profile stage quotaOrder db queuedLen with
    same | ⟨fault, same⟩ | ⟨currentCap, limits, _, same⟩ <;> rw [same] <;> trivial

variable {pallas : Pallas} {profile : Profile} {stage : Stage} {state after : State}
  {label : Label pallas} {replies : Replies pallas} {unit rest : List Transaction}
  {tx : Transaction}

theorem afterExamine_sent {sent : List (String × Bytes)} :
    (afterExamine unit rest (examine stage replies tx)).Sent sent := by
  rcases afterExamine_examine unit rest with
    ⟨raw, same⟩ | ⟨raw, same⟩ | same | ⟨cause, same⟩ | ⟨fault, same⟩ <;> rw [same]
  · trivial
  · exact .inl rfl
  · trivial
  · trivial
  · trivial

/-- A step of ingest writes nothing but the record in hand. -/
theorem Step.db_cases (step : Step profile stage state label after) :
    after.db = state.db ∨ ∃ unit tx rest, label = .update ∧
      state.worker = .awaiting unit tx rest .update ∧ after.db = state.db.update tx := by
  cases step with
  | update => exact .inr ⟨_, _, _, rfl, rfl, rfl⟩
  | _ => exact .inl rfl

/-- A step of ingest sends nothing but the transaction in hand. -/
theorem Step.sent_cases (step : Step profile stage state label after) :
    after.sent = state.sent ∨ ∃ unit tx rest, label = .send true ∧
      state.worker = .awaiting unit tx rest .send ∧
        after.sent = state.sent ++ [(tx.id, tx.raw)] := by
  cases step with
  | send => exact .inr ⟨_, _, _, rfl, rfl, rfl⟩
  | _ => exact .inl rfl

/-- After a step of ingest what it has in hand is as it should be. -/
theorem Step.sent (step : Step profile stage state label after)
    (sent : state.worker.Sent state.sent) : after.worker.Sent after.sent := by
  cases step with
  | schedule queuedLen quotaOrder scheduled =>
      subst scheduled
      exact schedule_sent _ _ _ _ _
  | select limitOrder selected =>
      subst selected
      exact afterSelect_sent _
  | examine replies examined =>
      subst examined
      exact afterExamine_sent
  | send => exact List.mem_append_right _ List.mem_cons_self
  | sendFail | update | rerun => exact proceed_sent _ _
  | fetchTip => exact .inr sent
  | selectFail | fetchTipFail | updateFail | restart => trivial

end Ingest

/-! ## The process -/

namespace Process

/-- What happens to the process. -/
inductive Label (pallas : Pallas) where
  /-- A stage goes on, or a call of `submit_tx` stores its transactions. -/
  | stage (label : Pipeline.Label pallas)
  /-- The process stops anywhere, and is started again. -/
  | restart

/-- One step: only the store survives a crash. -/
inductive Step {pallas : Pallas} (setup : Setup) : State → Label pallas → State → Prop where
  | stage {state label next} (step : Pipeline.Step setup state label next) :
      Step setup state (.stage label) next
  | restart {state : State} :
      Step setup state .restart { state with ingest := .schedule, monitor := .schedule }

end Process

/-- A record which is neither pending nor failed was sent with the bytes it has, in the store,
in the hands of ingest from the broadcast on, and in those of the monitor. -/
structure Broadcast (state : State) : Prop where
  stored : ∀ id row, state.db.row id = some row →
    row.status = .pending ∨ row.status = .failed ∨ (id, row.raw) ∈ state.sent
  ingest : state.ingest.Sent state.sent
  monitor : ∀ tx ∈ state.monitor.records, (tx.id, tx.raw) ∈ state.sent

/-- The bytes of a record in flight or confirmed were sent for it. -/
def StoresSent (state : State) : Prop :=
  ∀ id row, state.db.row id = some row → row.status = .inFlight ∨ row.status = .confirmed →
    (id, row.raw) ∈ state.sent

theorem Broadcast.storesSent {state : State} (broadcast : Broadcast state) : StoresSent state := by
  intro id row found status
  rcases broadcast.stored id row found with pending | failed | sent
  · rw [pending] at status
    rcases status with status | status <;> cases status
  · rw [failed] at status
    rcases status with status | status <;> cases status
  · exact sent

/-- A row which was written from a failed record or from one which was sent. -/
def Settled (sent : List (String × Bytes)) (row : TxRow) : Prop :=
  row.status = .failed ∨ (row.id, row.raw) ∈ sent

theorem broadcast_initial : Broadcast (State.initial Db.empty) where
  stored _ _ found := by cases found
  ingest := trivial
  monitor _ member := by cases member

section Broadcast

variable {pallas : Pallas} {setup : Setup} {state next : State} {label : Process.Label pallas}

/-- A step creates records, or rewrites some which failed or were sent. -/
theorem Process.Step.db_cases (step : Process.Step setup state label next)
    (broadcast : Broadcast state) :
    (∃ txs, label = .stage (.create txs) ∧ (∀ tx ∈ txs, Submit.Accepted pallas tx) ∧
        Db.Created state.db next.db txs) ∨
      Db.Rewritten (Settled state.sent) state.db next.db := by
  obtain ⟨stored, inHand, held⟩ := broadcast
  cases step with
  | restart => exact .inr (.of_row fun _ => rfl)
  | stage step =>
      cases step with
      | create accepted created => exact .inl ⟨_, rfl, accepted, Db.create_ok created⟩
      | ingest step =>
          refine .inr ?_
          rcases step.db_cases with same | ⟨unit, tx, rest, _, worker, same⟩
          · simp only at same
            subst same
            exact .of_row fun _ => rfl
          · simp only at same worker
            subst same worker
            exact Db.rewritten_update fun row same => by
              rcases inHand with failed | sent
              · exact .inl failed
              · exact .inr (same ▸ sent)
      | monitor step =>
          refine .inr (step.records.1.mono fun row wrote => ?_)
          obtain ⟨tx, member, sameId, sameRaw⟩ := wrote
          exact .inr (by rw [sameId, sameRaw]; exact held tx member)

/-- What was sent stays so. -/
theorem Process.Step.sent_cases (step : Process.Step setup state label next) :
    next.sent = state.sent ∨ ∃ unit tx rest, label = .stage (.ingest (.send true)) ∧
      state.ingest = .awaiting unit tx rest .send ∧
        next.sent = state.sent ++ [(tx.id, tx.raw)] := by
  cases step with
  | restart => exact .inl rfl
  | stage step =>
      cases step with
      | create | monitor => exact .inl rfl
      | ingest step =>
          rcases step.sent_cases with same | ⟨unit, tx, rest, label, worker, same⟩
          · exact .inl same
          · subst label
            exact .inr ⟨unit, tx, rest, rfl, worker, same⟩

theorem Process.Step.sent_subset (step : Process.Step setup state label next) :
    state.sent ⊆ next.sent := by
  rcases step.sent_cases with same | ⟨_, _, _, _, _, same⟩
  · rw [same]
    exact List.Subset.refl _
  · rw [same]
    exact List.subset_append_left _ _

theorem Process.Step.stored (step : Process.Step setup state label next)
    (broadcast : Broadcast state) {id : String} {row : TxRow} (found : next.db.row id = some row) :
    row.status = .pending ∨ row.status = .failed ∨ (id, row.raw) ∈ next.sent := by
  have kept : ∀ old, state.db.row id = some old →
      old.status = .pending ∨ old.status = .failed ∨ (id, old.raw) ∈ next.sent :=
    fun old before => (broadcast.stored id old before).imp_right
      (Or.imp_right fun sent => step.sent_subset sent)
  rcases step.db_cases broadcast with ⟨txs, _, accepted, created⟩ | rewritten
  · rcases created.row_cases found with before | ⟨tx, member, _, rfl, _⟩
    · exact kept row before
    · exact .inl (accepted tx member).pending
  · obtain ⟨old, before, _, _, rfl | failed | sent⟩ := rewritten.origin found
    · exact kept row before
    · exact .inr (.inl failed)
    · rw [Db.row_id found] at sent
      exact .inr (.inr (step.sent_subset sent))

/-- Every step keeps what is known of the bytes. -/
theorem Process.Step.broadcast (step : Process.Step setup state label next)
    (broadcast : Broadcast state) : Broadcast next := by
  refine ⟨fun id row found => step.stored broadcast found, ?_, ?_⟩
  · cases step with
    | restart => trivial
    | stage step =>
        cases step with
        | create | monitor => exact broadcast.ingest
        | ingest step => exact step.sent broadcast.ingest
  · have grown := step.sent_subset
    cases step with
    | restart =>
        intro tx member
        cases member
    | stage step =>
        cases step with
        | create => exact broadcast.monitor
        | ingest step => exact fun tx member => grown (broadcast.monitor tx member)
        | monitor step =>
            intro tx member
            rcases step.records.2 tx member with ⟨old, held, sameId, sameRaw⟩ |
              ⟨row, stored, sameRaw, status⟩
            · rw [sameId, sameRaw]
              exact broadcast.monitor old held
            · rw [sameRaw]
              exact broadcast.storesSent _ row stored status

end Broadcast

/-! ## What is sent -/

section Examined

variable {pallas : Pallas} {setup : Setup} {state next final : State} {label : Process.Label pallas}
  {trace : List (Transition State (Process.Label pallas))}

/-- Bytes decoded, and `validate_tx` and `evaluate_tx` accepted them. -/
def Process.Accepts (raw : Bytes) : Process.Label pallas → Prop
  | .stage (.ingest (.examine replies)) => ∃ metx report, pallas.decode raw = some metx ∧
    validateTx replies.validation metx = .ok () ∧ evaluateTx replies.evaluation metx = .ok report
  | _ => False

/-- Ingest is not concerned. -/
def Process.Elsewhere : Process.Label pallas → Prop
  | .stage (.ingest _) | .restart => False
  | _ => True

/-- In this run nothing has happened at ingest since it examined these bytes. -/
def JustExamined (trace : List (Transition State (Process.Label pallas))) (raw : Bytes) : Prop :=
  ∃ earlier examine between, trace = earlier ++ examine :: between ∧
    Process.Accepts raw examine.label ∧
      ∀ transition ∈ between, Process.Elsewhere transition.label

/-- Bytes which were examined and are to be broadcast were accepted. -/
theorem accepts_of_examined {stage : Ingest.Stage} {replies : Ingest.Replies pallas}
    {tx result : Transaction} (examined : Ingest.examine stage replies tx = .ok (result, true)) :
    Process.Accepts result.raw (.stage (.ingest (.examine replies)) : Process.Label pallas) := by
  obtain ⟨clone, metx, _, decoded, valid, rfl⟩ := Ingest.examine_ok_iff.mp examined
  obtain ⟨validated, report, evaluated⟩ := isValid_true_iff.mp valid
  exact ⟨metx, report, decoded, validateTx_ok_iff.mpr validated, evaluateTx_ok_iff.mpr evaluated⟩

theorem proceed_ne_send {unit unit' rest rest' : List Transaction} {tx : Transaction} :
    Ingest.proceed unit rest ≠ .awaiting unit' tx rest' .send := by
  cases rest <;> simp [Ingest.proceed]

/-- A transaction is about to be sent after it was examined only. -/
theorem Ingest.Step.of_send {profile : Profile} {stage : Ingest.Stage} {state after : Ingest.State}
    {label : Ingest.Label pallas} {unit rest : List Transaction} {tx : Transaction}
    (step : Ingest.Step profile stage state label after)
    (inHand : after.worker = .awaiting unit tx rest .send) :
    Process.Accepts tx.raw (.stage (.ingest label) : Process.Label pallas) := by
  cases step with
  | schedule queuedLen quotaOrder scheduled =>
      subst inHand
      rcases Ingest.schedule_cases profile stage quotaOrder _ queuedLen with
        same | ⟨fault, same⟩ | ⟨currentCap, limits, _, same⟩ <;> rw [same] at scheduled <;>
        cases scheduled
  | select limitOrder selected =>
      subst selected
      unfold Ingest.afterSelect at inHand
      split at inHand
      · exact absurd inHand proceed_ne_send
      · cases inHand
  | examine replies examined =>
      subst inHand
      unfold Ingest.afterExamine at examined
      split at examined <;> cases examined
      exact accepts_of_examined (by assumption)
  | sendFail | update | rerun => exact absurd inHand proceed_ne_send
  | selectFail | send | fetchTip | fetchTipFail | updateFail | restart => cases inHand

/-- What is about to be sent has just been examined. -/
theorem justExamined_of_send {unit rest : List Transaction} {tx : Transaction} {db : Db}
    (run : Run (Process.Step setup) (State.initial db) trace state)
    (inHand : state.ingest = .awaiting unit tx rest .send) : JustExamined trace tx.raw := by
  induction trace using List.reverseRecOn generalizing state with
  | nil =>
      cases run
      cases inHand
  | append_singleton prior last ih =>
      obtain ⟨start, label, middle⟩ := last
      obtain ⟨before, step, done⟩ := run.around
      cases done
      simp only at step before
      -- The stages other than ingest leave what it has in hand alone.
      have kept : Process.Elsewhere label → start.ingest = .awaiting unit tx rest .send →
          JustExamined (prior ++ [⟨start, label, middle⟩]) tx.raw := by
        intro elsewhere same
        obtain ⟨earlier, examine, between, rfl, accepts, others⟩ := ih before same
        refine ⟨earlier, examine, between ++ [⟨start, label, middle⟩], by simp, accepts, ?_⟩
        intro transition member
        rcases List.mem_append.mp member with earlierMem | lastMem
        · exact others transition earlierMem
        · rw [List.mem_singleton.mp lastMem]
          exact elsewhere
      cases step with
      | restart => cases inHand
      | stage step =>
          cases step with
          | create => exact kept trivial inHand
          | monitor => exact kept trivial inHand
          | ingest step => exact ⟨prior, _, [], rfl, step.of_send inHand, by simp⟩

end Examined

/-! ## The life of the store -/

section Life

variable {pallas : Pallas} {setup : Setup} {state next final : State} {label : Process.Label pallas}
  {trace : List (Transition State (Process.Label pallas))}

/-- Every record keeps its id, its queue and the time of its creation. -/
def KeepsRecords (transition : Transition State (Process.Label pallas)) : Prop :=
  ∀ id row, transition.before.db.row id = some row → ∃ after,
    transition.after.db.row id = some after ∧ after.id = row.id ∧ after.queue = row.queue ∧
      after.createdAt = row.createdAt

/-- Nothing is sent, or the bytes of a transaction which has just been examined. -/
def SendsExamined (prior : List (Transition State (Process.Label pallas)))
    (transition : Transition State (Process.Label pallas)) : Prop :=
  transition.after.sent = transition.before.sent ∨ ∃ tx : Transaction,
    transition.after.sent = transition.before.sent ++ [(tx.id, tx.raw)] ∧
      JustExamined prior tx.raw

/-- What is known of the bytes which are sent and stored in a run. -/
structure Provenance (trace : List (Transition State (Process.Label pallas))) : Prop where
  stored : ∀ transition ∈ trace, StoresSent transition.after
  examined : ∀ prior transition later, trace = prior ++ transition :: later →
    SendsExamined prior transition
  kept : ∀ transition ∈ trace, KeepsRecords transition

theorem Process.Step.keepsRecords (step : Process.Step setup state label next)
    (broadcast : Broadcast state) : KeepsRecords ⟨state, label, next⟩ := by
  intro id row found
  rcases step.db_cases broadcast with ⟨_, _, _, created⟩ | rewritten
  · exact ⟨row, created.row_kept found, rfl, rfl, rfl⟩
  · obtain ⟨after, here, queue, createdAt, _⟩ := rewritten.kept id row found
    exact ⟨after, here, (Db.row_id here).trans (Db.row_id found).symm, queue, createdAt⟩

/-- Along a run what is known of the bytes is true before and after each step. -/
theorem broadcast_of_mem
    (run : Run (Process.Step setup) (State.initial Db.empty) trace final)
    {transition : Transition State (Process.Label pallas)} (member : transition ∈ trace) :
    Broadcast transition.before ∧ Broadcast transition.after := by
  have preserved : Preserved (@Process.Step pallas setup) (fun _ _ => True) Broadcast :=
    fun _ _ _ broadcast _ step => step.broadcast broadcast
  exact run.invariant_of_mem preserved broadcast_initial (fun _ _ => trivial) member

/-- In every run of creations, ingest and monitor in any order, with any failures and crashes,
a record in flight or confirmed has bytes which were sent for it, everything that is sent has
just been examined, and no record changes its id, queue or time of creation. -/
theorem provenance_of_run
    (run : Run (Process.Step setup) (State.initial Db.empty) trace final) : Provenance trace where
  stored _ member := (broadcast_of_mem run member).2.storesSent
  examined prior transition later cut := by
    subst cut
    obtain ⟨before, step, _⟩ := run.around
    rcases step.sent_cases with same | ⟨unit, tx, rest, _, inHand, same⟩
    · exact .inl same
    · exact .inr ⟨tx, same, justExamined_of_send before inHand⟩
  kept _ member := (run.step_of_mem member).keepsRecords (broadcast_of_mem run member).1

/-- A transaction is submitted and sent, the process crashes before it is stored as in flight,
and it is sent again and confirmed. -/
theorem provenance_of_crash :
    ∃ (trace : List (Transition State (Process.Label samplePallas))) (final : State),
      Run (Process.Step sampleSetup) (State.initial Db.empty) trace final ∧
        final.db.HasStatus (sampleTx 1 1).id .confirmed ∧ final.sent.length = 2 ∧
          Provenance trace := by
  obtain ⟨final, ⟨trace, run, _⟩, confirmed, twice⟩ : ∃ final,
      Reaches (@Process.Step samplePallas sampleSetup) (fun _ _ => True) (State.initial Db.empty)
        final ∧ final.db.HasStatus (sampleTx 1 1).id .confirmed ∧ final.sent.length = 2 :=
    ⟨_, .cons (.stage sample_create) trivial <| .cons (.stage sample_schedule) trivial <|
      .cons (.stage sample_select) trivial <|
      .cons (.stage (.ingest (.examine sampleReplies rfl))) trivial <|
      .cons (.stage (.ingest .send)) trivial <| .cons .restart trivial <|
      .cons (.stage sample_schedule) trivial <| .cons (.stage sample_select) trivial <|
      .cons (.stage (.ingest (.examine sampleReplies rfl))) trivial <|
      .cons (.stage (.ingest .send)) trivial <|
      .cons (.stage (.ingest (.fetchTip sampleTip))) trivial <|
      .cons (.stage (.ingest .update)) trivial <|
      .cons (.stage (.monitor (.receive (sampleBlock 110 1)))) trivial <|
      .cons (.stage (.monitor (.resume rfl))) trivial <|
      .cons (.stage (.monitor (.resume rfl))) trivial <| .refl _ _,
      ⟨_, rfl, rfl⟩, rfl⟩
  exact ⟨trace, final, run, confirmed, twice, provenance_of_run run⟩

end Life

end Boros.Pipeline
