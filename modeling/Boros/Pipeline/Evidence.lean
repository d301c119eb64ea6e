import Boros.Pipeline.Payload

/-!
# What a status rests on

A status outlives the event it was decided on by crashes, replays and any number of rewrites.
`evidence_of_run` says that it never loses its ground: what is confirmed was in a block that the
monitor received, what failed was rejected with the bytes it is stored with, what is in flight
or confirmed was sent, and the slot is there or not as the status asks for.
-/

namespace Boros.Pipeline

open Boros.Data Boros.Semantics Boros.Storage Boros.Ledger Boros.Queue

/-- What the stages have been shown: the ids which were in blocks, and the bytes which were
rejected for an id. -/
structure Grounds where
  inBlock : String → Prop
  rejected : String → Bytes → Prop

/-- A status with its ground, for a record with or without a slot. -/
def Grounds.Backs (grounds : Grounds) (id : String) (raw : Bytes) (slotted : Bool) :
    TransactionStatus → Prop
  | .pending => slotted = false
  | .validated => False
  | .inFlight => True
  | .confirmed => slotted = true ∧ grounds.inBlock id
  | .failed => slotted = false ∧ grounds.rejected id raw

/-- The status of a record is backed. -/
def Grounds.Record (grounds : Grounds) (tx : Transaction) : Prop :=
  grounds.Backs tx.id tx.raw tx.slot.isSome tx.status

/-- The status of a row is backed. -/
def Grounds.Row (grounds : Grounds) (row : TxRow) : Prop :=
  grounds.Backs row.id row.raw row.slot.isSome row.status

/-- A record as it is selected: pending, without a slot. -/
def Fresh (tx : Transaction) : Prop := tx.status = .pending ∧ tx.slot = none

variable {grounds : Grounds} {db after : Db} {tx : Transaction} {row : TxRow}

/-- A row which is read has its ground. -/
theorem Grounds.Row.read (backed : grounds.Row row) (decoded : row.fromRow = .ok tx) :
    grounds.Record tx := by
  obtain ⟨sameId, sameRaw, sameStatus, _, _, _, read⟩ := TxRow.fromRow_ok decoded
  have slotted : tx.slot.isSome = row.slot.isSome := by
    have absent := readSlot_none_iff read
    cases recorded : tx.slot <;> cases stored : row.slot <;> simp [recorded, stored] at absent ⊢
  rw [Grounds.Record, sameId, sameRaw, sameStatus, slotted]
  exact backed

/-- A pending row which is read is fresh. -/
theorem Grounds.Row.fresh (backed : grounds.Row row) (pending : row.status = .pending)
    (decoded : row.fromRow = .ok tx) : Fresh tx := by
  have record := backed.read decoded
  have status : tx.status = .pending := (TxRow.fromRow_ok decoded).2.2.1.trans pending
  rw [Grounds.Record, status] at record
  exact ⟨status, Option.isSome_eq_false_iff.mp record |> Option.isNone_iff_eq_none.mp⟩

/-- A row which is written from a record with its ground has it too. -/
theorem Grounds.Record.assign (backed : grounds.Record tx) (same : row.id = tx.id) :
    grounds.Row (row.assign tx) := by
  simp only [Grounds.Row, TxRow.assign_id, TxRow.assign_raw, TxRow.assign_slot,
    TxRow.assign_status, Option.isSome_map, same]
  exact backed

/-- All rows of a store are backed. -/
def Grounds.Store (grounds : Grounds) (db : Db) : Prop :=
  ∀ id row, db.row id = some row → grounds.Row row

theorem Grounds.Store.rewritten (store : grounds.Store db)
    (rewritten : Db.Rewritten grounds.Row db after) : grounds.Store after := by
  intro id row found
  obtain ⟨old, before, _, _, rfl | backed⟩ := rewritten.origin found
  · exact store id row before
  · exact backed

/-! ## Ingest -/

namespace Ingest

/-- What ingest holds is fresh, but for the record which it has a verdict on. -/
def Worker.Backed (grounds : Grounds) : Worker → Prop
  | .awaiting unit tx rest .update =>
    (∀ other ∈ unit, Fresh other) ∧ (∀ other ∈ rest, Fresh other) ∧ grounds.Record tx
  | .awaiting unit tx rest _ =>
    (∀ other ∈ unit, Fresh other) ∧ (∀ other ∈ rest, Fresh other) ∧ Fresh tx
  | .retrying unit => ∀ other ∈ unit, Fresh other
  | _ => True

variable {pallas : Pallas} {profile : Profile} {stage : Stage} {state next : State}
  {label : Label pallas} {unit rest : List Transaction}

/-- Bytes which are found invalid are rejected for the transaction in hand. -/
def Rejects (stage : Stage) (worker : Worker) (id : String) (raw : Bytes) : Label pallas → Prop
  | .examine replies => ∃ unit tx rest clone, worker = .awaiting unit tx rest .examine ∧
    Ingest.examine stage replies tx = .ok (clone, false) ∧ clone.id = id ∧ clone.raw = raw
  | _ => False

theorem proceed_backed (inUnit : ∀ other ∈ unit, Fresh other)
    (inRest : ∀ other ∈ rest, Fresh other) : (proceed unit rest).Backed grounds := by
  cases rest with
  | nil => trivial
  | cons head tail =>
      rw [List.forall_mem_cons] at inRest
      exact ⟨inUnit, inRest.2, inRest.1⟩

theorem schedule_backed (profile : Profile) (stage : Stage)
    (quotaOrder : Queue.Priority.HashOrder (String × UInt16)) (db : Db) (queuedLen : Nat) :
    (schedule profile stage quotaOrder db queuedLen).Backed grounds := by
  rcases schedule_cases profile stage quotaOrder db queuedLen with
    same | ⟨fault, same⟩ | ⟨currentCap, limits, _, same⟩ <;> rw [same] <;> trivial

/-- After its examination a transaction is fresh, or has failed on the grounds of it. -/
theorem afterExamine_backed {replies : Replies pallas} (inUnit : ∀ other ∈ unit, Fresh other)
    (inRest : ∀ other ∈ rest, Fresh other) (fresh : Fresh tx)
    (shown : ∀ clone, Ingest.examine stage replies tx = .ok (clone, false) →
      grounds.rejected clone.id clone.raw) :
    (afterExamine unit rest (Ingest.examine stage replies tx)).Backed grounds := by
  cases examined : Ingest.examine stage replies tx with
  | ok outcome =>
      obtain ⟨clone, valid⟩ := outcome
      have rejected := shown clone
      obtain ⟨raw, rfl⟩ := examine_ok examined
      cases valid with
      | true => exact ⟨inUnit, inRest, fresh⟩
      | false =>
          refine ⟨inUnit, inRest, ?_⟩
          change tx.slot.isSome = false ∧ grounds.rejected tx.id raw
          exact ⟨by rw [fresh.2]; rfl, rejected examined⟩
  | error abort =>
      cases abort with
      | panic fault => trivial
      | error cause =>
          cases cause with
          | retry => exact inUnit
          | _ => trivial

/-- A step of ingest keeps the grounds of all rows and of what it holds. -/
theorem Step.backed (step : Step profile stage state label next)
    (shown : ∀ id raw, Rejects stage state.worker id raw label → grounds.rejected id raw)
    (store : grounds.Store state.db) (backed : state.worker.Backed grounds) :
    grounds.Store next.db ∧ next.worker.Backed grounds := by
  cases step with
  | schedule queuedLen quotaOrder scheduled =>
      subst scheduled
      exact ⟨store, schedule_backed _ _ _ _ _⟩
  | select limitOrder selected =>
      subst selected
      refine ⟨store, ?_⟩
      unfold afterSelect
      split
      · rename_i transactions success
        have fresh : ∀ other ∈ transactions, Fresh other := by
          intro other member
          obtain ⟨row, found, pending, decoded⟩ := Db.next_sound success member
          exact (store _ row found).fresh pending decoded
        exact proceed_backed fresh fresh
      · trivial
  | @examine db sent unit tx rest worker replies examined =>
      subst examined
      obtain ⟨inUnit, inRest, fresh⟩ := backed
      refine ⟨store, afterExamine_backed inUnit inRest fresh fun clone rejected => ?_⟩
      exact shown _ _ ⟨unit, tx, rest, clone, rfl, rejected, rfl, rfl⟩
  | send => exact ⟨store, backed⟩
  | sendFail => exact ⟨store, proceed_backed backed.1 backed.2.1⟩
  | fetchTip tip => exact ⟨store, backed.1, backed.2.1, trivial⟩
  | update =>
      obtain ⟨inUnit, inRest, record⟩ := backed
      refine ⟨store.rewritten (Db.rewritten_update fun row same => record.assign same), ?_⟩
      exact proceed_backed inUnit inRest
  | rerun => exact ⟨store, proceed_backed backed backed⟩
  | fetchTipFail | updateFail => exact ⟨store, backed.1⟩
  | selectFail | restart => exact ⟨store, trivial⟩

end Ingest

/-! ## Monitor -/

namespace Monitor

/-- The ids of the block were in a block. -/
def Shown (grounds : Grounds) : Event → Prop
  | .rollForward _ txs => ∀ id, containsTx txs id → grounds.inBlock id
  | .rollback _ => True

/-- The records of a batch are backed, and what was found in flight is so. -/
def Await.Backed (grounds : Grounds) : Await → Prop
  | .updateConfirm txsInflight confirm =>
    (∀ tx ∈ txsInflight, tx.status = .inFlight) ∧ ∀ tx ∈ confirm, grounds.Record tx
  | .updateRetry retry => ∀ tx ∈ retry, grounds.Record tx
  | .updateRollback txs => ∀ tx ∈ txs, grounds.Record tx
  | _ => True

/-- The event in hand was shown, and the batch in hand is backed. -/
def Worker.Backed (grounds : Grounds) : Worker → Prop
  | .awaiting event await => Shown grounds event ∧ await.Backed grounds
  | .retrying event => Shown grounds event
  | _ => True

variable {profile : Profile} {config : Config} {event : Event} {txs : List Tx}
  {txsInflight confirm found : List Transaction}

/-- Records are retried without a slot. -/
theorem afterConfirm_backed (shown : Shown grounds event) :
    (afterConfirm profile config event txsInflight confirm).Backed grounds := by
  unfold afterConfirm
  split
  · trivial
  · exact ⟨shown, trivial⟩
  · rename_i retry _ retried
    refine ⟨shown, fun tx member => ?_⟩
    obtain ⟨itx, _, _, rfl⟩ := (mem_txsRetry_iff retried).mp member
    exact rfl

/-- Records are confirmed which were in the block. -/
theorem afterFind_backed {point : Point} (shown : Shown grounds (.rollForward point txs))
    (inFlight : ∀ tx ∈ txsInflight, tx.status = .inFlight) :
    (afterFind profile config (.rollForward point txs) txs txsInflight).Backed grounds := by
  unfold afterFind
  split
  · exact afterConfirm_backed shown
  · refine ⟨shown, inFlight, fun tx member => ?_⟩
    obtain ⟨itx, _, contained, rfl⟩ := mem_txsConfirm_iff.mp member
    exact ⟨rfl, shown itx.id contained⟩

/-- A rollback keeps the ground of what stays confirmed. -/
theorem afterFindToRollback_backed {point : Point}
    (backed : ∀ tx ∈ found, grounds.Record tx ∧ tx.status = .confirmed) :
    (afterFindToRollback (.rollback point) found).Backed grounds := by
  unfold afterFindToRollback
  split
  · trivial
  · rename_i written mapped
    refine ⟨trivial, fun tx member => ?_⟩
    obtain ⟨old, oldMem, produced⟩ := mem_rollback mapped member
    obtain ⟨record, confirmed⟩ := backed old oldMem
    obtain ⟨confirmedAt, _, rfl⟩ := rollbackTx_ok_iff.mp produced
    split
    · trivial
    · rw [Grounds.Record, confirmed] at record
      simp only [Grounds.Record, confirmed]
      exact ⟨rfl, record.2⟩

/-- A storage call keeps the grounds of all rows and of what the monitor holds. -/
theorem resume_backed {await : Await} {worker : Worker}
    (resumed : resume profile config event db await = (after, worker))
    (store : grounds.Store db) (backed : (Worker.awaiting event await).Backed grounds) :
    grounds.Store after ∧ worker.Backed grounds := by
  obtain ⟨shown, batch⟩ := backed
  have written : ∀ txs : List Transaction, (∀ tx ∈ txs, grounds.Record tx) →
      grounds.Store (db.updateBatch txs) := fun txs backed =>
    store.rewritten (Db.rewritten_updateBatch fun tx member _ same => (backed tx member).assign same)
  cases await with
  | find =>
      obtain ⟨rfl, cases⟩ := resume_find resumed
      refine ⟨store, ?_⟩
      rcases cases with rfl | ⟨point, txs, txsInflight, rfl, query, rfl⟩ |
        ⟨slot, hash, found, rfl, query, rfl⟩
      · exact shown
      · refine afterFind_backed shown fun tx member => ?_
        obtain ⟨row, _, status, decoded⟩ := Db.find_sound query member
        exact (TxRow.fromRow_ok decoded).2.2.1.trans status
      · refine afterFindToRollback_backed fun tx member => ?_
        obtain ⟨row, stored, selected, decoded⟩ :=
          (Db.findToRollback_selected query).sound tx member
        simp only [Bool.and_eq_true, decide_eq_true_eq] at selected
        exact ⟨(store _ row stored).read decoded,
          (TxRow.fromRow_ok decoded).2.2.1.trans selected.1⟩
  | updateConfirm txsInflight confirm =>
      cases resumed
      exact ⟨written _ batch.2, afterConfirm_backed shown⟩
  | updateRetry retry =>
      cases resumed
      exact ⟨written _ batch, shown, trivial⟩
  | updateRollback txs =>
      cases resumed
      exact ⟨written _ batch, shown, trivial⟩
  | setCursor =>
      cases resumed
      exact ⟨fun id row found => store id row found, trivial⟩

/-- A step of the monitor keeps the grounds. -/
theorem Step.backed {worker nextWorker : Worker} {label : Label}
    (step : Step profile config (db, worker) label (after, nextWorker))
    (shown : ∀ event, label = .receive event → Shown grounds event)
    (store : grounds.Store db) (backed : worker.Backed grounds) :
    grounds.Store after ∧ nextWorker.Backed grounds := by
  cases step with
  | receive event => exact ⟨store, shown event rfl, trivial⟩
  | resume resumed => exact resume_backed resumed store backed
  | fail => exact ⟨store, backed.1⟩
  | rerun => exact ⟨store, backed, trivial⟩

end Monitor

/-! ## The life of the store -/

section Life

variable {pallas : Pallas} {setup : Setup} {state next final : State}
  {label : Process.Label pallas} {trace : List (Transition State (Process.Label pallas))}

/-- All statuses are backed, in the store and in hand. -/
structure Backed (grounds : Grounds) (state : State) : Prop where
  stored : grounds.Store state.db
  ingest : state.ingest.Backed grounds
  monitor : state.monitor.Backed grounds

/-- What a step shows is among the grounds. -/
def Grounds.Admits (grounds : Grounds) (stage : Ingest.Stage) (state : State) :
    Process.Label pallas → Prop
  | .stage (.ingest label) =>
    ∀ id raw, Ingest.Rejects stage state.ingest id raw label → grounds.rejected id raw
  | .stage (.monitor (.receive event)) => Monitor.Shown grounds event
  | _ => True

/-- Every step keeps the grounds of all statuses. -/
theorem Process.Step.backed (step : Process.Step setup state label next)
    (admits : grounds.Admits setup.ingest state label) (backed : Backed grounds state) :
    Backed grounds next := by
  cases step with
  | restart => exact ⟨backed.stored, trivial, trivial⟩
  | stage step =>
      cases step with
      | create accepted created =>
          refine ⟨fun id row found => ?_, backed.ingest, backed.monitor⟩
          rcases (Db.create_ok created).row_cases found with before | ⟨tx, member, _, rfl, _⟩
          · exact backed.stored id row before
          · have pending : (TxRow.ofTransaction tx).status = .pending :=
              (accepted tx member).pending
            rw [Grounds.Row, pending]
            exact rfl
      | ingest step =>
          obtain ⟨store, inHand⟩ := step.backed admits backed.stored backed.ingest
          exact ⟨store, inHand, backed.monitor⟩
      | monitor step =>
          obtain ⟨store, inHand⟩ := step.backed (fun event received => by
            subst received
            exact admits) backed.stored backed.monitor
          exact ⟨store, backed.ingest, inHand⟩

/-- The monitor received a block with the transaction. -/
def InBlock (trace : List (Transition State (Process.Label pallas))) (id : String) : Prop :=
  ∃ transition ∈ trace, ∃ point txs,
    transition.label = .stage (.monitor (.receive (.rollForward point txs))) ∧
      Monitor.containsTx txs id

/-- The ingest stage had the transaction in hand, and found the bytes invalid which it would have
broadcast. -/
def Rejected (stage : Ingest.Stage) (trace : List (Transition State (Process.Label pallas)))
    (id : String) (raw : Bytes) : Prop :=
  ∃ transition ∈ trace, ∃ replies unit tx rest clone metx,
    transition.label = .stage (.ingest (.examine replies)) ∧
      transition.before.ingest = .awaiting unit tx rest .examine ∧ tx.id = id ∧
      Ingest.signed stage replies tx = .ok clone ∧ clone.raw = raw ∧
      pallas.decode raw = some metx ∧
      isValid replies.validation replies.evaluation metx = .ok false

/-- What the status of each record rests on. -/
structure Evidence (stage : Ingest.Stage)
    (trace : List (Transition State (Process.Label pallas))) (state : State) : Prop where
  pending : ∀ id row, state.db.row id = some row → row.status = .pending → row.slot = none
  validated : ∀ id row, state.db.row id = some row → row.status ≠ .validated
  inFlight : ∀ id row, state.db.row id = some row → row.status = .inFlight →
    (id, row.raw) ∈ state.sent
  confirmed : ∀ id row, state.db.row id = some row → row.status = .confirmed →
    row.slot ≠ none ∧ (id, row.raw) ∈ state.sent ∧ InBlock trace id
  failed : ∀ id row, state.db.row id = some row → row.status = .failed →
    row.slot = none ∧ Rejected stage trace id row.raw

/-- What a run has shown. -/
def groundsOf (stage : Ingest.Stage) (trace : List (Transition State (Process.Label pallas))) :
    Grounds :=
  ⟨InBlock trace, Rejected stage trace⟩

theorem admits_groundsOf (stage : Ingest.Stage) {transition : Transition State
    (Process.Label pallas)} (member : transition ∈ trace) :
    (groundsOf stage trace).Admits stage transition.before transition.label := by
  obtain ⟨before, label, after⟩ := transition
  cases label with
  | restart => trivial
  | stage label =>
      cases label with
      | create => trivial
      | ingest label =>
          cases label with
          | examine replies =>
              rintro id raw ⟨unit, tx, rest, clone, inHand, examined, rfl, rfl⟩
              obtain ⟨signed, metx, signature, decoded, verdict, rfl⟩ :=
                Ingest.examine_ok_iff.mp examined
              obtain ⟨raw, rfl⟩ := Ingest.signed_ok signature
              exact ⟨_, member, replies, unit, tx, rest, _, metx, rfl, inHand, rfl, signature, rfl,
                decoded, verdict⟩
          | _ => exact fun _ _ rejects => rejects.elim
      | monitor label =>
          cases label with
          | receive event =>
              cases event with
              | rollForward point txs =>
                  exact fun id contained => ⟨_, member, point, txs, rfl, contained⟩
              | rollback point => trivial
          | _ => trivial

/-- In every run of creations, ingest and monitor in any order, with any failures, replays and
crashes, the status of every record is backed by what happened. -/
theorem evidence_of_run
    (run : Run (Process.Step setup) (State.initial Db.empty) trace final) :
    Evidence setup.ingest trace final := by
  have preserved : Preserved (@Process.Step pallas setup)
      (fun state label =>
        (groundsOf setup.ingest trace).Admits setup.ingest state label)
      (fun state => Broadcast state ∧ Backed (groundsOf setup.ingest trace) state) :=
    fun _ _ _ ⟨broadcast, backed⟩ admits step =>
      ⟨step.broadcast broadcast, step.backed admits backed⟩
  have initial : Backed (groundsOf setup.ingest trace) (State.initial Db.empty) :=
    ⟨fun _ _ found => (by cases found), trivial, trivial⟩
  obtain ⟨broadcast, backed⟩ := run.invariant preserved ⟨broadcast_initial, initial⟩
    fun transition member => admits_groundsOf setup.ingest member
  have absent : ∀ {slot : Option Int64}, slot.isSome = false → slot = none := by simp
  refine ⟨fun id row found status => ?_, fun id row found status => ?_,
    fun id row found status => broadcast.storesSent id row found (.inl status),
    fun id row found status => ?_, fun id row found status => ?_⟩ <;>
    have ground := backed.stored id row found <;> rw [Grounds.Row, status] at ground
  · exact absent ground
  · exact ground
  · obtain ⟨slotted, shown⟩ := ground
    refine ⟨fun none => ?_, broadcast.storesSent id row found (.inr status), ?_⟩
    · rw [none] at slotted
      cases slotted
    · rw [← Db.row_id found]
      exact shown
  · obtain ⟨slotted, shown⟩ := ground
    rw [Db.row_id found] at shown
    exact ⟨absent slotted, shown⟩

/-- The replies if the tip cannot be fetched. -/
def offlineReplies : Ingest.Replies samplePallas :=
  { sampleReplies with validation := { sampleAdapter with fetchTip := .error (.error "offline") } }

/-- One transaction is broadcast and confirmed, another one fails. -/
theorem evidence_of_run_sample :
    ∃ (trace : List (Transition State (Process.Label samplePallas))) (final : State),
      Run (Process.Step sampleSetup) (State.initial Db.empty) trace final ∧
        final.db.HasStatus (sampleTx 1 1).id .confirmed ∧
        final.db.HasStatus (sampleTx 2 2).id .failed ∧
        Evidence sampleSetup.ingest trace final := by
  obtain ⟨final, ⟨trace, run, _⟩, confirmed, failed⟩ : ∃ final,
      Reaches (@Process.Step samplePallas sampleSetup) (fun _ _ => True) (State.initial Db.empty)
        final ∧ final.db.HasStatus (sampleTx 1 1).id .confirmed ∧
          final.db.HasStatus (sampleTx 2 2).id .failed :=
    ⟨_, .cons (.stage sample_create) trivial <| .cons (.stage sample_schedule) trivial <|
      .cons (.stage sample_select) trivial <|
      .cons (.stage (.ingest (.examine sampleReplies rfl))) trivial <|
      .cons (.stage (.ingest .send)) trivial <|
      .cons (.stage (.ingest (.fetchTip sampleTip))) trivial <|
      .cons (.stage (.ingest .update)) trivial <|
      .cons (.stage (.ingest (.examine offlineReplies rfl))) trivial <|
      .cons (.stage (.ingest .update)) trivial <|
      .cons (.stage (.monitor (.receive (sampleBlock 110 1)))) trivial <|
      .cons (.stage (.monitor (.resume rfl))) trivial <|
      .cons (.stage (.monitor (.resume rfl))) trivial <| .refl _ _,
      ⟨_, rfl, rfl⟩, ⟨_, rfl, rfl⟩⟩
  exact ⟨trace, final, run, confirmed, failed, evidence_of_run run⟩

end Life

end Boros.Pipeline
