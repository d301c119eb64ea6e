import Boros.Semantics.Replay
import Boros.Pipeline.Classification

/-!
# Events which are executed again

`execute` writes the confirmed batch, the retried batch or the records of a rollback, and
the cursor, each in a database transaction of its own. The process may stop between any
two of them, and gasket runs a failed step again. Each event changes the records one by
one and idempotently, whatever was written of it before: `execute_of_attempts` says that
executing an event after any number of interrupted attempts leaves what one uninterrupted
execution leaves.
-/

namespace Boros.Pipeline.Monitor

open Boros.Data Boros.Semantics Boros.Storage Boros.Ledger

/-- What a rollback is to make of a row. -/
def takeBack (slot : UInt64) (row : TxRow) : TxRow :=
  if row.status = .confirmed ∧ recordedAbove row.slot slot then
    { row with status := .inFlight, slot := none }
  else row

/-- What an event is to make of a row. -/
def effectOf (config : Config) : Event → TxRow → TxRow
  | .rollForward (slot, _) txs => classify config slot txs
  | .rollback (slot, _) => takeBack slot

/-- A record in flight was sent by the time of the block. -/
def Ready : Event → TxRow → Prop
  | .rollForward (slot, _) _, row => row.status = .inFlight →
    ∃ sentAt : UInt64, sentAt ≤ slot ∧ row.slot = some (asI64 sentAt)
  | .rollback _, _ => True

/-- The event is executed once or several times without being received again, and the process may
have stopped anywhere in between. -/
def Attempt (profile : Profile) (config : Config) (event : Event) (db next : Db) : Prop :=
  ∃ trace worker, Run (Step profile config) (db, .awaiting event .find) trace (next, worker) ∧
    Guarded (fun _ label => ∀ received, label ≠ .receive received) trace

variable {profile : Profile} {config : Config} {slot : UInt64} {hash : Bytes} {txs : List Tx}
  {event : Event} {start db next : Db} {id : String} {row : TxRow}
  {txsInflight confirm retry found written : List Transaction} {worker after : Worker}
  {label : Label}

theorem classify_idempotent (config : Config) (slot : UInt64) (txs : List Tx) :
    Idempotent (classify config slot txs) := by
  intro row
  by_cases status : row.status = .inFlight
  · by_cases contained : containsTx txs row.id = true
    · simp [classify, status, contained]
    · by_cases late : overdue config slot row.slot = true <;>
        simp [classify, status, contained, late]
  · simp [classify, status]

theorem takeBack_idempotent (slot : UInt64) : Idempotent (takeBack slot) := by
  intro row
  by_cases selected : row.status = .confirmed ∧ recordedAbove row.slot slot
  · simp [takeBack, selected]
  · rw [takeBack, takeBack, if_neg selected, if_neg selected]

theorem effectOf_idempotent (config : Config) (event : Event) :
    Idempotent (effectOf config event) := by
  cases event with
  | rollForward point txs => exact classify_idempotent config point.1 txs
  | rollback point => exact takeBack_idempotent point.1

/-- An event leaves no record in flight without the slot it had. -/
theorem Ready.effectOf (ready : Ready event row) : Ready event (effectOf config event row) := by
  cases event with
  | rollback point => trivial
  | rollForward point txs =>
      obtain ⟨slot, hash⟩ := point
      simp only [Monitor.effectOf, classify]
      split
      · split
        · rintro ⟨⟩
        · split
          · rintro ⟨⟩
          · exact ready
      · exact ready

/-! ## The batches of a block -/

theorem inFlightRecorded_of_ready (small : slot.toNat < 2 ^ 63)
    (ready : ∀ id row, db.row id = some row → Ready (.rollForward (slot, hash) txs) row) :
    InFlightRecorded db := by
  intro id row stored status
  obtain ⟨sentAt, before, recorded⟩ := ready id row stored status
  rw [UInt64.le_iff_toNat_le] at before
  exact ⟨sentAt, by omega, recorded⟩

theorem tolerated_of_ready (small : slot.toNat < 2 ^ 63)
    (ready : Ready (.rollForward (slot, hash) txs) row) (status : row.status = .inFlight) :
    Tolerated profile config slot txs row := by
  obtain ⟨sentAt, before, recorded⟩ := ready status
  rw [UInt64.le_iff_toNat_le] at before
  intro other stored later
  rw [recorded] at stored
  cases stored
  rw [asI64_of_lt (by omega)] at later
  omega

/-- The confirmed batch carries out a part of the block's effect. -/
theorem partly_txsConfirm (query : db.find .inFlight = .ok txsInflight) :
    Partly (classify config slot txs) db.row
      (db.updateBatch (txsConfirm slot txs txsInflight)).row := by
  intro id
  cases stored : db.row id with
  | none =>
      have absent := Db.row_updateBatch_isSome db (txsConfirm slot txs txsInflight) id
      rw [stored, Option.isSome_none, Option.isSome_eq_false_iff, Option.isNone_iff_eq_none]
        at absent
      exact .inl absent
  | some row =>
      rw [row_txsConfirm slot txs query stored]
      split
      · rename_i selected
        rw [← Db.row_id stored] at selected
        rw [Option.map_some, classify, if_pos selected.1, if_pos selected.2]
        exact .inr rfl
      · exact .inl rfl

/-- Both batches carry out the block's effect. -/
theorem row_txsRetry_eq (small : slot.toNat < 2 ^ 63)
    (ready : ∀ id row, db.row id = some row → Ready (.rollForward (slot, hash) txs) row)
    (query : db.find .inFlight = .ok txsInflight)
    (retried : txsRetry profile config slot (txsConfirm slot txs txsInflight) txsInflight =
      .ok retry) (id : String) :
    ((db.updateBatch (txsConfirm slot txs txsInflight)).updateBatch retry).row id =
      (db.row id).map (classify config slot txs) :=
  row_rollForward_eq query retried (inFlightRecorded_of_ready small ready)
    (fun id row stored => tolerated_of_ready small (ready id row stored)) id

/-! ## The batch of a rollback -/

/-- Below the sign boundary the query finds the records above the slot and no others. -/
theorem slotAbove_iff {stored : Option Int64} (small : slot.toNat < 2 ^ 63) :
    slotAbove stored (asI64 slot) ↔ recordedAbove stored slot := by
  refine ⟨fun above => ?_, slotAbove_of_recordedAbove⟩
  cases stored with
  | none => cases above
  | some value =>
      have comparison : asI64 slot < value := by simpa [slotAbove] using above
      rw [Int64.lt_iff_toInt_lt, asI64_of_lt small] at comparison
      exact ⟨value, rfl, comparison⟩

/-- Every record found is taken back. -/
theorem rollback_mapM (small : slot.toNat < 2 ^ 63) (query : db.findToRollback slot = .ok found) :
    found.mapM (rollbackTx slot) =
      .ok (found.map fun tx => { tx with status := .inFlight, slot := none }) := by
  refine Table.mapM_eq_ok fun tx member => ?_
  obtain ⟨row, _, selected, decoded⟩ := (Db.findToRollback_selected query).sound tx member
  simp only [Bool.and_eq_true, slotAbove_iff small] at selected
  obtain ⟨value, stored, larger⟩ := selected.2
  have read := (TxRow.fromRow_ok decoded).2.2.2.2.2.2
  cases recorded : tx.slot with
  | none =>
      rw [(readSlot_none_iff read).mp recorded] at stored
      cases stored
  | some confirmedAt =>
      rw [recorded] at read
      have above := (recordedAbove_iff_of_readSlot read).mp selected.2
      exact rollbackTx_ok_iff.mpr ⟨confirmedAt, recorded, by rw [if_pos above]⟩

/-- The batch carries out the rollback's effect. -/
theorem row_rollback_eq (small : slot.toNat < 2 ^ 63)
    (query : db.findToRollback slot = .ok found)
    (mapped : found.mapM (rollbackTx slot) = .ok written) (id : String) :
    (db.updateBatch written).row id = (db.row id).map (takeBack slot) := by
  rw [rollback_mapM small query] at mapped
  cases mapped
  have selection := Db.findToRollback_selected query
  have distinct : ((found.map fun tx =>
      { tx with status := .inFlight, slot := none }).map Transaction.id).Nodup := by
    rw [List.map_map]
    exact selection.distinct
  by_cases named : id ∈ found.map Transaction.id
  · obtain ⟨tx, member, rfl⟩ := List.mem_map.mp named
    obtain ⟨row, stored, selected, decoded⟩ := selection.sound tx member
    simp only [Bool.and_eq_true, decide_eq_true_eq, slotAbove_iff small] at selected
    have assigned := Db.row_updateBatch_of_mem db distinct (List.mem_map_of_mem member)
    simp only at assigned
    rw [assigned, stored, Option.map_some, Option.map_some, assign_fromRow decoded, takeBack,
      if_pos selected]
    rfl
  · rw [Db.row_updateBatch_of_notMem (by simpa using named)]
    cases stored : db.row id with
    | none => rfl
    | some row =>
        rw [Option.map_some, takeBack, if_neg]
        rintro ⟨status, above⟩
        obtain ⟨tx, member, rfl, _⟩ := selection.complete id row stored
          (by simp [status, (slotAbove_iff small).mpr above])
        exact named (List.mem_map_of_mem member)

/-! ## One uninterrupted execution -/

/-- Executing an event carries out its effect and stores its cursor. -/
theorem execute_effectOf (small : event.point.1.toNat < 2 ^ 63)
    (ready : ∀ id row, db.row id = some row → Ready event row) :
    ∃ next, (execute profile config event).exec db = (.ok (), next) ∧
      (∀ id, next.row id = (db.row id).map (effectOf config event)) ∧
      next.cursor = some ⟨asI64 event.point.1, event.point.2⟩ := by
  cases event with
  | rollForward point txs =>
      obtain ⟨slot, hash⟩ := point
      obtain ⟨txsInflight, retry, query, retried⟩ := @rollForward_total profile config slot txs db
        (inFlightRecorded_of_ready small ready)
        (fun id row stored => tolerated_of_ready small (ready id row stored))
      exact ⟨_, execute_rollForward_ok_iff.mpr ⟨txsInflight, retry, query, retried, rfl⟩,
        row_txsRetry_eq small ready query retried, rfl⟩
  | rollback point =>
      obtain ⟨slot, hash⟩ := point
      obtain ⟨found, query⟩ := Db.findToRollback_isOk db small
      have mapped := rollback_mapM small query
      exact ⟨_, execute_rollback_ok_iff.mpr ⟨found, _, query, mapped, rfl⟩,
        row_rollback_eq small query mapped, rfl⟩

/-! ## Interrupted executions -/

/-- What the storage call in hand writes carries out a part of the event's effect. -/
def Carries (config : Config) (event : Event) (start db : Db) : Worker → Prop
  | .awaiting inHand (.updateConfirm txsInflight confirm) =>
    inHand = event ∧ ∃ point txs, event = .rollForward point txs ∧
      db.find .inFlight = .ok txsInflight ∧ confirm = txsConfirm point.1 txs txsInflight
  | .awaiting inHand (.updateRetry batch) | .awaiting inHand (.updateRollback batch) =>
    inHand = event ∧ Partly (effectOf config event) start.row (db.updateBatch batch).row
  | .awaiting inHand _ | .retrying inHand => inHand = event
  | .schedule | .panicked _ => True

/-- A state within an execution of the event. -/
structure Interim (config : Config) (event : Event) (start : Db) (state : Db × Worker) : Prop where
  partly : Partly (effectOf config event) start.row state.1.row
  carries : Carries config event start state.1 state.2

theorem Carries.inHand {received : Event} {await : Await}
    (carries : Carries config event start db (.awaiting received await)) : received = event := by
  cases await with
  | find | setCursor => exact carries
  | updateConfirm | updateRetry | updateRollback => exact carries.1

/-- The retried batch completes the effect of the block. -/
theorem afterConfirm_carries (small : slot.toNat < 2 ^ 63)
    (ready : ∀ id row, db.row id = some row → Ready (.rollForward (slot, hash) txs) row)
    (partly : Partly (classify config slot txs) start.row db.row)
    (query : db.find .inFlight = .ok txsInflight) :
    Carries config (.rollForward (slot, hash) txs) start
      (db.updateBatch (txsConfirm slot txs txsInflight))
      (afterConfirm profile config (.rollForward (slot, hash) txs) txsInflight
        (txsConfirm slot txs txsInflight)) := by
  unfold afterConfirm
  split
  · trivial
  · rfl
  · rename_i batch _ retried
    have complete := Partly.of_complete (row_txsRetry_eq small ready query retried)
    exact ⟨rfl, partly.trans (classify_idempotent config slot txs) complete⟩

/-- What is computed from the first read carries out a part of the event's effect. -/
theorem resume_find_carries (small : event.point.1.toNat < 2 ^ 63)
    (ready : ∀ id row, db.row id = some row → Ready event row)
    (partly : Partly (effectOf config event) start.row db.row)
    (resumed : resume profile config event db .find = (next, after)) :
    next = db ∧ Carries config event start next after := by
  obtain ⟨rfl, rfl | ⟨point, txs, txsInflight, rfl, query, rfl⟩ |
    ⟨slot, hash, found, rfl, query, rfl⟩⟩ := resume_find resumed
  · exact ⟨rfl, rfl⟩
  · refine ⟨rfl, ?_⟩
    unfold afterFind
    split
    · rename_i nothing
      obtain ⟨slot, hash⟩ := point
      have completed : Carries config (.rollForward (slot, hash) txs) start _
          (afterConfirm profile config _ txsInflight (txsConfirm slot txs txsInflight)) :=
        afterConfirm_carries small ready partly query
      rw [show txsConfirm slot txs txsInflight = [] from nothing] at completed
      exact completed
    · exact ⟨rfl, point, txs, rfl, query, rfl⟩
  · refine ⟨rfl, ?_⟩
    have mapped := rollback_mapM small query
    unfold afterFindToRollback
    split
    · trivial
    · rename_i batch written
      have complete := Partly.of_complete (row_rollback_eq small query written)
      exact ⟨rfl, partly.trans (takeBack_idempotent slot) complete⟩

/-- A step within an execution of the event leaves a state within it. -/
theorem Step.interim (small : event.point.1.toNat < 2 ^ 63)
    (ready : ∀ id row, start.row id = some row → Ready event row)
    (step : Step profile config (db, worker) label (next, after))
    (same : ∀ received, label ≠ .receive received)
    (interim : Interim config event start (db, worker)) :
    Interim config event start (next, after) := by
  obtain ⟨partly, carries⟩ := interim
  have readyHere : ∀ id row, db.row id = some row → Ready event row :=
    partly.forall ready fun _ => Ready.effectOf
  cases step with
  | receive received => exact absurd rfl (same received)
  | fail => exact ⟨partly, carries.inHand⟩
  | rerun => exact ⟨partly, carries⟩
  | resume resumed =>
      rename_i received await
      obtain rfl := carries.inHand
      cases await with
      | find =>
          obtain ⟨rfl, carried⟩ := resume_find_carries small readyHere partly resumed
          exact ⟨partly, carried⟩
      | updateConfirm txsInflight confirm =>
          obtain ⟨_, ⟨slot, hash⟩, txs, rfl, query, rfl⟩ := carries
          cases resumed
          exact ⟨partly.trans (classify_idempotent config slot txs) (partly_txsConfirm query),
            afterConfirm_carries small readyHere partly query⟩
      | updateRetry batch =>
          cases resumed
          exact ⟨carries.2, rfl⟩
      | updateRollback batch =>
          cases resumed
          exact ⟨carries.2, rfl⟩
      | setCursor =>
          cases resumed
          exact ⟨partly, trivial⟩

/-- An attempt leaves the event carried out in part. -/
theorem Attempt.partly (small : event.point.1.toNat < 2 ^ 63)
    (ready : ∀ id row, db.row id = some row → Ready event row)
    (attempt : Attempt profile config event db next) :
    Partly (effectOf config event) db.row next.row := by
  obtain ⟨trace, worker, run, guarded⟩ := attempt
  have preserved : Preserved (Step profile config)
      (fun _ label => ∀ received, label ≠ .receive received) (Interim config event db) :=
    fun _ _ _ interim same step => step.interim small ready same interim
  exact (run.invariant preserved ⟨.refl _ _, rfl⟩ guarded).partly

/-- Executing an event after any number of attempts, each of which was interrupted somewhere or
completed, leaves the records and the cursor which one uninterrupted execution leaves. -/
theorem execute_of_attempts (small : event.point.1.toNat < 2 ^ 63)
    (ready : ∀ id row, start.row id = some row → Ready event row)
    (attempts : Relation.ReflTransGen (Attempt profile config event) start db) :
    ∃ once again, (execute profile config event).exec start = (.ok (), once) ∧
      (execute profile config event).exec db = (.ok (), again) ∧
      (∀ id, again.row id = once.row id) ∧ again.cursor = once.cursor := by
  have kept : ∀ row, Ready event row → Ready event (effectOf config event row) :=
    fun _ => Ready.effectOf
  have partly : Partly (effectOf config event) start.row db.row :=
    .of_attempts (effectOf_idempotent config event) kept
      (fun _ _ readyHere attempt => attempt.partly small readyHere) ready attempts
  obtain ⟨once, first, rows, cursor⟩ := execute_effectOf small ready
  obtain ⟨again, second, rowsAgain, cursorAgain⟩ := execute_effectOf small
    (partly.forall ready kept)
  refine ⟨once, again, first, second, fun id => ?_, cursorAgain.trans cursor.symm⟩
  rw [rows, rowsAgain, partly.redo (effectOf_idempotent config event)]

/-- The process stops once the record is confirmed, before the cursor is stored. -/
def stoppedDb : Db :=
  (settle .debug ⟨1000⟩ 2 (sampleStored .inFlight 100, .awaiting (sampleBlock 110 1) .find)).1

theorem attempt_stoppedDb :
    Attempt .debug ⟨1000⟩ (sampleBlock 110 1) (sampleStored .inFlight 100) stoppedDb :=
  ⟨_, _, .cons (.resume rfl) (.cons (.resume rfl) .nil), by simp⟩

/-- The block is executed again after the process has stopped. -/
theorem execute_of_attempts_stoppedDb :
    ∃ once again,
      (execute .debug ⟨1000⟩ (sampleBlock 110 1)).exec (sampleStored .inFlight 100) =
          (.ok (), once) ∧
        (execute .debug ⟨1000⟩ (sampleBlock 110 1)).exec stoppedDb = (.ok (), again) ∧
        (∀ id, again.row id = once.row id) ∧ again.cursor = once.cursor :=
  execute_of_attempts (by decide)
    (fun _ _ found status => ⟨100, by decide, sampleStored_inFlight found status⟩)
    (.single attempt_stoppedDb)

end Boros.Pipeline.Monitor
