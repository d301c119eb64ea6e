import Boros.Ledger.U5c
import Boros.Semantics.Transition
import Boros.Storage.Rows

/-!
# The monitor stage

`src/pipeline/monitor.rs`. `execute` is the worker's function as one sequential
computation over the store. `Worker` is the same function cut at its awaits: it
names the storage call which is about to run, with everything computed since the
previous one, so that other stages may run in between. `execute_ok_iff` says that
the uninterrupted worker is the sequential function.
-/

namespace Boros.Pipeline

open Boros.Data Boros.Semantics Boros.Storage Boros.Ledger

namespace Monitor

/-- `monitor::Config`. -/
structure Config where
  retrySlotDiff : UInt64
deriving DecidableEq, Repr

/-- `txs.iter().any(|tx| hex::encode(&tx.hash) == id)`. -/
def containsTx (txs : List Tx) (id : String) : Bool :=
  txs.any fun tx => hexEncode tx.hash = id

/-- `txs_confirm`. -/
def txsConfirm (slot : UInt64) (txs : List Tx) (txsInflight : List Transaction) :
    List Transaction :=
  (txsInflight.filter fun itx => containsTx txs itx.id).map fun tx =>
    { tx with status := .confirmed, slot := some slot }

/-- The filter of `txs_retry`. -/
def isRetry (profile : Profile) (config : Config) (slot : UInt64)
    (txsConfirm : List Transaction) (itx : Transaction) : Except Fault Bool := do
  let sentAt ← unwrap itx.slot
  let diff ← u64Sub profile slot sentAt
  return config.retrySlotDiff < diff && !txsConfirm.any fun tx => tx.id = itx.id

/-- `txs_retry`. -/
def txsRetry (profile : Profile) (config : Config) (slot : UInt64)
    (txsConfirm : List Transaction) : List Transaction → Except Fault (List Transaction)
  | [] => .ok []
  | itx :: rest => do
    let retry ← isRetry profile config slot txsConfirm itx
    let others ← txsRetry profile config slot txsConfirm rest
    return if retry then { itx with status := .pending, slot := none } :: others else others

/-- The closure mapped over the records of a rollback. -/
def rollbackTx (slot : UInt64) (tx : Transaction) : Except Fault Transaction := do
  let confirmedAt ← unwrap tx.slot
  if confirmedAt > slot then
    return { tx with status := .inFlight, slot := none }
  else
    return { tx with slot := some slot }

/-- `storage.find(status).await.or_retry()`. -/
def find (status : TransactionStatus) : Effect Db WorkerError (List Transaction) :=
  Effect.query (fun db => db.find status) .retry

/-- `storage.find_to_rollback(slot).await.or_retry()`. -/
def findToRollback (slot : UInt64) : Effect Db WorkerError (List Transaction) :=
  Effect.query (fun db => db.findToRollback slot) .retry

/-- `storage.update_batch(txs).await.or_retry()`. -/
def updateBatch (txs : List Transaction) : Effect Db WorkerError Unit :=
  Effect.write (fun db => (.ok (db.updateBatch txs) : Except DbError Db)) .retry

/-- `if !txs.is_empty() { storage.update_batch(txs).await.or_retry()? }`. -/
def updateBatchUnlessEmpty (txs : List Transaction) : Effect Db WorkerError Unit :=
  if !txs.isEmpty then updateBatch txs else pure ()

/-- `cursor.set(cursor).await.or_retry()`. -/
def setCursor (cursor : Cursor) : Effect Db WorkerError Unit :=
  Effect.write (fun db => (.ok (db.setCursor cursor) : Except DbError Db)) .retry

/-- `Worker::execute`, with every storage call succeeding unless a stored value
does not decode. -/
def execute (profile : Profile) (config : Config) (event : Event) :
    Effect Db WorkerError Unit := do
  match event with
  | .rollForward (slot, _) txs =>
    let txsInflight ← find .inFlight
    let confirm := txsConfirm slot txs txsInflight
    updateBatchUnlessEmpty confirm
    let retry ← Effect.panicking (txsRetry profile config slot confirm txsInflight)
    updateBatchUnlessEmpty retry
  | .rollback (slot, _) =>
    let found ← findToRollback slot
    let txs ← Effect.panicking (found.mapM (rollbackTx slot))
    updateBatch txs
  setCursor ⟨event.point.1, event.point.2⟩

/-! ## What the pure parts select -/

section Pure

variable {profile : Profile} {config : Config} {slot : UInt64} {txs : List Tx}
  {txsInflight confirm retry : List Transaction} {tx : Transaction}

theorem mem_txsConfirm_iff :
    tx ∈ txsConfirm slot txs txsInflight ↔
      ∃ itx ∈ txsInflight, containsTx txs itx.id ∧
        tx = { itx with status := .confirmed, slot := some slot } := by
  simp only [txsConfirm, List.mem_map, List.mem_filter, and_assoc, @eq_comm _ tx]

/-- The confirmed batch names some of the records found, each once. -/
theorem txsConfirm_ids_sublist (slot : UInt64) (txs : List Tx) (txsInflight : List Transaction) :
    ((txsConfirm slot txs txsInflight).map Transaction.id).Sublist
      (txsInflight.map Transaction.id) := by
  have ids : (txsConfirm slot txs txsInflight).map Transaction.id =
      (txsInflight.filter fun itx => containsTx txs itx.id).map Transaction.id := by
    simp [txsConfirm]
  rw [ids]
  exact List.filter_sublist.map _

theorem isRetry_ok_iff {result : Bool} :
    isRetry profile config slot confirm tx = .ok result ↔
      ∃ sentAt diff, tx.slot = some sentAt ∧ u64Sub profile slot sentAt = .ok diff ∧
        result = (config.retrySlotDiff < diff && !confirm.any fun other => other.id = tx.id) := by
  simp only [isRetry, except_bind_ok_iff, unwrap_ok_iff, pure, Except.pure, Except.ok.injEq]
  constructor
  · rintro ⟨sentAt, found, diff, sub, rfl⟩
    exact ⟨sentAt, diff, found, sub, rfl⟩
  · rintro ⟨sentAt, diff, found, sub, rfl⟩
    exact ⟨sentAt, found, diff, sub, rfl⟩

/-- The retried batch: the filter ran on every record found without a panic, and
kept exactly the records on which it is true. -/
theorem txsRetry_ok (success : txsRetry profile config slot confirm txsInflight = .ok retry) :
    (∀ itx ∈ txsInflight, ∃ kept, isRetry profile config slot confirm itx = .ok kept) ∧
      retry = (txsInflight.filter fun itx =>
        isRetry profile config slot confirm itx = .ok true).map fun tx =>
          { tx with status := .pending, slot := none } := by
  induction txsInflight generalizing retry with
  | nil =>
      cases success
      simp
  | cons itx rest ih =>
      simp only [txsRetry, except_bind_ok_iff, pure, Except.pure, Except.ok.injEq] at success
      obtain ⟨kept, filtered, others, tail, rfl⟩ := success
      obtain ⟨total, rfl⟩ := ih tail
      constructor
      · intro other member
        rcases List.mem_cons.mp member with rfl | tailMem
        · exact ⟨kept, filtered⟩
        · exact total other tailMem
      · cases kept <;> simp [filtered]

theorem mem_txsRetry_iff (success : txsRetry profile config slot confirm txsInflight = .ok retry) :
    tx ∈ retry ↔ ∃ itx ∈ txsInflight, isRetry profile config slot confirm itx = .ok true ∧
      tx = { itx with status := .pending, slot := none } := by
  obtain ⟨_, rfl⟩ := txsRetry_ok success
  simp only [List.mem_map, List.mem_filter, decide_eq_true_eq, and_assoc, @eq_comm _ tx]

/-- The retried batch names some of the records found, each once. -/
theorem txsRetry_ids_sublist
    (success : txsRetry profile config slot confirm txsInflight = .ok retry) :
    (retry.map Transaction.id).Sublist (txsInflight.map Transaction.id) := by
  obtain ⟨_, rfl⟩ := txsRetry_ok success
  rw [List.map_map]
  exact List.filter_sublist.map _

/-- No record is both confirmed and retried. -/
theorem notMem_txsConfirm_of_mem_txsRetry
    (success : txsRetry profile config slot confirm txsInflight = .ok retry)
    (member : tx ∈ retry) : tx.id ∉ confirm.map Transaction.id := by
  obtain ⟨itx, _, kept, rfl⟩ := (mem_txsRetry_iff success).mp member
  obtain ⟨_, _, _, _, selected⟩ := isRetry_ok_iff.mp kept
  intro confirmed
  obtain ⟨other, otherMem, same⟩ := List.mem_map.mp confirmed
  simp only [Bool.true_eq, Bool.and_eq_true, Bool.not_eq_true', List.any_eq_false,
    decide_eq_true_eq] at selected
  exact selected.2 other otherMem same

theorem rollbackTx_ok_iff {result : Transaction} :
    rollbackTx slot tx = .ok result ↔ ∃ confirmedAt, tx.slot = some confirmedAt ∧
      result = if confirmedAt > slot then { tx with status := .inFlight, slot := none }
        else { tx with slot := some slot } := by
  simp only [rollbackTx, except_bind_ok_iff, unwrap_ok_iff]
  constructor
  · rintro ⟨confirmedAt, found, produced⟩
    refine ⟨confirmedAt, found, ?_⟩
    split at produced <;> cases produced <;> simp [*]
  · rintro ⟨confirmedAt, found, rfl⟩
    refine ⟨confirmedAt, found, ?_⟩
    split <;> rfl

/-- A rollback keeps the id of a record. -/
theorem rollbackTx_id {result : Transaction} (produced : rollbackTx slot tx = .ok result) :
    result.id = tx.id := by
  obtain ⟨confirmedAt, _, rfl⟩ := rollbackTx_ok_iff.mp produced
  split <;> rfl

/-- Writing back a rollback names exactly the records found, in their order. -/
theorem rollbackTx_ids {found written : List Transaction}
    (success : found.mapM (rollbackTx slot) = .ok written) :
    written.map Transaction.id = found.map Transaction.id :=
  Table.mapM_map_eq success Transaction.id Transaction.id fun _ _ => rollbackTx_id

/-- Every record a rollback writes back comes from one it found. -/
theorem mem_rollback {found written : List Transaction}
    (success : found.mapM (rollbackTx slot) = .ok written) (member : tx ∈ written) :
    ∃ old ∈ found, rollbackTx slot old = .ok tx := by
  have produced : Except.ok tx ∈ found.map (rollbackTx slot) := by
    rw [Table.mapM_ok success]
    exact List.mem_map_of_mem member
  simpa using produced

/-- Every record a rollback finds is written back. -/
theorem rollback_complete {found written : List Transaction}
    (success : found.mapM (rollbackTx slot) = .ok written) (member : tx ∈ found) :
    ∃ result ∈ written, rollbackTx slot tx = .ok result := by
  have produced : rollbackTx slot tx ∈ written.map Except.ok := by
    rw [← Table.mapM_ok success]
    exact List.mem_map_of_mem member
  obtain ⟨result, resultMem, same⟩ := List.mem_map.mp produced
  exact ⟨result, resultMem, same.symm⟩

end Pure

/-! ## What one execution does -/

section Execute

variable {profile : Profile} {config : Config} {slot : UInt64} {hash : Bytes} {txs : List Tx}
  {db next : Db}

@[simp]
theorem updateBatchUnlessEmpty_ok_iff {batch : List Transaction} {result : Unit} :
    (updateBatchUnlessEmpty batch).exec db = (.ok result, next) ↔ next = db.updateBatch batch := by
  cases batch with
  | nil => simp [updateBatchUnlessEmpty, eq_comm]
  | cons tx rest =>
      simp only [updateBatchUnlessEmpty, List.isEmpty_cons, Bool.not_false, if_true, updateBatch,
        Effect.write_ok_iff, Except.ok.injEq]
      exact eq_comm

/-- A successful `RollForward`: both batches are computed from one read, and
written one after the other. -/
theorem execute_rollForward_ok_iff :
    (execute profile config (.rollForward (slot, hash) txs)).exec db = (.ok (), next) ↔
      ∃ txsInflight retry, db.find .inFlight = .ok txsInflight ∧
        txsRetry profile config slot (txsConfirm slot txs txsInflight) txsInflight = .ok retry ∧
        next = ((db.updateBatch (txsConfirm slot txs txsInflight)).updateBatch retry).setCursor
          ⟨slot, hash⟩ := by
  simp only [execute, Effect.bind_ok_iff, find, setCursor, Effect.query_ok_iff,
    Effect.panicking_ok_iff, Effect.write_ok_iff, updateBatchUnlessEmpty_ok_iff, Except.ok.injEq]
  constructor
  · rintro ⟨txsInflight, _, ⟨query, rfl⟩, _, _, rfl, retry, _, ⟨retried, rfl⟩, _, _, rfl, rfl⟩
    exact ⟨txsInflight, retry, query, retried, rfl⟩
  · rintro ⟨txsInflight, retry, query, retried, rfl⟩
    exact ⟨txsInflight, db, ⟨query, rfl⟩, (), _, rfl, retry, _, ⟨retried, rfl⟩, (), _, rfl, rfl⟩

/-- A successful `Rollback`. -/
theorem execute_rollback_ok_iff :
    (execute profile config (.rollback (slot, hash))).exec db = (.ok (), next) ↔
      ∃ found written, db.findToRollback slot = .ok found ∧
        found.mapM (rollbackTx slot) = .ok written ∧
        next = (db.updateBatch written).setCursor ⟨slot, hash⟩ := by
  simp only [execute, Effect.bind_ok_iff, findToRollback, updateBatch, setCursor,
    Effect.query_ok_iff, Effect.panicking_ok_iff, Effect.write_ok_iff, Except.ok.injEq]
  constructor
  · rintro ⟨found, _, ⟨query, rfl⟩, written, _, ⟨mapped, rfl⟩, _, _, rfl, rfl⟩
    exact ⟨found, written, query, mapped, rfl⟩
  · rintro ⟨found, written, query, mapped, rfl⟩
    exact ⟨found, db, ⟨query, rfl⟩, written, db, ⟨mapped, rfl⟩, (), _, rfl, rfl⟩

/-- The row a record stands for, with a new status and slot. -/
theorem assign_fromRow {row : TxRow} {tx : Transaction} (decoded : row.fromRow = .ok tx)
    (status : TransactionStatus) (newSlot : Option UInt64) :
    row.assign { tx with status := status, slot := newSlot } =
      { row with status := status, slot := newSlot.map asI64 } := by
  obtain ⟨_, raw, _⟩ := TxRow.fromRow_ok decoded
  simp [TxRow.assign, raw]

/-- What a confirmed batch computed from a read of the same store does to a row. -/
theorem row_txsConfirm (slot : UInt64) (txs : List Tx) {txsInflight : List Transaction}
    {id : String} {row : TxRow} (query : db.find .inFlight = .ok txsInflight)
    (found : db.row id = some row) :
    (db.updateBatch (txsConfirm slot txs txsInflight)).row id =
      some (if row.status = .inFlight ∧ containsTx txs id
        then { row with status := .confirmed, slot := some (asI64 slot) } else row) := by
  have distinct := (Db.find_selected query).distinct.sublist
    (txsConfirm_ids_sublist slot txs txsInflight)
  by_cases selected : row.status = .inFlight ∧ containsTx txs id
  · obtain ⟨itx, member, rfl, decoded⟩ := Db.find_complete query found selected.1
    have confirmed : { itx with status := .confirmed, slot := some slot } ∈
        txsConfirm slot txs txsInflight :=
      mem_txsConfirm_iff.mpr ⟨itx, member, selected.2, rfl⟩
    have written := Db.row_updateBatch_of_mem db distinct confirmed
    simp only at written
    rw [written, found, if_pos selected, Option.map_some, assign_fromRow decoded]
    rfl
  · have unnamed : id ∉ (txsConfirm slot txs txsInflight).map Transaction.id := by
      intro named
      obtain ⟨tx, member, rfl⟩ := List.mem_map.mp named
      obtain ⟨itx, itxMem, contained, rfl⟩ := mem_txsConfirm_iff.mp member
      obtain ⟨stored, storedAt, status, _⟩ := Db.find_sound query itxMem
      rw [found] at storedAt
      cases storedAt
      exact selected ⟨status, contained⟩
    rw [Db.row_updateBatch_of_notMem unnamed, found, if_neg selected]

/-- What a successful `RollForward` does to a stored row: an in-flight row of the
block is confirmed, an in-flight row of no block may go back to pending, and no
other row changes. -/
theorem row_rollForward {id : String} {row : TxRow}
    (success : (execute profile config (.rollForward (slot, hash) txs)).exec db = (.ok (), next))
    (found : db.row id = some row) :
    (row.status = .inFlight ∧ containsTx txs id ∧
        next.row id = some { row with status := .confirmed, slot := some (asI64 slot) }) ∨
      (row.status = .inFlight ∧ ¬ containsTx txs id ∧
        next.row id = some { row with status := .pending, slot := none }) ∨
      (¬ (row.status = .inFlight ∧ containsTx txs id) ∧ next.row id = some row) := by
  obtain ⟨txsInflight, retry, query, retried, rfl⟩ := execute_rollForward_ok_iff.mp success
  have distinct := (Db.find_selected query).distinct.sublist (txsRetry_ids_sublist retried)
  have confirmed := row_txsConfirm slot txs query found
  rw [Db.row_setCursor]
  by_cases named : id ∈ retry.map Transaction.id
  · obtain ⟨tx, member, rfl⟩ := List.mem_map.mp named
    have apart := notMem_txsConfirm_of_mem_txsRetry retried member
    obtain ⟨itx, itxMem, _, rfl⟩ := (mem_txsRetry_iff retried).mp member
    obtain ⟨stored, storedAt, status, decoded⟩ := Db.find_sound query itxMem
    rw [found] at storedAt
    cases storedAt
    have outside : ¬ containsTx txs itx.id := by
      intro contained
      exact apart (List.mem_map.mpr ⟨_, mem_txsConfirm_iff.mpr ⟨itx, itxMem, contained, rfl⟩, rfl⟩)
    have unchanged : (db.updateBatch (txsConfirm slot txs txsInflight)).row itx.id = some row := by
      rw [confirmed, if_neg fun selected => outside selected.2]
    have written := Db.row_updateBatch_of_mem
      (db.updateBatch (txsConfirm slot txs txsInflight)) distinct member
    simp only at written
    refine .inr (.inl ⟨status, outside, ?_⟩)
    rw [written, unchanged, Option.map_some, assign_fromRow decoded]
    rfl
  · rw [Db.row_updateBatch_of_notMem named, confirmed]
    by_cases selected : row.status = .inFlight ∧ containsTx txs id
    · exact .inl ⟨selected.1, selected.2, by rw [if_pos selected]⟩
    · exact .inr (.inr ⟨selected, by rw [if_neg selected]⟩)

/-- Whether a stored slot is above a slot, as numbers. -/
def recordedAbove (stored : Option Int64) (slot : UInt64) : Prop :=
  ∃ value, stored = some value ∧ (slot.toNat : Int) < value.toInt

instance (stored : Option Int64) (slot : UInt64) : Decidable (recordedAbove stored slot) :=
  match stored with
  | none => .isFalse fun above => by
      obtain ⟨_, impossible, _⟩ := above
      cases impossible
  | some value => decidable_of_iff ((slot.toNat : Int) < value.toInt)
      ⟨fun larger => ⟨value, rfl, larger⟩, fun above => by
        obtain ⟨_, same, larger⟩ := above
        cases same
        exact larger⟩

/-- The query of `find_to_rollback` misses no slot above the bound. -/
theorem slotAbove_of_recordedAbove {stored : Option Int64} (above : recordedAbove stored slot) :
    slotAbove stored (asI64 slot) := by
  obtain ⟨value, rfl, larger⟩ := above
  have bound : value.toInt < 2 ^ 63 := value.toInt_lt
  have small : slot.toNat < 2 ^ 63 := by omega
  have comparison : asI64 slot < value := by
    rw [Int64.lt_iff_toInt_lt, asI64_of_lt small]
    exact larger
  simpa [slotAbove] using comparison

/-- The comparison of the rollback closure, on a decoded record. -/
theorem recordedAbove_iff_of_readSlot {stored : Option Int64} {confirmedAt : UInt64}
    (read : readSlot stored = .ok (some confirmedAt)) :
    recordedAbove stored slot ↔ confirmedAt > slot := by
  obtain ⟨value, rfl, decoded⟩ := readSlot_some read
  have same := toNat_of_tryFromI64 decoded
  rw [gt_iff_lt, UInt64.lt_iff_toNat_lt]
  constructor
  · rintro ⟨_, equal, larger⟩
    cases equal
    omega
  · intro larger
    exact ⟨value, rfl, by omega⟩

/-- What a successful `Rollback` does to a stored row: a confirmed row above the
slot goes back in flight without a slot; every other row keeps its status. -/
theorem row_rollback {id : String} {row : TxRow}
    (success : (execute profile config (.rollback (slot, hash))).exec db = (.ok (), next))
    (found : db.row id = some row) :
    (row.status = .confirmed ∧ recordedAbove row.slot slot ∧
        next.row id = some { row with status := .inFlight, slot := none }) ∨
      ((row.status = .confirmed → ¬ recordedAbove row.slot slot) ∧
        ∃ after, next.row id = some after ∧ after.status = row.status) := by
  obtain ⟨foundTxs, written, query, mapped, rfl⟩ := execute_rollback_ok_iff.mp success
  have selection := Db.findToRollback_selected query
  have distinct : (written.map Transaction.id).Nodup := by
    rw [rollbackTx_ids mapped]
    exact selection.distinct
  rw [Db.row_setCursor]
  by_cases named : id ∈ written.map Transaction.id
  · rw [rollbackTx_ids mapped] at named
    obtain ⟨old, oldMem, rfl⟩ := List.mem_map.mp named
    obtain ⟨tx, member, produced⟩ := rollback_complete mapped oldMem
    obtain ⟨stored, storedAt, selected, decoded⟩ := selection.sound old oldMem
    rw [found] at storedAt
    cases storedAt
    have sameId := rollbackTx_id produced
    obtain ⟨confirmedAt, oldSlot, rfl⟩ := rollbackTx_ok_iff.mp produced
    have read := (TxRow.fromRow_ok decoded).2.2.2.2.2.2
    rw [oldSlot] at read
    have status : row.status = .confirmed := by
      simp only [Bool.and_eq_true, decide_eq_true_eq] at selected
      exact selected.1
    have assigned := Db.row_updateBatch_of_mem db distinct member
    rw [sameId, found, Option.map_some] at assigned
    by_cases above : confirmedAt > slot
    · refine .inl ⟨status, (recordedAbove_iff_of_readSlot read).mpr above, ?_⟩
      rw [assigned, if_pos above, assign_fromRow decoded]
      rfl
    · refine .inr ⟨fun _ recorded => above ((recordedAbove_iff_of_readSlot read).mp recorded),
        _, assigned, ?_⟩
      rw [if_neg above]
      exact (TxRow.fromRow_ok decoded).2.2.1
  · refine .inr ⟨fun status above => named ?_, row, ?_, rfl⟩
    · rw [rollbackTx_ids mapped]
      obtain ⟨tx, member, same, _⟩ := selection.complete id row found
        (by simp [status, slotAbove_of_recordedAbove above])
      exact List.mem_map.mpr ⟨tx, member, same⟩
    · rw [Db.row_updateBatch_of_notMem named, found]

/-- No event creates or removes a row. -/
theorem row_execute_isSome {event : Event} (id : String)
    (success : (execute profile config event).exec db = (.ok (), next)) :
    (next.row id).isSome = (db.row id).isSome := by
  cases event with
  | rollForward point txs =>
      obtain ⟨_, _, _, _, rfl⟩ := execute_rollForward_ok_iff.mp success
      rw [Db.row_setCursor, Db.row_updateBatch_isSome, Db.row_updateBatch_isSome]
  | rollback point =>
      obtain ⟨_, _, _, _, rfl⟩ := execute_rollback_ok_iff.mp success
      rw [Db.row_setCursor, Db.row_updateBatch_isSome]

end Execute

/-! ## The worker, cut at its awaits -/

/-- The storage call `execute` is about to make. -/
inductive Await where
  /-- `find(InFlight)` or `find_to_rollback`. -/
  | find
  | updateConfirm (txsInflight txsConfirm : List Transaction)
  | updateRetry (txsRetry : List Transaction)
  | updateRollback (txs : List Transaction)
  | setCursor
deriving DecidableEq, Repr

/-- The monitor stage between two of its steps. -/
inductive Worker where
  /-- Waiting in `schedule` for the next event. -/
  | schedule
  | awaiting (event : Event) (await : Await)
  /-- `execute` returned `WorkerError::Retry`; the event is still in hand. -/
  | retrying (event : Event)
  | panicked (fault : Fault)
deriving DecidableEq, Repr

/-- After the confirmed batch: compute the records to retry. -/
def afterConfirm (profile : Profile) (config : Config) (event : Event)
    (txsInflight txsConfirm : List Transaction) : Worker :=
  match txsRetry profile config event.point.1 txsConfirm txsInflight with
  | .error fault => .panicked fault
  | .ok [] => .awaiting event .setCursor
  | .ok retry => .awaiting event (.updateRetry retry)

/-- After `find(InFlight)`: compute the records to confirm. -/
def afterFind (profile : Profile) (config : Config) (event : Event) (txs : List Tx)
    (txsInflight : List Transaction) : Worker :=
  match txsConfirm event.point.1 txs txsInflight with
  | [] => afterConfirm profile config event txsInflight []
  | confirm => .awaiting event (.updateConfirm txsInflight confirm)

/-- After `find_to_rollback`: compute the records to write back. -/
def afterFindToRollback (event : Event) (found : List Transaction) : Worker :=
  match found.mapM (rollbackTx event.point.1) with
  | .error fault => .panicked fault
  | .ok txs => .awaiting event (.updateRollback txs)

/-- The storage call in hand succeeds, unless a stored value does not decode. -/
def resume (profile : Profile) (config : Config) (event : Event) (db : Db) :
    Await → Db × Worker
  | .find =>
    match event with
    | .rollForward _ txs =>
      match db.find .inFlight with
      | .ok txsInflight => (db, afterFind profile config event txs txsInflight)
      | .error _ => (db, .retrying event)
    | .rollback (slot, _) =>
      match db.findToRollback slot with
      | .ok found => (db, afterFindToRollback event found)
      | .error _ => (db, .retrying event)
  | .updateConfirm txsInflight confirm =>
    (db.updateBatch confirm, afterConfirm profile config event txsInflight confirm)
  | .updateRetry retry => (db.updateBatch retry, .awaiting event .setCursor)
  | .updateRollback txs => (db.updateBatch txs, .awaiting event .setCursor)
  | .setCursor => (db.setCursor ⟨event.point.1, event.point.2⟩, .schedule)

/-- What happens to the monitor next. -/
inductive Label where
  /-- The stream yields an event. -/
  | receive (event : Event)
  /-- The storage call in hand is made. -/
  | resume
  /-- The storage call in hand fails and changes nothing. -/
  | fail
  /-- gasket runs `execute` again with the event in hand. -/
  | rerun
deriving DecidableEq, Repr

/-- One step of the monitor stage. -/
inductive Step (profile : Profile) (config : Config) :
    Db × Worker → Label → Db × Worker → Prop where
  | receive {db} (event : Event) : Step profile config (db, .schedule) (.receive event)
      (db, .awaiting event .find)
  | resume {db event await next worker}
      (resumed : resume profile config event db await = (next, worker)) :
      Step profile config (db, .awaiting event await) .resume (next, worker)
  | fail {db event await} : Step profile config (db, .awaiting event await) .fail
      (db, .retrying event)
  | rerun {db event} : Step profile config (db, .retrying event) .rerun
      (db, .awaiting event .find)

/-- The event which the worker executes. -/
def Worker.inHand : Worker → Option Event
  | .awaiting event _ => some event
  | .retrying event => some event
  | _ => none

theorem afterConfirm_inHand {profile : Profile} {config : Config} {event : Event}
    {txsInflight confirm : List Transaction} :
    (afterConfirm profile config event txsInflight confirm).inHand = some event ∨
      (afterConfirm profile config event txsInflight confirm).inHand = none := by
  unfold afterConfirm
  split
  · exact .inr rfl
  · exact .inl rfl
  · exact .inl rfl

/-- The first storage call of an event reads the records which it is about. -/
theorem resume_find {profile : Profile} {config : Config} {event : Event} {db next : Db}
    {after : Worker} (resumed : resume profile config event db .find = (next, after)) :
    next = db ∧ (after = .retrying event ∨
      (∃ point txs txsInflight, event = .rollForward point txs ∧
        db.find .inFlight = .ok txsInflight ∧
          after = afterFind profile config event txs txsInflight) ∨
      ∃ slot hash found, event = .rollback (slot, hash) ∧ db.findToRollback slot = .ok found ∧
        after = afterFindToRollback event found) := by
  cases event with
  | rollForward point txs =>
      cases query : db.find .inFlight with
      | error cause =>
          simp only [resume, query, Prod.mk.injEq] at resumed
          obtain ⟨rfl, rfl⟩ := resumed
          exact ⟨rfl, .inl rfl⟩
      | ok txsInflight =>
          simp only [resume, query, Prod.mk.injEq] at resumed
          obtain ⟨rfl, rfl⟩ := resumed
          exact ⟨rfl, .inr (.inl ⟨point, txs, txsInflight, rfl, rfl, rfl⟩)⟩
  | rollback point =>
      obtain ⟨slot, hash⟩ := point
      cases query : db.findToRollback slot with
      | error cause =>
          simp only [resume, query, Prod.mk.injEq] at resumed
          obtain ⟨rfl, rfl⟩ := resumed
          exact ⟨rfl, .inl rfl⟩
      | ok found =>
          simp only [resume, query, Prod.mk.injEq] at resumed
          obtain ⟨rfl, rfl⟩ := resumed
          exact ⟨rfl, .inr (.inr ⟨slot, hash, found, rfl, query, rfl⟩)⟩

/-- A storage call leaves the event in hand, or ends its execution. -/
theorem resume_inHand {profile : Profile} {config : Config} {event : Event} {db next : Db}
    {await : Await} {after : Worker}
    (resumed : resume profile config event db await = (next, after)) :
    after.inHand = some event ∨ after.inHand = none := by
  cases await with
  | find =>
      rcases (resume_find resumed).2 with rfl | ⟨_, _, _, rfl, _, rfl⟩ | ⟨_, _, _, rfl, _, rfl⟩
      · exact .inl rfl
      · unfold afterFind
        split
        · exact afterConfirm_inHand
        · exact .inl rfl
      · unfold afterFindToRollback
        split
        · exact .inr rfl
        · exact .inl rfl
  | updateConfirm txsInflight confirm =>
      cases resumed
      exact afterConfirm_inHand
  | updateRetry retry =>
      cases resumed
      exact .inl rfl
  | updateRollback txs =>
      cases resumed
      exact .inl rfl
  | setCursor =>
      cases resumed
      exact .inr rfl

/-- An event has been executed once its cursor is stored. -/
theorem resume_schedule {profile : Profile} {config : Config} {event : Event} {db next : Db}
    {await : Await} (resumed : resume profile config event db await = (next, .schedule)) :
    next = db.setCursor ⟨event.point.1, event.point.2⟩ := by
  have confirm : ∀ txsInflight txsConfirm,
      afterConfirm profile config event txsInflight txsConfirm ≠ .schedule := by
    intro txsInflight txsConfirm
    fun_cases afterConfirm profile config event txsInflight txsConfirm <;> simp
  cases await with
  | find =>
      rcases (resume_find resumed).2 with same | ⟨_, txs, txsInflight, _, _, same⟩ |
        ⟨_, _, found, _, _, same⟩
      · cases same
      · unfold afterFind at same
        split at same
        · exact absurd same.symm (confirm _ _)
        · cases same
      · unfold afterFindToRollback at same
        split at same <;> cases same
  | updateConfirm txsInflight txsConfirm => exact absurd (congrArg Prod.snd resumed) (confirm _ _)
  | updateRetry retry => cases resumed
  | updateRollback txs => cases resumed
  | setCursor =>
      cases resumed
      rfl

/-- The event in hand changes only when one is received. -/
theorem Step.inHand {profile : Profile} {config : Config} {db next : Db} {worker after : Worker}
    {label : Label} {event : Event}
    (step : Step profile config (db, worker) label (next, after))
    (holds : after.inHand = some event) :
    worker.inHand = some event ∨ label = .receive event := by
  cases step with
  | receive event =>
      cases holds
      exact .inr rfl
  | fail => exact .inl holds
  | rerun => exact .inl holds
  | resume resumed =>
      rcases resume_inHand resumed with same | none
      · rw [same] at holds
        exact .inl holds
      · rw [none] at holds
        cases holds

/-- The worker schedules again once it has stored the cursor of the event in hand. -/
theorem Step.of_schedule {profile : Profile} {config : Config} {db next : Db} {worker : Worker}
    {label : Label} (step : Step profile config (db, worker) label (next, .schedule)) :
    ∃ event, worker.inHand = some event ∧ next = db.setCursor ⟨event.point.1, event.point.2⟩ := by
  cases step with
  | resume resumed => exact ⟨_, rfl, resume_schedule resumed⟩

/-- The worker left alone: its storage calls are made one after the other, at
most `calls` of them. -/
def settle (profile : Profile) (config : Config) : Nat → Db × Worker → Db × Worker
  | calls + 1, (db, .awaiting event await) =>
    settle profile config calls (resume profile config event db await)
  | _, state => state

/-- Being left alone is a run of the worker. -/
theorem run_settle (profile : Profile) (config : Config) (calls : Nat) (state : Db × Worker) :
    ∃ trace, Run (Step profile config) state trace (settle profile config calls state) := by
  induction calls generalizing state with
  | zero => exact ⟨[], by cases state; exact .nil⟩
  | succ calls ih =>
      obtain ⟨db, worker⟩ := state
      cases worker with
      | awaiting event await =>
          obtain ⟨trace, rest⟩ := ih (Monitor.resume profile config event db await)
          exact ⟨_, .cons (.resume rfl) rest⟩
      | schedule => exact ⟨[], .nil⟩
      | retrying event => exact ⟨[], .nil⟩
      | panicked fault => exact ⟨[], .nil⟩

/-- The worker left alone is `execute`: it finishes an event exactly when the
sequential function succeeds, and leaves the same store. -/
theorem execute_ok_iff {profile : Profile} {config : Config} {event : Event} {db next : Db} :
    (execute profile config event).exec db = (.ok (), next) ↔
      settle profile config 4 (db, .awaiting event .find) = (next, .schedule) := by
  cases event with
  | rollForward point txs =>
      obtain ⟨slot, hash⟩ := point
      rw [execute_rollForward_ok_iff]
      cases query : db.find .inFlight with
      | error cause => simp [settle, Monitor.resume, query]
      | ok txsInflight =>
          cases confirm : txsConfirm slot txs txsInflight with
          | nil =>
              cases retried : txsRetry profile config slot [] txsInflight with
              | error fault =>
                  simp [settle, Monitor.resume, query, afterFind, afterConfirm, Event.point,
                    confirm, retried]
              | ok retry =>
                  cases retry <;>
                    simp [settle, Monitor.resume, query, afterFind, afterConfirm, Event.point,
                      confirm, retried, eq_comm]
          | cons tx rest =>
              cases retried : txsRetry profile config slot (tx :: rest) txsInflight with
              | error fault =>
                  simp [settle, Monitor.resume, query, afterFind, afterConfirm, Event.point,
                    confirm, retried]
              | ok retry =>
                  cases retry <;>
                    simp [settle, Monitor.resume, query, afterFind, afterConfirm, Event.point,
                      confirm, retried, eq_comm]
  | rollback point =>
      obtain ⟨slot, hash⟩ := point
      rw [execute_rollback_ok_iff]
      cases query : db.findToRollback slot with
      | error cause => simp [settle, Monitor.resume, query]
      | ok found =>
          cases mapped : found.mapM (rollbackTx slot) with
          | error fault =>
              simp [settle, Monitor.resume, query, afterFindToRollback, Event.point, mapped]
          | ok written =>
              simp [settle, Monitor.resume, query, afterFindToRollback, Event.point, mapped,
                eq_comm]

end Monitor

end Boros.Pipeline
