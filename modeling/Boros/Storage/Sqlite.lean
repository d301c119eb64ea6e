import Mathlib.Data.List.Sort
import Mathlib.Data.List.MinMax
import Mathlib.Data.List.Dedup
import Boros.Storage.Transaction

/-!
# The SQLite store

`src/storage/sqlite.rs` over the schema of
`src/storage/migrations/20250120_init.sql`. The `status` column is modelled by
the status itself (`TransactionStatus.fromStr_display`); the `slot` column is a
signed 64-bit integer, so writing a slot casts it and reading it back may fail.

`Db.row` is the `tx` table seen as a finite map from ids. Each operation has one
lemma about it here, and later modules do not look at the row list.
-/

namespace Boros.Storage

open Boros.Data Boros.Semantics Boros.Queue

/-- Why a statement failed on its own account. -/
inductive DbError where
  /-- A column value is out of range for the type it is decoded to. -/
  | decode
  /-- `UNIQUE constraint failed`. -/
  | unique
  /-- `FOREIGN KEY constraint failed`. -/
  | foreignKey
  /-- `too many terms in compound SELECT`. -/
  | compoundSelect
  /-- A placeholder is unbound or bound to a value of another type. -/
  | bind
deriving DecidableEq, Repr

/-- A row of table `tx`. -/
structure TxRow where
  id : String
  raw : Bytes
  status : TransactionStatus
  slot : Option Int64
  queue : String
  createdAt : Nat
deriving DecidableEq, Repr

/-- A row of table `cursor`, less its constant id. -/
structure CursorRow where
  slot : Int64
  hash : Bytes
deriving DecidableEq, Repr

/-- The database file which both `SqliteTransaction` and `SqliteCursor` share. -/
structure Db where
  tx : Table TxRow String TxRow.id
  txDependence : List (String × String)
  cursor : Option CursorRow
deriving DecidableEq

/-- The database after the migrations. -/
def Db.empty : Db := ⟨Table.empty, [], none⟩

/-- The row stored under an id. -/
def Db.row (db : Db) (id : String) : Option TxRow := db.tx.lookup id

@[simp]
theorem Db.row_empty (id : String) : Db.empty.row id = none := rfl

theorem Db.row_id {db : Db} {id : String} {row : TxRow} (found : db.row id = some row) :
    row.id = id :=
  Table.key_of_lookup found

/-! ## Rows and records -/

/-- Decode the nullable `slot` column. -/
def readSlot : Option Int64 → Except DbError (Option UInt64)
  | none => .ok none
  | some stored =>
    match tryFromI64 stored with
    | some slot => .ok (some slot)
    | none => .error .decode

/-- `Transaction::from_row`. -/
def TxRow.fromRow (row : TxRow) : Except DbError Transaction :=
  match readSlot row.slot with
  | .error cause => .error cause
  | .ok slot => .ok
    { id := row.id
      raw := row.raw
      status := row.status
      queue := row.queue
      slot := slot
      dependencies := none
      createdAt := row.createdAt }

/-- What a decoded record says about the row it came from. -/
theorem TxRow.fromRow_ok {row : TxRow} {tx : Transaction} (decoded : row.fromRow = .ok tx) :
    tx.id = row.id ∧ tx.raw = row.raw ∧ tx.status = row.status ∧ tx.queue = row.queue ∧
      tx.createdAt = row.createdAt ∧ tx.dependencies = none ∧ readSlot row.slot = .ok tx.slot := by
  unfold fromRow at decoded
  split at decoded
  · cases decoded
  · rename_i slot read
    cases decoded
    exact ⟨rfl, rfl, rfl, rfl, rfl, rfl, read⟩

/-- A row decodes exactly if its slot does. -/
theorem TxRow.fromRow_isOk_iff {row : TxRow} :
    (∃ tx, row.fromRow = .ok tx) ↔ ∃ slot, readSlot row.slot = .ok slot := by
  fun_cases TxRow.fromRow row <;> simp [*]

theorem TxRow.fromRow_id {row : TxRow} {tx : Transaction} (decoded : row.fromRow = .ok tx) :
    tx.id = row.id :=
  (fromRow_ok decoded).1

/-- A slot is absent after decoding exactly when the column is null. -/
theorem readSlot_none_iff {stored : Option Int64} {slot : Option UInt64}
    (read : readSlot stored = .ok slot) : slot = none ↔ stored = none := by
  cases stored with
  | none =>
      cases read
      simp
  | some value =>
      simp only [readSlot] at read
      split at read
      · cases read
        simp
      · cases read

/-- A slot below the sign boundary is read back. -/
theorem readSlot_asI64 {slot : UInt64} (small : slot.toNat < 2 ^ 63) :
    readSlot (some (asI64 slot)) = .ok (some slot) := by
  simp only [readSlot, tryFromI64_asI64, if_pos small]

/-- A slot which is present after decoding was stored. -/
theorem readSlot_some {stored : Option Int64} {slot : UInt64}
    (read : readSlot stored = .ok (some slot)) :
    ∃ value, stored = some value ∧ tryFromI64 value = some slot := by
  cases stored with
  | none => cases read
  | some value =>
      refine ⟨value, rfl, ?_⟩
      simp only [readSlot] at read
      split at read
      · rename_i decoded
        cases read
        exact decoded
      · cases read

/-- The columns which `create` inserts; `slot` is left null. -/
def TxRow.ofTransaction (tx : Transaction) : TxRow where
  id := tx.id
  raw := tx.raw
  status := tx.status
  slot := none
  queue := tx.queue
  createdAt := tx.createdAt

/-- The columns which `UPDATE tx SET …` assigns. -/
def TxRow.assign (row : TxRow) (tx : Transaction) : TxRow :=
  { row with raw := tx.raw, status := tx.status, slot := tx.slot.map asI64 }

@[simp]
theorem TxRow.assign_id (row : TxRow) (tx : Transaction) : (row.assign tx).id = row.id := rfl

@[simp]
theorem TxRow.assign_raw (row : TxRow) (tx : Transaction) : (row.assign tx).raw = tx.raw := rfl

@[simp]
theorem TxRow.assign_status (row : TxRow) (tx : Transaction) :
    (row.assign tx).status = tx.status := rfl

@[simp]
theorem TxRow.assign_slot (row : TxRow) (tx : Transaction) :
    (row.assign tx).slot = tx.slot.map asI64 := rfl

@[simp]
theorem TxRow.assign_queue (row : TxRow) (tx : Transaction) :
    (row.assign tx).queue = row.queue := rfl

@[simp]
theorem TxRow.assign_createdAt (row : TxRow) (tx : Transaction) :
    (row.assign tx).createdAt = row.createdAt := rfl

/-! ## `SqliteTransaction::create` -/

/-- `INSERT INTO tx`. -/
def Db.insertTx (db : Db) (tx : Transaction) : Except DbError Db :=
  match db.tx.insert? (.ofTransaction tx) with
  | some table => .ok { db with tx := table }
  | none => .error .unique

/-- `INSERT INTO tx_dependence`, with its primary key and both foreign keys. -/
def Db.insertDependence (dependentId : String) (db : Db) (requiredId : String) :
    Except DbError Db :=
  if (dependentId, requiredId) ∈ db.txDependence then .error .unique
  else if (db.row dependentId).isSome && (db.row requiredId).isSome then
    .ok { db with txDependence := db.txDependence ++ [(dependentId, requiredId)] }
  else .error .foreignKey

/-- One iteration of the loop of `create`. -/
def Db.createOne (db : Db) (tx : Transaction) : Except DbError Db := do
  let db ← db.insertTx tx
  match tx.dependencies with
  | some dependencies => dependencies.foldlM (Db.insertDependence tx.id) db
  | none => return db

/-- `create`: one database transaction, so that a failure changes nothing. -/
def Db.create (db : Db) (txs : List Transaction) : Except DbError Db :=
  txs.foldlM Db.createOne db

/-! ## Queries -/

/-- `find`. -/
def Db.find (db : Db) (status : TransactionStatus) : Except DbError (List Transaction) :=
  db.tx.fetch (fun row => row.status = status) TxRow.fromRow

/-- The comparison `tx.slot > $2`, which is null and so not true for a null slot. -/
def slotAbove (stored : Option Int64) (bound : Int64) : Bool :=
  match stored with
  | some slot => bound < slot
  | none => false

/-- `find_to_rollback`. -/
def Db.findToRollback (db : Db) (slot : UInt64) : Except DbError (List Transaction) :=
  db.tx.fetch (fun row => row.status = .confirmed && slotAbove row.slot (asI64 slot)) TxRow.fromRow

/-- `latest`: the record of a queue with the greatest `created_at`. -/
def Db.latest (db : Db) (queue : String) : Except DbError (Option Transaction) :=
  match (db.tx.select fun row => row.queue = queue).argmax TxRow.createdAt with
  | some row => row.fromRow.map some
  | none => .ok none

/-- `state`: how many rows of each queue have a status. -/
def Db.state (db : Db) (status : TransactionStatus) : List TransactionState :=
  let rows := db.tx.select fun row => row.status = status
  (rows.map TxRow.queue).dedup.map fun queue =>
    ⟨queue, rows.countP fun row => row.queue = queue⟩

/-! ### `SqliteTransaction::next` -/

/-- A value bound to a placeholder. -/
inductive SqlValue where
  | text (value : String)
  | integer (value : Int)
deriving DecidableEq, Repr

/-- The placeholders `$queue` and `$limit` of one subselect
`SELECT … WHERE tx.status = $1 AND tx.queue = $queue ORDER BY created_at LIMIT $limit`. -/
structure SubSelect where
  queueParam : Nat
  limitParam : Nat
deriving DecidableEq, Repr

/-- The first pass over the map: number the placeholders of each subselect,
counting up from `paramIndex`. -/
def subSelects (paramIndex : Nat) : List (String × UInt16) → List SubSelect
  | [] => []
  | _ :: rest => ⟨paramIndex, paramIndex + 1⟩ :: subSelects (paramIndex + 2) rest

/-- The second pass over the map: the values bound after the status. -/
def queueBinds (queues : List (String × UInt16)) : List SqlValue :=
  queues.flatMap fun entry => [.text entry.1, .integer entry.2.toNat]

/-- The value bound to `$index`; placeholders count from one. -/
def boundValue (binds : List SqlValue) (index : Nat) : Option SqlValue :=
  if index = 0 then none else binds[index - 1]?

/-- `SQLITE_MAX_COMPOUND_SELECT`. -/
def maxCompoundSelect : Nat := 500

/-- The rows of one subselect, oldest first. -/
def Db.runSubSelect (db : Db) (binds : List SqlValue) (subSelect : SubSelect) :
    Except DbError (List TxRow) :=
  match boundValue binds 1, boundValue binds subSelect.queueParam,
      boundValue binds subSelect.limitParam with
  | some (.text status), some (.text queue), some (.integer limit) =>
    .ok (((db.tx.select fun row => row.status.display = status && row.queue = queue).insertionSort
      fun first second => first.createdAt ≤ second.createdAt).take limit.toNat)
  | _, _, _ => .error .bind

/-- `next`: the `UNION ALL` of one limited subselect a queue of the map. -/
def Db.next (db : Db) (status : TransactionStatus) (queues : List (String × UInt16)) :
    Except DbError (List Transaction) := do
  let query := subSelects 2 queues
  let binds := .text status.display :: queueBinds queues
  if maxCompoundSelect < query.length then throw .compoundSelect
  let rows ← query.mapM (db.runSubSelect binds)
  rows.flatten.mapM TxRow.fromRow

/-! ## Updates -/

/-- `update`: whole-row assignment by id, whatever the stored status. -/
def Db.update (db : Db) (tx : Transaction) : Db :=
  { db with tx := db.tx.modify tx.id (fun row => row.assign tx) fun _ => rfl }

/-- `update_batch`: the same assignments in one database transaction. -/
def Db.updateBatch (db : Db) (txs : List Transaction) : Db :=
  txs.foldl Db.update db

/-- `SqliteCursor::set`. -/
def Db.setCursor (db : Db) (cursor : Cursor) : Db :=
  { db with cursor := some ⟨asI64 cursor.slot, cursor.hash⟩ }

/-- `SqliteCursor::current`. -/
def Db.currentCursor (db : Db) : Except DbError (Option Cursor) :=
  match db.cursor with
  | none => .ok none
  | some row =>
    match tryFromI64 row.slot with
    | some slot => .ok (some ⟨slot, row.hash⟩)
    | none => .error .decode

end Boros.Storage
