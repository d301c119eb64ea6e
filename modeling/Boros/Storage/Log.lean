import Boros.Storage.Rows

/-!
# The store as a log

An update assigns to the bytes, the status and the slot of a record only. The rest is set when
the record is created: seen through it, the store is a log to which creations append.
-/

namespace Boros.Storage

open Boros.Data Boros.Semantics

/-- The columns which `INSERT INTO tx` alone sets. -/
structure Entry where
  id : String
  queue : String
  createdAt : Nat
deriving DecidableEq, Repr

def TxRow.entry (row : TxRow) : Entry := ⟨row.id, row.queue, row.createdAt⟩

def Transaction.entry (tx : Transaction) : Entry := ⟨tx.id, tx.queue, tx.createdAt⟩

/-- What was ever created, the oldest first. -/
def Db.log (db : Db) : List Entry := db.tx.rows.map TxRow.entry

variable {db next : Db} {tx : Transaction} {txs : List Transaction}

@[simp]
theorem Db.log_update (db : Db) (tx : Transaction) : (db.update tx).log = db.log := by
  simp only [log, update, Table.modify, List.map_map]
  refine List.map_congr_left fun row _ => ?_
  simp only [Function.comp_apply]
  split <;> rfl

@[simp]
theorem Db.log_updateBatch (db : Db) (txs : List Transaction) :
    (db.updateBatch txs).log = db.log := by
  induction txs generalizing db with
  | nil => rfl
  | cons tx rest ih => rw [updateBatch_cons, ih, log_update]

/-- A creation appends to the log. -/
theorem Db.log_create (success : db.create txs = .ok next) :
    next.log = db.log ++ txs.map Transaction.entry := by
  rw [log, create_rows success, List.map_append, List.map_map]
  rfl

/-- No id is in the log twice. -/
theorem Db.log_distinct (db : Db) : (db.log.map Entry.id).Nodup := by
  rw [log, List.map_map]
  exact db.tx.distinct

/-- An entry of the log is that of a record. -/
theorem Db.row_of_mem_log {entry : Entry} (member : entry ∈ db.log) :
    ∃ row, db.row entry.id = some row ∧ row.entry = entry := by
  obtain ⟨row, rowMem, rfl⟩ := List.mem_map.mp member
  exact ⟨row, Table.lookup_of_mem rowMem, rfl⟩

/-- A record has an entry in the log. -/
theorem Db.mem_log_of_row {id : String} {row : TxRow} (found : db.row id = some row) :
    row.entry ∈ db.log :=
  List.mem_map_of_mem (Table.lookup_eq_some_iff.mp found).1

end Boros.Storage
