import Boros.Storage.Batch

/-!
# Prefixes of queues

What the statement which `SqliteTransaction::next` assembles selects, before its rows are
decoded: of every queue of the map the oldest records, as many as its limit allows.
-/

namespace Boros.Storage

open Boros.Data Boros.Semantics Boros.Queue

variable {db : Db} {status : TransactionStatus} {queue : String}
  {limits : List (String × UInt16)} {rows : List TxRow} {txs : List Transaction}

/-- The rows of the statement of `next`: its placeholders are numbered in one pass over the map,
their values are bound in another. -/
def Db.selectRows (db : Db) (status : TransactionStatus) (limits : List (String × UInt16)) :
    Except DbError (List TxRow) := do
  let query := subSelects 2 limits
  let binds := .text status.display :: queueBinds limits
  if maxCompoundSelect < query.length then throw .compoundSelect
  let rows ← query.mapM (db.runSubSelect binds)
  return rows.flatten

/-- `next` decodes these rows one by one. -/
theorem Db.next_eq_decoded (db : Db) (status : TransactionStatus)
    (limits : List (String × UInt16)) :
    db.next status limits = db.selectRows status limits >>= List.mapM TxRow.fromRow := by
  simp only [next, selectRows]
  split
  · rfl
  · cases (subSelects 2 limits).mapM
      (db.runSubSelect (.text status.display :: queueBinds limits)) <;> rfl

theorem Db.selectRows_eq (db : Db) (status : TransactionStatus)
    (few : limits.length ≤ maxCompoundSelect) :
    db.selectRows status limits = .ok (limits.flatMap fun entry =>
      db.oldest status entry.1 entry.2.toNat) := by
  have rows := db.mapM_runSubSelect status limits [.text status.display] 2 rfl rfl
  rw [List.singleton_append] at rows
  simp only [selectRows, subSelects_length, if_neg (Nat.not_lt.mpr few), rows]
  rfl

/-- These rows are the oldest of a queue with a status, as many as the limit allows. -/
structure Prefix (db : Db) (status : TransactionStatus) (queue : String) (limit : Nat)
    (rows : List TxRow) : Prop where
  stored : ∀ row ∈ rows, db.row row.id = some row ∧ row.status = status ∧ row.queue = queue
  distinct : (rows.map TxRow.id).Nodup
  number : rows.length = min limit (db.countOf status queue)
  oldest : ∀ id later, db.row id = some later → later.status = status → later.queue = queue →
    later ∉ rows → ∀ row ∈ rows, row.createdAt < later.createdAt

/-- These rows are the prefixes of the queues of a map, and nothing else. -/
structure Fifo (db : Db) (status : TransactionStatus) (limits : List (String × UInt16))
    (rows : List TxRow) : Prop where
  prefixes : ∀ entry ∈ limits, Prefix db status entry.1 entry.2.toNat
    (rows.filter fun row => row.queue = entry.1)
  inMap : ∀ row ∈ rows, row.status = status ∧ row.queue ∈ limits.map Prod.fst
  distinct : (rows.map TxRow.id).Nodup

/-- The oldest rows of a queue are a prefix of it. A row which is not among them is not older,
and not of the same age either. -/
theorem Db.oldest_prefix (chronological : db.Chronological) (status : TransactionStatus)
    (queue : String) (limit : Nat) :
    Prefix db status queue limit (db.oldest status queue limit) where
  stored := fun _ member => mem_oldest member
  distinct := db.distinct_of_stored (db.oldest_nodup status queue limit)
    fun _ member => (mem_oldest member).1
  number := db.oldest_length status queue limit
  oldest := by
    intro id later found sameStatus sameQueue outside row member
    obtain ⟨rowFound, _, rowQueue⟩ := mem_oldest member
    have sameId := row_id found
    rcases Nat.lt_trichotomy row.createdAt later.createdAt with before | same | after
    · exact before
    · have sameRow := chronological row.id id row later rowFound found
        (rowQueue.trans sameQueue.symm) same
      rw [← sameRow, rowFound] at found
      cases found
      exact absurd member outside
    · exact absurd (mem_oldest_of_older member (sameId.symm ▸ found) sameStatus sameQueue after)
        outside

/-- Among the rows selected for a map, those of one of its queues are the ones selected for that
queue. -/
theorem Db.filter_oldest (distinct : (limits.map Prod.fst).Nodup) {entry : String × UInt16}
    (member : entry ∈ limits) :
    ((limits.flatMap fun entry => db.oldest status entry.1 entry.2.toNat).filter
      fun row => row.queue = entry.1) = db.oldest status entry.1 entry.2.toNat := by
  have same : ∀ other : String × UInt16, other.1 = entry.1 →
      ((db.oldest status other.1 other.2.toNat).filter fun row => row.queue = entry.1) =
        db.oldest status other.1 other.2.toNat := by
    intro other sameQueue
    refine List.filter_eq_self.mpr fun row rowMem => ?_
    simpa using (mem_oldest rowMem).2.2.trans sameQueue
  have others : ∀ other : String × UInt16, other.1 ≠ entry.1 →
      ((db.oldest status other.1 other.2.toNat).filter fun row => row.queue = entry.1) = [] := by
    intro other apart
    refine List.filter_eq_nil_iff.mpr fun row rowMem => ?_
    simpa [(mem_oldest rowMem).2.2] using apart
  induction limits with
  | nil => simp at member
  | cons head rest ih =>
      rw [List.flatMap_cons, List.filter_append]
      obtain ⟨outside, distinctRest⟩ := List.nodup_cons.mp distinct
      rcases List.mem_cons.mp member with rfl | later
      · have nothing : ((rest.flatMap fun entry => db.oldest status entry.1 entry.2.toNat).filter
            fun row => row.queue = entry.1) = [] := by
          rw [List.filter_flatMap]
          refine List.flatMap_eq_nil_iff.mpr fun other otherMem => others other ?_
          rintro sameQueue
          exact outside (sameQueue ▸ List.mem_map_of_mem otherMem)
        rw [same entry rfl, nothing, List.append_nil]
      · have apart : head.1 ≠ entry.1 := by
          rintro sameQueue
          exact outside (sameQueue ▸ List.mem_map_of_mem later)
        rw [others head apart, List.nil_append, ih distinctRest later]

/-- The statement selects the prefixes of the queues of its map. -/
theorem Db.selectRows_fifo (chronological : db.Chronological) (status : TransactionStatus)
    (distinct : (limits.map Prod.fst).Nodup) (few : limits.length ≤ maxCompoundSelect) :
    ∃ rows, db.selectRows status limits = .ok rows ∧ Fifo db status limits rows := by
  refine ⟨_, db.selectRows_eq status few, ?_, ?_, ?_⟩
  · intro entry member
    rw [filter_oldest distinct member]
    exact oldest_prefix chronological status entry.1 entry.2.toNat
  · intro row member
    obtain ⟨entry, entryMem, rowMem⟩ := List.mem_flatMap.mp member
    obtain ⟨_, sameStatus, sameQueue⟩ := mem_oldest rowMem
    exact ⟨sameStatus, sameQueue ▸ List.mem_map_of_mem entryMem⟩
  · exact db.flatMap_oldest_distinct status distinct

/-- How many records of one of its queues a batch has. -/
theorem Db.next_countP (success : db.next status limits = .ok txs)
    (distinct : (limits.map Prod.fst).Nodup) {entry : String × UInt16} (member : entry ∈ limits) :
    (txs.countP fun tx => tx.queue = entry.1) =
      min entry.2.toNat (db.countOf status entry.1) := by
  rw [next_eq] at success
  split at success
  · cases success
  · have queues := Table.mapM_map_eq success TxRow.queue Transaction.queue
      fun _ _ decoded => (TxRow.fromRow_ok decoded).2.2.2.1
    calc (txs.countP fun tx => tx.queue = entry.1)
        = (txs.map Transaction.queue).countP fun queue => queue = entry.1 := by
          rw [List.countP_map]
          rfl
      _ = ((limits.flatMap fun entry => db.oldest status entry.1 entry.2.toNat).filter
            fun row => row.queue = entry.1).length := by
          rw [queues, List.countP_map, List.countP_eq_length_filter]
          rfl
      _ = min entry.2.toNat (db.countOf status entry.1) := by
          rw [filter_oldest distinct member, oldest_length]

/-- Of other queues it has none. -/
theorem Db.next_countP_of_notMem (success : db.next status limits = .ok txs)
    (outside : queue ∉ limits.map Prod.fst) : (txs.countP fun tx => tx.queue = queue) = 0 := by
  rw [List.countP_eq_zero]
  intro tx member
  obtain ⟨entry, entryMem, row, rowMem, decoded⟩ := (mem_next_iff success).mp member
  obtain ⟨_, _, _, sameQueue, _⟩ := TxRow.fromRow_ok decoded
  have apart : entry.1 ≠ queue := by
    rintro rfl
    exact outside (List.mem_map_of_mem entryMem)
  simpa [sameQueue, (mem_oldest rowMem).2.2] using apart

/-- A store is chronological when no two of its rows agree in queue and time. -/
theorem Db.chronological_of_nodup
    (distinct : (db.tx.rows.map fun row => (row.queue, row.createdAt)).Nodup) :
    db.Chronological := by
  intro first second row other found foundToo sameQueue sameTime
  obtain ⟨member, rfl⟩ := Table.lookup_eq_some_iff.mp found
  obtain ⟨otherMem, rfl⟩ := Table.lookup_eq_some_iff.mp foundToo
  have same := List.inj_on_of_nodup_map distinct member otherMem
    (Prod.ext sameQueue sameTime)
  rw [same]

end Boros.Storage
