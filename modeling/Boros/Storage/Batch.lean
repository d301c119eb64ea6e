import Mathlib.Algebra.GroupWithZero.Nat
import Boros.Storage.Rows

/-!
# Batches of the oldest records

`SqliteTransaction::state` and `next`. The statement which `next` assembles
numbers its placeholders in one pass over the map of limits and binds their
values in another; `Db.next_eq` says that the two passes agree, so that the
statement selects for each queue of the map the oldest rows up to its limit.
-/

namespace Boros.Storage

open Boros.Data Boros.Semantics Boros.Queue

variable {db : Db} {status : TransactionStatus} {queue : String}
  {limits : List (String × UInt16)} {txs : List Transaction}

/-- The rows of a queue which have a status. -/
def Db.ofQueue (db : Db) (status : TransactionStatus) (queue : String) : List TxRow :=
  db.tx.select fun row => row.status = status && row.queue = queue

/-- How many rows of a queue have a status. -/
def Db.countOf (db : Db) (status : TransactionStatus) (queue : String) : Nat :=
  (db.ofQueue status queue).length

/-- The oldest rows of a queue which have a status, at most `limit` of them. -/
def Db.oldest (db : Db) (status : TransactionStatus) (queue : String) (limit : Nat) : List TxRow :=
  ((db.ofQueue status queue).insertionSort
    fun first second => first.createdAt ≤ second.createdAt).take limit

theorem Db.oldest_length (db : Db) (status : TransactionStatus) (queue : String) (limit : Nat) :
    (db.oldest status queue limit).length = min limit (db.countOf status queue) := by
  rw [oldest, List.length_take, List.length_insertionSort, countOf]

/-! ## The counts of `state` -/

/-- The queues of `state` are those with a row of the status, each once. -/
theorem Db.state_queues (db : Db) (status : TransactionStatus) :
    ((db.state status).map TransactionState.queue).Nodup ∧ ∀ queue,
      queue ∈ (db.state status).map TransactionState.queue ↔ 0 < db.countOf status queue := by
  have names : (db.state status).map TransactionState.queue =
      ((db.tx.select fun row => row.status = status).map TxRow.queue).dedup := by
    simp [state, Function.comp_def]
  rw [names]
  refine ⟨List.nodup_dedup _, fun queue => ?_⟩
  rw [List.mem_dedup, countOf, List.length_pos_iff_exists_mem]
  constructor
  · intro member
    obtain ⟨row, rowMem, sameQueue⟩ := List.mem_map.mp member
    obtain ⟨inTable, predicate⟩ := List.mem_filter.mp rowMem
    exact ⟨row, List.mem_filter.mpr ⟨inTable, by simpa [sameQueue] using predicate⟩⟩
  · rintro ⟨row, rowMem⟩
    obtain ⟨inTable, predicate⟩ := List.mem_filter.mp rowMem
    simp only [Bool.and_eq_true, decide_eq_true_eq] at predicate
    exact List.mem_map.mpr ⟨row, List.mem_filter.mpr ⟨inTable, by simpa using predicate.1⟩,
      predicate.2⟩

/-- Each count of `state` is the number of rows of its queue. -/
theorem Db.state_count {entry : TransactionState} (member : entry ∈ db.state status) :
    entry.count = db.countOf status entry.queue := by
  obtain ⟨queue, _, rfl⟩ := List.mem_map.mp member
  simp only [countOf, ofQueue, Table.select, List.countP_eq_length_filter, List.filter_filter]
  congr 2
  funext row
  exact Bool.and_comm _ _

/-! ## The statement of `next` -/

/-- One subselect, whose placeholders are bound to the status, the queue and the
limit, selects the oldest rows of the queue. -/
theorem Db.runSubSelect_eq {binds : List SqlValue} {subSelect : SubSelect} {limit : Nat}
    (statusBound : boundValue binds 1 = some (.text status.display))
    (queueBound : boundValue binds subSelect.queueParam = some (.text queue))
    (limitBound : boundValue binds subSelect.limitParam = some (.integer limit)) :
    db.runSubSelect binds subSelect = .ok (db.oldest status queue limit) := by
  have samePredicate : (fun row : TxRow =>
      decide (row.status.display = status.display) && decide (row.queue = queue)) =
        fun row => decide (row.status = status) && decide (row.queue = queue) := by
    funext row
    simp only [TransactionStatus.display_injective.eq_iff]
  simp only [runSubSelect, statusBound, queueBound, limitBound, samePredicate, oldest, ofQueue,
    Int.toNat_natCast]

/-- The placeholders numbered from `paramIndex` on are bound to the entries of
the map, when the values before them are as many as the indices before
`paramIndex`. The induction moves one entry from the map into those values. -/
theorem Db.mapM_runSubSelect (db : Db) (status : TransactionStatus)
    (limits : List (String × UInt16)) :
    ∀ (bound : List SqlValue) (paramIndex : Nat), bound.length + 1 = paramIndex →
      bound.head? = some (.text status.display) →
      (subSelects paramIndex limits).mapM (db.runSubSelect (bound ++ queueBinds limits)) =
        .ok (limits.map fun entry => db.oldest status entry.1 entry.2.toNat) := by
  induction limits with
  | nil =>
      intro bound paramIndex _ _
      rfl
  | cons entry rest ih =>
      intro bound paramIndex numbered first
      obtain ⟨queue, limit⟩ := entry
      have bindings : bound ++ queueBinds ((queue, limit) :: rest) =
          (bound ++ [.text queue, .integer limit.toNat]) ++ queueBinds rest := by
        simp [queueBinds]
      have nonempty : bound ≠ [] := by
        rintro rfl
        simp at first
      have positive : 0 < bound.length := List.length_pos_iff.mpr nonempty
      have head : db.runSubSelect (bound ++ queueBinds ((queue, limit) :: rest))
          ⟨paramIndex, paramIndex + 1⟩ = .ok (db.oldest status queue limit.toNat) := by
        apply runSubSelect_eq
        · rw [boundValue, if_neg (by omega), List.getElem?_append_left (by omega),
            ← List.head?_eq_getElem?]
          exact first
        · subst numbered
          simp [boundValue, queueBinds]
        · subst numbered
          simp [boundValue, queueBinds]
      have tail := ih (bound ++ [.text queue, .integer limit.toNat]) (paramIndex + 2)
        (by simp; omega) (by rw [List.head?_append_of_ne_nil _ nonempty]; exact first)
      rw [← bindings] at tail
      rw [subSelects, List.mapM_cons, head, tail]
      rfl

@[simp]
theorem subSelects_length (paramIndex : Nat) (limits : List (String × UInt16)) :
    (subSelects paramIndex limits).length = limits.length := by
  induction limits generalizing paramIndex with
  | nil => rfl
  | cons entry rest ih => simp [subSelects, ih]

/-- The statement of `next`: for each queue of the map its oldest rows up to the
limit, unless the map has too many entries. -/
theorem Db.next_eq (db : Db) (status : TransactionStatus) (limits : List (String × UInt16)) :
    db.next status limits =
      if maxCompoundSelect < limits.length then .error .compoundSelect
      else (limits.flatMap fun entry =>
        db.oldest status entry.1 entry.2.toNat).mapM TxRow.fromRow := by
  have rows := db.mapM_runSubSelect status limits [.text status.display] 2 rfl rfl
  rw [List.singleton_append] at rows
  simp only [next, subSelects_length]
  split
  · rfl
  · rw [rows]
    rfl

/-- How many records a batch has. -/
theorem Db.next_length (success : db.next status limits = .ok txs) :
    txs.length =
      (limits.map fun entry => min entry.2.toNat (db.countOf status entry.1)).sum := by
  rw [next_eq] at success
  split at success
  · cases success
  · have sameLength := congrArg List.length (Table.mapM_ok success)
    rw [List.length_map, List.length_map, List.length_flatMap] at sameLength
    simpa [oldest_length] using sameLength.symm

/-- Which rows a batch has. -/
theorem Db.mem_oldest {row : TxRow} {limit : Nat} (member : row ∈ db.oldest status queue limit) :
    db.row row.id = some row ∧ row.status = status ∧ row.queue = queue := by
  have selected := (List.mem_insertionSort _).mp (List.mem_of_mem_take member)
  obtain ⟨found, predicate⟩ := Table.mem_select_iff.mp selected
  simp only [Bool.and_eq_true, decide_eq_true_eq] at predicate
  exact ⟨found, predicate⟩

/-- The records of a batch are decoded from the oldest rows of its queues. -/
theorem Db.mem_next_iff {tx : Transaction} (success : db.next status limits = .ok txs) :
    tx ∈ txs ↔ ∃ entry ∈ limits, ∃ row ∈ db.oldest status entry.1 entry.2.toNat,
      row.fromRow = .ok tx := by
  rw [next_eq] at success
  split at success
  · cases success
  · have decoded : tx ∈ txs ↔ Except.ok tx ∈ (limits.flatMap fun entry =>
        db.oldest status entry.1 entry.2.toNat).map TxRow.fromRow := by
      rw [Table.mapM_ok success]
      simp
    rw [decoded]
    simp only [List.mem_map, List.mem_flatMap]
    constructor
    · rintro ⟨row, ⟨entry, entryMem, rowMem⟩, result⟩
      exact ⟨entry, entryMem, row, rowMem, result⟩
    · rintro ⟨entry, entryMem, row, rowMem, result⟩
      exact ⟨row, ⟨entry, entryMem, rowMem⟩, result⟩

/-- Every record of a batch is stored as it was read, with the status asked for. -/
theorem Db.next_sound {tx : Transaction} (success : db.next status limits = .ok txs)
    (member : tx ∈ txs) :
    ∃ row, db.row tx.id = some row ∧ row.status = status ∧ row.fromRow = .ok tx := by
  obtain ⟨entry, _, row, oldest, decoded⟩ := (mem_next_iff success).mp member
  obtain ⟨found, sameStatus, _⟩ := mem_oldest oldest
  rw [← TxRow.fromRow_id decoded] at found
  exact ⟨row, found, sameStatus, decoded⟩

/-- Every record of a batch is stored with the status asked for. -/
theorem Db.next_hasStatus {tx : Transaction} (success : db.next status limits = .ok txs)
    (member : tx ∈ txs) : db.HasStatus tx.id status := by
  obtain ⟨row, found, sameStatus, _⟩ := next_sound success member
  exact ⟨row, found, sameStatus⟩

/-- Stored rows without repetition have distinct ids. -/
theorem Db.distinct_of_stored (db : Db) {rows : List TxRow} (nodup : rows.Nodup)
    (stored : ∀ row ∈ rows, db.row row.id = some row) : (rows.map TxRow.id).Nodup := by
  refine nodup.map_on fun first firstMem second secondMem same => ?_
  have found := stored first firstMem
  rw [same, stored second secondMem] at found
  exact (Option.some.inj found).symm

theorem Db.oldest_nodup (db : Db) (status : TransactionStatus) (queue : String) (limit : Nat) :
    (db.oldest status queue limit).Nodup := by
  have all : (db.ofQueue status queue).Nodup := (db.tx.distinct.of_map _).filter _
  exact ((List.perm_insertionSort _ _).nodup_iff.mpr all).sublist (List.take_sublist _ _)

/-- The rows selected for distinct queues have distinct ids. -/
theorem Db.flatMap_oldest_distinct (db : Db) (status : TransactionStatus)
    (queues : (limits.map Prod.fst).Nodup) :
    ((limits.flatMap fun entry => db.oldest status entry.1 entry.2.toNat).map TxRow.id).Nodup := by
  have nodup : (limits.flatMap fun entry => db.oldest status entry.1 entry.2.toNat).Nodup := by
    rw [List.nodup_flatMap]
    constructor
    · intro entry _
      exact db.oldest_nodup status entry.1 entry.2.toNat
    · refine (List.pairwise_map.mp queues).imp ?_
      intro first second apart row inFirst inSecond
      obtain ⟨_, _, queueFirst⟩ := mem_oldest inFirst
      obtain ⟨_, _, queueSecond⟩ := mem_oldest inSecond
      exact apart (queueFirst.symm.trans queueSecond)
  refine db.distinct_of_stored nodup fun row member => ?_
  obtain ⟨entry, _, rowMem⟩ := List.mem_flatMap.mp member
  exact (mem_oldest rowMem).1

/-- A batch over distinct queues has every record once. -/
theorem Db.next_distinct (success : db.next status limits = .ok txs)
    (queues : (limits.map Prod.fst).Nodup) : (txs.map Transaction.id).Nodup := by
  rw [next_eq] at success
  split at success
  · cases success
  · rw [Table.mapM_map_eq success TxRow.id Transaction.id fun _ _ => TxRow.fromRow_id]
    exact db.flatMap_oldest_distinct status queues

/-! ## The order of a batch -/

/-- No two records of a queue were created at the same time. -/
def Db.Chronological (db : Db) : Prop :=
  ∀ first second row other, db.row first = some row → db.row second = some other →
    row.queue = other.queue → row.createdAt = other.createdAt → first = second

theorem Db.ofQueue_sorted (db : Db) (status : TransactionStatus) (queue : String) :
    ((db.ofQueue status queue).insertionSort
      fun first second => first.createdAt ≤ second.createdAt).Pairwise
        fun first second => first.createdAt ≤ second.createdAt :=
  List.pairwise_insertionSort _ _

/-- Rows older than one of the oldest are among the oldest. -/
theorem Db.mem_oldest_of_older {row other : TxRow} {limit : Nat}
    (member : row ∈ db.oldest status queue limit) (found : db.row other.id = some other)
    (sameStatus : other.status = status) (sameQueue : other.queue = queue)
    (older : other.createdAt < row.createdAt) : other ∈ db.oldest status queue limit := by
  have sorted := db.ofQueue_sorted status queue
  have selected : other ∈ (db.ofQueue status queue).insertionSort
      fun first second => first.createdAt ≤ second.createdAt := by
    rw [List.mem_insertionSort]
    exact Table.mem_select_iff.mpr ⟨found, by simp [sameStatus, sameQueue]⟩
  rw [← List.take_append_drop limit ((db.ofQueue status queue).insertionSort _)] at sorted selected
  rcases List.mem_append.mp selected with taken | dropped
  · exact taken
  · have later := (List.pairwise_append.mp sorted).2.2 row member other dropped
    exact absurd older (Nat.not_lt_of_le later)

/-- The oldest rows of a queue come in the order of their creation. -/
theorem Db.oldest_ordered (chronological : db.Chronological) (limit : Nat) :
    (db.oldest status queue limit).Pairwise
      fun first second => first.createdAt < second.createdAt := by
  have nodup := db.oldest_nodup status queue limit
  have sorted := (db.ofQueue_sorted status queue).sublist (List.take_sublist limit _)
  have both := sorted.and nodup
  refine both.imp_of_mem fun {first second} firstMem secondMem ordered => ?_
  obtain ⟨found, _, inQueue⟩ := mem_oldest firstMem
  obtain ⟨foundToo, _, inQueueToo⟩ := mem_oldest secondMem
  refine Nat.lt_of_le_of_ne ordered.1 fun same => ordered.2 ?_
  have sameId := chronological _ _ first second found foundToo (inQueue.trans inQueueToo.symm) same
  rw [sameId, foundToo] at found
  exact (Option.some.inj found).symm

/-- The transactions of each queue come in the order of their creation. -/
theorem Db.next_ordered (success : db.next status limits = .ok txs)
    (queues : (limits.map Prod.fst).Nodup) (chronological : db.Chronological) :
    txs.Pairwise fun first second =>
      first.queue = second.queue → first.createdAt < second.createdAt := by
  rw [next_eq] at success
  split at success
  · cases success
  · have keys := Table.mapM_map_eq success (fun row => (row.queue, row.createdAt))
      (fun tx => (tx.queue, tx.createdAt)) fun row tx decoded => by
        obtain ⟨_, _, _, queue, createdAt, _⟩ := TxRow.fromRow_ok decoded
        rw [queue, createdAt]
    have rows : (limits.flatMap fun entry => db.oldest status entry.1 entry.2.toNat).Pairwise
        fun first second => first.queue = second.queue → first.createdAt < second.createdAt := by
      rw [List.pairwise_flatMap]
      constructor
      · intro entry _
        refine (oldest_ordered chronological _).imp ?_
        intro first second before _
        exact before
      · refine (List.pairwise_map.mp queues).imp fun apart row inFirst other inSecond same => ?_
        obtain ⟨_, _, first⟩ := mem_oldest inFirst
        obtain ⟨_, _, second⟩ := mem_oldest inSecond
        exact absurd (first.symm.trans (same.trans second)) apart
    have ordered : ((limits.flatMap fun entry => db.oldest status entry.1 entry.2.toNat).map
        fun row => (row.queue, row.createdAt)).Pairwise
          fun first second => first.1 = second.1 → first.2 < second.2 :=
      List.pairwise_map.mpr rows
    rw [← keys] at ordered
    exact List.pairwise_map.mp ordered

/-- Each of the oldest rows of its queues is in a batch. -/
theorem Db.next_complete {entry : String × UInt16} {row : TxRow}
    (success : db.next status limits = .ok txs) (entryMem : entry ∈ limits)
    (oldest : row ∈ db.oldest status entry.1 entry.2.toNat) :
    ∃ tx ∈ txs, row.fromRow = .ok tx := by
  have decodes : ∃ tx, row.fromRow = .ok tx := by
    rw [next_eq] at success
    split at success
    · cases success
    · exact Table.mapM_isOk_iff.mp ⟨txs, success⟩ row
        (List.mem_flatMap.mpr ⟨entry, entryMem, oldest⟩)
  obtain ⟨tx, decoded⟩ := decodes
  exact ⟨tx, (mem_next_iff success).mpr ⟨entry, entryMem, row, oldest, decoded⟩, decoded⟩

/-- Every transaction of the status which is older than one of its queue in the batch is in the
batch too. -/
theorem Db.next_older {tx : Transaction} {id : String} {row : TxRow}
    (success : db.next status limits = .ok txs) (member : tx ∈ txs) (found : db.row id = some row)
    (sameStatus : row.status = status) (sameQueue : row.queue = tx.queue)
    (older : row.createdAt < tx.createdAt) : ∃ other ∈ txs, other.id = id := by
  obtain ⟨entry, entryMem, last, oldest, decoded⟩ := (mem_next_iff success).mp member
  obtain ⟨_, _, _, queue, createdAt, _⟩ := TxRow.fromRow_ok decoded
  obtain ⟨_, _, inQueue⟩ := mem_oldest oldest
  have sameId := Db.row_id found
  rw [queue, inQueue] at sameQueue
  rw [createdAt] at older
  have here := mem_oldest_of_older oldest (sameId.symm ▸ found) sameStatus sameQueue older
  obtain ⟨other, otherMem, decodedToo⟩ := next_complete success entryMem here
  exact ⟨other, otherMem, (TxRow.fromRow_id decodedToo).trans sameId⟩

end Boros.Storage
