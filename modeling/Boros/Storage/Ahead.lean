import Boros.Storage.Batch

/-!
# The place of a transaction in its queue

How many transactions of a queue are pending which are no younger than a given time. A batch
takes as many of them as the queue's limit.
-/

namespace Boros.Storage

open Boros.Data Boros.Semantics Boros.Queue

theorem countP_take_add_drop {α : Type*} (p : α → Bool) (limit : Nat) (items : List α) :
    (items.take limit).countP p + (items.drop limit).countP p = items.countP p := by
  rw [← List.countP_append, List.take_append_drop]

/-- In a sorted list those up to a bound come first. -/
theorem countP_take_of_sorted {α : Type*} {rank : α → Nat} {items : List α}
    (sorted : items.Pairwise fun first second => rank first ≤ rank second) (bound limit : Nat) :
    (items.take limit).countP (fun item => rank item ≤ bound) =
      min limit (items.countP fun item => rank item ≤ bound) := by
  induction items generalizing limit with
  | nil => simp
  | cons head rest ih =>
      obtain ⟨above, sortedRest⟩ := List.pairwise_cons.mp sorted
      cases limit with
      | zero => simp
      | succ limit =>
          rw [List.take_succ_cons, List.countP_cons, List.countP_cons, ih sortedRest]
          by_cases within : rank head ≤ bound
          · simp only [within, decide_true, if_true]
            omega
          · have none : (rest.countP fun item => rank item ≤ bound) = 0 := by
              rw [List.countP_eq_zero]
              intro item member
              have later := above item member
              simp only [decide_eq_true_eq]
              omega
            simp [within, none]

/-- The row is pending in the queue, is no younger than the time, and is not one of these. -/
def TxRow.Ahead (queue : String) (time : Nat) (taken : List String) (row : TxRow) : Prop :=
  row.status = .pending ∧ row.queue = queue ∧ row.createdAt ≤ time ∧ row.id ∉ taken

instance (queue : String) (time : Nat) (taken : List String) (row : TxRow) :
    Decidable (row.Ahead queue time taken) := inferInstanceAs (Decidable (_ ∧ _))

/-- How many rows are ahead of the time in the queue. -/
def Db.ahead (db : Db) (queue : String) (time : Nat) (taken : List String) : Nat :=
  db.tx.rows.countP fun row => row.Ahead queue time taken

variable {before after db : Db} {queue : String} {time : Nat} {taken given : List String}
  {limits : List (String × UInt16)} {txs : List Transaction}

/-- No more rows are ahead if each of them was. -/
theorem Db.ahead_le (were : ∀ id row, after.row id = some row → row.Ahead queue time given →
    ∃ old, before.row id = some old ∧ old.Ahead queue time taken) :
    after.ahead queue time given ≤ before.ahead queue time taken := by
  refine Table.countP_le_of_keys fun row member ahead => ?_
  obtain ⟨old, found, wasAhead⟩ :=
    were row.id row (Table.lookup_of_mem member) (of_decide_eq_true ahead)
  obtain ⟨oldMem, same⟩ := Table.lookup_eq_some_iff.mp found
  exact ⟨old, oldMem, same, decide_eq_true wasAhead⟩

/-- Fewer are ahead if more are taken. -/
theorem Db.ahead_mono (sub : taken ⊆ given) :
    db.ahead queue time given ≤ db.ahead queue time taken := by
  refine ahead_le fun id row found ahead => ⟨row, found, ahead.1, ahead.2.1, ahead.2.2.1, ?_⟩
  exact fun member => ahead.2.2.2 (sub member)

/-- A transaction in hand which is stored as not pending need not be held any longer. -/
theorem Db.ahead_update {tx : Transaction} (settled : tx.status ≠ .pending) :
    (db.update tx).ahead queue time taken ≤ db.ahead queue time (tx.id :: taken) := by
  refine ahead_le fun id row found ahead => ?_
  obtain ⟨pending, inQueue, older, untaken⟩ := ahead
  rw [row_update] at found
  split at found
  · obtain ⟨old, _, rfl⟩ := Option.map_eq_some_iff.mp found
    exact absurd pending settled
  · refine ⟨row, found, pending, inQueue, older, ?_⟩
    rw [List.mem_cons, not_or, Db.row_id found]
    exact ⟨‹_›, Db.row_id found ▸ untaken⟩

/-- None is ahead if no row is. -/
theorem Db.ahead_eq_zero_iff : db.ahead queue time taken = 0 ↔
    ∀ id row, db.row id = some row → ¬ row.Ahead queue time taken := by
  rw [ahead, List.countP_eq_zero]
  constructor
  · intro none id row found ahead
    exact none row (Table.lookup_eq_some_iff.mp found).1 (decide_eq_true ahead)
  · intro none row member ahead
    exact none row.id row (Table.lookup_of_mem member) (of_decide_eq_true ahead)

/-- The rows which are ahead, among those of the queue from the oldest on. -/
theorem Db.ahead_eq (db : Db) (queue : String) (time : Nat) (taken : List String) :
    db.ahead queue time taken = ((db.ofQueue .pending queue).insertionSort
      fun first second => first.createdAt ≤ second.createdAt).countP
        fun row => row.createdAt ≤ time ∧ row.id ∉ taken := by
  rw [(List.perm_insertionSort _ _).countP_eq, ofQueue, Table.select, List.countP_filter, ahead]
  refine List.countP_congr fun row _ => ?_
  rw [decide_eq_true_iff, TxRow.Ahead]
  simp only [Bool.and_eq_true, decide_eq_true_eq]
  tauto

/-- No more are ahead than are pending in the queue. -/
theorem Db.ahead_le_countOf (db : Db) (queue : String) (time : Nat) (taken : List String) :
    db.ahead queue time taken ≤ db.countOf .pending queue := by
  rw [ahead_eq, countOf, ← List.length_insertionSort
    (fun first second : TxRow => first.createdAt ≤ second.createdAt) (db.ofQueue .pending queue)]
  exact List.countP_le_length

/-- A batch has as many of the rows which are ahead as the limit of the queue allows. -/
theorem Db.ahead_next (success : db.next .pending limits = .ok txs) {entry : String × UInt16}
    (member : entry ∈ limits) : db.ahead entry.1 time (txs.map Transaction.id) ≤
      db.ahead entry.1 time [] - entry.2.toNat := by
  have sorted := db.ofQueue_sorted .pending entry.1
  have selected : ∀ row ∈ db.oldest .pending entry.1 entry.2.toNat,
      row.id ∈ txs.map Transaction.id := by
    intro row oldest
    obtain ⟨tx, txMem, decoded⟩ := next_complete success member oldest
    exact List.mem_map.mpr ⟨tx, txMem, TxRow.fromRow_id decoded⟩
  rw [oldest] at selected
  rw [ahead_eq, ahead_eq]
  generalize (db.ofQueue .pending entry.1).insertionSort
    (fun first second => first.createdAt ≤ second.createdAt) = rows at sorted selected ⊢
  have none : ((rows.take entry.2.toNat).countP fun row =>
      row.createdAt ≤ time ∧ row.id ∉ txs.map Transaction.id) = 0 := by
    rw [List.countP_eq_zero]
    intro row rowMem
    simp only [selected row rowMem, not_true_eq_false, and_false, decide_false]
    exact Bool.false_ne_true
  have fewer : ((rows.drop entry.2.toNat).countP fun row =>
      row.createdAt ≤ time ∧ row.id ∉ txs.map Transaction.id) ≤
        (rows.drop entry.2.toNat).countP fun row => row.createdAt ≤ time := by
    refine List.countP_mono_left fun row _ counted => ?_
    exact decide_eq_true (of_decide_eq_true counted).1
  have first := countP_take_of_sorted sorted time entry.2.toNat
  have whole := countP_take_add_drop (fun row : TxRow => row.createdAt ≤ time)
    entry.2.toNat rows
  simp only [List.not_mem_nil, not_false_eq_true, and_true]
  rw [← countP_take_add_drop _ entry.2.toNat rows]
  omega

end Boros.Storage
