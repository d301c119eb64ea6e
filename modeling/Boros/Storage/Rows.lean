import Boros.Storage.Sqlite

/-!
# What each store operation does to the rows

One lemma for each operation of `Boros.Storage.Sqlite`, stated over `Db.row`:
what a query returns, which rows a write changes, and that it changes no other.
-/

namespace Boros.Storage

open Boros.Data Boros.Semantics Boros.Queue

variable {db next : Db} {id : String} {row : TxRow} {tx : Transaction} {txs : List Transaction}

/-! ## Updates -/

@[simp]
theorem Db.row_update (db : Db) (tx : Transaction) (id : String) :
    (db.update tx).row id =
      if id = tx.id then (db.row id).map fun row => row.assign tx else db.row id :=
  Table.lookup_modify db.tx tx.id id (fun row => row.assign tx) fun _ => rfl

@[simp]
theorem Db.txDependence_update (db : Db) (tx : Transaction) :
    (db.update tx).txDependence = db.txDependence := rfl

@[simp]
theorem Db.cursor_update (db : Db) (tx : Transaction) : (db.update tx).cursor = db.cursor := rfl

@[simp]
theorem Db.updateBatch_nil (db : Db) : db.updateBatch [] = db := rfl

theorem Db.updateBatch_cons (db : Db) (tx : Transaction) (rest : List Transaction) :
    db.updateBatch (tx :: rest) = (db.update tx).updateBatch rest := rfl

@[simp]
theorem Db.cursor_updateBatch (db : Db) (txs : List Transaction) :
    (db.updateBatch txs).cursor = db.cursor := by
  induction txs generalizing db with
  | nil => rfl
  | cons tx rest ih => rw [updateBatch_cons, ih, cursor_update]

@[simp]
theorem Db.txDependence_updateBatch (db : Db) (txs : List Transaction) :
    (db.updateBatch txs).txDependence = db.txDependence := by
  induction txs generalizing db with
  | nil => rfl
  | cons tx rest ih => rw [updateBatch_cons, ih, txDependence_update]

/-- A batch leaves every row alone that it does not name. -/
theorem Db.row_updateBatch_of_notMem (absent : id ∉ txs.map Transaction.id) :
    (db.updateBatch txs).row id = db.row id := by
  induction txs generalizing db with
  | nil => rfl
  | cons tx rest ih =>
      rw [List.map_cons, List.mem_cons, not_or] at absent
      rw [updateBatch_cons, ih absent.2, row_update, if_neg absent.1]

/-- A batch with distinct ids assigns each of its records to the row it names. -/
theorem Db.row_updateBatch_of_mem (db : Db) (distinct : (txs.map Transaction.id).Nodup)
    (member : tx ∈ txs) :
    (db.updateBatch txs).row tx.id = (db.row tx.id).map fun row => row.assign tx := by
  induction txs generalizing db with
  | nil => cases member
  | cons head rest ih =>
      rw [List.map_cons, List.nodup_cons] at distinct
      rw [updateBatch_cons]
      rcases List.mem_cons.mp member with rfl | tailMem
      · rw [row_updateBatch_of_notMem distinct.1, row_update, if_pos rfl]
      · have apart : tx.id ≠ head.id := by
          intro same
          exact distinct.1 (same ▸ List.mem_map_of_mem tailMem)
        rw [ih _ distinct.2 tailMem, row_update, if_neg apart]

/-- No batch creates or removes a row. -/
theorem Db.row_updateBatch_isSome (db : Db) (txs : List Transaction) (id : String) :
    ((db.updateBatch txs).row id).isSome = (db.row id).isSome := by
  induction txs generalizing db with
  | nil => rfl
  | cons tx rest ih =>
      rw [updateBatch_cons, ih, row_update]
      split <;> simp

@[simp]
theorem Db.row_setCursor (db : Db) (cursor : Cursor) (id : String) :
    (db.setCursor cursor).row id = db.row id := rfl

/-! ## Rewritten rows -/

/-- No row is added or removed; each is as it was, or has a property and is still of the queue
and of the time it was. -/
structure Db.Rewritten (property : TxRow → Prop) (db next : Db) : Prop where
  kept : ∀ id row, db.row id = some row → ∃ after, next.row id = some after ∧
    after.queue = row.queue ∧ after.createdAt = row.createdAt ∧ (after = row ∨ property after)
  absent : ∀ id, db.row id = none → next.row id = none

variable {property : TxRow → Prop}

theorem Db.Rewritten.of_row (same : ∀ id, next.row id = db.row id) :
    Rewritten property db next where
  kept id row found := ⟨row, by rw [same, found], rfl, rfl, .inl rfl⟩
  absent id none := by rw [same, none]

/-- A row after the change comes from one before. -/
theorem Db.Rewritten.origin {after : TxRow} (rewritten : Rewritten property db next)
    (found : next.row id = some after) :
    ∃ row, db.row id = some row ∧ after.queue = row.queue ∧ after.createdAt = row.createdAt ∧
      (after = row ∨ property after) := by
  cases stored : db.row id with
  | none =>
      rw [rewritten.absent id stored] at found
      cases found
  | some row =>
      obtain ⟨same, here, rest⟩ := rewritten.kept id row stored
      rw [found] at here
      cases here
      exact ⟨row, rfl, rest⟩

theorem Db.Rewritten.trans {middle : Db} (first : Rewritten property db middle)
    (second : Rewritten property middle next) : Rewritten property db next where
  kept id row found := by
    obtain ⟨between, here, queue, createdAt, changed⟩ := first.kept id row found
    obtain ⟨after, there, sameQueue, sameTime, changedAgain⟩ := second.kept id between here
    refine ⟨after, there, sameQueue.trans queue, sameTime.trans createdAt, ?_⟩
    rcases changedAgain with rfl | holds
    · exact changed
    · exact .inr holds
  absent id none := second.absent id (first.absent id none)

theorem Db.Rewritten.mono {weaker : TxRow → Prop} (rewritten : Rewritten property db next)
    (weaken : ∀ row, property row → weaker row) : Rewritten weaker db next where
  kept id row found := by
    obtain ⟨after, here, queue, createdAt, changed⟩ := rewritten.kept id row found
    exact ⟨after, here, queue, createdAt, changed.imp_right (weaken after)⟩
  absent := rewritten.absent

theorem Db.rewritten_update (holds : ∀ row : TxRow, row.id = tx.id → property (row.assign tx)) :
    Rewritten property db (db.update tx) where
  kept id row found := by
    rw [row_update]
    split
    · rename_i same
      rw [found]
      exact ⟨_, rfl, rfl, rfl, .inr (holds row ((row_id found).trans same))⟩
    · exact ⟨row, found, rfl, rfl, .inl rfl⟩
  absent id none := by
    rw [row_update, none]
    split <;> rfl

theorem Db.rewritten_updateBatch
    (holds : ∀ tx ∈ txs, ∀ row : TxRow, row.id = tx.id → property (row.assign tx)) :
    Rewritten property db (db.updateBatch txs) := by
  induction txs generalizing db with
  | nil => exact .of_row fun _ => rfl
  | cons tx rest ih =>
      rw [List.forall_mem_cons] at holds
      rw [updateBatch_cons]
      exact (rewritten_update holds.1).trans (ih holds.2)

/-! ## Statuses -/

/-- A record is stored with a status. -/
def Db.HasStatus (db : Db) (id : String) (status : TransactionStatus) : Prop :=
  ∃ row, db.row id = some row ∧ row.status = status

variable {status other : TransactionStatus}

/-- A record has one status. -/
theorem Db.HasStatus.unique (first : db.HasStatus id status) (second : db.HasStatus id other) :
    status = other := by
  obtain ⟨row, found, rfl⟩ := first
  obtain ⟨same, foundAgain, rfl⟩ := second
  rw [found] at foundAgain
  cases foundAgain
  rfl

/-- An update gives its record the status it carries. -/
theorem Db.hasStatus_update_self (stored : ∃ row, db.row tx.id = some row) :
    (db.update tx).HasStatus tx.id tx.status := by
  obtain ⟨row, found⟩ := stored
  exact ⟨row.assign tx, by rw [row_update, if_pos rfl, found]; rfl, rfl⟩

/-- An update leaves the status of every other record alone. -/
theorem Db.hasStatus_update_of_ne (apart : id ≠ tx.id) :
    (db.update tx).HasStatus id status ↔ db.HasStatus id status := by
  rw [HasStatus, HasStatus, row_update, if_neg apart]

/-- A batch leaves the status of every record alone that it does not name. -/
theorem Db.hasStatus_updateBatch_of_notMem (absent : id ∉ txs.map Transaction.id) :
    (db.updateBatch txs).HasStatus id status ↔ db.HasStatus id status := by
  rw [HasStatus, HasStatus, row_updateBatch_of_notMem absent]

/-- A batch with distinct ids gives each stored record the status it carries. -/
theorem Db.hasStatus_updateBatch_of_mem (distinct : (txs.map Transaction.id).Nodup)
    (member : tx ∈ txs) (stored : ∃ row, db.row tx.id = some row) :
    (db.updateBatch txs).HasStatus tx.id tx.status := by
  obtain ⟨row, found⟩ := stored
  exact ⟨row.assign tx, by rw [row_updateBatch_of_mem db distinct member, found]; rfl, rfl⟩

@[simp]
theorem Db.hasStatus_setCursor (cursor : Cursor) :
    (db.setCursor cursor).HasStatus id status ↔ db.HasStatus id status :=
  Iff.rfl

/-! ## Queries -/

/-- What a successful selection returns: exactly the records of the selected
rows, each once. -/
structure Db.Selected (db : Db) (predicate : TxRow → Bool) (txs : List Transaction) : Prop where
  sound : ∀ tx ∈ txs, ∃ row, db.row tx.id = some row ∧ predicate row ∧ row.fromRow = .ok tx
  complete : ∀ id row, db.row id = some row → predicate row →
    ∃ tx ∈ txs, tx.id = id ∧ row.fromRow = .ok tx
  distinct : (txs.map Transaction.id).Nodup

/-- Every successful scan is a selection. -/
theorem Db.selected_of_fetch {predicate : TxRow → Bool}
    (success : db.tx.fetch predicate TxRow.fromRow = .ok txs) : db.Selected predicate txs where
  sound tx member := by
    obtain ⟨row, found, selected, decoded⟩ := Table.fetch_sound success member
    refine ⟨row, ?_, selected, decoded⟩
    rw [TxRow.fromRow_id decoded]
    exact found
  complete id row found selected := by
    obtain ⟨tx, member, decoded⟩ := Table.fetch_complete success found selected
    exact ⟨tx, member, (TxRow.fromRow_id decoded).trans (Db.row_id found), decoded⟩
  distinct := Table.fetch_distinct success Transaction.id fun _ _ => TxRow.fromRow_id

theorem Db.find_selected {status : TransactionStatus} (success : db.find status = .ok txs) :
    db.Selected (fun row => row.status = status) txs :=
  selected_of_fetch success

theorem Db.findToRollback_selected {slot : UInt64} (success : db.findToRollback slot = .ok txs) :
    db.Selected (fun row => row.status = .confirmed && slotAbove row.slot (asI64 slot)) txs :=
  selected_of_fetch success

/-- Records are found if their slots decode. -/
theorem Db.find_isOk {status : TransactionStatus} (decodes : ∀ id row, db.row id = some row →
    row.status = status → ∃ slot, readSlot row.slot = .ok slot) :
    ∃ txs, db.find status = .ok txs := by
  refine Table.fetch_isOk fun id row found selected => ?_
  exact TxRow.fromRow_isOk_iff.mpr (decodes id row found (by simpa using selected))

/-- Records above a slot which is not negative as an `i64` are found. -/
theorem Db.findToRollback_isOk (db : Db) {slot : UInt64} (small : slot.toNat < 2 ^ 63) :
    ∃ txs, db.findToRollback slot = .ok txs := by
  refine Table.fetch_isOk fun id row found selected => TxRow.fromRow_isOk_iff.mpr ?_
  simp only [Bool.and_eq_true] at selected
  cases recorded : row.slot with
  | none => exact ⟨none, rfl⟩
  | some stored =>
      have above : asI64 slot < stored := by simpa [recorded, slotAbove] using selected.2
      rw [Int64.lt_iff_toInt_lt, asI64_of_lt small] at above
      have nonneg : 0 ≤ stored.toInt := by omega
      exact ⟨_, by simp only [readSlot, tryFromI64, if_pos nonneg]; rfl⟩

/-- Every record found by status has that status, in the store and in hand. -/
theorem Db.find_sound {status : TransactionStatus} (success : db.find status = .ok txs)
    (member : tx ∈ txs) :
    ∃ row, db.row tx.id = some row ∧ row.status = status ∧ row.fromRow = .ok tx := by
  obtain ⟨row, found, selected, decoded⟩ := (find_selected success).sound tx member
  exact ⟨row, found, by simpa using selected, decoded⟩

/-- Every stored record with a status is found by it. -/
theorem Db.find_complete {status : TransactionStatus} (success : db.find status = .ok txs)
    (found : db.row id = some row) (hasStatus : row.status = status) :
    ∃ tx ∈ txs, tx.id = id ∧ row.fromRow = .ok tx :=
  (find_selected success).complete id row found (by simpa using hasStatus)

/-! ## Creation -/

theorem Db.insertTx_ok (success : db.insertTx tx = .ok next) :
    db.row tx.id = none ∧
      ∀ id, next.row id = if tx.id = id then some (.ofTransaction tx) else db.row id := by
  unfold Db.insertTx at success
  split at success
  · rename_i table inserted
    cases success
    exact Table.insert?_eq_some inserted
  · cases success

theorem Db.insertDependence_tx {dependentId requiredId : String}
    (success : db.insertDependence dependentId requiredId = .ok next) : next.tx = db.tx := by
  unfold Db.insertDependence at success
  split at success
  · cases success
  · split at success
    · cases success
      rfl
    · cases success

theorem Db.insertDependences_tx {dependentId : String} {dependencies : List String}
    (success : dependencies.foldlM (Db.insertDependence dependentId) db = .ok next) :
    next.tx = db.tx := by
  induction dependencies generalizing db with
  | nil =>
      cases success
      rfl
  | cons requiredId rest ih =>
      rw [List.foldlM_cons] at success
      cases inserted : db.insertDependence dependentId requiredId with
      | error cause => simp [inserted, bind, Except.bind] at success
      | ok middle =>
          simp only [inserted, bind, Except.bind] at success
          rw [ih success, insertDependence_tx inserted]

/-- One iteration of `create` adds exactly the row of its transaction, whose id
was free. -/
theorem Db.createOne_ok (success : db.createOne tx = .ok next) :
    db.row tx.id = none ∧
      ∀ id, next.row id = if tx.id = id then some (.ofTransaction tx) else db.row id := by
  unfold Db.createOne at success
  cases inserted : db.insertTx tx with
  | error cause => simp [inserted, bind, Except.bind] at success
  | ok middle =>
      simp only [inserted, bind, Except.bind] at success
      have effect := insertTx_ok inserted
      have sameTable : next.tx = middle.tx := by
        split at success
        · exact insertDependences_tx success
        · cases success
          rfl
      refine ⟨effect.1, fun id => ?_⟩
      have same : next.row id = middle.row id :=
        congrArg (fun table => Table.lookup table id) sameTable
      rw [same, effect.2 id]

/-- The effect of a successful `create`: ids are new and distinct, each
transaction gets its row, and every other row is unchanged. -/
structure Db.Created (db next : Db) (txs : List Transaction) : Prop where
  fresh : ∀ tx ∈ txs, db.row tx.id = none
  distinct : (txs.map Transaction.id).Nodup
  added : ∀ tx ∈ txs, next.row tx.id = some (.ofTransaction tx)
  others : ∀ id, id ∉ txs.map Transaction.id → next.row id = db.row id

theorem Db.create_ok (success : db.create txs = .ok next) : db.Created next txs := by
  induction txs generalizing db with
  | nil =>
      cases success
      exact ⟨by simp, by simp, by simp, fun _ _ => rfl⟩
  | cons tx rest ih =>
      unfold Db.create at success
      rw [List.foldlM_cons] at success
      cases first : db.createOne tx with
      | error cause => simp [first, bind, Except.bind] at success
      | ok middle =>
          simp only [first, bind, Except.bind] at success
          obtain ⟨free, rows⟩ := createOne_ok first
          have tail : middle.Created next rest := ih success
          have apart : tx.id ∉ rest.map Transaction.id := by
            intro member
            obtain ⟨other, otherMem, same⟩ := List.mem_map.mp member
            have taken := tail.fresh other otherMem
            rw [same, rows, if_pos rfl] at taken
            cases taken
          constructor
          · intro other member
            rcases List.mem_cons.mp member with rfl | otherMem
            · exact free
            · have freeLater := tail.fresh other otherMem
              rw [rows] at freeLater
              split at freeLater
              · cases freeLater
              · exact freeLater
          · rw [List.map_cons, List.nodup_cons]
            exact ⟨apart, tail.distinct⟩
          · intro other member
            rcases List.mem_cons.mp member with rfl | otherMem
            · rw [tail.others _ apart, rows, if_pos rfl]
            · exact tail.added other otherMem
          · intro id absent
            rw [List.map_cons, List.mem_cons, not_or] at absent
            rw [tail.others id absent.2, rows, if_neg (Ne.symm absent.1)]

/-- A creation appends its rows to the table, in their order. -/
theorem Db.create_rows (success : db.create txs = .ok next) :
    next.tx.rows = db.tx.rows ++ txs.map .ofTransaction := by
  induction txs generalizing db with
  | nil =>
      cases success
      simp
  | cons tx rest ih =>
      unfold Db.create at success
      rw [List.foldlM_cons, except_bind_ok_iff] at success
      obtain ⟨middle, first, later⟩ := success
      have appended : middle.tx.rows = db.tx.rows ++ [.ofTransaction tx] := by
        simp only [Db.createOne, except_bind_ok_iff] at first
        obtain ⟨inserted, insertion, dependences⟩ := first
        have sameTable : middle.tx = inserted.tx := by
          split at dependences
          · exact insertDependences_tx dependences
          · cases dependences
            rfl
        unfold Db.insertTx at insertion
        split at insertion
        · rename_i table added
          cases insertion
          rw [sameTable]
          exact Table.rows_insert? added
        · cases insertion
      rw [ih later, appended, List.map_cons, List.append_assoc, List.singleton_append]

/-- A row found after a creation was there before or was just created. -/
theorem Db.Created.row_cases (created : db.Created next txs) (found : next.row id = some row) :
    db.row id = some row ∨
      ∃ tx ∈ txs, tx.id = id ∧ row = .ofTransaction tx ∧ db.row id = none := by
  by_cases named : id ∈ txs.map Transaction.id
  · obtain ⟨tx, member, rfl⟩ := List.mem_map.mp named
    rw [created.added tx member] at found
    cases found
    exact .inr ⟨tx, member, rfl, rfl, created.fresh tx member⟩
  · rw [created.others id named] at found
    exact .inl found

/-- A creation keeps every stored row. -/
theorem Db.Created.row_kept (created : db.Created next txs) (found : db.row id = some row) :
    next.row id = some row := by
  have unnamed : id ∉ txs.map Transaction.id := by
    intro named
    obtain ⟨tx, member, rfl⟩ := List.mem_map.mp named
    rw [created.fresh tx member] at found
    cases found
  rw [created.others id unnamed, found]

/-- A creation keeps the status of every stored record. -/
theorem Db.Created.hasStatus (created : db.Created next txs) (holds : db.HasStatus id status) :
    next.HasStatus id status := by
  obtain ⟨row, found, same⟩ := holds
  exact ⟨row, created.row_kept found, same⟩

end Boros.Storage
