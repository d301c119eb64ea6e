import Boros.Storage.Batch

/-!
# Slots in signed columns

A slot is a `u64`, the column which keeps it a signed 64-bit integer: a write casts with
`as i64`, a read converts with `try_from`. `RecordOf` says which slots the store ought to
return after a write; they are returned as long as they lie below the sign boundary.
-/

namespace Boros.Storage

open Boros.Data Boros.Semantics Boros.Queue

variable {db : Db} {txs : List Transaction} {tx : Transaction} {id : String} {row : TxRow}
  {status : TransactionStatus} {slot : Option UInt64} {cursor : Cursor} {bound : UInt64}

/-- The slot which a row was written with: the same 64 bits. -/
def TxRow.written (row : TxRow) : Option UInt64 := row.slot.map Int64.toUInt64

@[simp]
theorem TxRow.written_assign (row : TxRow) (tx : Transaction) :
    (row.assign tx).written = tx.slot := by
  cases slot : tx.slot <;> simp [written, assign, slot, asI64]

/-- A record of a batch whose row is stored and not assigned by a later one. -/
def Lasting (db : Db) (txs : List Transaction) (tx : Transaction) : Prop :=
  (db.row tx.id).isSome ∧ ∃ before after, txs = before ++ tx :: after ∧
    tx.id ∉ after.map Transaction.id

/-- After a batch there is a record of this status and slot: it comes from the batch, or from
a row which the batch does not name. -/
def RecordOf (db : Db) (txs : List Transaction) (id : String) (status : TransactionStatus)
    (slot : Option UInt64) : Prop :=
  (∃ tx, Lasting db txs tx ∧ tx.id = id ∧ tx.status = status ∧ tx.slot = slot) ∨
    ∃ row, db.row id = some row ∧ id ∉ txs.map Transaction.id ∧ row.status = status ∧
      row.written = slot

/-- `update` is a batch of one. -/
theorem Db.update_eq_updateBatch (db : Db) (tx : Transaction) :
    db.update tx = db.updateBatch [tx] := rfl

/-! ## What the property asks for -/

/-- A record is read back by a status query with its slot, and by every batch it is in. -/
structure ReadBack (db : Db) (tx : Transaction) : Prop where
  find : ∃ found, db.find tx.status = .ok found ∧
    ∃ record ∈ found, record.id = tx.id ∧ record.slot = tx.slot
  next : ∀ limits : List (String × UInt16), limits.length ≤ maxCompoundSelect →
    (∃ entry ∈ limits, ∃ row ∈ db.oldest tx.status entry.1 entry.2.toNat, row.id = tx.id) →
      ∃ batch, db.next tx.status limits = .ok batch ∧
        ∃ record ∈ batch, record.id = tx.id ∧ record.slot = tx.slot

/-- Slots are kept over all of `u64`: by the cursor, by the records written, and in the
comparison of `find_to_rollback`. -/
structure SlotsFaithful (db : Db) (txs : List Transaction) (cursor : Cursor) (bound : UInt64) :
    Prop where
  current : (db.setCursor cursor).currentCursor = .ok (some cursor)
  records : ∀ tx, Lasting db txs tx → ReadBack (db.updateBatch txs) tx
  rollback : ∃ found, (db.updateBatch txs).findToRollback bound = .ok found ∧
    (found.map Transaction.id).Nodup ∧
    ∀ id slot, (∃ record ∈ found, record.id = id ∧ record.slot = slot) ↔
      RecordOf db txs id .confirmed slot ∧ ∃ value ∈ slot, bound < value

/-- Both slots are below the sign boundary; or both are not, and the second one is not above
the first one. -/
def Comparable (bound value : UInt64) : Prop :=
  if bound.toNat < 2 ^ 63 then value.toNat < 2 ^ 63 else 2 ^ 63 ≤ value.toNat ∧ value ≤ bound

/-- No slot written reaches the sign boundary, and the slot compared with is comparable with
every confirmed one. -/
structure BelowSign (db : Db) (txs : List Transaction) (cursor : Cursor) (bound : UInt64) :
    Prop where
  cursor : cursor.slot.toNat < 2 ^ 63
  records : ∀ tx, Lasting db txs tx → ∀ id value, RecordOf db txs id tx.status (some value) →
    value.toNat < 2 ^ 63
  rollback : ∀ id value, RecordOf db txs id .confirmed (some value) → Comparable bound value

/-! ## The rows after a batch -/

/-- A batch assigns to a row it names the last record which names it. -/
theorem Db.row_updateBatch_of_lasting (lasting : Lasting db txs tx) :
    ∃ row, (db.updateBatch txs).row tx.id = some row ∧ row.status = tx.status ∧
      row.written = tx.slot := by
  obtain ⟨stored, before, after, rfl, later⟩ := lasting
  have prior : ((db.updateBatch before).row tx.id).isSome := by
    rw [row_updateBatch_isSome]
    exact stored
  obtain ⟨row, found⟩ := Option.isSome_iff_exists.mp prior
  refine ⟨row.assign tx, ?_, rfl, row.written_assign tx⟩
  rw [updateBatch, List.foldl_append, List.foldl_cons]
  change (((db.updateBatch before).update tx).updateBatch after).row tx.id = _
  rw [row_updateBatch_of_notMem later, row_update, if_pos rfl, found]
  rfl

/-- Some record of a batch is the last one to name a row. -/
theorem exists_last (member : id ∈ txs.map Transaction.id) :
    ∃ tx before after, txs = before ++ tx :: after ∧ tx.id = id ∧
      id ∉ after.map Transaction.id := by
  induction txs with
  | nil => cases member
  | cons head rest ih =>
      by_cases later : id ∈ rest.map Transaction.id
      · obtain ⟨tx, before, after, rfl, named, last⟩ := ih later
        exact ⟨tx, head :: before, after, rfl, named, last⟩
      · rcases List.mem_cons.mp member with rfl | inRest
        · exact ⟨head, [], rest, rfl, rfl, later⟩
        · exact absurd inRest later

/-- The records there ought to be are the rows there are. -/
theorem recordOf_iff : RecordOf db txs id status slot ↔
    ∃ row, (db.updateBatch txs).row id = some row ∧ row.status = status ∧ row.written = slot := by
  constructor
  · rintro (⟨tx, lasting, rfl, rfl, rfl⟩ | ⟨row, found, unnamed, rfl, rfl⟩)
    · exact Db.row_updateBatch_of_lasting lasting
    · exact ⟨row, (Db.row_updateBatch_of_notMem unnamed).trans found, rfl, rfl⟩
  · rintro ⟨row, found, rfl, rfl⟩
    by_cases named : id ∈ txs.map Transaction.id
    · obtain ⟨tx, before, after, cut, rfl, last⟩ := exists_last named
      have stored : (db.row tx.id).isSome := by
        rw [← db.row_updateBatch_isSome txs, found]
        rfl
      have lasting : Lasting db txs tx := ⟨stored, before, after, cut, last⟩
      obtain ⟨same, foundToo, status, written⟩ := Db.row_updateBatch_of_lasting lasting
      rw [found] at foundToo
      cases foundToo
      exact .inl ⟨tx, lasting, rfl, status.symm, written.symm⟩
    · rw [Db.row_updateBatch_of_notMem named] at found
      exact .inr ⟨row, found, named, rfl, rfl⟩

/-! ## Reading -/

/-- What a slot column is read as. -/
theorem readSlot_ok_iff {stored : Option Int64} :
    readSlot stored = .ok slot ↔
      stored.map Int64.toUInt64 = slot ∧ ∀ value ∈ slot, value.toNat < 2 ^ 63 := by
  cases stored with
  | none =>
      constructor
      · intro read
        cases read
        exact ⟨rfl, by simp⟩
      · rintro ⟨rfl, _⟩
        rfl
  | some stored =>
      constructor
      · intro read
        simp only [readSlot] at read
        split at read
        · rename_i decoded
          cases read
          obtain ⟨same, small⟩ := tryFromI64_eq_some_iff.mp decoded
          exact ⟨congrArg some same, by simpa using small⟩
        · cases read
      · rintro ⟨rfl, small⟩
        have decoded : tryFromI64 stored = some stored.toUInt64 :=
          tryFromI64_eq_some_iff.mpr ⟨rfl, small _ rfl⟩
        simp only [readSlot, decoded]
        rfl

/-- A row decodes exactly when the slot it was written with is below the sign boundary, and then
to that slot. -/
theorem TxRow.fromRow_slot {record : Transaction} (decoded : row.fromRow = .ok record) :
    record.slot = row.written ∧ ∀ value ∈ row.written, value.toNat < 2 ^ 63 := by
  obtain ⟨_, _, _, _, _, _, read⟩ := fromRow_ok decoded
  obtain ⟨same, small⟩ := readSlot_ok_iff.mp read
  rw [written, same]
  exact ⟨rfl, small⟩

theorem TxRow.fromRow_isOk_of_small (small : ∀ value ∈ row.written, value.toNat < 2 ^ 63) :
    ∃ record, row.fromRow = .ok record :=
  fromRow_isOk_iff.mpr ⟨row.written, readSlot_ok_iff.mpr ⟨rfl, small⟩⟩

/-! ## When slots are kept -/

/-- The cursor is read back exactly when its slot is below the sign boundary. -/
theorem Db.currentCursor_setCursor_iff (db : Db) (cursor : Cursor) :
    (db.setCursor cursor).currentCursor = .ok (some cursor) ↔ cursor.slot.toNat < 2 ^ 63 := by
  have read := tryFromI64_asI64 cursor.slot
  by_cases small : cursor.slot.toNat < 2 ^ 63
  · rw [if_pos small] at read
    simp only [currentCursor, setCursor, read]
    exact iff_of_true trivial small
  · rw [if_neg small] at read
    simp only [currentCursor, setCursor, read]
    exact iff_of_false (by simp) small

/-- A scan returns exactly when all slots which it selects are below the sign boundary. -/
theorem fetch_isOk_iff {predicate : TxRow → Bool} :
    (∃ found, db.tx.fetch predicate TxRow.fromRow = .ok found) ↔
      ∀ id row, db.row id = some row → predicate row → ∀ value ∈ row.written,
        value.toNat < 2 ^ 63 := by
  constructor
  · rintro ⟨found, success⟩ id row stored selected
    obtain ⟨record, _, decoded⟩ := Table.fetch_complete success stored selected
    exact (TxRow.fromRow_slot decoded).2
  · intro small
    refine Table.fetch_isOk fun id row stored selected => ?_
    exact TxRow.fromRow_isOk_of_small (small id row stored selected)

/-- A record of a batch is read back exactly when all slots of its status are below the sign
boundary: a status query fails as a whole. -/
theorem readBack_iff (lasting : Lasting db txs tx) :
    ReadBack (db.updateBatch txs) tx ↔
      ∀ id value, RecordOf db txs id tx.status (some value) → value.toNat < 2 ^ 63 := by
  obtain ⟨row, stored, sameStatus, written⟩ := Db.row_updateBatch_of_lasting lasting
  constructor
  · intro readBack id value record
    obtain ⟨found, success, _⟩ := readBack.find
    obtain ⟨other, otherStored, otherStatus, otherWritten⟩ := recordOf_iff.mp record
    have small := fetch_isOk_iff.mp ⟨found, success⟩ id other otherStored
      (by simpa using otherStatus)
    exact small value (by rw [otherWritten]; rfl)
  · intro small
    have decodes : ∀ id other, (db.updateBatch txs).row id = some other →
        other.status = tx.status → ∀ value ∈ other.written, value.toNat < 2 ^ 63 := by
      intro id other otherStored otherStatus value member
      exact small id value (recordOf_iff.mpr ⟨other, otherStored, otherStatus, member⟩)
    constructor
    · obtain ⟨found, success⟩ : ∃ found, (db.updateBatch txs).find tx.status = .ok found :=
        fetch_isOk_iff.mpr fun id other otherStored selected =>
          decodes id other otherStored (by simpa using selected)
      obtain ⟨record, member, decoded⟩ :=
        Table.fetch_complete success stored (by simpa using sameStatus)
      refine ⟨found, success, record, member, ?_, ?_⟩
      · exact (TxRow.fromRow_id decoded).trans (Db.row_id stored)
      · rw [(TxRow.fromRow_slot decoded).1, written]
    · rintro limits few ⟨entry, entryMem, selected, oldest, named⟩
      have rows : ∀ other ∈ limits.flatMap fun entry =>
          (db.updateBatch txs).oldest tx.status entry.1 entry.2.toNat,
            ∃ record, other.fromRow = .ok record := by
        intro other member
        obtain ⟨_, _, otherOldest⟩ := List.mem_flatMap.mp member
        obtain ⟨otherStored, otherStatus, _⟩ := Db.mem_oldest otherOldest
        exact TxRow.fromRow_isOk_of_small (decodes _ other otherStored otherStatus)
      obtain ⟨batch, decodedAll⟩ := Table.mapM_isOk_iff.mpr rows
      have success : (db.updateBatch txs).next tx.status limits = .ok batch := by
        rw [Db.next_eq, if_neg (Nat.not_lt.mpr few), decodedAll]
      obtain ⟨record, member, decoded⟩ := Db.next_complete success entryMem oldest
      obtain ⟨selectedStored, _, _⟩ := Db.mem_oldest oldest
      rw [named, stored] at selectedStored
      cases selectedStored
      refine ⟨batch, success, record, member, (TxRow.fromRow_id decoded).trans named, ?_⟩
      rw [(TxRow.fromRow_slot decoded).1, written]

/-- Slots are comparable exactly when the comparison of the signed columns is the one of the
slots, and what it selects decodes. -/
theorem comparable_iff (bound value : UInt64) : Comparable bound value ↔
    (asI64 bound < asI64 value ↔ bound < value) ∧
      (asI64 bound < asI64 value → value.toNat < 2 ^ 63) := by
  rw [asI64_lt_iff, Comparable, UInt64.lt_iff_toNat_lt, UInt64.le_iff_toNat_le]
  split <;> omega

/-- Which rows the comparison selects. -/
theorem slotAbove_iff (row : TxRow) (bound : UInt64) :
    slotAbove row.slot (asI64 bound) ↔ ∃ value ∈ row.written, asI64 bound < asI64 value := by
  cases slot : row.slot with
  | none => simp [slotAbove, TxRow.written, slot]
  | some stored =>
      have bits : asI64 stored.toUInt64 = stored := by simp [asI64]
      simp [slotAbove, TxRow.written, slot, bits]

/-- The rows which `find_to_rollback` selects. -/
theorem rollback_selects_iff (row : TxRow) (bound : UInt64) :
    (row.status = .confirmed && slotAbove row.slot (asI64 bound)) ↔
      row.status = .confirmed ∧ ∃ value ∈ row.written, asI64 bound < asI64 value := by
  rw [Bool.and_eq_true, decide_eq_true_iff, slotAbove_iff]

/-- The records which `find_to_rollback` returns. -/
theorem Db.mem_findToRollback_iff {found : List Transaction}
    (success : db.findToRollback bound = .ok found) (id : String) (slot : Option UInt64) :
    (∃ record ∈ found, record.id = id ∧ record.slot = slot) ↔
      ∃ row, db.row id = some row ∧ row.status = .confirmed ∧ row.written = slot ∧
        ∃ value ∈ slot, asI64 bound < asI64 value := by
  have selection := findToRollback_selected success
  constructor
  · rintro ⟨record, member, rfl, rfl⟩
    obtain ⟨row, stored, selected, decoded⟩ := selection.sound record member
    obtain ⟨confirmed, value, written, above⟩ := (rollback_selects_iff row bound).mp selected
    have slot := (TxRow.fromRow_slot decoded).1
    exact ⟨row, stored, confirmed, slot.symm, value, slot ▸ written, above⟩
  · rintro ⟨row, stored, confirmed, rfl, value, written, above⟩
    have selected := (rollback_selects_iff row bound).mpr ⟨confirmed, value, written, above⟩
    obtain ⟨record, member, sameId, decoded⟩ := selection.complete id row stored selected
    exact ⟨record, member, sameId, (TxRow.fromRow_slot decoded).1⟩

/-- `find_to_rollback` returns exactly when what it selects decodes. -/
theorem Db.findToRollback_isOk_iff : (∃ found, db.findToRollback bound = .ok found) ↔
    ∀ id row, db.row id = some row → row.status = .confirmed → ∀ value ∈ row.written,
      asI64 bound < asI64 value → value.toNat < 2 ^ 63 := by
  refine fetch_isOk_iff.trans ⟨fun decodes id row stored confirmed value written above => ?_,
    fun decodes id row stored selected value written => ?_⟩
  · have selected := (rollback_selects_iff row bound).mpr ⟨confirmed, value, written, above⟩
    exact decodes id row stored selected value written
  · obtain ⟨confirmed, other, otherMem, above⟩ := (rollback_selects_iff row bound).mp selected
    rw [written] at otherMem
    cases otherMem
    exact decodes id row stored confirmed value written above

/-- The confirmed records above a slot are returned, and no others, exactly when it is comparable
with all confirmed slots. -/
theorem findToRollback_exact_iff (db : Db) (txs : List Transaction) (bound : UInt64) :
    (∃ found, (db.updateBatch txs).findToRollback bound = .ok found ∧
      (found.map Transaction.id).Nodup ∧
      ∀ id slot, (∃ record ∈ found, record.id = id ∧ record.slot = slot) ↔
        RecordOf db txs id .confirmed slot ∧ ∃ value ∈ slot, bound < value) ↔
    ∀ id value, RecordOf db txs id .confirmed (some value) → Comparable bound value := by
  constructor
  · rintro ⟨found, success, _, exact⟩ id value record
    have returned := Db.mem_findToRollback_iff success id (some value)
    have expected := exact id (some value)
    obtain ⟨row, stored, confirmed, written⟩ := recordOf_iff.mp record
    rw [comparable_iff]
    refine ⟨⟨fun above => ?_, fun above => ?_⟩, fun above => ?_⟩
    · have here := returned.mpr ⟨row, stored, confirmed, written, value, rfl, above⟩
      obtain ⟨_, _, same, isAbove⟩ := expected.mp here
      cases same
      exact isAbove
    · have here := expected.mpr ⟨record, value, rfl, above⟩
      obtain ⟨_, _, _, _, _, same, isAbove⟩ := returned.mp here
      cases same
      exact isAbove
    · exact Db.findToRollback_isOk_iff.mp ⟨found, success⟩ id row stored confirmed value written
        above
  · intro comparable
    have rows : ∀ id row, (db.updateBatch txs).row id = some row → row.status = .confirmed →
        ∀ value ∈ row.written, (asI64 bound < asI64 value ↔ bound < value) ∧
          (asI64 bound < asI64 value → value.toNat < 2 ^ 63) := by
      intro id row stored confirmed value written
      rw [← comparable_iff]
      exact comparable id value (recordOf_iff.mpr ⟨row, stored, confirmed, written⟩)
    obtain ⟨found, success⟩ := Db.findToRollback_isOk_iff.mpr
      fun id row stored confirmed value written => (rows id row stored confirmed value written).2
    refine ⟨found, success, (Db.findToRollback_selected success).distinct, fun id slot => ?_⟩
    rw [Db.mem_findToRollback_iff success, recordOf_iff]
    constructor
    · rintro ⟨row, stored, confirmed, rfl, value, written, above⟩
      exact ⟨⟨row, stored, confirmed, rfl⟩, value, written,
        (rows id row stored confirmed value written).1.mp above⟩
    · rintro ⟨⟨row, stored, confirmed, rfl⟩, value, written, above⟩
      exact ⟨row, stored, confirmed, rfl, value, written,
        (rows id row stored confirmed value written).1.mpr above⟩

/-- Slots are kept exactly when they are below the sign boundary, where it matters. -/
theorem slotsFaithful_iff (db : Db) (txs : List Transaction) (cursor : Cursor)
    (bound : UInt64) : SlotsFaithful db txs cursor bound ↔ BelowSign db txs cursor bound := by
  constructor
  · intro faithful
    constructor
    · exact (db.currentCursor_setCursor_iff cursor).mp faithful.current
    · intro tx lasting
      exact (readBack_iff lasting).mp (faithful.records tx lasting)
    · exact (findToRollback_exact_iff db txs bound).mp faithful.rollback
  · intro below
    constructor
    · exact (db.currentCursor_setCursor_iff cursor).mpr below.cursor
    · intro tx lasting
      exact (readBack_iff lasting).mpr (below.records tx lasting)
    · exact (findToRollback_exact_iff db txs bound).mpr below.rollback

/-! A record which is confirmed at the first slot past the sign boundary. -/

def slotDb : Db :=
  ⟨⟨[⟨"1", [], .inFlight, none, "banana", 1⟩], by decide⟩, [], none⟩

def slotTx : Transaction := ⟨"1", [], .confirmed, "banana", some 0x8000000000000000, none, 1⟩

/-- It cannot be read back, and is not found to be rolled back to the start of the chain. -/
theorem not_slotsFaithful_of_sign :
    (slotDb.update slotTx).find .confirmed = .error .decode ∧
      (slotDb.update slotTx).findToRollback 0 = .ok [] ∧
      ¬ SlotsFaithful slotDb [slotTx] ⟨0, []⟩ 0 := by
  have failure : (slotDb.updateBatch [slotTx]).find .confirmed = .error .decode := by
    decide +kernel
  refine ⟨failure, by decide +kernel, ?_⟩
  intro faithful
  have lasting : Lasting slotDb [slotTx] slotTx :=
    ⟨by decide, [], [], rfl, List.not_mem_nil⟩
  obtain ⟨found, success, _⟩ := (faithful.records slotTx lasting).find
  rw [show slotTx.status = .confirmed from rfl, failure] at success
  cases success

end Boros.Storage
