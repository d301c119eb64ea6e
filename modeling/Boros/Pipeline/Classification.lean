import Boros.Pipeline.SlotPresence

/-!
# What a block makes of the records

A block confirms the in-flight records of its transactions and sends those back to pending
which were broadcast too long ago. `execute` takes the age of a record as an unsigned
difference of slots, and ingest records the slot of the tip, which the monitor may not have
reached. `classifies_iff_tolerated` says when records of a later slot than the block's are
left alone as they should be.
-/

namespace Boros.Pipeline.Monitor

open Boros.Data Boros.Semantics Boros.Storage Boros.Ledger

/-- The record was broadcast too long ago, the slots taken as integers. -/
def overdue (config : Config) (slot : UInt64) (stored : Option Int64) : Bool :=
  stored.any fun sentAt => sentAt.toInt + (config.retrySlotDiff.toNat : Int) < slot.toNat

/-- The record was broadcast too long ago, by the difference of the slots as it is computed. -/
def exceeds (profile : Profile) (config : Config) (slot sentAt : UInt64) : Bool :=
  (u64Sub profile slot sentAt).toOption.any fun difference => config.retrySlotDiff < difference

/-- What a block is to make of a row. -/
def classify (config : Config) (slot : UInt64) (txs : List Tx) (row : TxRow) : TxRow :=
  if row.status = .inFlight then
    if containsTx txs row.id then { row with status := .confirmed, slot := some (asI64 slot) }
    else if overdue config slot row.slot then { row with status := .pending, slot := none }
    else row
  else row

/-- The block is executed and makes of every row what it is to make of it. -/
def Classifies (profile : Profile) (config : Config) (slot : UInt64) (hash : Bytes)
    (txs : List Tx) (db : Db) : Prop :=
  ∃ next, (execute profile config (.rollForward (slot, hash) txs)).exec db = (.ok (), next) ∧
    ∀ id, next.row id = (db.row id).map (classify config slot txs)

/-- Every in-flight record carries a slot below the sign boundary. -/
def InFlightRecorded (db : Db) : Prop :=
  ∀ id row, db.row id = some row → row.status = .inFlight →
    ∃ sentAt : UInt64, sentAt.toNat < 2 ^ 63 ∧ row.slot = some (asI64 sentAt)

/-- The record is not of a later slot than the block; or overflow is not checked, and it is
confirmed or not even overdue by the wrapped difference. -/
def Tolerated (profile : Profile) (config : Config) (slot : UInt64) (txs : List Tx)
    (row : TxRow) : Prop :=
  ∀ sentAt, row.slot = some sentAt → (slot.toNat : Int) < sentAt.toInt →
    profile = .release ∧
      (containsTx txs row.id ∨ 2 ^ 64 + slot.toNat - sentAt.toInt ≤ config.retrySlotDiff.toNat)

variable {profile : Profile} {config : Config} {slot sentAt : UInt64} {hash : Bytes}
  {txs : List Tx} {db next : Db} {id : String} {row : TxRow} {itx : Transaction}
  {txsInflight confirm retry : List Transaction}

theorem exceeds_iff : exceeds profile config slot sentAt ↔
    ∃ difference, u64Sub profile slot sentAt = .ok difference ∧
      config.retrySlotDiff < difference := by
  unfold exceeds
  cases u64Sub profile slot sentAt <;> simp [Except.toOption]

/-- For a record which is not of a later slot the computed difference is the real one. -/
theorem exceeds_iff_overdue (small : sentAt.toNat < 2 ^ 63) (before : sentAt.toNat ≤ slot.toNat) :
    exceeds profile config slot sentAt ↔ overdue config slot (some (asI64 sentAt)) := by
  rw [exceeds_iff]
  simp only [u64Sub_ok_iff, overdue, Option.any_some, asI64_of_lt small, decide_eq_true_eq,
    UInt64.lt_iff_toNat_lt]
  constructor
  · rintro ⟨difference, computed, above⟩
    omega
  · intro late
    have bound : slot.toNat < 2 ^ 64 := slot.toNat_lt
    have exact : (slot - sentAt).toNat = slot.toNat - sentAt.toNat :=
      UInt64.toNat_sub_of_le _ _ (UInt64.le_iff_toNat_le.mpr before)
    exact ⟨slot - sentAt, .inl ⟨before, exact⟩, by omega⟩

/-- For a record of a later slot the computed difference is off by 2 ^ 64. -/
theorem exceeds_iff_of_later (later : slot.toNat < sentAt.toNat) :
    exceeds profile config slot sentAt ↔
      profile = .release ∧ config.retrySlotDiff.toNat < 2 ^ 64 + slot.toNat - sentAt.toNat := by
  rw [exceeds_iff]
  simp only [u64Sub_ok_iff, UInt64.lt_iff_toNat_lt]
  constructor
  · rintro ⟨difference, ⟨before, _⟩ | ⟨_, release, computed⟩, above⟩
    · omega
    · exact ⟨release, by omega⟩
  · rintro ⟨release, above⟩
    have wraps : (slot - sentAt).toNat = 2 ^ 64 + slot.toNat - sentAt.toNat := by
      have bound : sentAt.toNat < 2 ^ 64 := sentAt.toNat_lt
      rw [UInt64.toNat_sub]
      omega
    exact ⟨slot - sentAt, .inr ⟨later, release, wraps⟩, by omega⟩

/-- The slot of a record in hand is the one which is stored. -/
theorem slot_of_fromRow (decoded : row.fromRow = .ok itx) (small : sentAt.toNat < 2 ^ 63)
    (stored : row.slot = some (asI64 sentAt)) : itx.slot = some sentAt := by
  have read := (TxRow.fromRow_ok decoded).2.2.2.2.2.2
  rw [stored, readSlot_asI64 small] at read
  exact (Except.ok.inj read).symm

/-- The rows after both batches were written: as the first one left them, but for the
in-flight rows which the filter kept. -/
theorem row_txsRetry (query : db.find .inFlight = .ok txsInflight)
    (retried : txsRetry profile config slot (txsConfirm slot txs txsInflight) txsInflight =
      .ok retry)
    (found : db.row id = some row) (status : row.status = .inFlight)
    (decoded : row.fromRow = .ok itx) :
    ((db.updateBatch (txsConfirm slot txs txsInflight)).updateBatch retry).row id =
      if isRetry profile config slot (txsConfirm slot txs txsInflight) itx = .ok true then
        some { row with status := .pending, slot := none }
      else (db.updateBatch (txsConfirm slot txs txsInflight)).row id := by
  have selection := Db.find_selected query
  obtain rfl : itx.id = id := (TxRow.fromRow_id decoded).trans (Db.row_id found)
  have member : itx ∈ txsInflight := by
    obtain ⟨other, otherMem, _, decodedOther⟩ := Db.find_complete query found status
    rw [decoded] at decodedOther
    cases decodedOther
    exact otherMem
  split
  · rename_i kept
    have written : { itx with status := .pending, slot := none } ∈ retry :=
      (mem_txsRetry_iff retried).mpr ⟨itx, member, kept, rfl⟩
    have apart := notMem_txsConfirm_of_mem_txsRetry retried written
    have assigned := Db.row_updateBatch_of_mem (db.updateBatch (txsConfirm slot txs txsInflight))
      (selection.distinct.sublist (txsRetry_ids_sublist retried)) written
    simp only at apart assigned
    rw [Db.row_updateBatch_of_notMem apart, found] at assigned
    rw [assigned, Option.map_some, assign_fromRow decoded]
    rfl
  · rename_i dropped
    apply Db.row_updateBatch_of_notMem
    intro named
    obtain ⟨tx, txMem, same⟩ := List.mem_map.mp named
    obtain ⟨other, otherMem, kept, rfl⟩ := (mem_txsRetry_iff retried).mp txMem
    obtain ⟨stored, storedAt, _, decodedOther⟩ := Db.find_sound query otherMem
    simp only at same
    rw [same, found] at storedAt
    cases storedAt
    rw [decoded] at decodedOther
    cases decodedOther
    exact dropped kept

/-- The filter keeps the records which are not in the block and are overdue by the difference it
computes. -/
theorem isRetry_true_iff (member : itx ∈ txsInflight) (sent : itx.slot = some sentAt) :
    isRetry profile config slot (txsConfirm slot txs txsInflight) itx = .ok true ↔
      ¬ containsTx txs itx.id ∧ exceeds profile config slot sentAt := by
  have unconfirmed : (!(txsConfirm slot txs txsInflight).any fun tx => tx.id = itx.id) =
      !containsTx txs itx.id := by
    rw [Bool.eq_iff_iff]
    simp only [Bool.not_eq_true', List.any_eq_false, decide_eq_true_eq, mem_txsConfirm_iff]
    constructor
    · intro apart
      by_contra contained
      rw [Bool.not_eq_false] at contained
      exact apart _ ⟨itx, member, contained, rfl⟩ rfl
    · rintro outside _ ⟨other, _, contained, rfl⟩ same
      simp only at same
      rw [same, outside] at contained
      cases contained
  rw [isRetry_ok_iff, unconfirmed, sent, exceeds_iff]
  constructor
  · rintro ⟨_, difference, same, subtracted, kept⟩
    cases same
    simp only [Bool.true_eq, Bool.and_eq_true, decide_eq_true_eq, Bool.not_eq_true'] at kept
    exact ⟨by simp [kept.2], difference, subtracted, kept.1⟩
  · rintro ⟨outside, difference, subtracted, above⟩
    exact ⟨sentAt, difference, rfl, subtracted, by simp [above, outside]⟩

/-- The row of a record which was in flight, once the block is executed. -/
theorem row_rollForward_inFlight (query : db.find .inFlight = .ok txsInflight)
    (retried : txsRetry profile config slot (txsConfirm slot txs txsInflight) txsInflight =
      .ok retry)
    (found : db.row id = some row) (status : row.status = .inFlight)
    (decoded : row.fromRow = .ok itx) (sent : itx.slot = some sentAt) :
    ((db.updateBatch (txsConfirm slot txs txsInflight)).updateBatch retry).row id =
      some (if containsTx txs id then { row with status := .confirmed, slot := some (asI64 slot) }
        else if exceeds profile config slot sentAt then
          { row with status := .pending, slot := none }
        else row) := by
  obtain ⟨other, member, rfl, decodedOther⟩ := Db.find_complete query found status
  rw [decoded] at decodedOther
  cases decodedOther
  rw [row_txsRetry query retried found status decoded, row_txsConfirm slot txs query found]
  simp only [isRetry_true_iff member sent, status, true_and]
  by_cases contained : containsTx txs itx.id = true
  · rw [if_neg fun kept => kept.1 contained, if_pos contained, if_pos contained]
  · rw [if_neg contained]
    by_cases above : exceeds profile config slot sentAt = true
    · rw [if_pos ⟨contained, above⟩, if_pos above, if_neg contained]
    · rw [if_neg fun kept => above kept.2, if_neg above, if_neg contained]

/-- No other row changes. -/
theorem row_rollForward_other (query : db.find .inFlight = .ok txsInflight)
    (retried : txsRetry profile config slot (txsConfirm slot txs txsInflight) txsInflight =
      .ok retry)
    (other : ∀ row, db.row id = some row → row.status ≠ .inFlight) :
    ((db.updateBatch (txsConfirm slot txs txsInflight)).updateBatch retry).row id = db.row id := by
  have unnamed : id ∉ txsInflight.map Transaction.id := by
    intro named
    obtain ⟨itx, member, rfl⟩ := List.mem_map.mp named
    obtain ⟨row, found, status, _⟩ := Db.find_sound query member
    exact other row found status
  have unconfirmed := fun named =>
    unnamed ((txsConfirm_ids_sublist slot txs txsInflight).subset named)
  have unretried := fun named => unnamed ((txsRetry_ids_sublist retried).subset named)
  rw [Db.row_updateBatch_of_notMem unretried, Db.row_updateBatch_of_notMem unconfirmed]

/-- Where overflow is checked, no record of a later slot is tolerated. -/
theorem Tolerated.computes (tolerated : Tolerated profile config slot txs row)
    (small : sentAt.toNat < 2 ^ 63) (stored : row.slot = some (asI64 sentAt)) :
    profile = .debug → sentAt.toNat ≤ slot.toNat := by
  rintro rfl
  by_contra later
  have release := (tolerated _ stored (by rw [asI64_of_lt small]; omega)).1
  cases release

/-- The block is executed if the slots of the records in flight can be subtracted. -/
theorem rollForward_total (recorded : InFlightRecorded db)
    (tolerated : ∀ id row, db.row id = some row → row.status = .inFlight →
      Tolerated profile config slot txs row) :
    ∃ txsInflight retry, db.find .inFlight = .ok txsInflight ∧
      txsRetry profile config slot (txsConfirm slot txs txsInflight) txsInflight = .ok retry := by
  obtain ⟨txsInflight, query⟩ := Db.find_isOk fun id row found status => by
    obtain ⟨sentAt, small, stored⟩ := recorded id row found status
    exact ⟨some sentAt, by rw [stored, readSlot_asI64 small]⟩
  have sent : ∀ itx ∈ txsInflight, SentBefore profile slot itx := by
    intro itx member
    obtain ⟨row, found, status, decoded⟩ := Db.find_sound query member
    obtain ⟨sentAt, small, stored⟩ := recorded _ row found status
    refine ⟨sentAt, slot_of_fromRow decoded small stored, fun debug => ?_⟩
    exact UInt64.le_iff_toNat_le.mpr ((tolerated _ row found status).computes small stored debug)
  obtain ⟨retry, retried⟩ := @txsRetry_total profile config slot txsInflight
    (txsConfirm slot txs txsInflight) sent
  exact ⟨txsInflight, retry, query, retried⟩

/-- The row is made what it is to be made if it is in the block, or if the computed difference
decides as the real one does. -/
theorem computed_eq_classify_iff (status : row.status = .inFlight) :
    (if containsTx txs row.id then { row with status := .confirmed, slot := some (asI64 slot) }
      else if exceeds profile config slot sentAt then
        { row with status := .pending, slot := none }
      else row) = classify config slot txs row ↔
    containsTx txs row.id ∨
      (exceeds profile config slot sentAt ↔ overdue config slot row.slot) := by
  rw [classify, if_pos status]
  by_cases contained : containsTx txs row.id = true
  · simp [contained]
  · have changed : { row with status := .pending, slot := none } ≠ row := by
      intro same
      rw [← same] at status
      cases status
    by_cases above : exceeds profile config slot sentAt = true <;>
      by_cases late : overdue config slot row.slot = true <;>
        simp [contained, above, late, changed, changed.symm]

/-- The decision is right exactly for the records which are tolerated. -/
theorem tolerated_iff (small : sentAt.toNat < 2 ^ 63) (stored : row.slot = some (asI64 sentAt))
    (computes : profile = .debug → sentAt.toNat ≤ slot.toNat) :
    Tolerated profile config slot txs row ↔ containsTx txs row.id ∨
      (exceeds profile config slot sentAt ↔ overdue config slot row.slot) := by
  by_cases before : sentAt.toNat ≤ slot.toNat
  · rw [stored]
    refine iff_of_true ?_ (.inr (exceeds_iff_overdue small before))
    intro other same later
    rw [stored] at same
    cases same
    rw [asI64_of_lt small] at later
    omega
  · have release : profile = .release := by
      cases profile with
      | debug => exact absurd (computes rfl) before
      | release => rfl
    have early : ¬ overdue config slot row.slot = true := by
      simp only [stored, overdue, Option.any_some, asI64_of_lt small, decide_eq_true_eq]
      omega
    rw [exceeds_iff_of_later (Nat.lt_of_not_le before), iff_false_right early]
    simp only [Tolerated, stored, Option.some.injEq, forall_eq', asI64_of_lt small, release,
      true_and]
    have bound : sentAt.toNat < 2 ^ 64 := sentAt.toNat_lt
    constructor
    · intro tolerated
      rcases tolerated (by omega) with contained | early
      · exact .inl contained
      · exact .inr (by omega)
    · rintro (contained | early) _
      · exact .inl contained
      · exact .inr (by omega)

/-- A block in which every record is tolerated makes of every record what it is to make of it. -/
theorem row_rollForward_eq (query : db.find .inFlight = .ok txsInflight)
    (retried : txsRetry profile config slot (txsConfirm slot txs txsInflight) txsInflight =
      .ok retry)
    (recorded : InFlightRecorded db)
    (tolerated : ∀ id row, db.row id = some row → row.status = .inFlight →
      Tolerated profile config slot txs row) (id : String) :
    ((db.updateBatch (txsConfirm slot txs txsInflight)).updateBatch retry).row id =
      (db.row id).map (classify config slot txs) := by
  cases found : db.row id with
  | none =>
      rw [row_rollForward_other query retried (by simp [found]), found]
      rfl
  | some row =>
      by_cases status : row.status = .inFlight
      · obtain ⟨sentAt, small, stored⟩ := recorded id row found status
        obtain ⟨itx, member, rfl, decoded⟩ := Db.find_complete query found status
        have sent := slot_of_fromRow decoded small stored
        have here := tolerated _ row found status
        have decided := (tolerated_iff small stored (here.computes small stored)).mp here
        rw [row_rollForward_inFlight query retried found status decoded sent, Option.map_some,
          ← Db.row_id found, (computed_eq_classify_iff status).mpr decided]
      · have settled : ∀ other, db.row id = some other → other.status ≠ .inFlight := by
          rw [found]
          rintro _ ⟨⟩
          exact status
        rw [row_rollForward_other query retried settled, found, Option.map_some, classify,
          if_neg status]

/-- A block makes of every record what it is to make of it, and touches no other row, exactly if
no record in flight is of a later slot, or overflow is not checked and the records of a later
slot are in the block or not even overdue by the wrapped difference. -/
theorem classifies_iff_tolerated (recorded : InFlightRecorded db) :
    Classifies profile config slot hash txs db ↔
      ∀ id row, db.row id = some row → row.status = .inFlight →
        Tolerated profile config slot txs row := by
  constructor
  · rintro ⟨next, success, classified⟩ id row found status
    obtain ⟨txsInflight, retry, query, retried, rfl⟩ := execute_rollForward_ok_iff.mp success
    obtain ⟨sentAt, small, stored⟩ := recorded id row found status
    obtain ⟨itx, member, rfl, decoded⟩ := Db.find_complete query found status
    have sent := slot_of_fromRow decoded small stored
    have computes : profile = .debug → sentAt.toNat ≤ slot.toNat := by
      obtain ⟨_, filtered⟩ := (txsRetry_ok retried).1 itx member
      obtain ⟨_, difference, same, subtracted, _⟩ := isRetry_ok_iff.mp filtered
      rw [sent] at same
      cases same
      rintro rfl
      rcases u64Sub_ok_iff.mp subtracted with ⟨before, _⟩ | ⟨_, release, _⟩
      · exact before
      · cases release
    have expected := classified itx.id
    rw [Db.row_setCursor, row_rollForward_inFlight query retried found status decoded sent, found,
      Option.map_some, Option.some.injEq, ← Db.row_id found,
      computed_eq_classify_iff status] at expected
    exact (tolerated_iff small stored computes).mpr expected
  · intro tolerated
    obtain ⟨txsInflight, retry, query, retried⟩ :=
      @rollForward_total profile config slot txs db recorded tolerated
    refine ⟨_, execute_rollForward_ok_iff.mpr ⟨txsInflight, retry, query, retried, rfl⟩, ?_⟩
    intro id
    rw [Db.row_setCursor, row_rollForward_eq query retried recorded tolerated]

/-! ## A block and a record in flight -/

theorem sampleStored_inFlight (found : (sampleStored .inFlight slot).row id = some row)
    (status : row.status = .inFlight) : row.slot = some (asI64 slot) := by
  rw [sampleStored, Db.row_update] at found
  split at found
  · obtain ⟨old, _, rfl⟩ := Option.map_eq_some_iff.mp found
    rfl
  · have pending : ∀ stored ∈ sampleDb.tx.rows, stored.status = .pending := by decide
    rw [pending row (Table.lookup_eq_some_iff.mp found).1] at status
    cases status

theorem sampleStored_recorded (small : slot.toNat < 2 ^ 63) :
    InFlightRecorded (sampleStored .inFlight slot) :=
  fun _ _ found status => ⟨slot, small, sampleStored_inFlight found status⟩

/-- A record sent before the block is confirmed, sent back or left alone. -/
theorem classifies_iff_tolerated_sample :
    Classifies .debug ⟨1000⟩ 110 (List.replicate 32 1) [⟨List.replicate 32 1⟩]
      (sampleStored .inFlight 100) := by
  refine (classifies_iff_tolerated (sampleStored_recorded (by decide))).mpr ?_
  intro id row found status sentAt stored later
  rw [sampleStored_inFlight found status] at stored
  cases stored
  exact absurd later (by decide)

/-- A record is in flight whose slot the monitor has not reached: with overflow checks the block
makes the monitor panic, and without them it sends the record back to pending. -/
theorem not_classifies_of_behind :
    InFlightRecorded (sampleStored .inFlight 12) ∧
      ((execute .debug ⟨1000⟩ (.rollForward (10, List.replicate 32 1) [])).exec
        (sampleStored .inFlight 12)).1 = .error (.panic .overflow) ∧
      ¬ Classifies .debug ⟨1000⟩ 10 (List.replicate 32 1) [] (sampleStored .inFlight 12) ∧
      ¬ Classifies .release ⟨1000⟩ 10 (List.replicate 32 1) [] (sampleStored .inFlight 12) := by
  have panics : ((execute .debug ⟨1000⟩ (.rollForward (10, List.replicate 32 1) [])).exec
      (sampleStored .inFlight 12)).1 = .error (.panic .overflow) := rfl
  refine ⟨sampleStored_recorded (by decide), panics, ?_, ?_⟩
  · rintro ⟨next, success, _⟩
    rw [success] at panics
    cases panics
  · rintro ⟨next, success, classified⟩
    have written : ((execute .release ⟨1000⟩ (.rollForward (10, List.replicate 32 1) [])).exec
        (sampleStored .inFlight 12)).2.row (sampleTx 1 1).id ≠
        ((sampleStored .inFlight 12).row (sampleTx 1 1).id).map (classify ⟨1000⟩ 10 []) := by
      decide
    rw [success] at written
    exact written (classified _)

end Boros.Pipeline.Monitor
