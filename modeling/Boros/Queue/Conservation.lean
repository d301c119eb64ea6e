import Boros.Queue.Priority

/-!
# Work conservation

Whether a batch fills the capacity it is taken for, or takes everything there is. A quota
is rounded, down to zero too, and what a queue leaves over goes to the queues after it in
iteration order only. `next_conserving_iff` says exactly when the batch is large enough.
-/

namespace Boros.Queue.Priority

open Boros.Data Boros.Semantics Boros.Storage

/-- The number of transactions with a status. -/
def total (db : Db) (status : TransactionStatus) : Nat :=
  (db.tx.select fun row => row.status = status).length

/-- A call returns as many transactions as the capacity allows and there are. -/
def Conserving (db : Db) (status : TransactionStatus) (cap : UInt16)
    (result : Except (Abort DbError) (List Transaction)) : Prop :=
  ∃ txs, result = .ok txs ∧ min cap.toNat (total db status) ≤ txs.length

/-- The queues, each with what serving the counts from the quotas gives it. -/
def served (state : List TransactionState) (quotas : List (String × UInt16)) :
    List (String × Nat) :=
  (quotas.map Prod.fst).zip (serve 0 (quotas.map (claim state)))

/-- The statement has no more terms than SQLite takes, and the rows which it selects
decode. -/
structure Selectable (db : Db) (status : TransactionStatus) (quotas : List (String × UInt16)) :
    Prop where
  terms : quotas.length ≤ maxCompoundSelect
  decodes : ∀ entry ∈ served (db.state status) quotas,
    ∀ row ∈ db.oldest status entry.1 entry.2, ∃ slot, readSlot row.slot = .ok slot

/-- In iteration order, the quotas of any first queues and the counts of the queues after
them reach the capacity, or the number of transactions. -/
def Covered (db : Db) (status : TransactionStatus) (quotas : List (String × UInt16))
    (cap : UInt16) : Prop :=
  ∀ first ≤ quotas.length, min cap.toNat (total db status) ≤
    ((quotas.take first).map fun entry => entry.2.toNat).sum +
      ((quotas.drop first).map fun entry => pending (db.state status) entry.1).sum

section Next

variable {profile : Profile} {queues : Configs}
  {quotaOrder limitOrder : HashOrder (String × UInt16)} {db : Db} {status : TransactionStatus}
  {cap : UInt16} {row : TxRow}

/-- The limits with which the second storage call is made are what is served. -/
theorem limits_served (profile : Profile) (queues : Configs)
    (quotaOrder : HashOrder (String × UInt16)) (state : List TransactionState) (small : cap ≤ 50) :
    ∃ limits, Priority.limits profile queues quotaOrder state cap = .ok limits ∧
      (limits.map fun entry => (entry.1, entry.2.toNat)) =
        served state (orderedQuota queues quotaOrder state cap) := by
  obtain ⟨limits, computed, names, amounts, _⟩ := limits_ok profile queues quotaOrder state small
  refine ⟨limits, computed, ?_⟩
  rw [served, ← names, ← amounts, List.zip_map']

/-- The second storage call returns a batch exactly when its rows can be selected. -/
theorem select_isOk_iff (limitOrder : HashOrder (String × UInt16))
    {limits quotas : List (String × UInt16)} (amounts :
      (limits.map fun entry => (entry.1, entry.2.toNat)) = served (db.state status) quotas) :
    (∃ txs, db.next status (limitOrder.order limits) = .ok txs) ↔
      Selectable db status quotas := by
  have perm := limitOrder.perm limits
  have length : limits.length = quotas.length := by
    have lengths := congrArg List.length amounts
    simpa [served] using lengths
  have decodes : (∀ row ∈ (limitOrder.order limits).flatMap fun entry =>
        db.oldest status entry.1 entry.2.toNat, ∃ tx, row.fromRow = .ok tx) ↔
      ∀ entry ∈ served (db.state status) quotas,
        ∀ row ∈ db.oldest status entry.1 entry.2, ∃ slot, readSlot row.slot = .ok slot := by
    simp only [← amounts, List.forall_mem_map, List.forall_mem_flatMap, perm.mem_iff,
      TxRow.fromRow_isOk_iff]
  rw [Db.next_eq, perm.length_eq, length]
  split
  · rename_i exceeds
    refine iff_of_false (by simp) fun selectable => ?_
    exact absurd selectable.terms (Nat.not_le.mpr exceeds)
  · rename_i fits
    rw [Table.mapM_isOk_iff, decodes]
    constructor
    · intro rows
      exact ⟨Nat.le_of_not_lt fits, rows⟩
    · intro selectable
      exact selectable.decodes

/-- A batch is returned exactly when the rows of its statement can be selected. -/
theorem next_isOk_iff (small : cap ≤ 50) :
    (∃ txs, next profile queues quotaOrder limitOrder db status cap = .ok txs) ↔
      Selectable db status (orderedQuota queues quotaOrder (db.state status) cap) := by
  obtain ⟨limits, computed, amounts⟩ :=
    limits_served profile queues quotaOrder (db.state status) small
  by_cases nothing : db.state status = []
  · have quotas : orderedQuota queues quotaOrder (db.state status) cap = [] := by
      have names := orderedQuota_names_perm queues quotaOrder (db.state status) cap
      rw [nothing, List.map_nil, List.perm_nil, List.map_eq_nil_iff] at names
      rw [nothing, names]
    have empty : next profile queues quotaOrder limitOrder db status cap = .ok [] := by
      simp only [next, nothing]
      rfl
    rw [quotas]
    refine iff_of_true ⟨[], empty⟩ ⟨Nat.zero_le _, ?_⟩
    simp [served]
  · have selects : next profile queues quotaOrder limitOrder db status cap =
        orFail (db.next status (limitOrder.order limits)) := by
      have isEmpty : (db.state status).isEmpty = false := by simpa using nothing
      simp only [next, isEmpty, computed]
      rfl
    rw [selects, ← select_isOk_iff limitOrder amounts]
    simp only [orFail_ok_iff]

/-- `next` conserves work exactly when its statement can be run and the quotas cover the
capacity. -/
theorem next_conserving_iff (small : cap ≤ 50) :
    Conserving db status cap (next profile queues quotaOrder limitOrder db status cap) ↔
      Selectable db status (orderedQuota queues quotaOrder (db.state status) cap) ∧
        Covered db status (orderedQuota queues quotaOrder (db.state status) cap) cap := by
  have covered : ∀ txs, next profile queues quotaOrder limitOrder db status cap = .ok txs →
      (min cap.toNat (total db status) ≤ txs.length ↔
        Covered db status (orderedQuota queues quotaOrder (db.state status) cap) cap) := by
    intro txs success
    rw [next_length small success, le_serve_sum_iff]
    simp only [Covered, List.length_map, List.map_take, List.map_drop, List.map_map]
    rfl
  rw [← next_isOk_iff small]
  constructor
  · rintro ⟨txs, success, enough⟩
    exact ⟨⟨txs, success⟩, (covered txs success).mp enough⟩
  · rintro ⟨⟨txs, success⟩, covers⟩
    exact ⟨txs, success, (covered txs success).mpr covers⟩

/-! Three queues of equal weight with one pending transaction each: a third of a
capacity of one is rounded down three times. -/

def threeQueues : Configs :=
  ⟨[{ name := "banana" }, { name := "orange" }, { name := "lemon" }], by decide⟩

def threeDb : Db :=
  ⟨⟨[⟨"1", [], .pending, none, "banana", 1⟩, ⟨"2", [], .pending, none, "orange", 2⟩,
    ⟨"3", [], .pending, none, "lemon", 3⟩], by decide⟩, [], none⟩

/-- Two thirds are rounded up. -/
theorem next_conserving_iff_three :
    Conserving threeDb .pending 2
      (next .debug threeQueues (.inserted _) (.inserted _) threeDb .pending 2) := by
  let quotas := orderedQuota threeQueues (.inserted _) (threeDb.state .pending) 2
  have unslotted : ∀ entry ∈ served (threeDb.state .pending) quotas,
      ∀ row ∈ threeDb.oldest .pending entry.1 entry.2, row.slot = none := by decide +kernel
  have selectable : Selectable threeDb .pending quotas := by
    refine ⟨by decide +kernel, fun entry member row rowMem => ⟨none, ?_⟩⟩
    rw [unslotted entry member row rowMem]
    rfl
  have covered : Covered threeDb .pending quotas 2 := by
    unfold Covered
    decide +kernel
  exact (next_conserving_iff (by decide)).mpr ⟨selectable, covered⟩

/-- A capacity of one takes none. -/
theorem not_conserving_of_three :
    (∀ queue ∈ threeQueues.rows, 0 < queue.weight) ∧
      next .debug threeQueues (.inserted _) (.inserted _) threeDb .pending 1 = .ok [] ∧
      ¬ Conserving threeDb .pending 1
        (next .debug threeQueues (.inserted _) (.inserted _) threeDb .pending 1) := by
  have empty : next .debug threeQueues (.inserted _) (.inserted _) threeDb .pending 1 =
      .ok [] := by decide +kernel
  refine ⟨by decide, empty, ?_⟩
  rintro ⟨txs, success, enough⟩
  obtain rfl := Except.ok.inj (empty.symm.trans success)
  exact absurd enough (by decide)

end Next

end Boros.Queue.Priority
