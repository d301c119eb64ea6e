import Boros.Queue.Shares
import Boros.Storage.Prefix

/-!
# The order of queues and records

`quota` sorts the queues by their quotas and collects the sorted list into a hash map again,
so that the loop of `next` meets them in any order. What is left over goes to the queues met
next. So the limits depend on that order, and a queue may be given more than a heavier one
which still has transactions pending. Within a queue the oldest records are taken first
whatever the order.
-/

namespace Boros.Queue.Priority

open Boros.Data Boros.Semantics Boros.Storage

variable {profile : Profile} {queues : Configs}
  {quotaOrder limitOrder : HashOrder (String × UInt16)} {db : Db} {status : TransactionStatus}
  {cap : UInt16} {txs : List Transaction} {queue : String}
  {state : List TransactionState} {quotas limits : List (String × UInt16)}

/-! ## Overtaking -/

/-- A queue which has more pending than its limit is given at least as much as any queue of no
more weight. -/
def WeightOrdered (queues : Configs) (state : List TransactionState)
    (limits : List (String × UInt16)) : Prop :=
  ∀ high ∈ state, ∀ low ∈ state, weightOf queues low.queue ≤ weightOf queues high.queue →
    amountOf limits high.queue < high.count →
      amountOf limits low.queue ≤ amountOf limits high.queue

/-- A queue which has more pending than it is offered is offered at least as much as any queue
of no more weight, or as much as that queue has pending. -/
def Unovertaken (queues : Configs) (state : List TransactionState)
    (quotas : List (String × UInt16)) : Prop :=
  ∀ high ∈ state, ∀ low ∈ state, weightOf queues low.queue ≤ weightOf queues high.queue →
    offeredTo state quotas high.queue < high.count →
      offeredTo state quotas low.queue ≤ offeredTo state quotas high.queue ∨
        low.count ≤ offeredTo state quotas high.queue

/-- The limits follow the weights exactly when what the queues are offered does. -/
theorem weightOrdered_iff (profile : Profile) (queues : Configs)
    (quotaOrder : HashOrder (String × UInt16)) (db : Db) (status : TransactionStatus)
    (cap : UInt16) :
    ∃ limits, Priority.limits profile queues quotaOrder (db.state status) cap = .ok limits ∧
      (WeightOrdered queues (db.state status) limits ↔ Unovertaken queues (db.state status)
        (orderedQuota queues quotaOrder (db.state status) cap)) := by
  obtain ⟨limits, computed, _, _, amounts⟩ :=
    limitsIn_state profile single queues quotaOrder db status cap
  refine ⟨limits, computed, ?_⟩
  refine forall₂_congr fun high highMem => forall₂_congr fun low lowMem => ?_
  refine imp_congr_right fun _ => ?_
  have given := amounts high highMem
  have givenLow := amounts low lowMem
  change _ = min high.count (offeredTo _ (orderedQuota queues quotaOrder _ cap) _) at given
  change _ = min low.count (offeredTo _ (orderedQuota queues quotaOrder _ cap) _) at givenLow
  rw [given, givenLow]
  omega

/-- An iteration order under which one list of entries comes out as another. -/
def HashOrder.sending {α : Type} [DecidableEq α] {entries result : List α}
    (perm : result.Perm entries) : HashOrder α where
  order := fun other => if other = entries then result else other
  perm := fun other => by
    split
    · rename_i same
      exact same ▸ perm
    · exact .refl _

@[simp]
theorem HashOrder.sending_order {α : Type} [DecidableEq α] {entries result : List α}
    (perm : result.Perm entries) : (HashOrder.sending perm).order entries = result :=
  if_pos rfl

/-! Weights four, three and one for a capacity of eight: the heaviest queue leaves three over,
and the lightest one is met before the other. -/

def weightedQueues : Configs :=
  ⟨[{ name := "banana", weight := 4 }, { name := "orange", weight := 3 },
    { name := "lemon", weight := 1 }], by decide⟩

def weightedRow (id queue : String) (createdAt : Nat) : TxRow :=
  ⟨id, [], .pending, none, queue, createdAt⟩

def weightedDb : Db :=
  ⟨⟨[weightedRow "1" "banana" 1, weightedRow "2" "orange" 2, weightedRow "3" "orange" 3,
    weightedRow "4" "orange" 4, weightedRow "5" "orange" 5, weightedRow "6" "lemon" 6,
    weightedRow "7" "lemon" 7, weightedRow "8" "lemon" 8, weightedRow "9" "lemon" 9],
    by decide⟩, [], none⟩

/-- The lightest queue before the heavier one. -/
def lightFirst : HashOrder (String × UInt16) :=
  .sending (show [("banana", 4), ("lemon", 1), ("orange", 3)].Perm
    [("banana", (4 : UInt16)), ("orange", 3), ("lemon", 1)] by decide)

theorem limits_lightFirst :
    Priority.limits .debug weightedQueues lightFirst (weightedDb.state .pending) 8 =
      .ok [("banana", 1), ("lemon", 4), ("orange", 3)] := by
  decide +kernel

/-- In the order of their quotas. -/
theorem limits_heavyFirst :
    Priority.limits .debug weightedQueues (.inserted _) (weightedDb.state .pending) 8 =
      .ok [("banana", 1), ("orange", 4), ("lemon", 3)] := by
  decide +kernel

/-- A weight of one is given four transactions, a weight of three with four pending only three. In
the order of their quotas the heavier queue would be given all of its four. -/
theorem not_weightOrdered_of_leftover :
    ∃ limits, Priority.limits .debug weightedQueues lightFirst (weightedDb.state .pending) 8 =
        .ok limits ∧
      ¬ WeightOrdered weightedQueues (weightedDb.state .pending) limits := by
  refine ⟨_, limits_lightFirst, ?_⟩
  unfold WeightOrdered
  decide +kernel

/-! ## Independence of the iteration order -/

/-- How many transactions of a queue were selected. -/
def selectedOf (txs : List Transaction) (queue : String) : Nat :=
  txs.countP fun tx => tx.queue = queue

/-- The limits, and with them the numbers selected, are the same in any two iteration orders. -/
def OrderIndependent (profile : Profile) (queues : Configs) (db : Db) (status : TransactionStatus)
    (cap : UInt16) : Prop :=
  ∀ quotaOrder otherOrder : HashOrder (String × UInt16), ∃ limits otherLimits,
    Priority.limits profile queues quotaOrder (db.state status) cap = .ok limits ∧
    Priority.limits profile queues otherOrder (db.state status) cap = .ok otherLimits ∧
    (∀ queue, amountOf limits queue = amountOf otherLimits queue) ∧
    ∀ limitOrder otherLimitOrder txs otherTxs,
      next profile queues quotaOrder limitOrder db status cap = .ok txs →
      next profile queues otherOrder otherLimitOrder db status cap = .ok otherTxs →
        ∀ queue, selectedOf txs queue = selectedOf otherTxs queue

/-- Either every queue has enough in its quota, or no queue leaves any of it over. -/
def Balanced (state : List TransactionState) (quotas : List (String × UInt16)) : Prop :=
  (∀ s ∈ state, s.count ≤ amountOf quotas s.queue) ∨
    ∀ s ∈ state, amountOf quotas s.queue ≤ s.count

theorem amountOf_of_notMem (outside : queue ∉ limits.map Prod.fst) : amountOf limits queue = 0 := by
  have absent : (limits.find? fun entry => entry.1 = queue) = none := by
    rw [List.find?_eq_none]
    intro entry member same
    exact outside (List.mem_map.mpr ⟨entry, member, by simpa using same⟩)
  rw [amountOf, absent]
  rfl

theorem amountOf_of_mem (distinct : (limits.map Prod.fst).Nodup) {entry : String × UInt16}
    (member : entry ∈ limits) : amountOf limits entry.1 = entry.2.toNat := by
  induction limits with
  | nil => simp at member
  | cons head rest ih =>
      obtain ⟨outside, distinctRest⟩ := List.nodup_cons.mp distinct
      rcases List.mem_cons.mp member with rfl | later
      · simp [amountOf]
      · have apart : head.1 ≠ entry.1 := by
          rintro same
          exact outside (same ▸ List.mem_map_of_mem later)
        have rest' := ih distinctRest later
        simpa [amountOf, apart] using rest'

/-- The number selected of a queue is its limit, up to its count. -/
theorem selectedOf_next
    (success : next profile queues quotaOrder limitOrder db status cap = .ok txs)
    (computed : Priority.limits profile queues quotaOrder (db.state status) cap = .ok limits)
    (queue : String) :
    selectedOf txs queue = min (amountOf limits queue) (db.countOf status queue) := by
  have distinct := limits_distinct computed
  have names := queueLimit_names computed
  rcases next_ok success with ⟨nothing, rfl⟩ | ⟨_, computed', batch⟩
  · have namesPerm := orderedQuota_names_perm queues quotaOrder (db.state status) cap
    have outside : queue ∉ limits.map Prod.fst := by
      rw [names, namesPerm.mem_iff, nothing]
      simp
    rw [amountOf_of_notMem outside, Nat.zero_min]
    rfl
  · rw [computed] at computed'
    cases computed'
    have orderedDistinct : ((limitOrder.order limits).map Prod.fst).Nodup :=
      ((limitOrder.perm limits).map _).nodup_iff.mpr distinct
    by_cases inMap : queue ∈ limits.map Prod.fst
    · obtain ⟨entry, member, rfl⟩ := List.mem_map.mp inMap
      rw [amountOf_of_mem distinct member]
      exact Db.next_countP batch orderedDistinct ((limitOrder.perm limits).mem_iff.mpr member)
    · have outside : queue ∉ (limitOrder.order limits).map Prod.fst := by
        rwa [((limitOrder.perm limits).map _).mem_iff]
      rw [amountOf_of_notMem inMap, Nat.zero_min]
      exact Db.next_countP_of_notMem batch outside

/-- Where the quotas are balanced, every limit is the smaller one of quota and count. -/
theorem offeredTo_of_balanced {s : TransactionState}
    (names : ∀ entry ∈ quotas, entry.1 ∈ state.map TransactionState.queue)
    (distinct : (quotas.map Prod.fst).Nodup) (counts : ∀ s ∈ state, pending state s.queue = s.count)
    (balanced : Balanced state quotas) (member : s ∈ state) :
    min s.count (offeredTo state quotas s.queue) = min s.count (amountOf quotas s.queue) := by
  rw [offeredTo, offered]
  rcases balanced with enough | short
  · have within := enough s member
    omega
  · have nothing : largestSurplus ((metBefore quotas s.queue).map (claim state)) = 0 := by
      refine largestSurplus_of_short fun pair pairMem => ?_
      obtain ⟨entry, entryMem, rfl⟩ := List.mem_map.mp pairMem
      have inQuotas := (List.takeWhile_sublist _).subset entryMem
      obtain ⟨other, otherMem, sameQueue⟩ := List.mem_map.mp (names entry inQuotas)
      have within := short other otherMem
      rw [sameQueue, amountOf_of_mem distinct inQuotas, ← counts other otherMem,
        sameQueue] at within
      exact within
    rw [nothing, Nat.add_zero]

/-- The order in which the loop meets the quotas does not change them. -/
theorem amountOf_orderedQuota (queues : Configs) (quotaOrder : HashOrder (String × UInt16))
    (cap : UInt16) (known : queue ∈ state.map TransactionState.queue) :
    amountOf (orderedQuota queues quotaOrder state cap) queue =
      amountOf (quota (stateQueues queues state) cap) queue :=
  (amountOf_orderedQuotaIn single queues quotaOrder cap known).trans
    (amountOf_orderedQuotaIn single queues (.inserted _) cap known).symm

/-- The limit of a queue, in terms of what it is offered in some order. -/
theorem limits_state (profile : Profile) (queues : Configs)
    (quotaOrder : HashOrder (String × UInt16)) (db : Db) (status : TransactionStatus)
    (cap : UInt16) :
    ∃ limits, Priority.limits profile queues quotaOrder (db.state status) cap = .ok limits ∧
      ∀ s ∈ db.state status, amountOf limits s.queue = min s.count
        (offeredTo (db.state status) (orderedQuota queues quotaOrder (db.state status) cap)
          s.queue) := by
  obtain ⟨limits, computed, _, _, amounts⟩ :=
    limitsIn_state profile single queues quotaOrder db status cap
  exact ⟨limits, computed, amounts⟩

theorem state_pending (db : Db) (status : TransactionStatus) :
    ∀ s ∈ db.state status, pending (db.state status) s.queue = s.count := by
  intro s member
  rw [pending_state db status (List.mem_map_of_mem member), Db.state_count member]

/-- Balanced quotas give every queue the same limit in every order. -/
theorem limits_of_balanced (profile : Profile) (quotaOrder : HashOrder (String × UInt16))
    (balanced : Balanced (db.state status) (quota (stateQueues queues (db.state status)) cap)) :
    ∃ limits, Priority.limits profile queues quotaOrder (db.state status) cap = .ok limits ∧
      (∀ s ∈ db.state status, amountOf limits s.queue =
        min s.count (amountOf (quota (stateQueues queues (db.state status)) cap) s.queue)) ∧
      ∀ queue ∉ (db.state status).map TransactionState.queue, amountOf limits queue = 0 := by
  obtain ⟨limits, computed, amounts⟩ := limits_state profile queues quotaOrder db status cap
  have namesPerm := orderedQuota_names_perm queues quotaOrder (db.state status) cap
  have known : ∀ s ∈ db.state status, s.queue ∈ (db.state status).map TransactionState.queue :=
    fun s member => List.mem_map_of_mem member
  have ordered : Balanced (db.state status)
      (orderedQuota queues quotaOrder (db.state status) cap) := by
    refine balanced.imp (fun enough s member => ?_) fun short s member => ?_
    · rw [amountOf_orderedQuota queues quotaOrder cap (known s member)]
      exact enough s member
    · rw [amountOf_orderedQuota queues quotaOrder cap (known s member)]
      exact short s member
  refine ⟨limits, computed, fun s member => ?_, fun queue outside => ?_⟩
  · rw [amounts s member, offeredTo_of_balanced
      (orderedQuota_known queues quotaOrder (db.state status) cap)
      (namesPerm.nodup_iff.mpr (db.state_queues status).1) (state_pending db status) ordered
      member, amountOf_orderedQuota queues quotaOrder cap (known s member)]
  · apply amountOf_of_notMem
    rwa [queueLimit_names computed, namesPerm.mem_iff]

/-- What a queue met first is offered. -/
theorem offeredTo_first (entry : String × UInt16) (rest : List (String × UInt16)) :
    offeredTo state (entry :: rest) entry.1 = entry.2.toNat := by
  simp [offeredTo, metBefore, offered, largestSurplus, amountOf]

/-- What a queue met second is offered. -/
theorem offeredTo_second {first second : String × UInt16} (apart : first.1 ≠ second.1)
    (rest : List (String × UInt16)) :
    offeredTo state (first :: second :: rest) second.1 =
      second.2.toNat + (first.2.toNat - pending state first.1) := by
  simp [offeredTo, metBefore, offered, largestSurplus, surplus, amountOf, claim, apart]

/-- The quota of a queue of the state is one of the quotas. -/
theorem exists_quota {s : TransactionState} (queues : Configs) (cap : UInt16)
    (member : s ∈ db.state status) :
    ∃ entry ∈ quota (stateQueues queues (db.state status)) cap, entry.1 = s.queue ∧
      entry.2.toNat = amountOf (quota (stateQueues queues (db.state status)) cap) s.queue := by
  have names := orderedQuota_names_perm queues (.inserted _) (db.state status) cap
  obtain ⟨entry, entryMem, sameQueue⟩ := List.mem_map.mp
    (names.mem_iff.mpr (List.mem_map_of_mem member))
  have distinct : ((quota (stateQueues queues (db.state status)) cap).map Prod.fst).Nodup :=
    names.nodup_iff.mpr (db.state_queues status).1
  exact ⟨entry, entryMem, sameQueue, by rw [← sameQueue, amountOf_of_mem distinct entryMem]⟩

/-- Some order gives a queue no more than its quota: the one in which it is met first. -/
theorem exists_order_first {s : TransactionState} (profile : Profile) (queues : Configs)
    (cap : UInt16) (member : s ∈ db.state status) :
    ∃ quotaOrder limits,
      Priority.limits profile queues quotaOrder (db.state status) cap = .ok limits ∧
      amountOf limits s.queue = min s.count
        (amountOf (quota (stateQueues queues (db.state status)) cap) s.queue) := by
  obtain ⟨entry, entryMem, named, amount⟩ := exists_quota queues cap member
  have entryFirst := (List.perm_cons_erase entryMem).symm
  obtain ⟨limits, computed, amounts⟩ :=
    limits_state profile queues (.sending entryFirst) db status cap
  refine ⟨.sending entryFirst, limits, computed, ?_⟩
  have here := amounts s member
  rw [orderedQuota, HashOrder.sending_order, ← named, offeredTo_first] at here
  rw [← amount, ← here, named]

/-- Some order adds what another queue leaves over of its quota: the one in which these two
are met first. -/
theorem exists_order_second {first second : TransactionState} (profile : Profile)
    (queues : Configs) (cap : UInt16) (firstMem : first ∈ db.state status)
    (secondMem : second ∈ db.state status) (apart : first.queue ≠ second.queue) :
    ∃ quotaOrder limits,
      Priority.limits profile queues quotaOrder (db.state status) cap = .ok limits ∧
      amountOf limits second.queue = min second.count
        (amountOf (quota (stateQueues queues (db.state status)) cap) second.queue +
          (amountOf (quota (stateQueues queues (db.state status)) cap) first.queue -
            first.count)) := by
  obtain ⟨entry, entryMem, named, amount⟩ := exists_quota queues cap firstMem
  obtain ⟨other, otherMem, otherNamed, otherAmount⟩ := exists_quota queues cap secondMem
  have otherRest : other ∈ (quota (stateQueues queues (db.state status)) cap).erase entry := by
    refine (List.mem_erase_of_ne ?_).mpr otherMem
    rintro rfl
    exact apart (named.symm.trans otherNamed)
  have bothFirst := ((List.perm_cons_erase otherRest).symm.cons entry).trans
    (List.perm_cons_erase entryMem).symm
  obtain ⟨limits, computed, amounts⟩ :=
    limits_state profile queues (.sending bothFirst) db status cap
  refine ⟨.sending bothFirst, limits, computed, ?_⟩
  have here := amounts second secondMem
  rw [orderedQuota, HashOrder.sending_order, ← otherNamed,
    offeredTo_second (by rwa [named, otherNamed]), named,
    state_pending db status first firstMem] at here
  rw [← amount, ← otherAmount, ← here, otherNamed]

/-- The limits are the same in all orders exactly when the quotas are balanced. Otherwise some
queue has more pending than its quota, and it matters to it whether a queue with less pending
than its own is met before. -/
theorem orderIndependent_iff (profile : Profile) (queues : Configs) (db : Db)
    (status : TransactionStatus) (cap : UInt16) :
    OrderIndependent profile queues db status cap ↔
      Balanced (db.state status) (quota (stateQueues queues (db.state status)) cap) := by
  constructor
  · intro independent
    by_contra unbalanced
    simp only [Balanced, not_or, not_forall, Nat.not_le] at unbalanced
    obtain ⟨⟨long, longMem, longer⟩, ⟨short, shortMem, shorter⟩⟩ := unbalanced
    have apart : short.queue ≠ long.queue := by
      intro same
      rw [same] at shorter
      have counts := (Db.state_count longMem).trans
        ((congrArg _ same.symm).trans (Db.state_count shortMem).symm)
      omega
    obtain ⟨alone, aloneLimits, computed, given⟩ :=
      exists_order_first profile queues cap longMem
    obtain ⟨after, afterLimits, afterComputed, afterGiven⟩ :=
      exists_order_second profile queues cap shortMem longMem apart
    obtain ⟨_, _, computed', afterComputed', same, _⟩ := independent alone after
    obtain rfl := Except.ok.inj (computed.symm.trans computed')
    obtain rfl := Except.ok.inj (afterComputed.symm.trans afterComputed')
    have equal := same long.queue
    omega
  · intro balanced quotaOrder otherOrder
    obtain ⟨limits, computed, amounts, others⟩ :=
      limits_of_balanced profile quotaOrder balanced
    obtain ⟨otherLimits, otherComputed, otherAmounts, otherOthers⟩ :=
      limits_of_balanced profile otherOrder balanced
    have same : ∀ queue, amountOf limits queue = amountOf otherLimits queue := by
      intro queue
      by_cases known : queue ∈ (db.state status).map TransactionState.queue
      · obtain ⟨s, member, rfl⟩ := List.mem_map.mp known
        rw [amounts s member, otherAmounts s member]
      · rw [others queue known, otherOthers queue known]
    refine ⟨limits, otherLimits, computed, otherComputed, same, ?_⟩
    intro limitOrder otherLimitOrder txs otherTxs success otherSuccess queue
    rw [selectedOf_next success computed, selectedOf_next otherSuccess otherComputed, same]

/-- The lightest queue is given four or three. -/
theorem not_orderIndependent_of_leftover :
    ¬ OrderIndependent .debug weightedQueues weightedDb .pending 8 := by
  intro independent
  obtain ⟨_, _, computed, otherComputed, same, _⟩ := independent lightFirst (.inserted _)
  obtain rfl := Except.ok.inj (limits_lightFirst.symm.trans computed)
  obtain rfl := Except.ok.inj (limits_heavyFirst.symm.trans otherComputed)
  exact absurd (same "lemon") (by decide)

/-! ## The oldest records of each queue -/

/-- For any map of limits the statement of `next` selects the prefixes of its queues. So a batch
is made of the prefixes for the limits which were computed. -/
theorem fifo_of_chronological (chronological : db.Chronological) (status : TransactionStatus) :
    (∀ limits : List (String × UInt16), (limits.map Prod.fst).Nodup →
      limits.length ≤ maxCompoundSelect →
        ∃ rows, db.selectRows status limits = .ok rows ∧ Fifo db status limits rows ∧
          db.next status limits = rows.mapM TxRow.fromRow) ∧
    ∀ profile queues quotaOrder limitOrder cap txs,
      next profile queues quotaOrder limitOrder db status cap = .ok txs →
        ∃ limits rows,
          Priority.limits profile queues quotaOrder (db.state status) cap = .ok limits ∧
          Fifo db status (limitOrder.order limits) rows ∧ rows.mapM TxRow.fromRow = .ok txs := by
  have selects : ∀ limits : List (String × UInt16), (limits.map Prod.fst).Nodup →
      limits.length ≤ maxCompoundSelect →
        ∃ rows, db.selectRows status limits = .ok rows ∧ Fifo db status limits rows ∧
          db.next status limits = rows.mapM TxRow.fromRow := by
    intro limits distinct few
    obtain ⟨rows, selected, fifo⟩ := Db.selectRows_fifo chronological status distinct few
    refine ⟨rows, selected, fifo, ?_⟩
    rw [Db.next_eq_decoded, selected]
    rfl
  refine ⟨selects, ?_⟩
  intro profile queues quotaOrder limitOrder cap txs success
  rcases next_ok success with ⟨nothing, rfl⟩ | ⟨limits, computed, batch⟩
  · obtain ⟨limits, computed, _⟩ := limits_state profile queues quotaOrder db status cap
    have names := orderedQuota_names_perm queues quotaOrder (db.state status) cap
    rw [← queueLimit_names computed, nothing, List.map_nil, List.perm_nil,
      List.map_eq_nil_iff] at names
    subst names
    have empty : limitOrder.order [] = [] := (limitOrder.perm []).eq_nil
    obtain ⟨rows, selected, fifo, _⟩ := selects [] List.nodup_nil (Nat.zero_le _)
    cases selected
    exact ⟨[], [], computed, by rwa [empty], rfl⟩
  · have distinct : ((limitOrder.order limits).map Prod.fst).Nodup :=
      ((limitOrder.perm limits).map _).nodup_iff.mpr (limits_distinct computed)
    have few : (limitOrder.order limits).length ≤ maxCompoundSelect := by
      by_contra many
      rw [Db.next_eq, if_pos (Nat.not_le.mp many)] at batch
      cases batch
    obtain ⟨rows, _, fifo, decoded⟩ := selects _ distinct few
    exact ⟨limits, rows, computed, fifo, decoded.symm.trans batch⟩

/-- In the sample store all times differ. -/
theorem fifo_of_chronological_sample :
    ∃ limits rows, Priority.limits .debug weightedQueues lightFirst (weightedDb.state .pending) 8 =
        .ok limits ∧
      Fifo weightedDb .pending limits rows ∧
      weightedDb.next .pending limits = rows.mapM TxRow.fromRow := by
  have chronological : weightedDb.Chronological := Db.chronological_of_nodup (by decide)
  obtain ⟨rows, _, fifo, decoded⟩ := (fifo_of_chronological chronological .pending).1
    [("banana", 1), ("lemon", 4), ("orange", 3)] (by decide) (by decide)
  exact ⟨_, rows, limits_lightFirst, fifo, decoded⟩

end Boros.Queue.Priority
