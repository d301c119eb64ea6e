import Mathlib.Algebra.BigOperators.Ring.Finset
import Mathlib.Tactic.NormNum
import Boros.Data.Apportionment
import Boros.Data.Rounding
import Boros.Storage.Batch

/-!
# Priority queues

`src/queue/priority.rs`. The shares are computed on `f32`. The code goes through two
hash maps, the quotas and the limits; an iteration order of a map is a `HashOrder`,
and every result here is for all of them.
-/

namespace Boros.Queue.Priority

open Boros.Data Boros.Semantics Boros.Storage

/-- The order in which a hash map is iterated over: some permutation of its
entries. -/
structure HashOrder (α : Type) where
  order : List α → List α
  perm : ∀ entries, (order entries).Perm entries

/-- The map's entries in the order in which they were inserted. -/
def HashOrder.inserted (α : Type) : HashOrder α := ⟨id, fun _ => .refl _⟩

/-- The `f32` nearest to a number, which is what an operation on `f32` results in. -/
def f32 (exact : ℚ) : ℚ := toPrecision 24 exact

/-- One quota. A weight is divided by zero only if it is zero itself, and the cast takes
the resulting NaN to zero too. -/
def weightedQuota (totalWeight : ℚ) (weight : UInt8) (cap : UInt16) : UInt16 :=
  saturateU16 (round (f32 (f32 (weight.toNat / totalWeight) * cap.toNat)))

/-- `Priority::quota`. The total weight is exact as an `f32` up to 2 ^ 24; a map with more
queues than it takes to exceed that is refused by the store. The sorted list is collected
into a hash map, so its order is lost again. -/
def quota (queues : List (String × UInt8)) (cap : UInt16) : List (String × UInt16) :=
  let totalWeight : ℚ := (queues.map fun entry => (entry.2.toNat : ℚ)).sum
  (queues.map fun entry => (entry.1, weightedQuota totalWeight entry.2 cap)).insertionSort
    fun first second => second.2 ≤ first.2

/-- `state_queues`: the queues with pending transactions and their weights. -/
def stateQueues (queues : Configs) (state : List TransactionState) : List (String × UInt8) :=
  state.map fun s => (s.queue, ((queues.get s.queue).map Config.weight).getD defaultWeight)

/-- The loop which fills `queue_limit`, over the quotas in iteration order. -/
def queueLimit (profile : Profile) (state : List TransactionState) (leftover : UInt16) :
    List (String × UInt16) → Except Fault (List (String × UInt16))
  | [] => .ok []
  | (queue, quota) :: rest => do
    let currentQuota ← u16Add profile quota leftover
    let currentState ← unwrap (state.find? fun s => s.queue = queue)
    let usedQuota := UInt16.ofNat (min currentState.count currentQuota.toNat)
    let leftover ← u16Sub profile currentQuota usedQuota
    let limits ← queueLimit profile state leftover rest
    return (queue, usedQuota) :: limits

/-- The quotas in the order in which the loop meets them. -/
def orderedQuota (queues : Configs) (quotaOrder : HashOrder (String × UInt16))
    (state : List TransactionState) (cap : UInt16) : List (String × UInt16) :=
  quotaOrder.order (quota (stateQueues queues state) cap)

/-- What `next` computes between its two storage calls: from the state read by
the first one, the limits passed to the second one. -/
def limits (profile : Profile) (queues : Configs) (quotaOrder : HashOrder (String × UInt16))
    (state : List TransactionState) (cap : UInt16) : Except Fault (List (String × UInt16)) :=
  queueLimit profile state 0 (orderedQuota queues quotaOrder state cap)

/-- `Priority::next`. -/
def next (profile : Profile) (queues : Configs)
    (quotaOrder limitOrder : HashOrder (String × UInt16)) (db : Db) (status : TransactionStatus)
    (cap : UInt16) : Except (Abort DbError) (List Transaction) := do
  let state := db.state status
  if state.isEmpty then return []
  let limits ← orPanic (limits profile queues quotaOrder state cap)
  orFail (db.next status (limitOrder.order limits))

/-! ## The quotas -/

section Quota

variable {queues : List (String × UInt8)} {cap : UInt16}

/-- A quota is at most three times the share it was rounded from. -/
theorem weightedQuota_le (weight : UInt8) (cap : UInt16) {totalWeight : ℚ}
    (nonneg : 0 ≤ totalWeight) :
    ((weightedQuota totalWeight weight cap).toNat : ℚ) ≤
      3 * cap.toNat * (weight.toNat / totalWeight) := by
  have share : 0 ≤ (weight.toNat : ℚ) / totalWeight := div_nonneg (Nat.cast_nonneg _) nonneg
  have capacity : 0 ≤ (cap.toNat : ℚ) := Nat.cast_nonneg _
  have scaled : 0 ≤ f32 (weight.toNat / totalWeight) * cap.toNat :=
    mul_nonneg (toPrecision_nonneg 24 share) capacity
  have product : 0 ≤ f32 (f32 (weight.toNat / totalWeight) * cap.toNat) :=
    toPrecision_nonneg 24 scaled
  have rounded : (0 : ℤ) ≤ round (f32 (f32 (weight.toNat / totalWeight) * cap.toNat)) := by
    rw [round_eq]
    exact Int.floor_nonneg.mpr (by linarith)
  calc ((weightedQuota totalWeight weight cap).toNat : ℚ)
      ≤ round (f32 (f32 (weight.toNat / totalWeight) * cap.toNat)) := by
        rw [← Int.toNat_of_nonneg rounded]
        exact_mod_cast saturateU16_toNat_le _
    _ ≤ 2 * f32 (f32 (weight.toNat / totalWeight) * cap.toNat) := round_le_two_mul product
    _ ≤ 2 * ((1 + 1 / 2 ^ 24) * (f32 (weight.toNat / totalWeight) * cap.toNat)) := by
        have bound := toPrecision_le 24 scaled
        exact mul_le_mul_of_nonneg_left bound two_pos.le
    _ ≤ 2 * ((1 + 1 / 2 ^ 24) *
          ((1 + 1 / 2 ^ 24) * (weight.toNat / totalWeight) * cap.toNat)) := by
        have bound := mul_le_mul_of_nonneg_right (toPrecision_le 24 share) capacity
        exact mul_le_mul_of_nonneg_left (mul_le_mul_of_nonneg_left bound (by norm_num)) two_pos.le
    _ ≤ 3 * cap.toNat * (weight.toNat / totalWeight) := by
        have product := mul_nonneg share capacity
        norm_num at product ⊢
        linarith

/-- The quotas are those of the queues of the map. -/
theorem quota_names_perm (queues : List (String × UInt8)) (cap : UInt16) :
    ((quota queues cap).map Prod.fst).Perm (queues.map Prod.fst) := by
  refine ((List.perm_insertionSort _ _).map _).trans (List.Perm.of_eq ?_)
  rw [List.map_map]
  rfl

/-- Together the quotas are at most three times the capacity. -/
theorem quota_sum_le (queues : List (String × UInt8)) (cap : UInt16) :
    ((quota queues cap).map fun entry => entry.2.toNat).sum ≤ 3 * cap.toNat := by
  let totalWeight : ℚ := (queues.map fun entry => (entry.2.toNat : ℚ)).sum
  have nonneg : 0 ≤ totalWeight := by
    apply List.sum_nonneg
    intro weight member
    obtain ⟨entry, _, rfl⟩ := List.mem_map.mp member
    exact Nat.cast_nonneg _
  have bound : (queues.map fun entry =>
      ((weightedQuota totalWeight entry.2 cap).toNat : ℚ)).sum ≤ 3 * cap.toNat :=
    sum_le_of_shares (by positivity) fun entry _ => weightedQuota_le entry.2 cap nonneg
  have sorted : ((quota queues cap).map fun entry => entry.2.toNat).sum =
      (queues.map fun entry => (weightedQuota totalWeight entry.2 cap).toNat).sum := by
    rw [quota, ((List.perm_insertionSort _ _).map _).sum_eq, List.map_map]
    rfl
  rw [sorted]
  have cast : ((queues.map fun entry => (weightedQuota totalWeight entry.2 cap).toNat).sum : ℚ) ≤
      3 * cap.toNat := by
    rw [Nat.cast_list_sum, List.map_map]
    exact bound
  exact_mod_cast cast

end Quota

/-! ## The limits -/

section Limits

variable {profile : Profile} {state : List TransactionState} {queues : Configs} {cap : UInt16}

/-- The count of a queue in the state. -/
def pending (state : List TransactionState) (queue : String) : Nat :=
  ((state.find? fun s => s.queue = queue).map TransactionState.count).getD 0

/-- A quota with the count it is for. -/
def claim (state : List TransactionState) (entry : String × UInt16) : Nat × Nat :=
  (entry.2.toNat, pending state entry.1)

/-- What an iteration of the loop uses of its current quota. -/
def usedQuota (currentState : TransactionState) (currentQuota : UInt16) : UInt16 :=
  UInt16.ofNat (min currentState.count currentQuota.toNat)

/-- In an iteration the lookup succeeds, the sum and the difference stay within their range,
and the cast keeps the value. -/
structure IterationSafe (state : List TransactionState) (queue : String) (quota leftover : UInt16)
    (currentState : TransactionState) : Prop where
  found : (state.find? fun s => s.queue = queue) = some currentState
  sum : quota.toNat + leftover.toNat < 2 ^ 16
  lossless : (usedQuota currentState (quota + leftover)).toNat =
    min currentState.count (quota + leftover).toNat
  difference : usedQuota currentState (quota + leftover) ≤ quota + leftover

/-- Every iteration of the loop is safe. -/
def LoopSafe (state : List TransactionState) (leftover : UInt16) :
    List (String × UInt16) → Prop
  | [] => True
  | (queue, quota) :: rest =>
    ∃ currentState, IterationSafe state queue quota leftover currentState ∧
      LoopSafe state (quota + leftover - usedQuota currentState (quota + leftover)) rest

/-- The loop is safe when no queue is offered more than 16 bits hold and all queues are of the
state. -/
theorem loopSafe_of_offered {quotas : List (String × UInt16)} {leftover : UInt16}
    (known : ∀ entry ∈ quotas, entry.1 ∈ state.map TransactionState.queue)
    (below : OfferedBelow (2 ^ 16) leftover.toNat (quotas.map (claim state))) :
    LoopSafe state leftover quotas := by
  induction quotas generalizing leftover with
  | nil => trivial
  | cons entry rest ih =>
      obtain ⟨queue, quota⟩ := entry
      obtain ⟨s, stateMem, sameQueue⟩ := List.mem_map.mp (known _ List.mem_cons_self)
      have isFound : (state.find? fun s => s.queue = queue).isSome := by
        rw [List.find?_isSome]
        exact ⟨s, stateMem, by simpa using sameQueue⟩
      obtain ⟨currentState, found⟩ := Option.isSome_iff_exists.mp isFound
      have count : pending state queue = currentState.count := by simp [pending, found]
      have sum : quota.toNat + leftover.toNat < 2 ^ 16 := below [] _ _ _ rfl
      have current : (quota + leftover).toNat = quota.toNat + leftover.toNat := by
        rw [UInt16.toNat_add, Nat.mod_eq_of_lt sum]
      have lossless : (usedQuota currentState (quota + leftover)).toNat =
          min currentState.count (quota + leftover).toNat := by
        have narrow : min currentState.count (quota + leftover).toNat < 2 ^ 16 := by omega
        exact UInt16.toNat_ofNat_of_lt' narrow
      have difference : usedQuota currentState (quota + leftover) ≤ quota + leftover := by
        rw [UInt16.le_iff_toNat_le, lossless]
        exact Nat.min_le_right _ _
      refine ⟨currentState, ⟨found, sum, lossless, difference⟩, ih ?_ ?_⟩
      · exact fun entry member => known entry (List.mem_cons_of_mem _ member)
      · rw [UInt16.toNat_sub_of_le _ _ difference, lossless, current, ← count]
        exact below.tail

/-- A safe loop serves the counts from the quotas. -/
theorem queueLimit_of_loopSafe (profile : Profile) {quotas : List (String × UInt16)}
    {leftover : UInt16} (safe : LoopSafe state leftover quotas) :
    ∃ limits, queueLimit profile state leftover quotas = .ok limits ∧
      limits.map Prod.fst = quotas.map Prod.fst ∧
      (limits.map fun entry => entry.2.toNat) =
        serve leftover.toNat (quotas.map (claim state)) ∧
      ∀ entry ∈ limits, entry.2.toNat ≤ pending state entry.1 := by
  induction quotas generalizing leftover with
  | nil => exact ⟨[], rfl, rfl, rfl, by simp⟩
  | cons entry rest ih =>
      obtain ⟨queue, quota⟩ := entry
      obtain ⟨currentState, iteration, safeRest⟩ := safe
      have added : u16Add profile quota leftover = .ok (quota + leftover) := if_pos iteration.sum
      have subtracted : u16Sub profile (quota + leftover)
          (usedQuota currentState (quota + leftover)) =
            .ok (quota + leftover - usedQuota currentState (quota + leftover)) :=
        if_pos iteration.difference
      have count : pending state queue = currentState.count := by
        simp [pending, iteration.found]
      have used : (usedQuota currentState (quota + leftover)).toNat =
          min (pending state queue) (quota.toNat + leftover.toNat) := by
        rw [iteration.lossless, count, UInt16.toNat_add, Nat.mod_eq_of_lt iteration.sum]
      have remaining : (quota + leftover - usedQuota currentState (quota + leftover)).toNat =
          quota.toNat + leftover.toNat -
            min (pending state queue) (quota.toNat + leftover.toNat) := by
        rw [UInt16.toNat_sub_of_le _ _ iteration.difference, used, UInt16.toNat_add,
          Nat.mod_eq_of_lt iteration.sum]
      obtain ⟨limits, looped, names, served, bounded⟩ := ih safeRest
      refine ⟨(queue, usedQuota currentState (quota + leftover)) :: limits, ?_, ?_, ?_, ?_⟩
      · unfold usedQuota at subtracted looped
        simp only [queueLimit, added, iteration.found, unwrap, subtracted, looped, bind,
          Except.bind, pure, Except.pure]
        rfl
      · rw [List.map_cons, List.map_cons, names]
      · rw [List.map_cons, List.map_cons, served, remaining, used]
        rfl
      · intro entry member
        rcases List.mem_cons.mp member with rfl | restMem
        · rw [used]
          exact Nat.min_le_left _ _
        · exact bounded entry restMem

end Limits

/-! ## The batch -/

section Next

variable {profile : Profile} {queues : Configs}
  {quotaOrder limitOrder : HashOrder (String × UInt16)} {db : Db} {status : TransactionStatus}
  {cap : UInt16} {txs : List Transaction} {state : List TransactionState}

theorem orderedQuota_perm (queues : Configs) (quotaOrder : HashOrder (String × UInt16))
    (state : List TransactionState) (cap : UInt16) :
    (orderedQuota queues quotaOrder state cap).Perm (quota (stateQueues queues state) cap) :=
  quotaOrder.perm _

/-- The loop's queues are those of the state. -/
theorem orderedQuota_names_perm (queues : Configs) (quotaOrder : HashOrder (String × UInt16))
    (state : List TransactionState) (cap : UInt16) :
    ((orderedQuota queues quotaOrder state cap).map Prod.fst).Perm
      (state.map TransactionState.queue) := by
  refine ((orderedQuota_perm queues quotaOrder state cap).map _).trans
    ((quota_names_perm _ cap).trans ?_)
  rw [stateQueues, List.map_map]
  exact .refl _

theorem orderedQuota_known (queues : Configs) (quotaOrder : HashOrder (String × UInt16))
    (state : List TransactionState) (cap : UInt16) :
    ∀ entry ∈ orderedQuota queues quotaOrder state cap,
      entry.1 ∈ state.map TransactionState.queue := by
  intro entry member
  exact (orderedQuota_names_perm queues quotaOrder state cap).mem_iff.mp
    (List.mem_map_of_mem member)

/-- Between its two storage calls `next` never panics, whatever the state. -/
theorem limits_ok (profile : Profile) (queues : Configs)
    (quotaOrder : HashOrder (String × UInt16)) (state : List TransactionState) (small : cap ≤ 50) :
    ∃ limits, Priority.limits profile queues quotaOrder state cap = .ok limits ∧
      limits.map Prod.fst = (orderedQuota queues quotaOrder state cap).map Prod.fst ∧
      (limits.map fun entry => entry.2.toNat) =
        serve 0 ((orderedQuota queues quotaOrder state cap).map (claim state)) ∧
      ∀ entry ∈ limits, entry.2.toNat ≤ pending state entry.1 := by
  refine queueLimit_of_loopSafe profile (loopSafe_of_offered ?_ (offeredBelow_of_sum ?_))
  · exact orderedQuota_known queues quotaOrder state cap
  · have bound : cap.toNat ≤ 50 := UInt16.le_iff_toNat_le.mp small
    have total := quota_sum_le (stateQueues queues state) cap
    have same := ((orderedQuota_perm queues quotaOrder state cap).map
      fun entry => entry.2.toNat).sum_eq
    have claims : (((orderedQuota queues quotaOrder state cap).map (claim state)).map
        Prod.fst).sum = ((orderedQuota queues quotaOrder state cap).map
          fun entry => entry.2.toNat).sum := by
      rw [List.map_map]
      rfl
    rw [claims, UInt16.toNat_zero]
    omega

/-- Whenever the loop finishes, its limits are for the queues it went through. -/
theorem queueLimit_names {quotas limits : List (String × UInt16)} {leftover : UInt16}
    (looped : queueLimit profile state leftover quotas = .ok limits) :
    limits.map Prod.fst = quotas.map Prod.fst := by
  induction quotas generalizing leftover limits with
  | nil =>
      cases looped
      rfl
  | cons entry rest ih =>
      obtain ⟨queue, quota⟩ := entry
      simp only [queueLimit, except_bind_ok_iff] at looped
      obtain ⟨_, _, _, _, _, _, others, tail, produced⟩ := looped
      cases produced
      rw [List.map_cons, List.map_cons, ih tail]

/-- The limits computed from a store are for distinct queues. -/
theorem limits_distinct {limits : List (String × UInt16)}
    (computed : Priority.limits profile queues quotaOrder (db.state status) cap = .ok limits) :
    (limits.map Prod.fst).Nodup := by
  rw [queueLimit_names computed,
    (orderedQuota_names_perm queues quotaOrder (db.state status) cap).nodup_iff]
  exact (db.state_queues status).1

/-- The count of a queue in the state read from a store is its number of rows. -/
theorem pending_state {queue : String} (db : Db) (status : TransactionStatus)
    (member : queue ∈ (db.state status).map TransactionState.queue) :
    pending (db.state status) queue = db.countOf status queue := by
  obtain ⟨s, stateMem, sameQueue⟩ := List.mem_map.mp member
  have isFound : ((db.state status).find? fun s => s.queue = queue).isSome := by
    rw [List.find?_isSome]
    exact ⟨s, stateMem, by simpa using sameQueue⟩
  obtain ⟨found, search⟩ := Option.isSome_iff_exists.mp isFound
  have named : found.queue = queue := by simpa using List.find?_some search
  rw [pending, search, ← named]
  exact Db.state_count (List.mem_of_find?_eq_some search)

/-- A batch is empty because nothing has the status, or it is what the second
storage call selects for the limits computed from the first one. -/
theorem next_ok (success : next profile queues quotaOrder limitOrder db status cap = .ok txs) :
    (db.state status = [] ∧ txs = []) ∨
      ∃ limits, Priority.limits profile queues quotaOrder (db.state status) cap = .ok limits ∧
        db.next status (limitOrder.order limits) = .ok txs := by
  simp only [next] at success
  split at success
  · rename_i nothing
    cases success
    exact .inl ⟨List.isEmpty_iff.mp nothing, rfl⟩
  · obtain ⟨limits, computed, selected⟩ := except_bind_ok_iff.mp success
    exact .inr ⟨limits, orPanic_ok_iff.mp computed, orFail_ok_iff.mp selected⟩

/-- The size of a batch: what the loop served altogether. -/
theorem next_length (small : cap ≤ 50)
    (success : next profile queues quotaOrder limitOrder db status cap = .ok txs) :
    txs.length = (serve 0 ((orderedQuota queues quotaOrder (db.state status) cap).map
      (claim (db.state status)))).sum := by
  obtain ⟨limits, computed, names, served, bounded⟩ :=
    limits_ok profile queues quotaOrder (db.state status) small
  have namesPerm := orderedQuota_names_perm queues quotaOrder (db.state status) cap
  rw [← served]
  rcases next_ok success with ⟨nothing, rfl⟩ | ⟨_, computed', batch⟩
  · rw [← names, nothing, List.map_nil, List.perm_nil, List.map_eq_nil_iff] at namesPerm
    rw [namesPerm]
    rfl
  · rw [computed] at computed'
    cases computed'
    rw [Db.next_length batch, ((limitOrder.perm limits).map _).sum_eq]
    congr 1
    refine List.map_congr_left fun entry member => ?_
    have known : entry.1 ∈ (db.state status).map TransactionState.queue := by
      rw [← namesPerm.mem_iff, ← names]
      exact List.mem_map_of_mem member
    have within := bounded entry member
    rw [pending_state db status known] at within
    exact Nat.min_eq_left within

/-- The quotas of the first queues together with the counts of the others stay
within the capacity. -/
def WithinCap (state : List TransactionState) (quotas : List (String × UInt16)) (cap : UInt16) :
    Prop :=
  ∃ first ≤ quotas.length, ((quotas.take first).map fun entry => entry.2.toNat).sum +
    ((quotas.drop first).map fun entry => pending state entry.1).sum ≤ cap.toNat

/-- What the loop serves altogether stays within the capacity exactly when, in
iteration order, the quotas of some first queues and the counts of the others do. -/
theorem serve_le_iff {quotas : List (String × UInt16)} :
    (serve 0 (quotas.map (claim state))).sum ≤ cap.toNat ↔ WithinCap state quotas cap := by
  rw [serve_sum_le_iff]
  simp only [WithinCap, List.length_map, List.map_take, List.map_drop, List.map_map]
  rfl

/-- A batch has at most `cap` transactions exactly when, in iteration order, the
quotas of some first queues and the counts of the queues after them do. -/
theorem next_length_le_iff (small : cap ≤ 50)
    (success : next profile queues quotaOrder limitOrder db status cap = .ok txs) :
    txs.length ≤ cap.toNat ↔
      WithinCap (db.state status) (orderedQuota queues quotaOrder (db.state status) cap) cap := by
  rw [next_length small success, serve_le_iff]

/-! Two queues of equal weight with one pending transaction each: half a share
is rounded up twice. -/

def sampleQueues : Configs := ⟨[{ name := "banana" }, { name := "orange" }], by decide⟩

def sampleDb : Db :=
  ⟨⟨[⟨"1", [], .pending, none, "banana", 1⟩, ⟨"2", [], .pending, none, "orange", 2⟩], by decide⟩,
    [], none⟩

def sampleBatch : List Transaction :=
  [⟨"1", [], .pending, "banana", none, none, 1⟩, ⟨"2", [], .pending, "orange", none, none, 2⟩]

theorem next_length_le_iff_two :
    sampleBatch.length ≤ (2 : UInt16).toNat ↔ WithinCap (sampleDb.state .pending)
      (orderedQuota sampleQueues (.inserted _) (sampleDb.state .pending) 2) 2 :=
  next_length_le_iff (by decide) (show next .debug sampleQueues (.inserted _) (.inserted _)
    sampleDb .pending 2 = .ok sampleBatch by decide +kernel)

/-- A batch of two transactions for a capacity of one. -/
theorem next_exceeds_cap :
    next .debug sampleQueues (.inserted _) (.inserted _) sampleDb .pending 1 = .ok sampleBatch ∧
      ¬ sampleBatch.length ≤ (1 : UInt16).toNat := by
  decide +kernel

end Next

end Boros.Queue.Priority
