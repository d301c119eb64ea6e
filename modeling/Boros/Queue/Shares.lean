import Boros.Queue.Priority

/-!
# Weighted shares

The exact share of a queue is the capacity times its weight over the total weight. The
results here are for every arithmetic with the relative error of `f32`: the one of the code,
and the exact one. In each a quota is close enough to its share that no capacity makes the
loop of `next` overflow, and that no queue is given less than the whole part of its share.
-/

namespace Boros.Queue.Priority

open Boros.Data Boros.Semantics Boros.Storage

/-- Arithmetic with the relative error of `f32`. -/
abbrev Arithmetic32 : Type := Arithmetic (1 / 2 ^ 24)

/-- The arithmetic of the code. -/
def single : Arithmetic32 := .binary 24

/-- Exact rational arithmetic. -/
def exact : Arithmetic32 := .exact (by norm_num)

/-- One quota. -/
def weightedQuotaIn (arithmetic : Arithmetic32) (totalWeight : ℚ) (weight : UInt8)
    (cap : UInt16) : UInt16 :=
  saturateU16 (round (arithmetic.result
    (arithmetic.result (weight.toNat / totalWeight) * cap.toNat)))

/-- `Priority::quota`. -/
def quotaIn (arithmetic : Arithmetic32) (queues : List (String × UInt8)) (cap : UInt16) :
    List (String × UInt16) :=
  let totalWeight : ℚ := (queues.map fun entry => (entry.2.toNat : ℚ)).sum
  (queues.map fun entry =>
    (entry.1, weightedQuotaIn arithmetic totalWeight entry.2 cap)).insertionSort
      fun first second => second.2 ≤ first.2

/-- The quotas in the order in which the loop meets them. -/
def orderedQuotaIn (arithmetic : Arithmetic32) (queues : Configs)
    (quotaOrder : HashOrder (String × UInt16)) (state : List TransactionState) (cap : UInt16) :
    List (String × UInt16) :=
  quotaOrder.order (quotaIn arithmetic (stateQueues queues state) cap)

/-- The limits which `next` passes to its second storage call. -/
def limitsIn (arithmetic : Arithmetic32) (profile : Profile) (queues : Configs)
    (quotaOrder : HashOrder (String × UInt16)) (state : List TransactionState) (cap : UInt16) :
    Except Fault (List (String × UInt16)) :=
  queueLimit profile state 0 (orderedQuotaIn arithmetic queues quotaOrder state cap)

/-- On `f32` these are the limits of the code. -/
theorem limitsIn_single (profile : Profile) (queues : Configs)
    (quotaOrder : HashOrder (String × UInt16)) (state : List TransactionState) (cap : UInt16) :
    limitsIn single profile queues quotaOrder state cap =
      limits profile queues quotaOrder state cap := rfl

/-- The weight with which a queue takes part. -/
def weightOf (queues : Configs) (queue : String) : UInt8 :=
  ((queues.get queue).map Config.weight).getD defaultWeight

/-- The total weight of some queues. -/
def totalWeight (queues : List (String × UInt8)) : Nat :=
  (queues.map fun entry => entry.2.toNat).sum

/-- The exact share of a weight. -/
def share (total : Nat) (weight : UInt8) (cap : UInt16) : ℚ :=
  weight.toNat / total * cap.toNat

/-! ## A quota and its share -/

section Quota

variable {arithmetic : Arithmetic32} {total : Nat} {weight : UInt8} {cap : UInt16}
  {queues : List (String × UInt8)}

theorem share_nonneg (total : Nat) (weight : UInt8) (cap : UInt16) : 0 ≤ share total weight cap :=
  mul_nonneg (div_nonneg (Nat.cast_nonneg _) (Nat.cast_nonneg _)) (Nat.cast_nonneg _)

/-- A share of the whole is no more than the capacity. -/
theorem share_le (within : weight.toNat ≤ total) : share total weight cap ≤ cap.toNat := by
  have part : (weight.toNat : ℚ) / total ≤ 1 := by
    refine div_le_one_of_le₀ ?_ (Nat.cast_nonneg _)
    exact_mod_cast within
  calc share total weight cap ≤ 1 * cap.toNat :=
        mul_le_mul_of_nonneg_right part (Nat.cast_nonneg _)
    _ = cap.toNat := one_mul _

/-- What is rounded to a quota. -/
def unrounded (arithmetic : Arithmetic32) (total : Nat) (weight : UInt8) (cap : UInt16) : ℚ :=
  arithmetic.result (arithmetic.result (weight.toNat / total) * cap.toNat)

/-- Both operations together leave a share nearly as it is. -/
theorem unrounded_le (arithmetic : Arithmetic32) (total : Nat) (weight : UInt8) (cap : UInt16) :
    unrounded arithmetic total weight cap ≤ (1 + 1 / 2 ^ 22) * share total weight cap := by
  have positive := share_nonneg total weight cap
  have part : (0 : ℚ) ≤ weight.toNat / total := div_nonneg (Nat.cast_nonneg _) (Nat.cast_nonneg _)
  refine (arithmetic.result_mul_le (by norm_num) (by norm_num) part (Nat.cast_nonneg _)).trans ?_
  exact mul_le_mul_of_nonneg_right (by norm_num) positive

theorem le_unrounded (arithmetic : Arithmetic32) (total : Nat) (weight : UInt8) (cap : UInt16) :
    (1 - 1 / 2 ^ 22) * share total weight cap ≤ unrounded arithmetic total weight cap := by
  have positive := share_nonneg total weight cap
  have part : (0 : ℚ) ≤ weight.toNat / total := div_nonneg (Nat.cast_nonneg _) (Nat.cast_nonneg _)
  refine le_trans ?_ (arithmetic.le_result_mul (by norm_num) part (Nat.cast_nonneg _))
  exact mul_le_mul_of_nonneg_right (by norm_num) positive

/-- Which numbers a quota reaches. -/
theorem le_weightedQuotaIn_iff (k : Nat) :
    k ≤ (weightedQuotaIn arithmetic total weight cap).toNat ↔
      k < 2 ^ 16 ∧ (k = 0 ∨ (k : ℚ) ≤ unrounded arithmetic total weight cap + 1 / 2) := by
  have narrow :
      min (round (unrounded arithmetic total weight cap)).toNat (2 ^ 16 - 1) < 2 ^ 16 := by
    omega
  have value : (weightedQuotaIn arithmetic total weight cap).toNat =
      min (round (unrounded arithmetic total weight cap)).toNat (2 ^ 16 - 1) :=
    UInt16.toNat_ofNat_of_lt' narrow
  have reached : (k : ℤ) ≤ round (unrounded arithmetic total weight cap) ↔
      (k : ℚ) ≤ unrounded arithmetic total weight cap + 1 / 2 := natCast_le_round_iff k
  rw [value, ← reached]
  omega

/-- A quota exceeds its share by hardly more than a half. -/
theorem weightedQuotaIn_le (arithmetic : Arithmetic32) (total : Nat) (weight : UInt8)
    (cap : UInt16) : ((weightedQuotaIn arithmetic total weight cap).toNat : ℚ) ≤
      (1 + 1 / 2 ^ 22) * share total weight cap + 1 / 2 := by
  have near := unrounded_le arithmetic total weight cap
  have positive := share_nonneg total weight cap
  obtain ⟨_, none | reached⟩ := (le_weightedQuotaIn_iff
    (weightedQuotaIn arithmetic total weight cap).toNat).mp le_rfl
  · rw [none]
    push_cast
    linarith
  · linarith

/-- A quota is no less than the whole part of its share. -/
theorem floor_share_le (arithmetic : Arithmetic32) (cap : UInt16)
    (within : weight.toNat ≤ total) :
    ⌊share total weight cap⌋₊ ≤ (weightedQuotaIn arithmetic total weight cap).toNat := by
  have near := le_unrounded arithmetic total weight cap
  have whole : share total weight cap ≤ cap.toNat := share_le within
  have narrow : cap.toNat < 2 ^ 16 := cap.toNat_lt
  have capacity : (cap.toNat : ℚ) < 2 ^ 16 := by exact_mod_cast narrow
  have floor : (⌊share total weight cap⌋₊ : ℚ) ≤ share total weight cap :=
    Nat.floor_le (share_nonneg total weight cap)
  rw [le_weightedQuotaIn_iff]
  refine ⟨?_, .inr (by linarith)⟩
  have below : (⌊share total weight cap⌋₊ : ℚ) ≤ cap.toNat := floor.trans whole
  exact (Nat.cast_le.mp below).trans_lt narrow

/-- A share of less than a half of a small capacity is not rounded up to a half: it is
short of it by more than the arithmetic adds. -/
theorem unrounded_lt_half (small : cap ≤ 50) (less : share total weight cap < 1 / 2) :
    unrounded arithmetic total weight cap < 1 / 2 := by
  have near := unrounded_le arithmetic total weight cap
  rcases Nat.eq_zero_or_pos total with rfl | positive
  · have none : share 0 weight cap = 0 := by simp [share]
    rw [none] at near
    linarith
  · have totalPositive : (0 : ℚ) < total := by exact_mod_cast positive
    have product : share total weight cap * total = weight.toNat * cap.toNat := by
      rw [share]
      field_simp
    have capBound : cap.toNat ≤ 50 := UInt16.le_iff_toNat_le.mp small
    have weightBound : weight.toNat < 2 ^ 8 := weight.toNat_lt
    have short : 2 * (weight.toNat * cap.toNat) + 1 ≤ total := by
      have strict : 2 * ((weight.toNat : ℚ) * cap.toNat) < total := by
        have scaled := mul_lt_mul_of_pos_right less totalPositive
        rw [product] at scaled
        linarith
      exact_mod_cast strict
    have largest : weight.toNat * cap.toNat ≤ 2 ^ 8 * 50 := Nat.mul_le_mul weightBound.le capBound
    rcases Nat.lt_or_ge total (2 ^ 17) with few | many
    · have shortRat : 2 * ((weight.toNat : ℚ) * cap.toNat) + 1 ≤ total := by exact_mod_cast short
      have fewRat : (total : ℚ) < 2 ^ 17 := by exact_mod_cast few
      have margin : share total weight cap ≤ 1 / 2 - 1 / 2 ^ 18 := by
        by_contra above
        have scaled := mul_lt_mul_of_pos_right (not_le.mp above) totalPositive
        rw [product] at scaled
        linarith
      linarith
    · have manyRat : (2 : ℚ) ^ 17 ≤ total := by exact_mod_cast many
      have largestRat : (weight.toNat : ℚ) * cap.toNat ≤ 2 ^ 8 * 50 := by exact_mod_cast largest
      have quarter : share total weight cap ≤ 1 / 4 := by
        by_contra above
        have scaled := mul_lt_mul_of_pos_right (not_le.mp above) totalPositive
        rw [product] at scaled
        linarith
      linarith

/-- For a small capacity a quota is at most twice its share. -/
theorem weightedQuotaIn_le_two_mul (arithmetic : Arithmetic32) (total : Nat) (weight : UInt8)
    (small : cap ≤ 50) : ((weightedQuotaIn arithmetic total weight cap).toNat : ℚ) ≤
      2 * share total weight cap := by
  have positive := share_nonneg total weight cap
  have bound := weightedQuotaIn_le arithmetic total weight cap
  rcases lt_or_ge (share total weight cap) (1 / 2) with less | enough
  · have none : ¬ 1 ≤ (weightedQuotaIn arithmetic total weight cap).toNat := by
      have below : unrounded arithmetic total weight cap < 1 / 2 := unrounded_lt_half small less
      rw [le_weightedQuotaIn_iff]
      rintro ⟨_, absurdity | reached⟩
      · omega
      · push_cast at reached
        linarith
    rw [Nat.lt_one_iff.mp (Nat.not_le.mp none)]
    push_cast
    linarith
  · rcases Nat.lt_or_ge (weightedQuotaIn arithmetic total weight cap).toNat 2 with one | more
    · have oneRat : ((weightedQuotaIn arithmetic total weight cap).toNat : ℚ) ≤ 1 := by
        exact_mod_cast Nat.le_of_lt_succ one
      linarith
    · have moreRat : (2 : ℚ) ≤ (weightedQuotaIn arithmetic total weight cap).toNat := by
        exact_mod_cast more
      linarith

/-! ## Sums of quotas -/

theorem cast_totalWeight (queues : List (String × UInt8)) :
    (totalWeight queues : ℚ) = (queues.map fun entry => (entry.2.toNat : ℚ)).sum := by
  rw [totalWeight, Nat.cast_list_sum, List.map_map]
  rfl

/-- The quotas are those of the queues of the map. -/
theorem quotaIn_perm (arithmetic : Arithmetic32) (queues : List (String × UInt8))
    (cap : UInt16) : (quotaIn arithmetic queues cap).Perm (queues.map fun entry =>
      (entry.1, weightedQuotaIn arithmetic (totalWeight queues) entry.2 cap)) := by
  rw [quotaIn, ← cast_totalWeight]
  exact List.perm_insertionSort _ _

/-- The shares of some of the queues are no more than the capacity. -/
theorem share_sum_le (cap : UInt16) {part : List (String × UInt8)} (sub : part.Sublist queues) :
    (part.map fun entry => share (totalWeight queues) entry.2 cap).sum ≤ cap.toNat := by
  have weights : totalWeight part ≤ totalWeight queues :=
    (sub.map _).sum_le_sum fun _ _ => Nat.zero_le _
  have fraction : (totalWeight part : ℚ) / totalWeight queues ≤ 1 := by
    refine div_le_one_of_le₀ ?_ (Nat.cast_nonneg _)
    exact_mod_cast weights
  calc (part.map fun entry => share (totalWeight queues) entry.2 cap).sum
      = totalWeight part / totalWeight queues * cap.toNat := by
        simp only [share, List.sum_map_mul_right, div_eq_mul_inv]
        rw [cast_totalWeight part]
    _ ≤ 1 * cap.toNat := mul_le_mul_of_nonneg_right fraction (Nat.cast_nonneg _)
    _ = cap.toNat := one_mul _

/-- Some of the quotas exceed the capacity by no more than a half each. -/
theorem quotaIn_halves (arithmetic : Arithmetic32) {part : List (String × UInt16)}
    (sub : part.Subperm (quotaIn arithmetic queues cap)) :
    2 * (part.map fun entry => entry.2.toNat).sum ≤ 2 * cap.toNat + part.length := by
  obtain ⟨_, perm, inMap⟩ := sub.trans (quotaIn_perm arithmetic queues cap).subperm
  obtain ⟨some, someSub, rfl⟩ := List.sublist_map_iff.mp inMap
  have shares := share_sum_le cap someSub
  have narrow : (cap.toNat : ℚ) < 2 ^ 16 := by exact_mod_cast cap.toNat_lt
  have each := List.sum_le_sum (fun entry (_ : entry ∈ some) =>
    weightedQuotaIn_le arithmetic (totalWeight queues) entry.2 cap)
  rw [List.sum_map_add, List.sum_map_mul_left, List.map_const', List.sum_replicate,
    nsmul_eq_mul] at each
  have below : 2 * ((some.map fun entry =>
      (weightedQuotaIn arithmetic (totalWeight queues) entry.2 cap).toNat).sum : ℚ) <
        2 * cap.toNat + some.length + 1 := by
    rw [Nat.cast_list_sum, List.map_map]
    simp only [Function.comp_def]
    linarith
  rw [← (perm.map _).sum_eq, ← perm.length_eq, List.map_map, List.length_map]
  exact Nat.lt_succ_iff.mp (by exact_mod_cast below)

/-- All quotas of a small capacity are at most twice the capacity. -/
theorem quotaIn_sum_le (arithmetic : Arithmetic32) (queues : List (String × UInt8))
    (small : cap ≤ 50) :
    ((quotaIn arithmetic queues cap).map fun entry => entry.2.toNat).sum ≤ 2 * cap.toNat := by
  have shares := share_sum_le cap (List.Sublist.refl queues)
  have each := List.sum_le_sum (fun entry (_ : entry ∈ queues) =>
    weightedQuotaIn_le_two_mul arithmetic (totalWeight queues) entry.2 small)
  rw [List.sum_map_mul_left] at each
  have below : ((queues.map fun entry =>
      (weightedQuotaIn arithmetic (totalWeight queues) entry.2 cap).toNat).sum : ℚ) ≤
        2 * cap.toNat := by
    rw [Nat.cast_list_sum, List.map_map]
    simp only [Function.comp_def]
    linarith
  rw [((quotaIn_perm arithmetic queues cap).map _).sum_eq, List.map_map]
  exact_mod_cast below

end Quota

/-! ## The loop -/

section Loop

variable {profile : Profile} {arithmetic : Arithmetic32} {queues : Configs}
  {quotaOrder : HashOrder (String × UInt16)} {state : List TransactionState} {db : Db}
  {status : TransactionStatus} {cap : UInt16} {queue : String}

theorem orderedQuotaIn_perm (arithmetic : Arithmetic32) (queues : Configs)
    (quotaOrder : HashOrder (String × UInt16)) (state : List TransactionState) (cap : UInt16) :
    (orderedQuotaIn arithmetic queues quotaOrder state cap).Perm
      (quotaIn arithmetic (stateQueues queues state) cap) :=
  quotaOrder.perm _

/-- The loop's queues are those of the state. -/
theorem orderedQuotaIn_names_perm (arithmetic : Arithmetic32) (queues : Configs)
    (quotaOrder : HashOrder (String × UInt16)) (state : List TransactionState) (cap : UInt16) :
    ((orderedQuotaIn arithmetic queues quotaOrder state cap).map Prod.fst).Perm
      (state.map TransactionState.queue) := by
  refine ((orderedQuotaIn_perm arithmetic queues quotaOrder state cap).map _).trans ?_
  refine ((quotaIn_perm arithmetic (stateQueues queues state) cap).map _).trans (.of_eq ?_)
  rw [stateQueues, List.map_map, List.map_map]
  rfl

theorem orderedQuotaIn_known (arithmetic : Arithmetic32) (queues : Configs)
    (quotaOrder : HashOrder (String × UInt16)) (state : List TransactionState) (cap : UInt16) :
    ∀ entry ∈ orderedQuotaIn arithmetic queues quotaOrder state cap,
      entry.1 ∈ state.map TransactionState.queue := by
  intro entry member
  exact (orderedQuotaIn_names_perm arithmetic queues quotaOrder state cap).mem_iff.mp
    (List.mem_map_of_mem member)

/-- For a small capacity the loop is safe whatever the state: all quotas together are within
16 bits. -/
theorem loopSafe_of_small (small : cap ≤ 50) :
    LoopSafe state 0 (orderedQuotaIn arithmetic queues quotaOrder state cap) := by
  refine loopSafe_of_offered (orderedQuotaIn_known arithmetic queues quotaOrder state cap) ?_
  refine offeredBelow_of_sum ?_
  have bound : cap.toNat ≤ 50 := UInt16.le_iff_toNat_le.mp small
  have total := quotaIn_sum_le arithmetic (stateQueues queues state) small
  rw [List.map_map, ((orderedQuotaIn_perm arithmetic queues quotaOrder state cap).map _).sum_eq,
    UInt16.toNat_zero]
  simp only [Function.comp_def, claim]
  omega

/-- No operation of the loop leaves its range, no cast loses anything and no lookup fails,
whatever the queues, their weights and counts and the order in which they are met. -/
theorem loop_safe (arithmetic : Arithmetic32) (queues : Configs)
    (quotaOrder : HashOrder (String × UInt16)) (state : List TransactionState)
    (small : cap ≤ 50) :
    LoopSafe state 0 (orderedQuotaIn arithmetic queues quotaOrder state cap) ∧
      ((orderedQuotaIn arithmetic queues quotaOrder state cap).map
        fun entry => entry.2.toNat).sum ≤ 2 * cap.toNat ∧
      ∀ profile, ∃ limits,
        limitsIn arithmetic profile queues quotaOrder state cap = .ok limits := by
  refine ⟨loopSafe_of_small small, ?_, fun profile => ?_⟩
  · rw [((orderedQuotaIn_perm arithmetic queues quotaOrder state cap).map _).sum_eq]
    exact quotaIn_sum_le arithmetic (stateQueues queues state) small
  · obtain ⟨limits, computed, _⟩ := queueLimit_of_loopSafe profile (loopSafe_of_small small)
    exact ⟨limits, computed⟩

/-- The largest capacity the code uses, over the sample store. -/
theorem loop_safe_sample :
    LoopSafe (sampleDb.state .pending) 0
        (orderedQuotaIn exact sampleQueues (.inserted _) (sampleDb.state .pending) 50) ∧
      ((orderedQuotaIn exact sampleQueues (.inserted _) (sampleDb.state .pending) 50).map
        fun entry => entry.2.toNat).sum ≤ 2 * (50 : UInt16).toNat ∧
      ∀ profile, ∃ limits, limitsIn exact profile sampleQueues (.inserted _)
        (sampleDb.state .pending) 50 = .ok limits :=
  loop_safe exact sampleQueues (.inserted _) (sampleDb.state .pending) (by decide)

/-- The counts read from a store are positive, so that no queue is offered more than the
capacity. -/
theorem offeredBelow_state (arithmetic : Arithmetic32) (queues : Configs)
    (quotaOrder : HashOrder (String × UInt16)) (db : Db) (status : TransactionStatus)
    (cap : UInt16) :
    OfferedBelow (cap.toNat + 1) 0 ((orderedQuotaIn arithmetic queues quotaOrder
      (db.state status) cap).map (claim (db.state status))) := by
  apply offeredBelow_of_halves
  · intro entry member
    obtain ⟨quota, quotaMem, rfl⟩ := List.mem_map.mp member
    have known := orderedQuotaIn_known arithmetic queues quotaOrder (db.state status) cap
      quota quotaMem
    have count := pending_state db status known
    have positive := ((db.state_queues status).2 quota.1).mp known
    rw [claim, count]
    exact positive
  · intro part sub
    obtain ⟨quotas, quotasSub, rfl⟩ := List.sublist_map_iff.mp sub
    have some : quotas.Subperm (quotaIn arithmetic (stateQueues queues (db.state status)) cap) :=
      quotasSub.subperm.trans
        (orderedQuotaIn_perm arithmetic queues quotaOrder (db.state status) cap).subperm
    rw [List.map_map, List.length_map]
    exact quotaIn_halves arithmetic some

/-- Over a store the loop is safe for every capacity. -/
theorem loopSafe_state (arithmetic : Arithmetic32) (queues : Configs)
    (quotaOrder : HashOrder (String × UInt16)) (db : Db) (status : TransactionStatus)
    (cap : UInt16) :
    LoopSafe (db.state status) 0
      (orderedQuotaIn arithmetic queues quotaOrder (db.state status) cap) := by
  refine loopSafe_of_offered
    (orderedQuotaIn_known arithmetic queues quotaOrder (db.state status) cap) ?_
  exact (offeredBelow_state arithmetic queues quotaOrder db status cap).mono cap.toNat_lt

/-! ## The amount of one queue -/

/-- The value of a map at a queue; a queue which is not in it gets nothing. -/
def amountOf (entries : List (String × UInt16)) (queue : String) : Nat :=
  ((entries.find? fun entry => entry.1 = queue).map fun entry => entry.2.toNat).getD 0

/-- The entries which the loop meets before a queue. -/
def metBefore (quotas : List (String × UInt16)) (queue : String) : List (String × UInt16) :=
  quotas.takeWhile fun entry => entry.1 ≠ queue

/-- What a queue is offered: its quota, and the largest surplus of quotas over counts of queues
met in a row directly before it. -/
def offeredTo (state : List TransactionState) (quotas : List (String × UInt16))
    (queue : String) : Nat :=
  offered ((metBefore quotas queue).map (claim state)) (amountOf quotas queue)

/-- A limit is the count of the queue, up to what it is offered and what is left over from
before; the induction is on the queues which the loop meets first. -/
theorem amountOf_served {quotas limits : List (String × UInt16)} {leftover : Nat}
    (names : limits.map Prod.fst = quotas.map Prod.fst)
    (amounts : (limits.map fun entry => entry.2.toNat) =
      serve leftover (quotas.map (claim state)))
    (known : queue ∈ quotas.map Prod.fst) :
    amountOf limits queue = min (pending state queue)
      (amountOf quotas queue + carried leftover ((metBefore quotas queue).map (claim state))) := by
  induction quotas generalizing limits leftover with
  | nil => simp at known
  | cons entry rest ih =>
      obtain ⟨name, quota⟩ := entry
      cases limits with
      | nil => simp at names
      | cons limit others =>
          obtain ⟨limitName, amount⟩ := limit
          simp only [List.map_cons, List.cons.injEq, serve, claim] at names amounts
          obtain ⟨rfl, otherNames⟩ := names
          by_cases same : limitName = queue
          · subst same
            simp [amountOf, metBefore, carried, amounts.1]
          · have later : queue ∈ rest.map Prod.fst := by
              rcases List.mem_cons.mp known with here | later
              · exact absurd here.symm same
              · exact later
            have rest' := ih otherNames amounts.2 later
            simpa [amountOf, metBefore, carried, same, claim] using rest'

/-- The limits computed from a store, queue by queue. -/
theorem limitsIn_state (profile : Profile) (arithmetic : Arithmetic32) (queues : Configs)
    (quotaOrder : HashOrder (String × UInt16)) (db : Db) (status : TransactionStatus)
    (cap : UInt16) :
    ∃ limits, limitsIn arithmetic profile queues quotaOrder (db.state status) cap = .ok limits ∧
      limits.map Prod.fst = (orderedQuotaIn arithmetic queues quotaOrder
        (db.state status) cap).map Prod.fst ∧
      (limits.map fun entry => entry.2.toNat) = serve 0 ((orderedQuotaIn arithmetic queues
        quotaOrder (db.state status) cap).map (claim (db.state status))) ∧
      ∀ s ∈ db.state status, amountOf limits s.queue = min s.count (offeredTo (db.state status)
        (orderedQuotaIn arithmetic queues quotaOrder (db.state status) cap) s.queue) := by
  obtain ⟨limits, computed, names, amounts, _⟩ := queueLimit_of_loopSafe profile
    (loopSafe_state arithmetic queues quotaOrder db status cap)
  refine ⟨limits, computed, names, amounts, fun s member => ?_⟩
  have queueMem : s.queue ∈ (db.state status).map TransactionState.queue :=
    List.mem_map_of_mem member
  have known : s.queue ∈ (orderedQuotaIn arithmetic queues quotaOrder (db.state status) cap).map
      Prod.fst :=
    (orderedQuotaIn_names_perm arithmetic queues quotaOrder (db.state status) cap).mem_iff.mpr
      queueMem
  rw [amountOf_served names amounts known, UInt16.toNat_zero, carried_zero,
    pending_state db status queueMem, ← Db.state_count member]
  rfl

/-- The quota of a queue of the state. -/
theorem amountOf_orderedQuotaIn (arithmetic : Arithmetic32) (queues : Configs)
    (quotaOrder : HashOrder (String × UInt16)) (cap : UInt16)
    (known : queue ∈ state.map TransactionState.queue) :
    amountOf (orderedQuotaIn arithmetic queues quotaOrder state cap) queue =
      (weightedQuotaIn arithmetic (totalWeight (stateQueues queues state))
        (weightOf queues queue) cap).toNat := by
  have isFound : ((orderedQuotaIn arithmetic queues quotaOrder state cap).find?
      fun entry => entry.1 = queue).isSome := by
    have member := (orderedQuotaIn_names_perm arithmetic queues quotaOrder state cap).mem_iff.mpr
      known
    obtain ⟨entry, entryMem, sameQueue⟩ := List.mem_map.mp member
    rw [List.find?_isSome]
    exact ⟨entry, entryMem, by simpa using sameQueue⟩
  obtain ⟨entry, found⟩ := Option.isSome_iff_exists.mp isFound
  have sameQueue : entry.1 = queue := by simpa using List.find?_some found
  have inMap := ((orderedQuotaIn_perm arithmetic queues quotaOrder state cap).trans
    (quotaIn_perm arithmetic (stateQueues queues state) cap)).mem_iff.mp
      (List.mem_of_find?_eq_some found)
  obtain ⟨weighted, weightedMem, rfl⟩ := List.mem_map.mp inMap
  obtain ⟨s, _, rfl⟩ := List.mem_map.mp weightedMem
  simp only at sameQueue
  rw [amountOf, found, ← sameQueue]
  rfl

/-- A queue of the state has a part of the total weight. -/
theorem weightOf_le (queues : Configs) (known : queue ∈ state.map TransactionState.queue) :
    (weightOf queues queue).toNat ≤ totalWeight (stateQueues queues state) := by
  obtain ⟨s, member, rfl⟩ := List.mem_map.mp known
  refine List.le_sum_of_mem ?_
  rw [stateQueues, List.map_map]
  exact List.mem_map.mpr ⟨s, member, rfl⟩

/-- Every queue with pending transactions is given the whole part of its exact share, or as
much as it has. -/
theorem share_le_limit (profile : Profile) (arithmetic : Arithmetic32) (queues : Configs)
    (quotaOrder : HashOrder (String × UInt16)) (db : Db) (status : TransactionStatus)
    (cap : UInt16) :
    ∃ limits, limitsIn arithmetic profile queues quotaOrder (db.state status) cap = .ok limits ∧
      ∀ s ∈ db.state status, s.queue ∈ limits.map Prod.fst ∧
        min s.count ⌊share (totalWeight (stateQueues queues (db.state status)))
          (weightOf queues s.queue) cap⌋₊ ≤ amountOf limits s.queue := by
  obtain ⟨limits, computed, names, _, amounts⟩ :=
    limitsIn_state profile arithmetic queues quotaOrder db status cap
  refine ⟨limits, computed, fun s member => ?_⟩
  have known : s.queue ∈ (db.state status).map TransactionState.queue :=
    List.mem_map_of_mem member
  have whole := floor_share_le arithmetic cap (weightOf_le queues known)
  rw [← amountOf_orderedQuotaIn arithmetic queues quotaOrder cap known] at whole
  constructor
  · rw [names]
    exact (orderedQuotaIn_names_perm arithmetic queues quotaOrder (db.state status) cap).mem_iff.mpr
      known
  · rw [amounts s member, offeredTo, offered]
    omega

end Loop

end Boros.Queue.Priority
