import Mathlib.Algebra.BigOperators.Ring.List
import Mathlib.Algebra.Order.BigOperators.Group.List
import Mathlib.Algebra.Order.Field.Basic
import Mathlib.Algebra.Order.Ring.Rat

/-!
# Proportional shares

A capacity is divided among weighted claimants: each is granted its share, rounded,
and demands are then served in some order, each claimant being offered its grant and
what the claimants before it left over. Rounding is done share by share, so the grants
need not add up to the capacity; `sum_le_of_shares` bounds by how much they may exceed
it, and `serve_sum_le_iff` says exactly when the demands served stay within a bound.
`carried_eq` gives what is left over without the order in which it came about: it is the
largest surplus of any claimants in a row.
-/

namespace Boros.Data

/-- Grants which exceed the shares of their weights by no more than a factor do not
exceed the whole by more than that factor. -/
theorem sum_le_of_shares {ι : Type*} {items : List ι} {weight grant : ι → ℚ} {factor : ℚ}
    (positive : 0 ≤ factor)
    (each : ∀ item ∈ items, grant item ≤ factor * (weight item / (items.map weight).sum)) :
    (items.map grant).sum ≤ factor := by
  calc (items.map grant).sum
      ≤ (items.map fun item => factor * (weight item / (items.map weight).sum)).sum :=
        List.sum_le_sum each
    _ = factor * ((items.map weight).sum / (items.map weight).sum) := by
        rw [List.sum_map_mul_left]
        simp only [div_eq_mul_inv, List.sum_map_mul_right]
    _ ≤ factor := mul_le_of_le_one_right positive (div_self_le_one _)

/-- Serve demands in order. Each entry is a grant with the demand it is for; the
demand is served up to the grant and what is left over from the ones before. -/
def serve (leftover : Nat) : List (Nat × Nat) → List Nat
  | [] => []
  | (grant, demand) :: rest =>
    min demand (grant + leftover) ::
      serve (grant + leftover - min demand (grant + leftover)) rest

@[simp]
theorem serve_length (leftover : Nat) (entries : List (Nat × Nat)) :
    (serve leftover entries).length = entries.length := by
  induction entries generalizing leftover with
  | nil => rfl
  | cons entry rest ih => simp [serve, ih]

/-- What is served altogether stays within a bound exactly when all demands do,
or when some first part of the grants does together with the demands after it. -/
theorem serve_sum_le_iff_of_leftover (leftover bound : Nat) (entries : List (Nat × Nat)) :
    (serve leftover entries).sum ≤ bound ↔ (entries.map Prod.snd).sum ≤ bound ∨
      ∃ served < entries.length, leftover + ((entries.take (served + 1)).map Prod.fst).sum +
        ((entries.drop (served + 1)).map Prod.snd).sum ≤ bound := by
  induction entries generalizing leftover bound with
  | nil => simp [serve]
  | cons entry rest ih =>
      obtain ⟨grant, demand⟩ := entry
      simp only [serve, List.sum_cons, List.map_cons, List.take_succ_cons, List.drop_succ_cons,
        List.length_cons]
      have step : min demand (grant + leftover) +
          (serve (grant + leftover - min demand (grant + leftover)) rest).sum ≤ bound ↔
          min demand (grant + leftover) ≤ bound ∧
            (serve (grant + leftover - min demand (grant + leftover)) rest).sum ≤
              bound - min demand (grant + leftover) := by omega
      rw [step, ih]
      constructor
      · rintro ⟨fits, all | ⟨served, inside, within⟩⟩
        · by_cases enough : demand ≤ grant + leftover
          · exact .inl (by omega)
          · exact .inr ⟨0, by omega, by simp; omega⟩
        · exact .inr ⟨served + 1, by omega, by omega⟩
      · rintro (all | ⟨served, inside, within⟩)
        · exact ⟨by omega, .inl (by omega)⟩
        · cases served with
          | zero =>
              simp only [List.take_zero, List.map_nil, List.sum_nil,
                List.drop_zero] at within
              exact ⟨by omega, .inl (by omega)⟩
          | succ served => exact ⟨by omega, .inr ⟨served, by omega, by omega⟩⟩

/-- The same, with nothing left over at the start. -/
theorem serve_sum_le_iff (bound : Nat) (entries : List (Nat × Nat)) :
    (serve 0 entries).sum ≤ bound ↔ ∃ served ≤ entries.length,
      ((entries.take served).map Prod.fst).sum + ((entries.drop served).map Prod.snd).sum ≤
        bound := by
  rw [serve_sum_le_iff_of_leftover]
  constructor
  · rintro (all | ⟨served, inside, within⟩)
    · exact ⟨0, by omega, by simpa using all⟩
    · exact ⟨served + 1, by omega, by omega⟩
  · rintro ⟨served, inside, within⟩
    cases served with
    | zero => exact .inl (by simpa using within)
    | succ served => exact .inr ⟨served, by omega, by omega⟩

/-- What is served altogether reaches a bound exactly when the grants of all first
claimants do together with the demands after them. -/
theorem le_serve_sum_iff (bound : Nat) (entries : List (Nat × Nat)) :
    bound ≤ (serve 0 entries).sum ↔ ∀ served ≤ entries.length,
      bound ≤ ((entries.take served).map Prod.fst).sum +
        ((entries.drop served).map Prod.snd).sum := by
  cases bound with
  | zero => simp
  | succ below =>
      rw [Nat.succ_le_iff, ← Nat.not_le, serve_sum_le_iff]
      push Not
      rfl

/-! ## What is left over -/

/-- What is left over after demands were served in order. -/
def carried (leftover : Nat) : List (Nat × Nat) → Nat
  | [] => leftover
  | (grant, demand) :: rest =>
    carried (grant + leftover - min demand (grant + leftover)) rest

/-- By how much the grants exceed the demands, if they do. -/
def surplus (entries : List (Nat × Nat)) : Nat :=
  (entries.map Prod.fst).sum - (entries.map Prod.snd).sum

/-- The largest surplus of claimants in a row up to the last one. -/
def largestSurplus : List (Nat × Nat) → Nat
  | [] => 0
  | entry :: rest => max (surplus (entry :: rest)) (largestSurplus rest)

/-- What a claimant is offered: its grant, and the largest surplus before it. -/
def offered (before : List (Nat × Nat)) (grant : Nat) : Nat := grant + largestSurplus before

variable {leftover bound grant demand : Nat} {entries rest : List (Nat × Nat)}

theorem surplus_le_largestSurplus (entries : List (Nat × Nat)) :
    surplus entries ≤ largestSurplus entries := by
  cases entries with
  | nil => exact Nat.le_refl _
  | cons entry rest => exact Nat.le_max_left _ _

/-- The largest surplus is that of some last claimants. -/
theorem exists_largestSurplus (entries : List (Nat × Nat)) :
    ∃ first last, entries = first ++ last ∧ largestSurplus entries = surplus last := by
  induction entries with
  | nil => exact ⟨[], [], rfl, rfl⟩
  | cons entry rest ih =>
      rcases Nat.le_total (largestSurplus rest) (surplus (entry :: rest)) with whole | later
      · exact ⟨[], entry :: rest, rfl, Nat.max_eq_left whole⟩
      · obtain ⟨first, last, cut, largest⟩ := ih
        exact ⟨entry :: first, last, by rw [cut, List.cons_append],
          (Nat.max_eq_right later).trans largest⟩

/-- What is left over at the end is the surplus of all claimants with what was there before, or
the largest surplus of the last ones. -/
theorem carried_eq (leftover : Nat) (entries : List (Nat × Nat)) :
    carried leftover entries = max
      (leftover + (entries.map Prod.fst).sum - (entries.map Prod.snd).sum)
      (largestSurplus entries) := by
  induction entries generalizing leftover with
  | nil => simp [carried, largestSurplus]
  | cons entry rest ih =>
      obtain ⟨grant, demand⟩ := entry
      have later := surplus_le_largestSurplus rest
      simp only [carried, ih, largestSurplus, surplus, List.map_cons, List.sum_cons] at later ⊢
      omega

/-- With nothing left over at the start it is the largest surplus. -/
theorem carried_zero (entries : List (Nat × Nat)) : carried 0 entries = largestSurplus entries := by
  have later := surplus_le_largestSurplus entries
  rw [surplus] at later
  rw [carried_eq]
  omega

/-- No claimant is offered as much as the bound. -/
def OfferedBelow (bound leftover : Nat) (entries : List (Nat × Nat)) : Prop :=
  ∀ first grant demand rest, entries = first ++ (grant, demand) :: rest →
    grant + carried leftover first < bound

theorem OfferedBelow.tail (below : OfferedBelow bound leftover ((grant, demand) :: rest)) :
    OfferedBelow bound (grant + leftover - min demand (grant + leftover)) rest := by
  intro first later other after cut
  exact below ((grant, demand) :: first) later other after (by rw [cut, List.cons_append])

theorem OfferedBelow.mono {larger : Nat} (below : OfferedBelow bound leftover entries)
    (within : bound ≤ larger) : OfferedBelow larger leftover entries := by
  intro first grant demand rest cut
  exact (below first grant demand rest cut).trans_le within

/-- What is offered stays within all grants and what was left over at the start. -/
theorem offeredBelow_of_sum (fits : leftover + (entries.map Prod.fst).sum < bound) :
    OfferedBelow bound leftover entries := by
  rintro first grant demand rest rfl
  obtain ⟨before, last, rfl, largest⟩ := exists_largestSurplus first
  rw [carried_eq, largest, surplus]
  simp only [List.map_append, List.sum_append, List.map_cons, List.sum_cons] at fits ⊢
  omega

/-- When every claimant demands something, and grants in a row exceed a capacity by no more than
a half each, no claimant is offered more than the capacity. -/
theorem offeredBelow_of_halves {capacity : Nat} (demands : ∀ entry ∈ entries, 1 ≤ entry.2)
    (halves : ∀ part : List (Nat × Nat), part.Sublist entries →
      2 * (part.map Prod.fst).sum ≤ 2 * capacity + part.length) :
    OfferedBelow (capacity + 1) 0 entries := by
  rintro first grant demand rest rfl
  obtain ⟨before, last, rfl, largest⟩ := exists_largestSurplus first
  have part : (last ++ [(grant, demand)]).Sublist
      (before ++ last ++ (grant, demand) :: rest) := by
    rw [List.append_assoc]
    refine List.Sublist.trans ?_ (List.sublist_append_right before _)
    exact List.Sublist.append_left ((List.nil_sublist rest).cons_cons (grant, demand)) last
  have alone := halves _ ((List.sublist_append_right last _).trans part)
  have together := halves _ part
  have served : last.length ≤ (last.map Prod.snd).sum := by
    rw [← List.length_map (f := Prod.snd)]
    refine List.length_le_sum_of_one_le _ ?_
    intro demanded member
    obtain ⟨entry, entryMem, rfl⟩ := List.mem_map.mp member
    exact demands entry (List.mem_append_left _ (List.mem_append_right _ entryMem))
  rw [carried_zero, largest, surplus]
  simp only [List.map_append, List.sum_append, List.map_cons, List.sum_cons, List.map_nil,
    List.sum_nil, List.length_append, List.length_singleton] at alone together
  omega

/-- Where no grant exceeds its demand, nothing is left over. -/
theorem largestSurplus_of_short (short : ∀ entry ∈ entries, entry.1 ≤ entry.2) :
    largestSurplus entries = 0 := by
  induction entries with
  | nil => rfl
  | cons entry rest ih =>
      have totals : ((entry :: rest).map Prod.fst).sum ≤ ((entry :: rest).map Prod.snd).sum :=
        List.sum_le_sum short
      rw [List.forall_mem_cons] at short
      rw [largestSurplus, ih short.2, surplus]
      omega

end Boros.Data
