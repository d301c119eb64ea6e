import Mathlib.Logic.Relation

/-!
# Redoing an interrupted effect

An effect changes the values of a finite map, each on its own, and may be interrupted
when only some of them are written. `Partly` says that a map is such a state. If the
effect is idempotent, `Partly.redo` says that redoing it on what an interruption left
gives what one uninterrupted execution gives, and `Partly.of_attempts` that any number
of interruptions leaves such a state.
-/

namespace Boros.Semantics

universe u v w

variable {Key : Type u} {Value : Type v} {State : Type w} {effect : Value → Value}
  {start middle final : Key → Option Value}

/-- An effect which changes nothing when it is repeated. -/
def Idempotent (effect : Value → Value) : Prop := ∀ value, effect (effect value) = effect value

/-- Each value is as it was, or as the effect makes it. -/
def Partly (effect : Value → Value) (start middle : Key → Option Value) : Prop :=
  ∀ key, middle key = start key ∨ middle key = (start key).map effect

theorem Partly.refl (effect : Value → Value) (start : Key → Option Value) :
    Partly effect start start :=
  fun _ => .inl rfl

/-- A completed effect is one which was carried out on every value. -/
theorem Partly.of_complete (complete : ∀ key, final key = (start key).map effect) :
    Partly effect start final :=
  fun key => .inr (complete key)

/-- Redoing an interrupted effect completes it. -/
theorem Partly.redo (idempotent : Idempotent effect) (partly : Partly effect start middle)
    (key : Key) : (middle key).map effect = (start key).map effect := by
  rcases partly key with same | written
  · rw [same]
  · rw [written, Option.map_map]
    congr 1
    exact funext idempotent

theorem Partly.trans (idempotent : Idempotent effect) (first : Partly effect start middle)
    (second : Partly effect middle final) : Partly effect start final := by
  intro key
  rcases second key with same | written
  · rw [same]
    exact first key
  · rw [written]
    exact .inr (first.redo idempotent key)

/-- What holds of every value and is kept by the effect holds of every value when the effect was
interrupted. -/
theorem Partly.forall {Good : Value → Prop} (partly : Partly effect start middle)
    (good : ∀ key value, start key = some value → Good value)
    (kept : ∀ value, Good value → Good (effect value)) :
    ∀ key value, middle key = some value → Good value := by
  intro key value found
  rcases partly key with same | written
  · rw [same] at found
    exact good key value found
  · rw [written] at found
    obtain ⟨old, before, rfl⟩ := Option.map_eq_some_iff.mp found
    exact kept old (good key old before)

/-- If one attempt interrupts the effect or completes it, as long as the values are good, then so
does any number of attempts. -/
theorem Partly.of_attempts {Good : Value → Prop} {attempt : State → State → Prop}
    {entries : State → Key → Option Value} (idempotent : Idempotent effect)
    (kept : ∀ value, Good value → Good (effect value))
    (each : ∀ before after, (∀ key value, entries before key = some value → Good value) →
      attempt before after → Partly effect (entries before) (entries after))
    {before after : State} (good : ∀ key value, entries before key = some value → Good value)
    (attempts : Relation.ReflTransGen attempt before after) :
    Partly effect (entries before) (entries after) := by
  induction attempts with
  | refl => exact .refl _ _
  | tail _ last ih => exact ih.trans idempotent (each _ _ (ih.forall good kept) last)

end Boros.Semantics
