import Boros.Pipeline.Ingest

/-!
# What ingest has in hand

The transactions which the ingest worker has still to deal with. They are of the unit which it
took, each of them once, and a record is stored for none of them as pending again.
-/

namespace Boros.Pipeline.Ingest

open Boros.Data Boros.Semantics Boros.Storage Boros.Ledger Boros.Queue

variable {pallas : Pallas} {profile : Profile} {stage : Stage} {state next : State}
  {label : Label pallas} {unit rest : List Transaction} {tx : Transaction}

/-- The transactions which the worker has still to deal with. -/
def Worker.inHand : Worker → List Transaction
  | .awaiting _ tx rest _ => tx :: rest
  | .retrying unit => unit
  | .schedule | .selecting _ | .stopped _ | .panicked _ => []

/-- Their ids. -/
def Worker.taken (worker : Worker) : List String := worker.inHand.map Transaction.id

@[simp]
theorem taken_proceed : (proceed unit rest).taken = rest.map Transaction.id := by
  cases rest <;> rfl

/-- What is in hand is of the unit, and is not stored as pending again. -/
def Worker.Holds : Worker → Prop
  | .awaiting unit tx rest await =>
    (tx :: rest).map Transaction.id ⊆ unit.map Transaction.id ∧
      (await = .update → tx.status ≠ .pending)
  | _ => True

/-- What is in hand is there once. -/
def Worker.Distinct : Worker → Prop
  | .selecting limits => (limits.map Prod.fst).Nodup
  | .awaiting unit tx rest _ =>
    (unit.map Transaction.id).Nodup ∧ ((tx :: rest).map Transaction.id).Nodup
  | .retrying unit => (unit.map Transaction.id).Nodup
  | _ => True

/-! ## A fresh unit -/

/-- The transactions of the unit come to the worker's hand. -/
theorem holds_proceed (sub : rest.map Transaction.id ⊆ unit.map Transaction.id) :
    (proceed unit rest).Holds := by
  cases rest with
  | nil => trivial
  | cons tx rest => exact ⟨sub, by simp⟩

theorem distinct_proceed (whole : (unit.map Transaction.id).Nodup)
    (distinct : (rest.map Transaction.id).Nodup) : (proceed unit rest).Distinct := by
  cases rest with
  | nil => trivial
  | cons tx rest => exact ⟨whole, distinct⟩

/-- `schedule` has nothing in hand but limits, each for a queue of its own. -/
theorem schedule_holds (profile : Profile) (stage : Stage)
    (quotaOrder : Priority.HashOrder (String × UInt16)) (db : Db) (queuedLen : Nat) :
    (schedule profile stage quotaOrder db queuedLen).Holds ∧
      (schedule profile stage quotaOrder db queuedLen).Distinct ∧
      (schedule profile stage quotaOrder db queuedLen).taken = [] := by
  rcases schedule_cases profile stage quotaOrder db queuedLen with
    idle | ⟨fault, panicked⟩ | ⟨free, limits, computed, selecting⟩
  · rw [idle]
    exact ⟨trivial, trivial, rfl⟩
  · rw [panicked]
    exact ⟨trivial, trivial, rfl⟩
  · rw [selecting]
    exact ⟨trivial, Priority.limits_distinct computed, rfl⟩

/-! ## One step -/

/-- A step keeps to the unit. -/
theorem Step.holds (step : Step profile stage state label next) (holds : state.worker.Holds) :
    next.worker.Holds := by
  cases step with
  | schedule queuedLen quotaOrder scheduled =>
      subst scheduled
      exact (schedule_holds _ _ _ _ _).1
  | select limitOrder selected =>
      subst selected
      unfold afterSelect
      split
      · exact holds_proceed (List.Subset.refl _)
      · trivial
  | @examine db sent unit tx rest worker replies examined =>
      subst examined
      rcases @afterExamine_examine _ stage replies tx unit rest with
        ⟨raw, same⟩ | ⟨raw, same⟩ | same | ⟨cause, same⟩ | ⟨fault, same⟩ <;> rw [same]
      · exact ⟨holds.1, by simp⟩
      · exact ⟨holds.1, by simp⟩
      all_goals trivial
  | send => exact ⟨holds.1, by simp⟩
  | sendFail | update =>
      exact holds_proceed fun _ member => holds.1 (List.mem_cons_of_mem _ member)
  | fetchTip tip => exact ⟨holds.1, by simp⟩
  | rerun => exact holds_proceed (List.Subset.refl _)
  | selectFail | fetchTipFail | updateFail | restart => trivial

/-- A step takes nothing into the hand twice. -/
theorem Step.distinct (step : Step profile stage state label next)
    (distinct : state.worker.Distinct) : next.worker.Distinct := by
  cases step with
  | schedule queuedLen quotaOrder scheduled =>
      subst scheduled
      exact (schedule_holds _ _ _ _ _).2.1
  | @select db sent limits worker limitOrder selected =>
      subst selected
      have queues : ((limitOrder.order limits).map Prod.fst).Nodup :=
        ((limitOrder.perm limits).map _).nodup_iff.mpr distinct
      cases found : db.next .pending (limitOrder.order limits) with
      | error cause => trivial
      | ok txs =>
          have once := Db.next_distinct found queues
          exact distinct_proceed once once
  | @examine db sent unit tx rest worker replies examined =>
      subst examined
      rcases @afterExamine_examine _ stage replies tx unit rest with
        ⟨raw, same⟩ | ⟨raw, same⟩ | same | ⟨cause, same⟩ | ⟨fault, same⟩ <;> rw [same]
      · exact distinct
      · exact distinct
      · exact distinct.1
      all_goals trivial
  | send | fetchTip => exact distinct
  | sendFail | update => exact distinct_proceed distinct.1 (List.nodup_cons.mp distinct.2).2
  | fetchTipFail | updateFail => exact distinct.1
  | rerun => exact distinct_proceed distinct distinct
  | selectFail | restart => trivial

end Boros.Pipeline.Ingest
