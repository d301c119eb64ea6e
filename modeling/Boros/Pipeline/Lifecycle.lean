import Boros.Pipeline.System

/-!
# The lifecycle of a record

Each stage writes back records which it read some steps earlier. `Sound` says
that what a worker holds still agrees with the store: the transactions of a unit
which ingest has not handled are pending, and the records which the monitor is
about to write have the status they were found with. Every step keeps this, with
one exception: gasket may run a unit again some of whose records moved on in the
meantime. `lawful_of_unitPending` excludes just that, and then every change of
status is one of `Moves`.
-/

namespace Boros.Pipeline

open Boros.Data Boros.Semantics Boros.Storage Boros.Ledger

/-- The changes of status which the stages are meant to make. -/
inductive Moves : TransactionStatus → TransactionStatus → Prop where
  | broadcast : Moves .pending .inFlight
  | reject : Moves .pending .failed
  | confirm : Moves .inFlight .confirmed
  | retry : Moves .inFlight .pending
  | rollback : Moves .confirmed .inFlight

/-- A batch which moves records of one status moves no others. -/
theorem moves_of_updateBatch {db : Db} {txs : List Transaction} {source : TransactionStatus}
    (distinct : (txs.map Transaction.id).Nodup)
    (stored : ∀ tx ∈ txs, db.HasStatus tx.id source)
    (legal : ∀ tx ∈ txs, tx.status = source ∨ Moves source tx.status) {id : String}
    {status : TransactionStatus} (before : db.HasStatus id status) :
    ∃ after, (db.updateBatch txs).HasStatus id after ∧
      (after = status ∨ status = source ∧ Moves status after) := by
  by_cases named : id ∈ txs.map Transaction.id
  · obtain ⟨tx, member, rfl⟩ := List.mem_map.mp named
    have same := (stored tx member).unique before
    subst same
    obtain ⟨row, found, _⟩ := before
    have written := Db.hasStatus_updateBatch_of_mem distinct member ⟨row, found⟩
    rcases legal tx member with kept | moved
    · exact ⟨_, written, .inl kept⟩
    · exact ⟨_, written, .inr ⟨rfl, moved⟩⟩
  · exact ⟨status, (Db.hasStatus_updateBatch_of_notMem named).mpr before, .inl rfl⟩

/-! ## Ingest -/

namespace Ingest

/-- What the ingest worker holds agrees with the store. -/
def Worker.Sound (db : Db) : Worker → Prop
  | .selecting limits => (limits.map Prod.fst).Nodup
  | .awaiting unit tx rest await =>
    (unit.map Transaction.id).Nodup ∧ ((tx :: rest).map Transaction.id).Nodup ∧
      (∀ other ∈ tx :: rest, db.HasStatus other.id .pending) ∧
      (await = .update → tx.status = .failed ∨ tx.status = .inFlight)
  | .retrying unit => (unit.map Transaction.id).Nodup
  | _ => True

variable {db next : Db} {unit rest : List Transaction} {tx : Transaction}

/-- A worker stays sound while pending records stay pending. -/
theorem Worker.Sound.mono {worker : Worker} (sound : worker.Sound db)
    (keeps : ∀ id, db.HasStatus id .pending → next.HasStatus id .pending) :
    worker.Sound next := by
  cases worker with
  | awaiting unit tx rest await =>
      obtain ⟨unitDistinct, distinct, pending, verdict⟩ := sound
      exact ⟨unitDistinct, distinct, fun other member => keeps _ (pending other member), verdict⟩
  | _ => exact sound

/-- Going on with pending transactions is sound. -/
theorem proceed_sound (unitDistinct : (unit.map Transaction.id).Nodup)
    (distinct : (rest.map Transaction.id).Nodup)
    (pending : ∀ other ∈ rest, db.HasStatus other.id .pending) :
    (proceed unit rest).Sound db := by
  cases rest with
  | nil => trivial
  | cons head tail => exact ⟨unitDistinct, distinct, pending, by simp⟩

/-- The transaction in hand is replaced by one of the same id. -/
theorem Worker.Sound.replace {await nextAwait : Await} {result : Transaction}
    (sound : (Worker.awaiting unit tx rest await).Sound db) (sameId : result.id = tx.id)
    (verdict : nextAwait = .update → result.status = .failed ∨ result.status = .inFlight) :
    (Worker.awaiting unit result rest nextAwait).Sound db := by
  obtain ⟨unitDistinct, distinct, pending, _⟩ := sound
  refine ⟨unitDistinct, by simpa [sameId] using distinct, ?_, verdict⟩
  intro other member
  rcases List.mem_cons.mp member with rfl | restMem
  · rw [sameId]
    exact pending tx List.mem_cons_self
  · exact pending other (List.mem_cons_of_mem _ restMem)

/-- The transaction in hand is done with, and its record may have changed. -/
theorem Worker.Sound.advance {await : Await}
    (sound : (Worker.awaiting unit tx rest await).Sound db)
    (keeps : ∀ id, id ≠ tx.id → db.HasStatus id .pending → next.HasStatus id .pending) :
    (proceed unit rest).Sound next := by
  obtain ⟨unitDistinct, distinct, pending, _⟩ := sound
  rw [List.map_cons, List.nodup_cons] at distinct
  refine proceed_sound unitDistinct distinct.2 fun other member => ?_
  refine keeps other.id ?_ (pending other (List.mem_cons_of_mem _ member))
  intro same
  exact distinct.1 (same ▸ List.mem_map_of_mem member)

/-- What one step of ingest does to the store: nothing, or one update of a pending
record to failed or in flight. -/
def Changes (state : State) (label : Label pallas) (next : Db) : Prop :=
  next = state.db ∨ ∃ unit tx rest, label = .update ∧
    state.worker = .awaiting unit tx rest .update ∧ next = state.db.update tx ∧
    state.db.HasStatus tx.id .pending ∧ (tx.status = .failed ∨ tx.status = .inFlight)

/-- A unit is run again only while all of its records are pending. -/
def UnitPending (db : Db) : Worker → Label pallas → Prop
  | .retrying unit, .rerun => ∀ tx ∈ unit, db.HasStatus tx.id .pending
  | _, _ => True

/-- Scheduling a fresh batch is sound. -/
theorem schedule_sound (profile : Profile) (stage : Stage)
    (quotaOrder : Queue.Priority.HashOrder (String × UInt16)) (db : Db) (queuedLen : Nat) :
    (schedule profile stage quotaOrder db queuedLen).Sound db := by
  rcases schedule_cases profile stage quotaOrder db queuedLen with
    same | ⟨fault, same⟩ | ⟨currentCap, limits, computed, same⟩ <;> rw [same]
  · trivial
  · trivial
  · exact Queue.Priority.limits_distinct computed

theorem afterSelect_sound {limits : List (String × UInt16)}
    {limitOrder : Queue.Priority.HashOrder (String × UInt16)}
    (sound : (Worker.selecting limits).Sound db) :
    (afterSelect (db.next .pending (limitOrder.order limits))).Sound db := by
  cases selected : db.next .pending (limitOrder.order limits) with
  | error cause => trivial
  | ok transactions =>
      have queues : ((limitOrder.order limits).map Prod.fst).Nodup :=
        ((limitOrder.perm limits).map _).nodup_iff.mpr sound
      have distinct := Db.next_distinct selected queues
      exact proceed_sound distinct distinct fun other member => Db.next_hasStatus selected member

theorem afterExamine_sound {stage : Stage} {replies : Replies pallas}
    (sound : (Worker.awaiting unit tx rest .examine).Sound db) :
    (afterExamine unit rest (examine stage replies tx)).Sound db := by
  rcases afterExamine_examine unit rest with
    ⟨raw, same⟩ | ⟨raw, same⟩ | same | ⟨cause, same⟩ | ⟨fault, same⟩ <;> rw [same]
  · exact sound.replace rfl (by simp)
  · exact sound.replace rfl fun _ => .inl rfl
  · exact sound.1
  · trivial
  · trivial

/-- One step of ingest: what it holds stays sound, and it writes at most the
pending record in hand. -/
theorem Step.sound {profile : Profile} {stage : Stage} {state after : State}
    {label : Label pallas} (step : Step profile stage state label after)
    (sound : state.worker.Sound state.db) (fresh : UnitPending state.db state.worker label) :
    after.worker.Sound after.db ∧ Changes state label after.db := by
  cases step with
  | schedule queuedLen quotaOrder scheduled =>
      subst scheduled
      exact ⟨schedule_sound _ _ _ _ _, .inl rfl⟩
  | select limitOrder selected =>
      subst selected
      exact ⟨afterSelect_sound sound, .inl rfl⟩
  | selectFail => exact ⟨trivial, .inl rfl⟩
  | examine replies examined =>
      subst examined
      exact ⟨afterExamine_sound sound, .inl rfl⟩
  | send => exact ⟨sound.replace rfl (by simp), .inl rfl⟩
  | sendFail => exact ⟨sound.advance fun _ _ pending => pending, .inl rfl⟩
  | fetchTip tip => exact ⟨sound.replace rfl fun _ => .inr rfl, .inl rfl⟩
  | fetchTipFail => exact ⟨sound.1, .inl rfl⟩
  | update =>
      refine ⟨sound.advance fun id apart pending => ?_, .inr ⟨_, _, _, rfl, rfl, rfl, ?_, ?_⟩⟩
      · exact (Db.hasStatus_update_of_ne apart).mpr pending
      · exact sound.2.2.1 _ List.mem_cons_self
      · exact sound.2.2.2 rfl
  | updateFail => exact ⟨sound.1, .inl rfl⟩
  | rerun => exact ⟨proceed_sound sound sound fresh, .inl rfl⟩
  | restart => exact ⟨trivial, .inl rfl⟩

/-- The records which one step of ingest moves were pending. -/
theorem Changes.moves {state : State} {label : Label pallas} (changes : Changes state label next)
    {id : String} {status : TransactionStatus} (before : state.db.HasStatus id status) :
    ∃ after, next.HasStatus id after ∧
      (after = status ∨ status = .pending ∧ Moves status after) := by
  rcases changes with rfl | ⟨unit, tx, rest, _, _, rfl, pending, verdict⟩
  · exact ⟨status, before, .inl rfl⟩
  · by_cases same : id = tx.id
    · subst same
      obtain rfl := before.unique pending
      obtain ⟨row, found, _⟩ := before
      refine ⟨tx.status, Db.hasStatus_update_self ⟨row, found⟩, .inr ⟨rfl, ?_⟩⟩
      rcases verdict with failed | inFlight
      · rw [failed]
        exact .reject
      · rw [inFlight]
        exact .broadcast
    · exact ⟨status, (Db.hasStatus_update_of_ne same).mpr before, .inl rfl⟩

/-- Records which are not pending keep their status. -/
theorem Changes.keeps {state : State} {label : Label pallas} {id : String}
    {status : TransactionStatus} (changes : Changes state label next) (moved : status ≠ .pending)
    (before : state.db.HasStatus id status) : next.HasStatus id status := by
  obtain ⟨after, stays, rfl | ⟨pending, _⟩⟩ := changes.moves before
  · exact stays
  · exact absurd pending moved

end Ingest

/-! ## Monitor -/

namespace Monitor

/-- What the monitor worker holds agrees with the store. -/
def Worker.Sound (db : Db) : Worker → Prop
  | .awaiting _ (.updateConfirm txsInflight confirm) =>
    (txsInflight.map Transaction.id).Nodup ∧
      (∀ itx ∈ txsInflight, db.HasStatus itx.id .inFlight) ∧
      (confirm.map Transaction.id).Sublist (txsInflight.map Transaction.id) ∧
      ∀ tx ∈ confirm, tx.status = .confirmed
  | .awaiting _ (.updateRetry retry) =>
    (retry.map Transaction.id).Nodup ∧ (∀ tx ∈ retry, db.HasStatus tx.id .inFlight) ∧
      ∀ tx ∈ retry, tx.status = .pending
  | .awaiting event (.updateRollback txs) =>
    (∃ point, event = .rollback point) ∧ (txs.map Transaction.id).Nodup ∧
      (∀ tx ∈ txs, db.HasStatus tx.id .confirmed) ∧
      ∀ tx ∈ txs, tx.status = .confirmed ∨ tx.status = .inFlight
  | _ => True

variable {db next : Db} {profile : Profile} {config : Config} {event : Event}
  {txsInflight confirm : List Transaction}

/-- A worker stays sound while in-flight and confirmed records stay so. -/
theorem Worker.Sound.mono {worker : Worker} (sound : worker.Sound db)
    (keepsInFlight : ∀ id, db.HasStatus id .inFlight → next.HasStatus id .inFlight)
    (keepsConfirmed : ∀ id, db.HasStatus id .confirmed → next.HasStatus id .confirmed) :
    worker.Sound next := by
  cases worker with
  | awaiting event await =>
      cases await with
      | updateConfirm txsInflight confirm =>
          obtain ⟨distinct, inFlight, part, status⟩ := sound
          exact ⟨distinct, fun itx member => keepsInFlight _ (inFlight itx member), part, status⟩
      | updateRetry retry =>
          obtain ⟨distinct, inFlight, status⟩ := sound
          exact ⟨distinct, fun tx member => keepsInFlight _ (inFlight tx member), status⟩
      | updateRollback txs =>
          obtain ⟨rollback, distinct, confirmed, status⟩ := sound
          exact ⟨rollback, distinct,
            fun tx member => keepsConfirmed _ (confirmed tx member), status⟩
      | _ => trivial
  | _ => trivial

/-- The records to retry are in flight, as long as those found and not confirmed
still are. -/
theorem afterConfirm_sound (distinct : (txsInflight.map Transaction.id).Nodup)
    (inFlight : ∀ itx ∈ txsInflight, itx.id ∉ confirm.map Transaction.id →
      db.HasStatus itx.id .inFlight) :
    (afterConfirm profile config event txsInflight confirm).Sound db := by
  unfold afterConfirm
  split
  · trivial
  · trivial
  · rename_i retry nonempty retried
    refine ⟨distinct.sublist (txsRetry_ids_sublist retried), ?_, ?_⟩
    · intro tx member
      have apart := notMem_txsConfirm_of_mem_txsRetry retried member
      obtain ⟨itx, itxMem, _, rfl⟩ := (mem_txsRetry_iff retried).mp member
      exact inFlight itx itxMem apart
    · intro tx member
      obtain ⟨itx, _, _, rfl⟩ := (mem_txsRetry_iff retried).mp member
      rfl

theorem afterFind_sound {txs : List Tx} (query : db.find .inFlight = .ok txsInflight) :
    (afterFind profile config event txs txsInflight).Sound db := by
  have distinct := (Db.find_selected query).distinct
  have inFlight : ∀ itx ∈ txsInflight, db.HasStatus itx.id .inFlight := by
    intro itx member
    obtain ⟨row, found, status, _⟩ := Db.find_sound query member
    exact ⟨row, found, status⟩
  unfold afterFind
  split
  · exact afterConfirm_sound distinct fun itx member _ => inFlight itx member
  · rename_i nonempty
    refine ⟨distinct, inFlight, txsConfirm_ids_sublist _ _ _, ?_⟩
    intro tx member
    obtain ⟨itx, _, _, rfl⟩ := mem_txsConfirm_iff.mp member
    rfl

theorem afterFindToRollback_sound {point : Point} {found : List Transaction}
    (query : db.findToRollback point.1 = .ok found) :
    (afterFindToRollback (.rollback point) found).Sound db := by
  have selection := Db.findToRollback_selected query
  unfold afterFindToRollback
  split
  · trivial
  · rename_i txs mapped
    refine ⟨⟨point, rfl⟩, by rw [rollbackTx_ids mapped]; exact selection.distinct, ?_, ?_⟩
    · intro tx member
      obtain ⟨old, oldMem, produced⟩ := mem_rollback mapped member
      obtain ⟨row, stored, selected, _⟩ := selection.sound old oldMem
      simp only [Bool.and_eq_true, decide_eq_true_eq] at selected
      rw [rollbackTx_id produced]
      exact ⟨row, stored, selected.1⟩
    · intro tx member
      obtain ⟨old, oldMem, produced⟩ := mem_rollback mapped member
      obtain ⟨row, _, selected, decoded⟩ := selection.sound old oldMem
      simp only [Bool.and_eq_true, decide_eq_true_eq] at selected
      obtain ⟨confirmedAt, _, rfl⟩ := rollbackTx_ok_iff.mp produced
      split
      · exact .inr rfl
      · exact .inl ((TxRow.fromRow_ok decoded).2.2.1.trans selected.1)

/-- The worker is about to write back a rollback. -/
def Worker.writesRollback : Worker → Prop
  | .awaiting (.rollback _) (.updateRollback _) => True
  | _ => False

theorem Worker.writesRollback.inHand {worker : Worker} (writes : worker.writesRollback) :
    ∃ point, worker.inHand = some (.rollback point) := by
  unfold Worker.writesRollback at writes
  split at writes
  · exact ⟨_, rfl⟩
  · exact writes.elim

/-- What one step of the monitor does to the statuses: it moves no pending or
failed record, and a confirmed one only by writing back a rollback. -/
def Changes (db : Db) (worker : Worker) (label : Label) (next : Db) : Prop :=
  ∀ id status, db.HasStatus id status → ∃ after, next.HasStatus id after ∧
    (after = status ∨ Moves status after ∧ (status = .inFlight ∨
      status = .confirmed ∧ label = .resume ∧ worker.writesRollback))

theorem Changes.refl (worker : Worker) (label : Label) : Changes db worker label db :=
  fun _ status before => ⟨status, before, .inl rfl⟩

/-- Making the storage call in hand keeps the monitor sound, and moves only the
records that it holds. -/
theorem resume_sound {await : Await} {after : Worker}
    (resumed : resume profile config event db await = (next, after))
    (sound : (Worker.awaiting event await).Sound db) :
    after.Sound next ∧ Changes db (.awaiting event await) .resume next := by
  cases await with
  | find =>
      obtain ⟨rfl, found⟩ := resume_find resumed
      refine ⟨?_, .refl _ _⟩
      rcases found with rfl | ⟨point, txs, txsInflight, rfl, query, rfl⟩ |
        ⟨slot, hash, found, rfl, query, rfl⟩
      · trivial
      · exact afterFind_sound query
      · exact afterFindToRollback_sound query
  | updateConfirm txsInflight confirm =>
      cases resumed
      obtain ⟨distinct, inFlight, part, status⟩ := sound
      constructor
      · refine afterConfirm_sound distinct fun itx member apart => ?_
        exact (Db.hasStatus_updateBatch_of_notMem apart).mpr (inFlight itx member)
      · have stored : ∀ tx ∈ confirm, db.HasStatus tx.id .inFlight := by
          intro tx member
          obtain ⟨itx, itxMem, sameId⟩ :=
            List.mem_map.mp (part.subset (List.mem_map_of_mem member))
          rw [← sameId]
          exact inFlight itx itxMem
        have legal : ∀ tx ∈ confirm, tx.status = .inFlight ∨ Moves .inFlight tx.status := by
          intro tx member
          rw [status tx member]
          exact .inr .confirm
        intro id before holds
        obtain ⟨after, stays, moved⟩ :=
          moves_of_updateBatch (distinct.sublist part) stored legal holds
        exact ⟨after, stays, moved.imp_right fun moved => ⟨moved.2, .inl moved.1⟩⟩
  | updateRetry retry =>
      cases resumed
      obtain ⟨distinct, inFlight, status⟩ := sound
      refine ⟨trivial, fun id before holds => ?_⟩
      have legal : ∀ tx ∈ retry, tx.status = .inFlight ∨ Moves .inFlight tx.status := by
        intro tx member
        rw [status tx member]
        exact .inr .retry
      obtain ⟨after, stays, moved⟩ := moves_of_updateBatch distinct inFlight legal holds
      exact ⟨after, stays, moved.imp_right fun moved => ⟨moved.2, .inl moved.1⟩⟩
  | updateRollback txs =>
      cases resumed
      obtain ⟨⟨point, rfl⟩, distinct, confirmed, status⟩ := sound
      refine ⟨trivial, fun id before holds => ?_⟩
      have legal : ∀ tx ∈ txs, tx.status = .confirmed ∨ Moves .confirmed tx.status := by
        intro tx member
        refine (status tx member).imp_right fun inFlight => ?_
        rw [inFlight]
        exact .rollback
      obtain ⟨after, stays, moved⟩ := moves_of_updateBatch distinct confirmed legal holds
      exact ⟨after, stays, moved.imp_right fun moved => ⟨moved.2, .inr ⟨moved.1, rfl, trivial⟩⟩⟩
  | setCursor =>
      cases resumed
      exact ⟨trivial, fun id status before => ⟨status, before, .inl rfl⟩⟩

/-- One step of the monitor: what it holds stays sound, and it moves only the
records that it holds. -/
theorem Step.sound {worker after : Worker} {label : Label}
    (step : Step profile config (db, worker) label (next, after)) (sound : worker.Sound db) :
    after.Sound next ∧ Changes db worker label next := by
  cases step with
  | resume resumed => exact resume_sound resumed sound
  | receive event => exact ⟨trivial, .refl _ _⟩
  | fail => exact ⟨trivial, .refl _ _⟩
  | rerun => exact ⟨trivial, .refl _ _⟩

/-- Pending records stay pending. -/
theorem Changes.keepsPending {worker : Worker} {label : Label}
    (changes : Changes db worker label next) {id : String} (pending : db.HasStatus id .pending) :
    next.HasStatus id .pending := by
  obtain ⟨after, stays, rfl | ⟨_, inFlight | ⟨confirmed, _⟩⟩⟩ := changes id _ pending
  · exact stays
  · cases inFlight
  · cases confirmed

end Monitor

/-! ## The pipeline -/

/-- What both workers hold agrees with the store. -/
structure State.Sound (state : State) : Prop where
  ingest : state.ingest.Sound state.db
  monitor : state.monitor.Sound state.db

/-- A unit is run again only while all of its records are pending. -/
def UnitPending (state : State) : Label pallas → Prop
  | .ingest label => Ingest.UnitPending state.db state.ingest label
  | _ => True

/-- A transition changes statuses only by `Moves`; a confirmed record is moved
only by the monitor writing back a rollback, and ingest writes only records that
are pending. -/
structure Lawful (transition : Transition State (Label pallas)) : Prop where
  moves : ∀ id status, transition.before.db.HasStatus id status →
    ∃ after, transition.after.db.HasStatus id after ∧ (after = status ∨ Moves status after)
  confirmed : ∀ id, transition.before.db.HasStatus id .confirmed →
    ¬ transition.after.db.HasStatus id .confirmed →
      transition.label = .monitor .resume ∧ transition.before.monitor.writesRollback
  ingest : ∀ unit tx rest, transition.label = .ingest .update →
    transition.before.ingest = .awaiting unit tx rest .update →
      transition.before.db.HasStatus tx.id .pending

variable {setup : Setup} {state next final : State} {label : Label pallas}
  {trace : List (Transition State (Label pallas))}

/-- Every step of a sound state in which a unit is run again only while pending
is lawful and leads to a sound state. -/
theorem Step.sound (step : Step setup state label next) (sound : state.Sound)
    (fresh : UnitPending state label) : next.Sound ∧ Lawful ⟨state, label, next⟩ := by
  obtain ⟨ingestSound, monitorSound⟩ := sound
  cases step with
  | create accepted created =>
      have keeps := Db.create_ok created
      refine ⟨⟨ingestSound.mono fun _ => keeps.hasStatus,
        monitorSound.mono (fun _ => keeps.hasStatus) fun _ => keeps.hasStatus⟩, ?_, ?_, ?_⟩
      · exact fun id status before => ⟨status, keeps.hasStatus before, .inl rfl⟩
      · exact fun id before gone => absurd (keeps.hasStatus before) gone
      · intro _ _ _ impossible
        cases impossible
  | ingest step =>
      obtain ⟨sound, changes⟩ := step.sound ingestSound fresh
      refine ⟨⟨sound, monitorSound.mono (fun _ => changes.keeps (by simp))
        fun _ => changes.keeps (by simp)⟩, ?_, ?_, ?_⟩
      · intro id status before
        obtain ⟨after, stays, moved⟩ := changes.moves before
        exact ⟨after, stays, moved.imp_right And.right⟩
      · exact fun id before gone => absurd (changes.keeps (by simp) before) gone
      · intro unit tx rest update inHand
        cases update
        cases inHand
        exact ingestSound.2.2.1 tx List.mem_cons_self
  | monitor step =>
      obtain ⟨sound, changes⟩ := step.sound monitorSound
      refine ⟨⟨ingestSound.mono fun _ => changes.keepsPending, sound⟩, ?_, ?_, ?_⟩
      · intro id status before
        obtain ⟨after, stays, moved⟩ := changes id status before
        exact ⟨after, stays, moved.imp_right And.left⟩
      · intro id before gone
        obtain ⟨after, stays, rfl | ⟨_, inFlight | ⟨_, resumed, writes⟩⟩⟩ := changes id _ before
        · exact absurd stays gone
        · cases inFlight
        · exact ⟨congrArg Label.monitor resumed, writes⟩
      · intro _ _ _ impossible
        cases impossible

/-- In every run in which gasket runs a unit again only while all of its records
are pending, every transition is lawful. -/
theorem lawful_of_unitPending {db : Db}
    (run : Run (Step setup) (State.initial db) trace final) (fresh : Guarded UnitPending trace) :
    ∀ transition ∈ trace, Lawful transition := by
  have preserved : Preserved (@Step pallas setup) UnitPending State.Sound :=
    fun _ _ _ sound allowed step => (step.sound sound allowed).1
  intro transition member
  have initial : (State.initial db).Sound := ⟨trivial, trivial⟩
  have sound := (run.invariant_of_mem preserved initial fresh member).1
  exact ((run.step_of_mem member).sound sound (fresh transition member)).2

/-! A unit of two records: the first one is broadcast, stored in flight and
confirmed; the call for the tip fails for the second one. -/

theorem sampleUnit_pending : ∀ tx ∈ sampleUnit, sampleDb.HasStatus tx.id .pending := by
  intro tx member
  rcases List.mem_cons.mp member with rfl | member
  · exact ⟨_, rfl, rfl⟩
  · rw [List.mem_singleton.mp member]
    exact ⟨_, rfl, rfl⟩

/-- The unit is run again before anything was stored. -/
theorem lawful_of_unitPending_rerun :
    ∃ (trace : List (Transition State (Label samplePallas))) (final : State),
      Run (Step sampleSetup) (State.initial sampleDb) trace final ∧
        (∀ transition ∈ trace, Lawful transition) ∧
        final.db.HasStatus (sampleTx 1 1).id .confirmed := by
  obtain ⟨final, ⟨trace, run, fresh⟩, confirmed⟩ : ∃ final,
      Reaches (@Step samplePallas sampleSetup) UnitPending (State.initial sampleDb) final ∧
        final.db.HasStatus (sampleTx 1 1).id .confirmed :=
    ⟨_, .cons sample_schedule trivial <| .cons sample_select trivial <|
      .cons (.ingest (.examine sampleReplies rfl)) trivial <| .cons (.ingest .send) trivial <|
      .cons (.ingest .fetchTipFail) trivial <| .cons (.ingest .rerun) sampleUnit_pending <|
      .cons (.ingest (.examine sampleReplies rfl)) trivial <| .cons (.ingest .send) trivial <|
      .cons (.ingest (.fetchTip sampleTip)) trivial <| .cons (.ingest .update) trivial <|
      .cons (.monitor (.receive (sampleBlock 110 1))) trivial <|
      .cons (.monitor (.resume rfl)) trivial <| .cons (.monitor (.resume rfl)) trivial <|
      .refl _ _, ⟨_, rfl, rfl⟩⟩
  exact ⟨trace, final, run, lawful_of_unitPending run fresh, confirmed⟩

/-- The unit is run again after its first record was stored and confirmed. -/
theorem not_lawful_of_rerun : ∃ trace before after,
    Run (Step sampleSetup) (State.initial sampleDb)
        (trace ++ [⟨before, .ingest (.update : Ingest.Label samplePallas), after⟩]) after ∧
      before.db.HasStatus (sampleTx 1 1).id .confirmed ∧
      after.db.HasStatus (sampleTx 1 1).id .inFlight ∧
      ¬ Lawful (⟨before, .ingest .update, after⟩ : Transition State (Label samplePallas)) := by
  refine ⟨_, _, _, Run.snoc
    (.cons sample_schedule <| .cons sample_select <|
      .cons (.ingest (.examine sampleReplies rfl)) <| .cons (.ingest .send) <|
      .cons (.ingest (.fetchTip sampleTip)) <| .cons (.ingest .update) <|
      .cons (.ingest (.examine sampleReplies rfl)) <| .cons (.ingest .send) <|
      .cons (.ingest .fetchTipFail) <|
      .cons (.monitor (.receive (sampleBlock 110 1))) <| .cons (.monitor (.resume rfl)) <|
      .cons (.monitor (.resume rfl)) <| .cons (.monitor (.resume rfl)) <|
      .cons (.ingest .rerun) <| .cons (.ingest (.examine sampleReplies rfl)) <|
      .cons (.ingest .send) <| .cons (.ingest (.fetchTip sampleTip)) .nil)
    (.ingest .update), ⟨_, rfl, rfl⟩, ⟨_, rfl, rfl⟩, ?_⟩
  intro lawful
  obtain ⟨row, found, status⟩ := lawful.ingest _ _ _ rfl rfl
  cases found
  cases status

end Boros.Pipeline
