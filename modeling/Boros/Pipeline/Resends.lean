import Boros.Pipeline.Hand
import Boros.Pipeline.Provenance

/-!
# Broadcasts which are repeated

A transaction is broadcast before it is stored as in flight, so that it may be broadcast again.
`resent_for_reason` says when: the store has it as pending again, its unit is executed again, or
the process stopped between its broadcast and the update.
-/

namespace Boros.Pipeline

open Boros.Data Boros.Semantics Boros.Storage Boros.Ledger

variable {pallas : Pallas} {setup : Setup} {state next final : State}
  {label : Process.Label pallas} {id : String}

/-- The transaction is broadcast in this step. -/
def Sends (id : String) (transition : Transition State (Process.Label pallas)) : Prop :=
  ∃ raw, transition.after.sent = transition.before.sent ++ [(id, raw)]

/-- The transaction was broadcast, and its update is still to come. -/
def Unstored (id : String) (worker : Ingest.Worker) : Prop :=
  ∃ unit tx rest await, worker = .awaiting unit tx rest await ∧ tx.id = id ∧
    (await = .fetchTip ∨ await = .update)

/-- What may let a transaction be broadcast again: it becomes pending, the unit which it is in is
to be executed again, or the process stops before it is stored. -/
def Reason (id : String) (transition : Transition State (Process.Label pallas)) : Prop :=
  ¬ transition.before.db.HasStatus id .pending ∧ transition.after.db.HasStatus id .pending ∨
    (∃ unit, transition.after.ingest = .retrying unit ∧ id ∈ unit.map Transaction.id) ∨
    Unstored id transition.before.ingest ∧ transition.label = .restart

namespace Ingest

/-- The transaction is past its broadcast: its update is still to come, or it is not pending; in
either case it does not come again in the unit. -/
def Worker.Past (id : String) (db : Db) (worker : Worker) : Prop :=
  (∃ unit tx rest await, worker = .awaiting unit tx rest await ∧ tx.id = id ∧
      (await = .fetchTip ∨ await = .update) ∧ id ∉ rest.map Transaction.id) ∨
    ¬ db.HasStatus id .pending ∧ id ∉ worker.taken

variable {profile : Profile} {stage : Stage} {state next : State} {label : Label pallas}

/-- A transaction which is stored with another status is not pending. -/
theorem not_pending_update {db : Db} {tx : Transaction} (settled : tx.status ≠ .pending) :
    ¬ (db.update tx).HasStatus tx.id .pending := by
  rintro ⟨row, found, pending⟩
  rw [Db.row_update, if_pos rfl] at found
  obtain ⟨old, _, rfl⟩ := Option.map_eq_some_iff.mp found
  exact settled pending

/-- A unit which does not have the transaction leaves it past its broadcast; one which has it is
to be executed again. -/
theorem past_retrying {db : Db} {unit : List Transaction} (settled : ¬ db.HasStatus id .pending) :
    (Worker.retrying unit).Past id db ∨
      ∃ again, Worker.retrying unit = .retrying again ∧ id ∈ again.map Transaction.id := by
  by_cases member : id ∈ unit.map Transaction.id
  · exact .inr ⟨unit, rfl, member⟩
  · exact .inl (.inr ⟨settled, member⟩)

/-- A step of ingest leaves a transaction past its broadcast, unless the unit is to be executed
again. -/
theorem Step.past (step : Step profile stage state label next) (holds : state.worker.Holds)
    (past : state.worker.Past id state.db) : next.worker.Past id next.db ∨
      ∃ unit, next.worker = .retrying unit ∧ id ∈ unit.map Transaction.id := by
  rcases past with ⟨unit, tx, rest, await, worker, rfl, later, once⟩ | ⟨settled, untaken⟩
  · cases step with
    | fetchTip tip =>
        cases worker
        exact .inl (.inl ⟨_, _, _, _, rfl, rfl, .inr rfl, once⟩)
    | fetchTipFail | updateFail =>
        cases worker
        exact .inr ⟨_, rfl, holds.1 List.mem_cons_self⟩
    | update =>
        cases worker
        refine .inl (.inr ⟨not_pending_update (holds.2 rfl), ?_⟩)
        rw [taken_proceed]
        exact once
    | examine | send | sendFail =>
        cases worker
        rcases later with later | later <;> cases later
    | schedule | select | selectFail | rerun | restart => cases worker
  · cases step with
    | schedule queuedLen quotaOrder scheduled =>
        subst scheduled
        refine .inl (.inr ⟨settled, ?_⟩)
        rw [(schedule_holds _ _ _ _ _).2.2]
        exact List.not_mem_nil
    | @select db sent limits worker limitOrder selected =>
        subst selected
        refine .inl (.inr ⟨settled, ?_⟩)
        cases batch : db.next .pending (limitOrder.order limits) with
        | error cause => exact List.not_mem_nil
        | ok txs =>
            rw [afterSelect, taken_proceed]
            intro member
            obtain ⟨tx, txMem, rfl⟩ := List.mem_map.mp member
            exact settled (Db.next_hasStatus batch txMem)
    | @examine db sent unit tx rest worker replies examined =>
        subst examined
        rcases @afterExamine_examine _ stage replies tx unit rest with
          ⟨raw, same⟩ | ⟨raw, same⟩ | same | ⟨cause, same⟩ | ⟨fault, same⟩ <;> rw [same]
        · exact .inl (.inr ⟨settled, untaken⟩)
        · exact .inl (.inr ⟨settled, untaken⟩)
        · exact past_retrying settled
        all_goals exact .inl (.inr ⟨settled, List.not_mem_nil⟩)
    | send | fetchTip => exact .inl (.inr ⟨settled, untaken⟩)
    | sendFail =>
        refine .inl (.inr ⟨settled, ?_⟩)
        rw [taken_proceed]
        exact fun member => untaken (List.mem_cons_of_mem _ member)
    | @update db sent unit tx rest =>
        have apart : id ≠ tx.id := by
          rintro rfl
          exact untaken List.mem_cons_self
        refine .inl (.inr ⟨fun pending => ?_, ?_⟩)
        · exact settled ((Db.hasStatus_update_of_ne apart).mp pending)
        · rw [taken_proceed]
          exact fun member => untaken (List.mem_cons_of_mem _ member)
    | fetchTipFail | updateFail => exact past_retrying settled
    | rerun =>
        refine .inl (.inr ⟨settled, ?_⟩)
        rw [taken_proceed]
        exact untaken
    | selectFail | restart => exact .inl (.inr ⟨settled, List.not_mem_nil⟩)

end Ingest

/-! ## The process -/

/-- A transaction which is past its broadcast is not broadcast next. -/
theorem Process.Step.not_sends (step : Process.Step setup state label next)
    (past : state.ingest.Past id state.db) : ¬ Sends id ⟨state, label, next⟩ := by
  rintro ⟨raw, sent⟩
  rcases step.sent_cases with same | ⟨unit, tx, rest, _, inHand, same⟩
  · simp [same] at sent
  · obtain ⟨rfl, rfl⟩ : tx.id = id ∧ tx.raw = raw := by simpa [same] using sent
    rcases past with ⟨_, _, _, await, awaiting, _, later, _⟩ | ⟨_, untaken⟩
    · rw [inHand] at awaiting
      cases awaiting
      rcases later with later | later <;> cases later
    · rw [inHand] at untaken
      exact untaken List.mem_cons_self

/-- After its broadcast a transaction is past it. -/
theorem Process.Step.past_of_sends (step : Process.Step setup state label next)
    (distinct : state.ingest.Distinct) (sends : Sends id ⟨state, label, next⟩) :
    next.ingest.Past id next.db := by
  obtain ⟨raw, sent⟩ := sends
  rcases step.sent_cases with same | ⟨unit, tx, rest, rfl, inHand, same⟩
  · simp [same] at sent
  · obtain ⟨rfl, rfl⟩ : tx.id = id ∧ tx.raw = raw := by simpa [same] using sent
    cases step with
    | stage step =>
        cases step with
        | ingest step =>
            cases step with
            | send =>
                cases inHand
                exact .inl ⟨unit, tx, rest, .fetchTip, rfl, rfl, .inl rfl,
                  (List.nodup_cons.mp distinct.2).1⟩

/-- Without a reason a step leaves a transaction past its broadcast. -/
theorem Process.Step.past (step : Process.Step setup state label next)
    (holds : state.ingest.Holds) (past : state.ingest.Past id state.db) :
    next.ingest.Past id next.db ∨ Reason id ⟨state, label, next⟩ := by
  have stays : next.ingest = state.ingest →
      next.ingest.Past id next.db ∨ Reason id ⟨state, label, next⟩ := by
    intro same
    rcases past with ⟨unit, tx, rest, await, worker, sameId, later, once⟩ | ⟨settled, untaken⟩
    · exact .inl (.inl ⟨unit, tx, rest, await, same.trans worker, sameId, later, once⟩)
    · by_cases pending : next.db.HasStatus id .pending
      · exact .inr (.inl ⟨settled, pending⟩)
      · exact .inl (.inr ⟨pending, same ▸ untaken⟩)
  cases step with
  | restart =>
      rcases past with ⟨unit, tx, rest, await, worker, sameId, later, _⟩ | ⟨settled, _⟩
      · exact .inr (.inr (.inr ⟨⟨unit, tx, rest, await, worker, sameId, later⟩, rfl⟩))
      · exact .inl (.inr ⟨settled, List.not_mem_nil⟩)
  | stage step =>
      cases step with
      | create | monitor => exact stays rfl
      | ingest step => exact (step.past holds past).imp_right fun again => .inr (.inl again)

/-- What ingest has in hand is as it should be, after every step. -/
theorem Process.Step.hand (step : Process.Step setup state label next)
    (hand : state.ingest.Holds ∧ state.ingest.Distinct) :
    next.ingest.Holds ∧ next.ingest.Distinct := by
  cases step with
  | restart => exact ⟨trivial, trivial⟩
  | stage step =>
      cases step with
      | create | monitor => exact hand
      | ingest step => exact ⟨step.holds hand.1, step.distinct hand.2⟩

/-- In every run, with any failures and crashes, between two broadcasts of a transaction there is
a reason for the second one. -/
theorem resent_for_reason {db : Db} {first between last : List (Transition State
    (Process.Label pallas))} {one two : Transition State (Process.Label pallas)}
    (run : Run (Process.Step setup) (State.initial db)
      (first ++ one :: (between ++ two :: last)) final)
    (sends : Sends id one) (again : Sends id two) : ∃ transition ∈ between, Reason id transition := by
  have preserved : Preserved (@Process.Step pallas setup) (fun _ _ => True)
      (fun state => state.ingest.Holds ∧ state.ingest.Distinct) :=
    fun _ _ _ hand _ step => step.hand hand
  obtain ⟨before, step, rest⟩ := run.around
  obtain ⟨amid, stepAgain, _⟩ := rest.around
  have hand := before.invariant preserved ⟨trivial, trivial⟩ fun _ _ => trivial
  have past := step.past_of_sends hand.2 sends
  have present : ¬ two.before.ingest.Past id two.before.db :=
    fun past => stepAgain.not_sends past again
  obtain ⟨transition, member, was, lost⟩ := amid.exists_step_of_change
    (P := fun state => ¬ state.ingest.Past id state.db) (not_not_intro past) present
  have inHand := (amid.invariant_of_mem preserved (step.hand hand) (fun _ _ => trivial) member).1
  refine ⟨transition, member, ?_⟩
  exact ((amid.step_of_mem member).past inHand.1 (not_not.mp was)).resolve_left lost

/-- A transaction is broadcast, the process stops, and it is broadcast again. -/
theorem resent_for_reason_sample :
    ∃ (first between : List (Transition State (Process.Label samplePallas)))
      (one two : Transition State (Process.Label samplePallas)) (final : State),
      Run (Process.Step sampleSetup) (State.initial sampleDb)
        (first ++ one :: (between ++ [two])) final ∧
      Sends (sampleTx 1 1).id one ∧ Sends (sampleTx 1 1).id two ∧
      ∃ transition ∈ between, Reason (sampleTx 1 1).id transition := by
  have examined : ∀ sent, ∃ trace, Run (@Process.Step samplePallas sampleSetup)
      ⟨sampleDb, sent, .schedule, .schedule⟩ trace
      ⟨sampleDb, sent, .awaiting sampleUnit (sampleTx 1 1) [sampleTx 2 2] .send, .schedule⟩ :=
    fun _ => ⟨_, .cons (.stage sample_schedule) <| .cons (.stage sample_select) <|
      .cons (.stage (.ingest (.examine sampleReplies rfl))) .nil⟩
  obtain ⟨first, before⟩ := examined []
  obtain ⟨second, after⟩ := examined [((sampleTx 1 1).id, (sampleTx 1 1).raw)]
  have run := before.append (.cons (.stage (.ingest .send)) <|
    Run.append (.cons .restart after) (.cons (.stage (.ingest .send)) .nil))
  exact ⟨first, _, _, _, _, run, ⟨_, rfl⟩, ⟨_, rfl⟩,
    resent_for_reason run ⟨_, rfl⟩ ⟨_, rfl⟩⟩

end Boros.Pipeline
