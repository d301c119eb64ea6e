import Boros.Pipeline.Reorg

/-!
# The cursor and the tip of the chain

The cursor which the monitor persists is the point of the event it has executed. For an
applied block that is the new tip, but an undone block is left as the cursor itself, where
the tip is the block before it. `atTip_iff_tracked` says when the cursor is the tip of the
applied chain after every action of a history.
-/

namespace Boros.Pipeline.Reorg

open Boros.Data Boros.Semantics Boros.Storage Boros.Ledger Boros.Queue

/-- The persisted cursor is the last block which is applied, if there is one. -/
def AtTip (state : ChainState) : Prop :=
  ∀ tip ∈ state.applied.getLast?, state.db.currentCursor = .ok (some ⟨tip.slot, tip.hash⟩)

/-- Slots increase along the applied chain. -/
def Ordered (state : ChainState) : Prop :=
  state.applied.Pairwise fun earlier later => earlier.slot < later.slot

/-- An applied block has a body. -/
def ChainAction.HasBody : ChainAction → Prop
  | .apply block => ∃ txs, block.body = some txs
  | .undo _ => True

/-- The slot of an applied block can be stored, and a block is undone only when no block
was applied before it. -/
def Tracked (state : ChainState) : ChainAction → Prop
  | .apply block => block.slot.toNat < 2 ^ 63
  | .undo block => state.applied = [block]

variable {profile : Profile} {config : Monitor.Config} {state next final : ChainState}
  {action : ChainAction} {block : ChainBlock} {db db' : Db} {applied : List ChainBlock}

/-- A cursor is read back exactly when its slot can be stored. -/
theorem currentCursor_iff {slot : UInt64} {hash : Bytes} {cursor : Cursor}
    (stored : db.cursor = some ⟨asI64 slot, hash⟩) :
    db.currentCursor = .ok (some cursor) ↔ slot.toNat < 2 ^ 63 ∧ cursor = ⟨slot, hash⟩ := by
  simp only [Db.currentCursor, stored, tryFromI64_asI64]
  by_cases small : slot.toNat < 2 ^ 63
  · rw [if_pos small]
    simp only [Except.ok.injEq, Option.some.injEq, small, true_and, eq_comm]
  · rw [if_neg small]
    simp only [small, reduceCtorEq, false_and]

/-- The cursor of an executed event is its point. -/
theorem currentCursor_execute {event : Event} {cursor : Cursor}
    (success : (Monitor.execute profile config event).exec db = (.ok (), db')) :
    db'.currentCursor = .ok (some cursor) ↔
      event.point.1.toNat < 2 ^ 63 ∧ cursor = ⟨event.point.1, event.point.2⟩ := by
  apply currentCursor_iff
  cases event with
  | rollForward point txs =>
      obtain ⟨_, _, _, _, rfl⟩ := Monitor.execute_rollForward_ok_iff.mp success
      rfl
  | rollback point =>
      obtain ⟨_, _, _, _, rfl⟩ := Monitor.execute_rollback_ok_iff.mp success
      rfl

/-- Applying a block keeps slots in order, and so does undoing one. -/
theorem Step.ordered (step : Step profile config state action next) (ordered : Ordered state) :
    Ordered next := by
  cases step with
  | @apply _ _ applied block increasing handled =>
      refine List.pairwise_append.mpr ⟨ordered, List.pairwise_singleton _ _, ?_⟩
      intro earlier member later last
      obtain rfl := List.mem_singleton.mp last
      rcases List.eq_nil_or_concat applied with rfl | ⟨rest, tip, rfl⟩
      · cases member
      · rw [List.concat_eq_append] at ordered increasing member
        have below : tip.slot < later.slot := increasing tip (by simp)
        rcases List.mem_append.mp member with before | atTip
        · have before' := (List.pairwise_append.mp ordered).2.2 earlier before tip (by simp)
          exact UInt64.lt_trans before' below
        · rwa [List.mem_singleton.mp atTip]
  | undo tip handled =>
      subst tip
      exact (List.pairwise_append.mp ordered).1

/-- After an action the cursor is the tip exactly when the action is tracked. -/
theorem Step.atTip_iff (step : Step profile config state action next) (ordered : Ordered state)
    (body : action.HasBody) : AtTip next ↔ Tracked state action := by
  cases step with
  | @apply _ _ applied block increasing handled =>
      obtain ⟨txs, found⟩ := body
      rw [handles_apply_iff, found] at handled
      simp only [AtTip, Tracked, List.getLast?_concat, Option.mem_some_iff, forall_eq',
        currentCursor_execute handled, Event.point, and_true]
  | @undo db _ applied rest block tip handled =>
      subst tip
      rw [handles_undo_iff] at handled
      rcases List.eq_nil_or_concat rest with rfl | ⟨earlier, tip, rfl⟩
      · simp [AtTip, Tracked]
      · rw [List.concat_eq_append] at ordered ⊢
        have below : tip.slot < block.slot :=
          (List.pairwise_append.mp ordered).2.2 tip (by simp) block (by simp)
        have several : ¬ Tracked ⟨db, earlier ++ [tip] ++ [block]⟩ (.undo block) := by
          intro single
          simpa using congrArg List.length single
        refine iff_of_false (fun atTip => ?_) several
        have cursor := ((currentCursor_execute handled).mp (atTip tip (by simp))).2
        have same : tip.slot = block.slot := congrArg Cursor.slot cursor
        exact absurd (same ▸ below) (UInt64.lt_irrefl _)

/-- Along a chain history whose applied blocks have bodies, the cursor is the tip of the
applied chain after every action exactly when every action is tracked. -/
theorem atTip_iff_tracked {trace : List (Transition ChainState ChainAction)}
    (run : Run (Step profile config) state trace final) (ordered : Ordered state)
    (bodies : ∀ transition ∈ trace, transition.label.HasBody) :
    (∀ transition ∈ trace, AtTip transition.after) ↔ Guarded Tracked trace := by
  induction run with
  | nil => simp
  | cons transition _ ih =>
      rw [List.forall_mem_cons] at bodies
      rw [List.forall_mem_cons, guarded_cons, transition.atTip_iff ordered bodies.1,
        ih (transition.ordered ordered) bodies.2]

/-- Two blocks are applied. -/
def appliedTrace : List (Transition ChainState ChainAction) :=
  [⟨⟨sampleDb .inFlight 5 none, []⟩, .apply sampleBlock,
      ⟨confirmedDb sampleBlock, [sampleBlock]⟩⟩,
    ⟨⟨confirmedDb sampleBlock, [sampleBlock]⟩, .apply emptyBlock,
      ⟨confirmedDb emptyBlock, [sampleBlock, emptyBlock]⟩⟩]

theorem run_applied : Run (Step .debug ⟨1000⟩) ⟨sampleDb .inFlight 5 none, []⟩ appliedTrace
    ⟨confirmedDb emptyBlock, [sampleBlock, emptyBlock]⟩ :=
  .cons apply_sampleBlock (.cons apply_emptyBlock .nil)

/-- The cursor is the first block and then the second one. -/
theorem atTip_iff_tracked_applied :
    AtTip ⟨confirmedDb sampleBlock, [sampleBlock]⟩ ∧
      AtTip ⟨confirmedDb emptyBlock, [sampleBlock, emptyBlock]⟩ := by
  have atTip : ∀ transition ∈ appliedTrace, AtTip transition.after := by
    refine (atTip_iff_tracked run_applied List.Pairwise.nil ?_).mpr ?_
    · simp [appliedTrace, ChainAction.HasBody, sampleBlock, emptyBlock]
    · simp [appliedTrace, Tracked, sampleBlock, emptyBlock]
  exact ⟨atTip _ List.mem_cons_self, atTip _ (List.mem_cons_of_mem _ List.mem_cons_self)⟩

/-- The second block is undone, and stays the cursor. -/
theorem not_atTip_of_undo :
    ∃ trace, Run (Step .debug ⟨1000⟩) ⟨sampleDb .inFlight 5 none, []⟩ trace undoEmptyBlock.after ∧
      (∀ transition ∈ trace, transition.label.HasBody) ∧
      ¬ ∀ transition ∈ trace, AtTip transition.after := by
  refine ⟨_, run_applied.snoc (.undo rfl (handles_undo_iff.mpr rfl)), ?_, fun atTip => ?_⟩
  · simp [appliedTrace, ChainAction.HasBody, sampleBlock, emptyBlock]
  · have undone := atTip undoEmptyBlock (List.mem_append_right _ List.mem_cons_self)
    exact absurd (undone sampleBlock rfl) (by decide)

end Boros.Pipeline.Reorg
