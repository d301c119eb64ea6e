import Boros.Server.Locking

/-!
# Single use of a lock token

A token is checked when a transaction is read from the message, used when the
transactions are stored, and taken out of the map by the queue's worker once it has
received the call's unlock signal. `singleUse_of_exclusive` says that a token is used
by one call in every run in which no check succeeds between another call's check and
the removal of the token.
-/

namespace Boros.Server.Locking

open Boros.Data Boros.Semantics Boros.Storage Boros.Ledger Boros.Queue Boros.Queue.Chaining
open Boros.Server.Submit

variable {pallas : Pallas} {queues : Configs} {state next start final : State}
  {label : Label pallas} {queue token : String} {trace : List (Transition State (Label pallas))}

/-- At most one call has stored transactions under each token of a queue. -/
def SingleUse (state : State) : Prop :=
  ∀ id other queue token, (id, queue, token) ∈ state.accepted →
    (other, queue, token) ∈ state.accepted → id = other

/-- A check succeeds while no other call may store transactions under the token or has
an unlock signal for the queue left to send, no such signal is in the channel and the
worker is not removing a token. No token is published which was used before. -/
structure Exclusive (state : State) (label : Label pallas) : Prop where
  check : ∀ id queue token, label = .check id → state.Checking id queue token →
    state.locks.tokens queue = some token →
      state.locks.unlocks queue = 0 ∧ state.locks.workers queue ≠ .releasing ∧
        ∀ other, other ≠ id → ¬ state.Signalling other queue ∧ ¬ state.Pending other queue token
  publish : ∀ queue client token, label = .worker queue .publish →
    state.locks.workers queue = .publishing client token →
      ∀ id, (id, queue, token) ∉ state.accepted

/-- An unlock signal for the queue is to be sent, or was sent, or is being acted upon. -/
def Releasing (queue : String) (state : State) : Prop :=
  (∃ id, state.Signalling id queue) ∨ 0 < state.locks.unlocks queue ∨
    state.locks.workers queue = .releasing

/-- Every token is used once: what a call is about to store comes first under its token,
and a used token which is still in the map is on its way out. -/
structure UsedOnce (state : State) : Prop where
  singleUse : SingleUse state
  unused : ∀ id other queue token, state.Pending id queue token →
    (other, queue, token) ∉ state.accepted
  sole : ∀ id other queue token, state.Pending id queue token → state.Pending other queue token →
    id = other
  releasing : ∀ id queue token, (id, queue, token) ∈ state.accepted →
    state.locks.tokens queue = some token → Releasing queue state

/-- A release goes on until the token is removed, and no other one is published then. -/
theorem Step.releasing (step : Step queues state label next) (releasing : Releasing queue state)
    (current : next.locks.tokens queue = some token) :
    Releasing queue next ∨ label = .worker queue .publish ∧
      ∃ client, state.locks.workers queue = .publishing client token := by
  have signals : (∃ id, state.Signalling id queue) → Releasing queue next := by
    rintro ⟨id, signalling⟩
    rcases step.signalling_of_before signalling with later | sent
    · exact .inl ⟨id, later⟩
    · exact .inr (.inl sent)
  rcases releasing with signalling | sent | removing
  · exact .inl (signals signalling)
  · rcases step.unlocks_cases queue with same | signalling | ⟨_, removing⟩
    · exact .inl (.inr (.inl (by omega)))
    · exact .inl (signals signalling)
    · exact .inl (.inr (.inr removing))
  · rcases step.lock_cases queue with ⟨_, workers⟩ | ⟨taken, rfl, _, workerStep⟩
    · exact .inl (.inr (.inr (workers.trans removing)))
    · rcases workerStep.tokens_cases current with ⟨rfl, publishing⟩ | ⟨_, removed | ⟨busy, _⟩⟩
      · exact .inr ⟨rfl, publishing⟩
      · exact .inl (.inr (.inr removed))
      · exact absurd removing busy

/-- A token which is in the map after a step was there before or is published by it. -/
theorem Step.tokens_cases (step : Step queues state label next)
    (current : next.locks.tokens queue = some token) :
    state.locks.tokens queue = some token ∨ label = .worker queue .publish ∧
      ∃ client, state.locks.workers queue = .publishing client token := by
  rcases step.lock_cases queue with ⟨tokens, _⟩ | ⟨taken, rfl, _, workerStep⟩
  · exact .inl (tokens.symm.trans current)
  · rcases workerStep.tokens_cases current with ⟨rfl, publishing⟩ | ⟨before, _⟩
    · exact .inr ⟨rfl, publishing⟩
    · exact .inl before

/-- A token which a call checks with success was not used. -/
theorem UsedOnce.unused_of_check (used : UsedOnce state) (exclusive : Exclusive state label)
    {id : Nat} (checked : label = .check id) (checking : state.Checking id queue token)
    (current : state.locks.tokens queue = some token) (other : Nat) :
    (other, queue, token) ∉ state.accepted := by
  intro accepted
  obtain ⟨unsignalled, busy, others⟩ := exclusive.check id queue token checked checking current
  rcases used.releasing other queue token accepted current with
    ⟨sender, signalling⟩ | sent | removing
  · by_cases same : sender = id
    · subst same
      exact checking.not_signalling signalling
    · exact (others sender same).1 signalling
  · omega
  · exact busy removing

/-- An exclusive step keeps every token used once. -/
theorem Step.usedOnce (step : Step queues state label next) (exclusive : Exclusive state label)
    (used : UsedOnce state) : UsedOnce next := by
  refine ⟨?_, ?_, ?_, ?_⟩
  · intro id other queue token accepted accepted'
    rcases step.accepted_cases accepted with earlier | ⟨created, pending⟩ <;>
      rcases step.accepted_cases accepted' with earlier' | ⟨created', pending'⟩
    · exact used.singleUse id other queue token earlier earlier'
    · exact absurd earlier (used.unused other id queue token pending')
    · exact absurd earlier' (used.unused id other queue token pending)
    · exact Label.create.inj (created.symm.trans created')
  · intro id other queue token pending accepted
    rcases step.pending pending with earlier | ⟨checked, checking, current⟩ <;>
      rcases step.accepted_cases accepted with before | ⟨created, creating⟩
    · exact used.unused id other queue token earlier before
    · obtain rfl := used.sole id other queue token earlier creating
      exact pending.not_signalling (step.signalling_of_completes created creating)
    · exact used.unused_of_check exclusive checked checking current other before
    · cases checked.symm.trans created
  · intro id other queue token pending pending'
    rcases step.pending pending with earlier | ⟨checked, checking, current⟩ <;>
      rcases step.pending pending' with earlier' | ⟨checked', checking', current'⟩
    · exact used.sole id other queue token earlier earlier'
    · by_contra apart
      exact ((exclusive.check other queue token checked' checking' current').2.2 id apart).2 earlier
    · by_contra apart
      exact ((exclusive.check id queue token checked checking current).2.2 other
        (Ne.symm apart)).2 earlier'
    · exact Label.check.inj (checked.symm.trans checked')
  · intro id queue token accepted current
    rcases step.accepted_cases accepted with earlier | ⟨created, creating⟩
    · rcases step.tokens_cases current with before | ⟨published, client, publishing⟩
      · rcases step.releasing (used.releasing id queue token earlier before) current with
          releasing | ⟨published, client, publishing⟩
        · exact releasing
        · exact absurd earlier (exclusive.publish queue client token published publishing id)
      · exact absurd earlier (exclusive.publish queue client token published publishing id)
    · exact .inl ⟨id, step.signalling_of_completes created creating⟩

/-- In every run of exclusive steps each token is used by at most one call. -/
theorem singleUse_of_exclusive (db : Db) (now : Nat)
    (run : Run (Step queues) (State.initial db now) trace final)
    (exclusive : Guarded Exclusive trace) : SingleUse final := by
  have preserved : Preserved (@Step pallas queues) Exclusive UsedOnce := by
    intro state label next used exclusive step
    exact step.usedOnce exclusive used
  have initial : UsedOnce (State.initial db now) := by
    refine ⟨?_, ?_, ?_, ?_⟩
    · intro _ _ _ _ accepted
      cases accepted
    · intro _ _ _ _ _ accepted
      cases accepted
    · intro id _ queue token pending
      exact absurd pending ((State.idle_of_none rfl queue).2 token)
    · intro _ _ _ accepted
      cases accepted
  exact (run.invariant preserved initial exclusive).singleUse

/-- A step which checks no token, before any token was used, is exclusive. -/
theorem exclusive_of_unused (unused : state.accepted = []) (check : ∀ id, label ≠ .check id) :
    Exclusive state label := by
  refine ⟨fun id _ _ checked => absurd checked (check id), ?_⟩
  intro queue client token _ _ id accepted
  rw [unused] at accepted
  cases accepted

/-- The call of the first client is the only one which uses its token. -/
theorem singleUse_of_exclusive_sample :
    ∃ (trace : List (Transition State (Label samplePallas))) (final : State),
      Run (Step sampleQueues) (State.initial .empty 0) trace final ∧ SingleUse final ∧
        final.accepted = [(0, "banana", "aaaaaaaa")] := by
  obtain ⟨middle, passed, ready, final, followed, check, examine, create, signals, worker, others,
      checked, unused, unused', accepted⟩ :
      ∃ middle passed ready final : State,
        follow (State.exec sampleQueues) (State.initial .empty 0) sampleChecking = some middle ∧
          Step sampleQueues middle (.check 0 : Label samplePallas) passed ∧
          Step sampleQueues passed (.examine 0 sampleAdapter sampleAdapter) ready ∧
          Step sampleQueues ready (.create 0 : Label samplePallas) final ∧
          middle.locks.unlocks "banana" = 0 ∧
          middle.locks.workers "banana" = .held "aaaaaaaa" 0 ∧
          (∀ other, other ≠ 0 → middle.requests other = none) ∧
          (middle.requests 0).bind (·.phase.checked) = some ("banana", "aaaaaaaa") ∧
          passed.accepted = [] ∧ ready.accepted = [] ∧
          final.accepted = [(0, "banana", "aaaaaaaa")] := by
    refine ⟨_, _, _, _, rfl, .check rfl rfl, .examine sampleAdapter sampleAdapter rfl rfl,
      .create rfl rfl rfl, rfl, rfl, ?_, rfl, rfl, rfl, rfl⟩
    intro other apart
    exact (Function.update_of_ne apart _ _).trans (Function.update_of_ne apart _ _)
  obtain ⟨first, run, labels⟩ := Run.of_follow (step_of_exec sampleQueues) followed
  have whole := run.append (.cons check (.cons examine (.cons create .nil)))
  refine ⟨_, final, whole, singleUse_of_exclusive .empty 0 whole ?_, accepted⟩
  simp only [guarded_append, guarded_cons, guarded_nil, and_true]
  refine ⟨?_, ⟨?_, by simp⟩, exclusive_of_unused unused (by simp),
    exclusive_of_unused unused' (by simp)⟩
  · have creates : Guarded (fun _ label => ∀ id, label ≠ .create id) first := by
      rintro transition member id same
      have label := label_mem labels member
      simp [same, sampleChecking, sampleLock] at label
    have preserved : Preserved (@Step samplePallas sampleQueues)
        (fun _ label => ∀ id, label ≠ .create id) (fun state => state.accepted = []) := by
      intro state label next unused creates step
      refine List.eq_nil_iff_forall_not_mem.mpr ?_
      rintro ⟨id, queue, token⟩ member
      rcases step.accepted_cases member with earlier | ⟨created, _⟩
      · simp [unused] at earlier
      · exact creates id created
    intro transition member
    have label := label_mem labels member
    refine exclusive_of_unused (run.invariant_of_mem preserved rfl creates member).1 ?_
    rintro id same
    simp [same, sampleChecking, sampleLock] at label
  · rintro id queue token same ⟨request, found, checking⟩ _
    obtain rfl := Label.check.inj same
    rw [found] at checked
    obtain ⟨rfl, rfl⟩ := Prod.mk.inj (Option.some.inj (checking.symm.trans checked))
    refine ⟨signals, by simp [worker], fun other apart => ?_⟩
    obtain ⟨quiet, unpending⟩ := State.idle_of_none (others other apart) "banana"
    exact ⟨quiet, unpending "aaaaaaaa"⟩

/-- Two calls pass the check of one token before either has stored its transactions, and
then both do. -/
theorem not_singleUse_of_overlap :
    ∃ (trace : List (Transition State (Label samplePallas))) (final : State),
      Run (Step sampleQueues) (State.initial .empty 0) trace final ∧ ¬ SingleUse final := by
  have reached : (follow (State.exec sampleQueues) (State.initial .empty 0)
      (sampleLock 1 "aaaaaaaa" ++ [.worker "banana" .deliver] ++
        sampleSubmission 0 [sampleRequest 1 "aaaaaaaa"] ++
        sampleSubmission 1 [sampleRequest 2 "aaaaaaaa"] ++
        ([.create 0, .create 1] : List (Label samplePallas)))).map State.accepted =
      some [(0, "banana", "aaaaaaaa"), (1, "banana", "aaaaaaaa")] := by
    decide +kernel
  obtain ⟨final, followed, accepted⟩ := Option.map_eq_some_iff.mp reached
  obtain ⟨trace, run, _⟩ := Run.of_follow (step_of_exec sampleQueues) followed
  refine ⟨trace, final, run, fun single => ?_⟩
  have same : 0 = 1 := single 0 1 "banana" "aaaaaaaa" (by simp [accepted]) (by simp [accepted])
  cases same

end Boros.Server.Locking
