import Boros.Server.Locking

/-!
# The token map and the lock

A worker publishes the token before it reads the latest transaction and sends both to the
client, and each of these two steps may fail. The token is removed where the lock is
unlocked or times out, but not where the grant fails. `mirrored_iff` says that the map
mirrors the lock in exactly the runs in which no grant fails.
-/

namespace Boros.Server.Locking

open Boros.Data Boros.Semantics Boros.Storage Boros.Ledger Boros.Queue Boros.Queue.Chaining
open Boros.Server.Submit

variable {pallas : Pallas} {queues : Configs} {state next final : State}
  {label : Label pallas} {queue : String} {trace : List (Transition State (Label pallas))}

/-- The map has no entry for a queue whose worker waits for a request, and exactly the token
which was delivered while the lock of the queue is held. -/
structure TokenMirror (locks : Locks) (queue : String) : Prop where
  waiting : locks.workers queue = .waiting → locks.tokens queue = none
  held : ∀ token since, locks.workers queue = .held token since →
    locks.tokens queue = some token

/-- The worker of the queue gives up a grant: `latest` fails, or the client is gone. -/
def FailedGrant (queue : String) (label : Label pallas) : Prop :=
  label = .worker queue .latestFail ∨ label = .worker queue .disconnect

/-- The map mirrors the locks in every state, and a failed grant leaves the entry of its queue as
it was before the request was received. -/
structure Mirrored (queues : Configs) (trace : List (Transition State (Label pallas))) :
    Prop where
  states : ∀ transition ∈ trace, ∀ queue, isChainedQueue queues queue →
    TokenMirror transition.before.locks queue ∧ TokenMirror transition.after.locks queue
  restored : ∀ first request between failure last queue token,
    trace = first ++ request :: (between ++ failure :: last) → isChainedQueue queues queue →
    request.label = .worker queue (.receive token) → FailedGrant queue failure.label →
    (∀ transition ∈ between, ∀ other, transition.label ≠ .worker queue (.receive other)) →
      failure.after.locks.tokens queue = request.before.locks.tokens queue

/-- No worker gives up a grant. -/
def Granting (_ : State) (label : Label pallas) : Prop := ∀ queue, ¬ FailedGrant queue label

/-- The worker has taken nothing up, or nothing which it has published. -/
def Worker.unpublished : Worker → Bool
  | .waiting | .publishing _ _ => true
  | _ => false

/-- The map has no entry for a queue whose worker has published nothing. -/
def Withdrawn (locks : Locks) : Prop :=
  ∀ queue, (Worker.unpublished (locks.workers queue)) → locks.tokens queue = none

/-- A worker which has published nothing after a step had published nothing before, or has
removed the token, or has given up a grant. -/
theorem WorkerStep.unpublished_cases {db : Db} {now : Nat} {locks after : Locks}
    {taken : WorkerLabel} (step : WorkerStep db now queue locks taken after)
    (unpublished : Worker.unpublished (after.workers queue)) :
    Worker.unpublished (locks.workers queue) ∧ after.tokens queue = locks.tokens queue ∨
      after.tokens queue = none ∨ taken = .latestFail ∨ taken = .disconnect := by
  cases step with
  | receive _ _ worker _ =>
      refine .inl ⟨?_, rfl⟩
      rw [worker]
      rfl
  | remove _ => exact .inr (.inl (Function.update_self _ _ _))
  | latestFail _ => exact .inr (.inr (.inl rfl))
  | disconnect _ => exact .inr (.inr (.inr rfl))
  | publish _ | latest _ _ | deliver _ | unlock _ _ | timeout _ _ =>
      simp [Worker.unpublished] at unpublished

/-- As long as no grant is given up, what was not published is not in the map. -/
theorem Step.withdrawn (step : Step queues state label next) (granting : Granting state label)
    (withdrawn : Withdrawn state.locks) : Withdrawn next.locks := by
  intro queue unpublished
  rcases step.lock_cases queue with ⟨tokens, workers⟩ | ⟨taken, rfl, _, workerStep⟩
  · rw [workers] at unpublished
    rw [tokens]
    exact withdrawn queue unpublished
  · rcases WorkerStep.unpublished_cases workerStep unpublished with
      ⟨before, same⟩ | removed | rfl | rfl
    · rw [same]
      exact withdrawn queue before
    · exact removed
    · exact absurd (.inl rfl) (granting queue)
    · exact absurd (.inr rfl) (granting queue)

/-- What was published is in the map, and nothing else is. -/
theorem tokenMirror_of {locks : Locks} (withdrawn : Withdrawn locks) (published : Published locks)
    (queue : String) : TokenMirror locks queue := by
  constructor
  · intro waiting
    refine withdrawn queue ?_
    rw [waiting]
    rfl
  · intro token since held
    refine published queue token ?_
    rw [held]
    rfl

/-- A worker which gives up a grant leaves its token in the map, and waits. -/
theorem WorkerStep.of_failed {db : Db} {now : Nat} {locks after : Locks} {taken : WorkerLabel}
    (step : WorkerStep db now queue locks taken after)
    (failed : taken = .latestFail ∨ taken = .disconnect) (published : Published locks) :
    after.workers queue = .waiting ∧ after.tokens queue ≠ none := by
  cases step with
  | latestFail worker | disconnect worker =>
      have current := published queue _ (by rw [worker]; rfl)
      refine ⟨Function.update_self _ _ _, ?_⟩
      simp [current]
  | _ => simp at failed

theorem Step.of_failedGrant (step : Step queues state label next)
    (failed : FailedGrant queue label) (published : Published state.locks) :
    isChainedQueue queues queue ∧ next.locks.workers queue = .waiting ∧
      next.locks.tokens queue ≠ none := by
  rcases failed with rfl | rfl
  · cases step with
    | worker _ chained workerStep =>
        exact ⟨chained, WorkerStep.of_failed workerStep (.inl rfl) published⟩
  · cases step with
    | worker _ chained workerStep =>
        exact ⟨chained, WorkerStep.of_failed workerStep (.inr rfl) published⟩

/-- The map mirrors the locks throughout a run exactly when no grant is given up in it. -/
theorem mirrored_iff (db : Db) (now : Nat)
    (run : Run (Step queues) (State.initial db now) trace final) :
    Mirrored queues trace ↔ Guarded Granting trace := by
  constructor
  · intro mirrored transition member queue failed
    obtain ⟨first, second, rfl⟩ := List.append_of_mem member
    obtain ⟨prior, step, _⟩ := run.around
    obtain ⟨chained, waiting, present⟩ := step.of_failedGrant failed (published_of_run prior)
    exact present ((mirrored.states transition member queue chained).2.waiting waiting)
  · intro granting
    have preserved : Preserved (@Step pallas queues) Granting
        fun state => Withdrawn state.locks ∧ Published state.locks := by
      intro state label next here granting step
      exact ⟨step.withdrawn granting here.1, step.published here.2⟩
    have start : Withdrawn (State.initial db now).locks ∧
        Published (State.initial db now).locks :=
      ⟨fun _ _ => rfl, published_new⟩
    constructor
    · intro transition member queue _
      obtain ⟨before, after⟩ := run.invariant_of_mem preserved start granting member
      exact ⟨tokenMirror_of before.1 before.2 queue, tokenMirror_of after.1 after.2 queue⟩
    · intro first request between failure last queue token cut _ _ failed _
      have member : failure ∈ trace := by
        rw [cut]
        simp
      exact absurd failed (granting failure member queue)

/-- A grant, the timeout, and a second grant. -/
theorem mirrored_iff_sample :
    ∃ (trace : List (Transition State (Label samplePallas))) (final : State),
      Run (Step sampleQueues) (State.initial .empty 0) trace final ∧
        final.locks.tokens "banana" = some "bbbbbbbb" ∧ Mirrored sampleQueues trace := by
  have reached : (follow (State.exec sampleQueues) (State.initial .empty 0)
      (sampleLock 1 "aaaaaaaa" ++ [.worker "banana" .deliver, .tick lockTimeout,
        .worker "banana" .timeout, .worker "banana" .remove] ++ sampleLock 2 "bbbbbbbb")).map
          (fun final => final.locks.tokens "banana") = some (some "bbbbbbbb") := by
    decide +kernel
  obtain ⟨final, followed, current⟩ := Option.map_eq_some_iff.mp reached
  obtain ⟨trace, run, labels⟩ := Run.of_follow (step_of_exec sampleQueues) followed
  refine ⟨trace, final, run, current, (mirrored_iff .empty 0 run).mpr ?_⟩
  intro transition member queue failed
  have label := label_mem labels member
  rcases failed with gone | gone <;> simp [gone, sampleLock] at label

/-- A client is gone when its token is sent: the worker waits, and the token stays valid. -/
theorem not_mirrored_of_disconnect :
    ∃ (trace : List (Transition State (Label samplePallas))) (final : State),
      Run (Step sampleQueues) (State.initial .empty 0) trace final ∧
        final.locks.workers "banana" = .waiting ∧
        final.locks.isValidToken "banana" "aaaaaaaa" ∧ ¬ Mirrored sampleQueues trace := by
  have reached : (follow (State.exec sampleQueues) (State.initial .empty 0)
      (sampleLock 1 "aaaaaaaa" ++ [.worker "banana" .disconnect])).map
        (fun final => (final.locks.workers "banana", final.locks.tokens "banana")) =
          some (.waiting, some "aaaaaaaa") := by
    decide +kernel
  obtain ⟨final, followed, seen⟩ := Option.map_eq_some_iff.mp reached
  obtain ⟨waiting, current⟩ := Prod.mk.inj seen
  obtain ⟨trace, run, labels⟩ := Run.of_follow (step_of_exec sampleQueues) followed
  refine ⟨trace, final, run, waiting, Locks.isValidToken_iff.mpr current, fun mirrored => ?_⟩
  have failed : Label.worker "banana" .disconnect ∈ trace.map Transition.label := by
    rw [labels]
    simp
  obtain ⟨transition, member, label⟩ := List.mem_map.mp failed
  obtain ⟨first, second, rfl⟩ := List.append_of_mem member
  obtain ⟨prior, step, _⟩ := run.around
  obtain ⟨chained, waits, present⟩ := step.of_failedGrant (.inr label) (published_of_run prior)
  exact present ((mirrored.states transition member "banana" chained).2.waiting waits)

end Boros.Server.Locking
