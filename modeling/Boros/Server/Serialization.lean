import Boros.Server.Locking

/-!
# Serialization of a chained queue

A call checks its token in the loop over its transactions and stores them later. In
between, the lock may time out or be released, and be granted to the next client.
`serialized_of_timely` says that nothing else goes wrong: where no lock ends while a
call is between its check and its `create`, each `create` happens under the lock.
-/

namespace Boros.Server.Locking

open Boros.Data Boros.Semantics Boros.Storage Boros.Ledger Boros.Queue Boros.Queue.Chaining
open Boros.Server.Submit

variable {pallas : Pallas} {queues : Configs} {state next start final : State}
  {label : Label pallas} {queue token : String} {trace : List (Transition State (Label pallas))}

/-- The token is that of the lock which is held on the queue, and which has not expired. -/
def Holds (queue token : String) (state : State) : Prop :=
  ∃ since, state.locks.workers queue = .held token since ∧ state.now < since + lockTimeout ∧
    state.locks.tokens queue = some token

/-- Chained serialization. Transactions are stored under the token of the current lock;
and between two calls under different tokens, the client of the second was granted the
lock and the latest transaction was read for it. -/
structure Serialized (trace : List (Transition State (Label pallas))) : Prop where
  current : ∀ transition ∈ trace, ∀ queue token,
    Completes queue token transition.before transition.label →
      Holds queue token transition.before
  distinct : ∀ first earlier between later last queue token token',
    trace = first ++ earlier :: (between ++ later :: last) →
    Completes queue token earlier.before earlier.label →
    Completes queue token' later.before later.label → token ≠ token' →
      ∃ read ∈ between, read.label = .worker queue .latest ∧
        ∃ client, read.before.locks.workers queue = .reading client token'

/-- No lock expires or is released while a call which was accepted under it has its
transactions still to store, and a token is accepted only while its lock is held. -/
structure Timely (state : State) (label : Label pallas) : Prop where
  tick : ∀ elapsed, label = .tick elapsed → ∀ id queue token since,
    state.Pending id queue token → state.locks.workers queue = .held token since →
      state.now + elapsed < since + lockTimeout
  unlock : ∀ queue, label = .worker queue .unlock → ∀ id token, ¬ state.Pending id queue token
  check : ∀ id queue token, label = .check id → state.Checking id queue token →
    state.locks.tokens queue = some token → Holds queue token state

/-- A worker which holds a lock goes on by an unlock signal before the timeout. -/
theorem Holds.workerStep {taken : WorkerLabel} {locks : Locks} (holds : Holds queue token state)
    (step : WorkerStep state.db state.now queue state.locks taken locks) : taken = .unlock := by
  obtain ⟨since, held, early, _⟩ := holds
  rcases step.of_held held with ⟨unlock, _⟩ | ⟨_, elapsed⟩
  · exact unlock
  · omega

/-- Every call which may store transactions holds the lock. -/
def PendingHold (state : State) : Prop :=
  ∀ id queue token, state.Pending id queue token → Holds queue token state

/-- A timely step keeps the lock with the calls which may store transactions. -/
theorem Step.pendingHold (step : Step queues state label next) (timely : Timely state label)
    (holds : PendingHold state) : PendingHold next := by
  intro id queue token pending
  rcases step.pending pending with earlier | ⟨checked, checking, current⟩
  · have here : Holds queue token state := holds id queue token earlier
    rcases step.lock_cases queue with ⟨tokens, workers⟩ | ⟨taken, worker, _, workerStep⟩
    · obtain ⟨since, held, early, published⟩ := here
      refine ⟨since, workers.trans held, ?_, tokens.trans published⟩
      rcases step.now_cases with same | ⟨elapsed, ticked, later⟩
      · omega
      · have bound := timely.tick elapsed ticked id queue token since earlier held
        omega
    · rw [here.workerStep workerStep] at worker
      exact absurd earlier (timely.unlock queue worker id token)
  · obtain ⟨since, held, early, published⟩ := timely.check id queue token checked checking current
    subst checked
    cases step
    exact ⟨since, held, early, published⟩

/-- The latest transaction was read for the token, which was handed out since. -/
def Handed (queue token : String) (state : State) : Prop :=
  (state.locks.workers queue).handed = some token

/-- A token is handed out after the latest transaction was read for it. -/
theorem Step.handed (step : Step queues state label next) (handed : Handed queue token next) :
    Handed queue token state ∨ label = .worker queue .latest ∧
      ∃ client, state.locks.workers queue = .reading client token := by
  rcases step.lock_cases queue with ⟨_, workers⟩ | ⟨taken, rfl, _, workerStep⟩
  · rw [Handed, workers] at handed
    exact .inl handed
  · rcases workerStep.handed handed with earlier | ⟨rfl, reading⟩
    · exact .inl earlier
    · exact .inr ⟨rfl, reading⟩

/-- In every run of timely steps, transactions are stored under the lock which is held. -/
theorem serialized_of_timely (db : Db) (now : Nat)
    (run : Run (Step queues) (State.initial db now) trace final) (timely : Guarded Timely trace) :
    Serialized trace := by
  have preserved : Preserved (@Step pallas queues) Timely PendingHold := by
    intro state label next holds timely step
    exact step.pendingHold timely holds
  have initial : PendingHold (State.initial db now) := by
    intro id queue token pending
    exact absurd pending ((State.idle_of_none rfl queue).2 token)
  have current : ∀ transition ∈ trace, ∀ queue token,
      Completes queue token transition.before transition.label →
        Holds queue token transition.before := by
    rintro transition member queue token ⟨id, _, pending⟩
    exact (run.invariant_of_mem preserved initial timely member).1 id queue token pending
  refine ⟨current, ?_⟩
  rintro first earlier between later last queue token token' rfl before after apart
  obtain ⟨_, created, rest⟩ := run.around
  obtain ⟨between_run, _, _⟩ := rest.around
  have absent : ¬ Handed queue token' earlier.after := by
    obtain ⟨since, held, _⟩ := current earlier (by simp) queue token before
    obtain ⟨id, label, _⟩ := before
    intro handed
    rcases created.handed handed with same | ⟨worker, _⟩
    · rw [Handed, held] at same
      exact apart (Option.some.inj same)
    · rw [label] at worker
      cases worker
  have present : Handed queue token' later.before := by
    obtain ⟨since, held, _⟩ := current later (by simp) queue token' after
    rw [Handed, held]
    rfl
  obtain ⟨read, member, missing, handed⟩ := between_run.exists_step_of_change absent present
  rcases (between_run.step_of_mem member).handed handed with earlier | latest
  · exact absurd earlier missing
  · exact ⟨read, member, latest⟩

/-- A step which takes no time, checks no token and receives no unlock signal is timely. -/
theorem timely_of_label (tick : ∀ elapsed, label ≠ .tick elapsed)
    (unlock : ∀ queue, label ≠ .worker queue .unlock) (check : ∀ id, label ≠ .check id) :
    Timely state label :=
  ⟨fun elapsed ticked => absurd ticked (tick elapsed),
    fun queue received => absurd received (unlock queue),
    fun id _ _ checked => absurd checked (check id)⟩

/-- The call of the first client stores its transaction under its lock. -/
theorem serialized_of_timely_sample :
    ∃ (trace : List (Transition State (Label samplePallas))) (final : State),
      Run (Step sampleQueues) (State.initial .empty 0) trace final ∧ Serialized trace ∧
        final.accepted = [(0, "banana", "aaaaaaaa")] := by
  obtain ⟨middle, passed, final, followed, check, followed', held, checked, published, accepted⟩ :
      ∃ middle passed final : State,
        follow (State.exec sampleQueues) (State.initial .empty 0) sampleChecking = some middle ∧
          Step sampleQueues middle (.check 0 : Label samplePallas) passed ∧
          follow (State.exec sampleQueues) passed
            ([.examine 0 sampleAdapter sampleAdapter, .create 0] : List (Label samplePallas)) =
              some final ∧
          middle.locks.workers "banana" = .held "aaaaaaaa" middle.now ∧
          (middle.requests 0).bind (·.phase.checked) = some ("banana", "aaaaaaaa") ∧
          middle.locks.tokens "banana" = some "aaaaaaaa" ∧
          final.accepted = [(0, "banana", "aaaaaaaa")] :=
    ⟨_, _, _, rfl, .check rfl rfl, rfl, rfl, rfl, rfl, rfl⟩
  obtain ⟨first, run, labels⟩ := Run.of_follow (step_of_exec sampleQueues) followed
  obtain ⟨second, run', labels'⟩ := Run.of_follow (step_of_exec sampleQueues) followed'
  have whole := run.append (.cons check run')
  refine ⟨_, final, whole, serialized_of_timely .empty 0 whole ?_, accepted⟩
  rw [guarded_append, guarded_cons]
  refine ⟨?_, ⟨by simp, by simp, ?_⟩, ?_⟩
  · intro transition member
    have label := label_mem labels member
    apply timely_of_label <;> rintro _ same <;> simp [same, sampleChecking, sampleLock] at label
  · rintro id queue token same ⟨request, found, checking⟩ _
    obtain rfl := Label.check.inj same
    rw [found] at checked
    obtain ⟨rfl, rfl⟩ := Prod.mk.inj (Option.some.inj (checking.symm.trans checked))
    exact ⟨middle.now, held, Nat.lt_add_of_pos_right (by decide), published⟩
  · intro transition member
    have label := label_mem labels' member
    apply timely_of_label <;> rintro _ same <;> simp [same] at label

/-- The first client's call has passed its check when its lock times out; the second
client is granted the lock, and then the first one's transaction is stored. -/
theorem not_serialized_of_timeout :
    ∃ (trace : List (Transition State (Label samplePallas))) (final : State),
      Run (Step sampleQueues) (State.initial .empty 0) trace final ∧ ¬ Serialized trace := by
  have reached : ((follow (State.exec sampleQueues) (State.initial .empty 0)
      (sampleLock 1 "aaaaaaaa" ++ [.worker "banana" .deliver] ++
        sampleSubmission 0 [sampleRequest 1 "aaaaaaaa"] ++
        [.tick lockTimeout, .worker "banana" .timeout, .worker "banana" .remove] ++
        sampleLock 2 "bbbbbbbb" ++ [.worker "banana" .deliver])).bind fun middle =>
      (middle.exec sampleQueues (.create 0 : Label samplePallas)).map fun final =>
        (middle.locks.tokens "banana", middle.accepted, final.accepted)) =
      some (some "bbbbbbbb", [], [(0, "banana", "aaaaaaaa")]) := by
    decide +kernel
  obtain ⟨middle, followed, later⟩ := Option.bind_eq_some_iff.mp reached
  obtain ⟨final, executed, seen⟩ := Option.map_eq_some_iff.mp later
  simp only [Prod.mk.injEq] at seen
  obtain ⟨published, before, after⟩ := seen
  obtain ⟨trace, run, _⟩ := Run.of_follow (step_of_exec sampleQueues) followed
  have created := step_of_exec sampleQueues _ _ _ executed
  refine ⟨_, final, run.snoc created, fun serialized => ?_⟩
  have completes : Completes "banana" "aaaaaaaa" middle (.create 0 : Label samplePallas) := by
    have stored : (0, "banana", "aaaaaaaa") ∈ final.accepted := by simp [after]
    rcases created.accepted_cases stored with earlier | ⟨_, pending⟩
    · simp [before] at earlier
    · exact ⟨0, rfl, pending⟩
  obtain ⟨since, _, _, current⟩ :=
    serialized.current _ (List.mem_append_right _ List.mem_cons_self) "banana" "aaaaaaaa" completes
  simp [published] at current

end Boros.Server.Locking
