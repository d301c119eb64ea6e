import Boros.Server.Locking

/-!
# Stability of a granted lock

A call sends one unlock signal for every transaction it had for a chained queue,
but a lock is released by one; the others wait in the channel for the next lock.
`grantStable_of_quiet` says that a lock stays with its client until the client's
call has stored its transactions, or the timeout, in every run in which no signal is
left when a token is handed out.
-/

namespace Boros.Server.Locking

open Boros.Data Boros.Semantics Boros.Storage Boros.Ledger Boros.Queue Boros.Queue.Chaining
open Boros.Server.Submit

variable {pallas : Pallas} {queues : Configs} {state next start final : State}
  {label : Label pallas} {queue token : String} {since : Nat}
  {trace : List (Transition State (Label pallas))}

/-- Lock grant stability. Once a token was delivered, and until a call which was
accepted under it has completed its `create` or the timeout has elapsed, the worker
holds the lock under this token and the token is valid. -/
def GrantStable (trace : List (Transition State (Label pallas))) (final : State) : Prop :=
  ∀ first grant second queue client token cbor,
    trace = first ++ grant :: second → grant.label = .worker queue .deliver →
    grant.before.locks.workers queue = .delivering client token cbor →
    (∀ later ∈ second, ¬ Completes queue token later.before later.label) →
    final.now < grant.before.now + lockTimeout →
    final.locks.workers queue = .held token grant.before.now ∧
      final.locks.isValidToken queue token

/-- When a token is delivered, no unlock signal for the queue is in the channel, and no
call has one to send or may come to have one. -/
def Quiet (state : State) (label : Label pallas) : Prop :=
  ∀ queue, label = .worker queue .deliver → state.locks.unlocks queue = 0 ∧
    ∀ id, ¬ state.Signalling id queue ∧ ∀ token, ¬ state.Pending id queue token

/-- The lock of the queue is held under the token, and only calls which were accepted
under it can release it. -/
structure Granted (queue token : String) (since : Nat) (state : State) : Prop where
  held : state.locks.workers queue = .held token since
  published : state.locks.tokens queue = some token
  unsignalled : state.locks.unlocks queue = 0
  notSignalling : ∀ id, ¬ state.Signalling id queue
  pending : ∀ id other, state.Pending id queue other → other = token

/-- The worker of a granted lock waits until the timeout. -/
theorem Granted.not_workerStep {taken : WorkerLabel} {locks : Locks}
    (granted : Granted queue token since state) (early : state.now < since + lockTimeout) :
    ¬ WorkerStep state.db state.now queue state.locks taken locks := by
  intro step
  rcases step.of_held granted.held with ⟨_, signal⟩ | ⟨_, elapsed⟩
  · have unsignalled := granted.unsignalled
    omega
  · omega

/-- A granted lock stays granted, but for the timeout and the `create` of a call which
was accepted under it. -/
theorem Step.granted (step : Step queues state label next)
    (ongoing : ¬ Completes queue token state label)
    (granted : state.now < since + lockTimeout → Granted queue token since state)
    (early : next.now < since + lockTimeout) : Granted queue token since next := by
  have before : state.now < since + lockTimeout := lt_of_le_of_lt step.now_le early
  have here : Granted queue token since state := granted before
  rcases step.lock_cases queue with ⟨tokens, workers⟩ | ⟨_, _, _, workerStep⟩
  · refine ⟨workers.trans here.held, tokens.trans here.published, ?_, ?_, ?_⟩
    · rcases step.unlocks_cases queue with same | ⟨id, signalling⟩ | ⟨signalled, _⟩
      · rw [same, here.unsignalled]
      · exact absurd signalling (here.notSignalling id)
      · rw [here.unsignalled] at signalled
        omega
    · intro id signalling
      rcases step.signalling signalling with earlier | ⟨created, other, pending⟩
      · exact here.notSignalling id earlier
      · rw [here.pending id other pending] at pending
        exact ongoing ⟨id, created, pending⟩
    · intro id other pending
      rcases step.pending pending with earlier | ⟨_, _, current⟩
      · exact here.pending id other earlier
      · exact Option.some.inj (current.symm.trans here.published)
  · exact absurd workerStep (here.not_workerStep before)

/-- In every run in which no unlock signal is left when a token is delivered, a lock is
released by the calls which were accepted under its token, or by the timeout. -/
theorem grantStable_of_quiet (db : Db) (now : Nat)
    (run : Run (Step queues) (State.initial db now) trace final) (quiet : Guarded Quiet trace) :
    GrantStable trace final := by
  rintro first grant second queue client token cbor rfl delivered worker ongoing early
  obtain ⟨prior, step, rest⟩ := run.around
  rw [delivered] at step
  obtain ⟨signals, calls⟩ :=
    quiet grant (List.mem_append_right _ List.mem_cons_self) queue delivered
  have granted : Granted queue token grant.before.now grant.after := by
    have published : grant.before.locks.tokens queue = some token :=
      published_of_run prior queue token (by rw [worker]; rfl)
    generalize grant.after = after at step
    cases step with
    | worker _ _ step =>
        cases step with
        | deliver delivering =>
            obtain ⟨rfl, rfl, rfl⟩ := Worker.delivering.inj (delivering.symm.trans worker)
            exact ⟨Function.update_self _ _ _, published, signals, fun id => (calls id).1,
              fun id other pending => absurd pending ((calls id).2 other)⟩
  have preserved : Preserved (@Step pallas queues)
      (fun state label => ¬ Completes queue token state label)
      (fun state => state.now < grant.before.now + lockTimeout →
        Granted queue token grant.before.now state) := by
    intro state label next granted ongoing step
    exact step.granted ongoing granted
  have holds := rest.invariant preserved (fun _ => granted) ongoing early
  exact ⟨holds.held, Locks.isValidToken_iff.mpr holds.published⟩

/-- The lock of a first client, whose token has just been delivered. -/
theorem grantStable_of_quiet_sample :
    ∃ (trace : List (Transition State (Label samplePallas))) (final : State),
      Run (Step sampleQueues) (State.initial .empty 0) trace final ∧ GrantStable trace final ∧
        final.locks.isValidToken "banana" "aaaaaaaa" := by
  obtain ⟨middle, final, followed, delivered, published, signals, requests⟩ :
      ∃ middle final : State,
        follow (State.exec sampleQueues) (State.initial .empty 0) (sampleLock 1 "aaaaaaaa") =
            some middle ∧
          Step sampleQueues middle (.worker "banana" .deliver : Label samplePallas) final ∧
          final.locks.tokens "banana" = some "aaaaaaaa" ∧ middle.locks.unlocks "banana" = 0 ∧
          middle.requests = fun _ => none :=
    ⟨_, _, rfl, .worker "banana" rfl (.deliver rfl), rfl, rfl, rfl⟩
  obtain ⟨trace, run, labels⟩ := Run.of_follow (step_of_exec sampleQueues) followed
  refine ⟨_, final, run.snoc delivered, grantStable_of_quiet .empty 0 (run.snoc delivered) ?_,
    Locks.isValidToken_iff.mpr published⟩
  rw [guarded_append, guarded_cons]
  refine ⟨?_, ?_, guarded_nil _⟩
  · intro transition member queue delivers
    have label := label_mem labels member
    rw [delivers] at label
    simp [sampleLock] at label
  · rintro queue delivers
    obtain ⟨rfl, _⟩ := Label.worker.inj delivers
    exact ⟨signals, fun id => State.idle_of_none (congrFun requests id) _⟩

/-- A call with two transactions was granted the lock, stored them and released the lock
with its first signal; the next client is about to be sent its token. -/
def sampleLeftover : List (Label samplePallas) :=
  sampleLock 1 "aaaaaaaa" ++ [.worker "banana" .deliver] ++
    sampleSubmission 0 [sampleRequest 1 "aaaaaaaa", sampleRequest 2 "aaaaaaaa"] ++
    [.create 0, .unlock 0, .worker "banana" .unlock, .worker "banana" .remove] ++
    sampleLock 2 "bbbbbbbb"

/-- The token is delivered, and the second signal releases the lock. -/
def sampleRelease : List (Label samplePallas) :=
  [.worker "banana" .deliver, .unlock 0, .worker "banana" .unlock, .worker "banana" .remove]

/-- A call with two transactions sends two unlock signals, of which the second releases
the lock of the next client as soon as it is granted. -/
theorem not_grantStable_of_leftover :
    ∃ (trace : List (Transition State (Label samplePallas))) (final : State),
      Run (Step sampleQueues) (State.initial .empty 0) trace final ∧
        ¬ GrantStable trace final := by
  have reached : ((follow (State.exec sampleQueues) (State.initial .empty 0) sampleLeftover).bind
      fun middle => (follow (State.exec sampleQueues) middle sampleRelease).map fun final =>
        (middle.locks.workers "banana", middle.now, final.now, final.locks.tokens "banana")) =
      some (.delivering 2 "bbbbbbbb" (some [2]), 2, 2, none) := by
    decide +kernel
  obtain ⟨middle, followed, later⟩ := Option.bind_eq_some_iff.mp reached
  obtain ⟨final, followed', seen⟩ := Option.map_eq_some_iff.mp later
  simp only [Prod.mk.injEq] at seen
  obtain ⟨delivering, before, after, removed⟩ := seen
  obtain ⟨first, run, _⟩ := Run.of_follow (step_of_exec sampleQueues) followed
  obtain ⟨rest, run', labels⟩ := Run.of_follow (step_of_exec sampleQueues) followed'
  cases run' with
  | nil => cases labels
  | @cons _ label after second _ grant later =>
      obtain ⟨delivered, labels⟩ := List.cons.inj labels
      refine ⟨_, final, run.append (.cons grant later), fun stable => ?_⟩
      have ongoing : ∀ transition ∈ second,
          ¬ Completes "banana" "bbbbbbbb" transition.before transition.label := by
        rintro transition member ⟨id, created, _⟩
        have label := label_mem labels member
        simp [created] at label
      have early : final.now < middle.now + lockTimeout := by
        unfold lockTimeout
        omega
      obtain ⟨_, valid⟩ := stable first ⟨middle, label, after⟩ second "banana" 2 "bbbbbbbb" _ rfl
        delivered delivering ongoing early
      rw [Locks.isValidToken_iff, removed] at valid
      cases valid

end Boros.Server.Locking
