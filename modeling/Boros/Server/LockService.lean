import Boros.Semantics.Flow
import Boros.Server.Locking

/-!
# The lock service

`lock_state` puts a client into the channel of its queue, whose worker takes one client after
the other, and answers it with the lock, or with an error. `answered_in_order` says that none
is lost, answered twice or overtaken; `released_between` that the lock changes hands only after
an unlock signal or the timeout; and `answered_in_time` how long a client waits for a worker
which loses no time of its own.
-/

namespace Boros.Queue.Chaining

open Boros.Data Boros.Semantics Boros.Storage

/-- `Status::invalid_argument`. -/
structure InvalidArgument where
  message : String
deriving DecidableEq, Repr

/-- `TxChaining::lock`, once the queue's channel has room: the error is the text with which it
bails out. -/
def Locks.lock (queues : Configs) (locks : Locks) (client : Nat) (queue : String) :
    Except String Locks :=
  if isChainedQueue queues queue then
    .ok (locks.setLockRequests queue (locks.lockRequests queue ++ [client]))
  else .error "Invalid queue"

/-- `lock_state`, up to the stream of answers which it returns. -/
def Locks.lockState (queues : Configs) (locks : Locks) (client : Nat) (queue : String) :
    Except InvalidArgument Locks :=
  if !isChainedQueue queues queue then .error ⟨"queue is not chained"⟩
  else
    match locks.lock queues client queue with
    | .ok locks => .ok locks
    | .error _ => .error ⟨"invalid queue request"⟩

/-- A request is refused for a queue which is not chained, and for no other reason. -/
theorem Locks.lockState_eq (queues : Configs) (locks : Locks) (client : Nat) (queue : String) :
    locks.lockState queues client queue =
      if isChainedQueue queues queue then
        .ok (locks.setLockRequests queue (locks.lockRequests queue ++ [client]))
      else .error ⟨"queue is not chained"⟩ := by
  unfold lockState lock
  cases isChainedQueue queues queue <;> rfl

/-- What a client is answered. -/
inductive Answer where
  /-- `LockStateResponse`. -/
  | granted (token : String) (cbor : Option Bytes)
  /-- `Status::internal`: the latest transaction could not be read. -/
  | failed
  /-- The client was gone. -/
  | gone
deriving DecidableEq, Repr

/-- The client whose request was taken out of the channel and not answered yet. -/
def Worker.client : Worker → Option Nat
  | .publishing client _ => some client
  | .reading client _ => some client
  | .delivering client _ _ => some client
  | _ => none

/-- Whom a step of the worker answers, and what. -/
def Worker.answer : Worker → WorkerLabel → Option (Nat × Answer)
  | .reading client _, .latestFail => some (client, .failed)
  | .delivering client token cbor, .deliver => some (client, .granted token cbor)
  | .delivering client _ _, .disconnect => some (client, .gone)
  | _, _ => none

/-- The clients which were not answered yet, in the order in which they came. -/
def Locks.waiting (locks : Locks) (queue : String) : List Nat :=
  (locks.workers queue).client.toList ++ locks.lockRequests queue

/-- How long the lock may still be held. -/
def Worker.holdLeft (now : Nat) : Worker → Nat
  | .held _ since => since + lockTimeout - now
  | _ => 0

variable {db : Db} {now : Nat} {queue other : String} {locks after : Locks} {label : WorkerLabel}

@[simp]
theorem Locks.setToken_lockRequests (token : Option String) :
    (locks.setToken queue token).lockRequests = locks.lockRequests := rfl

@[simp]
theorem Locks.setWorker_lockRequests (worker : Worker) :
    (locks.setWorker queue worker).lockRequests = locks.lockRequests := rfl

@[simp]
theorem Locks.setUnlocks_lockRequests (count : Nat) :
    (locks.setUnlocks queue count).lockRequests = locks.lockRequests := rfl

/-- The worker of one queue does not take the requests for another. -/
theorem WorkerStep.other_lockRequests (step : WorkerStep db now queue locks label after)
    (apart : other ≠ queue) : after.lockRequests other = locks.lockRequests other := by
  cases step <;> simp [Locks.setLockRequests, apart]

/-- A step of the worker answers the first of those which wait, or nobody. -/
theorem WorkerStep.waiting (step : WorkerStep db now queue locks label after) :
    locks.waiting queue =
      ((locks.workers queue).answer label).toList.map Prod.fst ++ after.waiting queue := by
  cases step with
  | receive _ _ worker request =>
      simp [Locks.waiting, worker, request, Worker.client, Worker.answer, Locks.setLockRequests]
  | publish worker | latest worker | latestFail worker | deliver worker | disconnect worker
  | unlock worker | timeout worker | remove worker =>
      simp [Locks.waiting, worker, Worker.client, Worker.answer]

/-- The time for which a lock may be held is given with the lock. -/
theorem WorkerStep.holdLeft (step : WorkerStep db now queue locks label after) :
    (after.workers queue).holdLeft now ≤ (locks.workers queue).holdLeft now +
      lockTimeout * ((locks.workers queue).answer label).toList.length := by
  cases step with
  | deliver worker => simp [worker, Worker.holdLeft, Worker.answer]
  | _ => simp [Worker.holdLeft]

end Boros.Queue.Chaining

namespace Boros.Server.Locking

open Boros.Data Boros.Semantics Boros.Storage Boros.Ledger Boros.Queue Boros.Queue.Chaining
open Boros.Server.Submit

variable {pallas : Pallas} {queues : Configs} {state next start final : State}
  {label : Label pallas} {queue : String} {trace prior : List (Transition State (Label pallas))}
  {db : Db} {now : Nat}

/-! ## In order -/

/-- The client which a step puts into the channel of a queue. -/
def arrivals (queue : String) (transition : Transition State (Label pallas)) : List Nat :=
  match transition.label with
  | .lock client other => if other = queue then [client] else []
  | _ => []

/-- The client which a step answers, and what. -/
def answers (queue : String) (transition : Transition State (Label pallas)) :
    List (Nat × Answer) :=
  match transition.label with
  | .worker other taken =>
    if other = queue then ((transition.before.locks.workers queue).answer taken).toList else []
  | _ => []

/-- A step answers the clients of a queue in the order in which they came. -/
theorem Step.waiting (step : Step queues state label next) (queue : String) :
    state.locks.waiting queue ++ arrivals queue ⟨state, label, next⟩ =
      (answers queue ⟨state, label, next⟩).map Prod.fst ++ next.locks.waiting queue := by
  cases step with
  | lock client other _ _ =>
      by_cases same : other = queue
      · subst same
        simp [arrivals, answers, Locks.waiting, Locks.setLockRequests]
      · simp [arrivals, answers, Locks.waiting, Locks.setLockRequests, same, Ne.symm same]
  | worker other _ step =>
      by_cases same : other = queue
      · subst same
        simpa [arrivals, answers] using step.waiting
      · obtain ⟨_, workers, _⟩ := step.other (Ne.symm same)
        have requests := step.other_lockRequests (Ne.symm same)
        simp [arrivals, answers, same, Locks.waiting, workers, requests]
  | tick | store | submit | examine | check | create | createFail | answer =>
      simp [arrivals, answers, State.setRequest]
  | unlock =>
      simp [arrivals, answers, Locks.waiting]

/-- The clients of a queue, from the channel to their answers. -/
def clientFlow (queues : Configs) (queue : String) :
    Flow (@Step pallas queues) (fun _ _ => True) (fun _ => True) Nat where
  held state := state.locks.waiting queue
  incoming := arrivals queue
  outgoing transition := (answers queue transition).map Prod.fst
  preserved _ _ _ _ _ _ := trivial
  balanced _ _ _ _ _ step := step.waiting queue

/-- In every run the clients of a queue are answered one by one, in the order in which their
requests came in, and those which were not answered are in hand or wait in that order. -/
theorem answered_in_order (run : Run (Step queues) (State.initial db now) trace final)
    (queue : String) :
    trace.flatMap (arrivals queue) =
      (trace.flatMap (answers queue)).map Prod.fst ++ final.locks.waiting queue := by
  have conserved := (clientFlow queues queue).run run trivial fun _ _ => trivial
  rw [List.map_flatMap]
  exact conserved

/-- Two clients ask for a lock, and the first is given it. -/
def sampleClients : List (Label samplePallas) :=
  .lock 1 "banana" :: .lock 2 "banana" :: (sampleLock 1 "aaaaaaaa").tail ++
    [.worker "banana" .deliver]

theorem sampleClients_run : ∃ (trace : List (Transition State (Label samplePallas)))
    (final : State), Run (Step sampleQueues) (State.initial .empty 0) trace final ∧
      trace.map Transition.label = sampleClients ∧ final.now = 0 ∧
      final.locks.waiting "banana" = [2] ∧ final.locks.workers "banana" = .held "aaaaaaaa" 0 := by
  have reached : (follow (State.exec sampleQueues) (State.initial .empty 0) sampleClients).map
      (fun final => (final.now, final.locks.waiting "banana", final.locks.workers "banana")) =
        some (0, [2], .held "aaaaaaaa" 0) := by
    decide +kernel
  obtain ⟨final, followed, seen⟩ := Option.map_eq_some_iff.mp reached
  obtain ⟨trace, run, labels⟩ := Run.of_follow (step_of_exec sampleQueues) followed
  simp only [Prod.mk.injEq] at seen
  exact ⟨trace, final, run, labels, seen.1, seen.2.1, seen.2.2⟩

/-- One of two clients was answered. -/
theorem answered_in_order_sample :
    ∃ (trace : List (Transition State (Label samplePallas))) (final : State),
      Run (Step sampleQueues) (State.initial .empty 0) trace final ∧
        trace.flatMap (arrivals "banana") =
          (trace.flatMap (answers "banana")).map Prod.fst ++ [2] := by
  obtain ⟨trace, final, run, _, _, waiting, _⟩ := sampleClients_run
  have ordered := answered_in_order run "banana"
  rw [waiting] at ordered
  exact ⟨trace, final, run, ordered⟩

/-! ## One at a time -/

/-- The lock of a queue which was granted at some time is released in the steps of a trace: the
worker receives an unlock signal, or the timeout has elapsed, and then removes the token. -/
def Released (queue : String) (granted : Nat)
    (trace : List (Transition State (Label pallas))) : Prop :=
  ∃ first release second removal third,
    trace = first ++ release :: (second ++ removal :: third) ∧
      (release.label = .worker queue .unlock ∧ 0 < release.before.locks.unlocks queue ∨
        release.label = .worker queue .timeout ∧ granted + lockTimeout ≤ release.before.now) ∧
      removal.label = .worker queue .remove ∧ removal.after.locks.tokens queue = none

/-- A worker which is removing a token does so in its next step. -/
theorem WorkerStep.of_releasing {locks after : Locks} {taken : WorkerLabel}
    (step : WorkerStep db now queue locks taken after)
    (releasing : locks.workers queue = .releasing) :
    taken = .remove ∧ after.tokens queue = none := by
  cases step with
  | remove => exact ⟨rfl, by simp⟩
  | receive _ _ worker | publish worker | latest worker | latestFail worker | deliver worker
  | disconnect worker | unlock worker | timeout worker =>
      rw [releasing] at worker
      cases worker

/-- A lock which is held is released by a signal or by the timeout. -/
theorem Step.release_of_held {token : String} {since : Nat} (step : Step queues state label next)
    (held : state.locks.workers queue = .held token since)
    (changed : next.locks.workers queue ≠ .held token since) :
    next.locks.workers queue = .releasing ∧
      (label = .worker queue .unlock ∧ 0 < state.locks.unlocks queue ∨
        label = .worker queue .timeout ∧ since + lockTimeout ≤ state.now) := by
  rcases step.lock_cases queue with ⟨_, same⟩ | ⟨taken, rfl, _, workerStep⟩
  · exact absurd (same.trans held) changed
  · rcases workerStep.of_held held with ⟨rfl, signal⟩ | ⟨rfl, elapsed⟩
    · refine ⟨?_, .inl ⟨rfl, signal⟩⟩
      generalize next.locks = after at workerStep
      cases workerStep
      simp
    · refine ⟨?_, .inr ⟨rfl, elapsed⟩⟩
      generalize next.locks = after at workerStep
      cases workerStep
      simp

/-- A token which is about to be removed is removed. -/
theorem Step.removal_of_releasing (step : Step queues state label next)
    (releasing : state.locks.workers queue = .releasing)
    (changed : next.locks.workers queue ≠ .releasing) :
    label = .worker queue .remove ∧ next.locks.tokens queue = none := by
  rcases step.lock_cases queue with ⟨_, same⟩ | ⟨taken, rfl, _, workerStep⟩
  · exact absurd (same.trans releasing) changed
  · obtain ⟨rfl, removed⟩ := WorkerStep.of_releasing workerStep releasing
    exact ⟨rfl, removed⟩

/-- The lock is held as soon as it is granted. -/
theorem Step.held_of_deliver
    (step : Step queues state (.worker queue .deliver : Label pallas) next) :
    ∃ client token cbor, state.locks.workers queue = .delivering client token cbor ∧
      next.locks.workers queue = .held token state.now := by
  cases step with
  | worker _ _ step =>
      cases step with
      | @deliver client token cbor worker =>
          exact ⟨client, token, cbor, worker, by simp⟩

/-- Between two grants of a queue's lock, in any run, the first is released. -/
theorem released_between {first between rest : List (Transition State (Label pallas))}
    {grant again : Transition State (Label pallas)}
    (run : Run (Step queues) start (first ++ grant :: (between ++ again :: rest)) final)
    (granted : grant.label = .worker queue .deliver)
    (regranted : again.label = .worker queue .deliver) :
    Released queue grant.before.now between := by
  obtain ⟨_, grants, later⟩ := run.around
  obtain ⟨during, grantsAgain, _⟩ := later.around
  rw [granted] at grants
  rw [regranted] at grantsAgain
  obtain ⟨_, token, _, _, held⟩ := grants.held_of_deliver
  obtain ⟨_, _, _, delivering, _⟩ := grantsAgain.held_of_deliver
  obtain ⟨before, release, after, rfl, wasHeld, given⟩ :=
    during.split_of_change (P := fun state =>
        state.locks.workers queue ≠ .held token grant.before.now) (by simp [held])
      (by simp [delivering])
  obtain ⟨_, releases, during⟩ := during.around
  obtain ⟨releasing, cause⟩ := releases.release_of_held (not_not.mp wasHeld) given
  obtain ⟨waits, removal, after, rfl, wasReleasing, gone⟩ :=
    during.split_of_change (P := fun state => state.locks.workers queue ≠ .releasing)
      (by simp [releasing]) (by simp [delivering])
  obtain ⟨_, removes, _⟩ := during.around
  obtain ⟨removed, absent⟩ := removes.removal_of_releasing (not_not.mp wasReleasing) gone
  exact ⟨before, release, waits, removal, after, rfl, cause, removed, absent⟩

/-- The first client of two does not submit anything, and the second is about to be granted the
lock after the timeout. -/
def sampleHandover : List (Label samplePallas) :=
  [.lock 2 "banana", .tick 30000, .worker "banana" .timeout, .worker "banana" .remove] ++
    (sampleLock 2 "bbbbbbbb").tail

/-- The lock passes from one client to the next. -/
theorem released_between_sample :
    ∃ (first between : List (Transition State (Label samplePallas)))
      (grant again : Transition State (Label samplePallas)),
      Run (Step sampleQueues) (State.initial .empty 0) (first ++ grant :: (between ++ [again]))
          again.after ∧
        again.before.locks.workers "banana" = .delivering 2 "bbbbbbbb" none ∧
        Released "banana" grant.before.now between := by
  have reached : ((follow (State.exec sampleQueues) (State.initial .empty 0)
      (sampleLock 1 "aaaaaaaa")).bind fun asked =>
        (State.exec sampleQueues asked (.worker "banana" .deliver : Label samplePallas)).bind
          fun granted => (follow (State.exec sampleQueues) granted sampleHandover).map
            fun later => later.locks.workers "banana") =
      some (.delivering 2 "bbbbbbbb" none) := by
    decide +kernel
  obtain ⟨asked, followed, rest⟩ := Option.bind_eq_some_iff.mp reached
  obtain ⟨granted, delivered, rest⟩ := Option.bind_eq_some_iff.mp rest
  obtain ⟨later, followed', delivering⟩ := Option.map_eq_some_iff.mp rest
  obtain ⟨first, prior, _⟩ := Run.of_follow (step_of_exec sampleQueues) followed
  obtain ⟨between, during, _⟩ := Run.of_follow (step_of_exec sampleQueues) followed'
  have grants := step_of_exec sampleQueues _ _ _ delivered
  have again : Step sampleQueues later (.worker "banana" .deliver : Label samplePallas) _ :=
    .worker "banana" rfl (.deliver delivering)
  have run := prior.append (.cons grants (during.append (.cons again .nil)))
  exact ⟨first, between, _, _, run, delivering, released_between run rfl rfl⟩

/-! ## In time -/

/-- While a client of the queue waits, time passes only as the lock is held, and not beyond its
timeout: the worker loses no time of its own. -/
def Prompt (queue : String) (state : State) (label : Label pallas) : Prop :=
  ∀ elapsed, label = .tick elapsed → state.locks.waiting queue = [] ∨
    ∃ token since, state.locks.workers queue = .held token since ∧
      state.now + elapsed ≤ since + lockTimeout

/-- When the lock of the queue is released at the latest, if it is held. -/
def State.horizon (state : State) (queue : String) : Nat :=
  state.now + (state.locks.workers queue).holdLeft state.now

/-- A prompt step puts the end of the lock off by the timeout for each client it answers. -/
theorem Step.horizon (step : Step queues state label next) (prompt : Prompt queue state label)
    (waits : state.locks.waiting queue ≠ []) :
    next.horizon queue ≤
      state.horizon queue + lockTimeout * (answers queue ⟨state, label, next⟩).length := by
  cases step with
  | tick elapsed =>
      rcases prompt elapsed rfl with none | ⟨token, since, held, early⟩
      · exact absurd none waits
      · simp only [State.horizon, held, Worker.holdLeft]
        omega
  | worker other _ step =>
      by_cases same : other = queue
      · subst same
        have given := step.holdLeft
        simp only [State.horizon, State.setLocks, answers, if_true]
        omega
      · obtain ⟨_, workers, _⟩ := step.other (Ne.symm same)
        simp [State.horizon, State.setLocks, workers]
  | _ => exact Nat.le_add_right _ _

/-- A client with a number of others before it is answered after these, or has moved up. -/
theorem Step.moves_up (step : Step queues state label next) {index client : Nat}
    (waits : (state.locks.waiting queue)[index]? = some client) :
    (∃ answer, (answers queue ⟨state, label, next⟩)[index]? = some (client, answer)) ∨
      (answers queue ⟨state, label, next⟩).length ≤ index ∧
        (next.locks.waiting queue)[index - (answers queue ⟨state, label, next⟩).length]? =
          some client := by
  have order := step.waiting queue
  generalize answers queue ⟨state, label, next⟩ = first at order ⊢
  have found : (first.map Prod.fst ++ next.locks.waiting queue)[index]? = some client := by
    obtain ⟨inside, _⟩ := List.getElem?_eq_some_iff.mp waits
    rw [← order, List.getElem?_append_left inside, waits]
  by_cases answered : index < first.length
  · rw [List.getElem?_append_left (by simpa using answered), List.getElem?_map] at found
    obtain ⟨⟨_, answer⟩, here, rfl⟩ := Option.map_eq_some_iff.mp found
    exact .inl ⟨answer, here⟩
  · have behind : first.length ≤ index := Nat.le_of_not_lt answered
    rw [List.getElem?_append_right (by simpa using behind), List.length_map] at found
    exact .inr ⟨behind, found⟩

theorem waiting_ne_nil {index client : Nat}
    (waits : (state.locks.waiting queue)[index]? = some client) :
    state.locks.waiting queue ≠ [] := by
  rintro none
  rw [none] at waits
  cases waits

/-- As the clients before it are answered, a client has as much less to wait. -/
theorem Step.horizon_le (step : Step queues state label next) (prompt : Prompt queue state label)
    {index client : Nat} (waits : (state.locks.waiting queue)[index]? = some client)
    (behind : (answers queue ⟨state, label, next⟩).length ≤ index) :
    next.horizon queue +
        lockTimeout * (index - (answers queue ⟨state, label, next⟩).length) ≤
      state.horizon queue + lockTimeout * index := by
  have within := step.horizon prompt (waiting_ne_nil waits)
  have split : lockTimeout * index =
      lockTimeout * (answers queue ⟨state, label, next⟩).length +
        lockTimeout * (index - (answers queue ⟨state, label, next⟩).length) := by
    rw [← Nat.mul_add, Nat.add_sub_of_le behind]
  omega

/-- A client with a number of others before it is answered before each of them has held the
lock for as long as it may. -/
theorem answered_of_horizon (run : Run (Step queues) start trace final)
    (prompt : Guarded (Prompt queue) trace) {index client : Nat}
    (waits : (start.locks.waiting queue)[index]? = some client)
    (late : start.horizon queue + lockTimeout * index < final.now) :
    ∃ answer, (trace.flatMap (answers queue))[index]? = some (client, answer) := by
  induction run generalizing index with
  | nil =>
      unfold State.horizon at late
      omega
  | @cons start label middle trace final step rest ih =>
      rw [guarded_cons] at prompt
      rw [List.flatMap_cons]
      rcases step.moves_up waits with ⟨answer, answered⟩ | ⟨behind, moved⟩
      · obtain ⟨inside, _⟩ := List.getElem?_eq_some_iff.mp answered
        exact ⟨answer, by rw [List.getElem?_append_left inside, answered]⟩
      · have less := step.horizon_le prompt.1 waits behind
        rw [List.getElem?_append_right behind]
        exact ih prompt.2 moved (by omega)

/-- A lock which is held was granted before. -/
def SinceBefore (state : State) : Prop :=
  ∀ queue token since, state.locks.workers queue = .held token since → since ≤ state.now

theorem Step.sinceBefore (step : Step queues state label next) (before : SinceBefore state) :
    SinceBefore next := by
  intro queue token since held
  have later := step.now_le
  rcases step.lock_cases queue with ⟨_, same⟩ | ⟨taken, rfl, now, workerStep⟩
  · exact Nat.le_trans (before queue token since (same.symm.trans held)) later
  · generalize next.locks = after at workerStep held
    cases workerStep with
    | deliver =>
        rw [Locks.setWorker_workers, Function.update_self] at held
        obtain ⟨_, rfl⟩ := Worker.held.inj held
        exact later
    | _ => simp at held

/-- In every state which is reached, a lock is released within the timeout. -/
theorem horizon_le_of_run (run : Run (Step queues) (State.initial db now) trace state)
    (queue : String) : state.horizon queue ≤ state.now + lockTimeout := by
  have preserved : Preserved (@Step pallas queues) (fun _ _ => True) SinceBefore :=
    fun _ _ _ before _ step => step.sinceBefore before
  have initial : SinceBefore (State.initial db now) := by
    intro _ _ _ held
    cases held
  have before := run.invariant preserved initial fun _ _ => trivial
  unfold State.horizon
  cases worker : state.locks.workers queue with
  | held token since =>
      have since_le := before queue token since worker
      simp only [Worker.holdLeft]
      omega
  | _ => exact Nat.add_le_add_left (Nat.zero_le _) _

/-! ## Without help -/

/-- The worker of the queue takes a step, or time passes. -/
def Alone (queue : String) : Label pallas → Prop
  | .tick _ => True
  | .worker other _ => other = queue
  | _ => False

/-- How many steps the worker of the queue needs at most to answer everybody who waits. -/
def State.distance (state : State) (queue : String) : Nat :=
  (match state.locks.workers queue with
    | .waiting => 0
    | .releasing => 1
    | .held _ since => if since + lockTimeout ≤ state.now then 2 else 3
    | .delivering _ _ _ => 4
    | .reading _ _ => 5
    | .publishing _ _ => 6) + 7 * (state.locks.lockRequests queue).length

/-- While a client waits, the worker can take its next step, or waits for the timeout of the
lock only. -/
theorem exists_step_of_waiting (chained : isChainedQueue queues queue)
    (waits : state.locks.waiting queue ≠ []) :
    ∃ (label : Label pallas) (next : State), Step queues state label next ∧
      Prompt queue state label ∧ Alone queue label ∧
      next.distance queue < state.distance queue := by
  have unhurried (taken : WorkerLabel) :
      Prompt queue state (.worker queue taken : Label pallas) := fun _ tick => by cases tick
  cases worker : state.locks.workers queue with
  | waiting =>
      obtain ⟨client, rest, request⟩ : ∃ client rest,
          state.locks.lockRequests queue = client :: rest := by
        apply List.exists_cons_of_ne_nil
        simpa [Locks.waiting, worker, Worker.client] using waits
      refine ⟨_, _, .worker queue chained (.receive "aaaaaaaa" (by decide) worker request),
        unhurried _, rfl, ?_⟩
      simp [State.distance, worker, request, Locks.setLockRequests]
      omega
  | publishing client token =>
      refine ⟨_, _, .worker queue chained (.publish worker), unhurried _, rfl, ?_⟩
      simp [State.distance, worker]
  | reading client token =>
      cases read : state.db.latest queue with
      | ok latest =>
          refine ⟨_, _, .worker queue chained (.latest worker read), unhurried _, rfl, ?_⟩
          simp [State.distance, worker]
      | error cause =>
          refine ⟨_, _, .worker queue chained (.latestFail worker), unhurried _, rfl, ?_⟩
          simp [State.distance, worker]
  | delivering client token cbor =>
      refine ⟨_, _, .worker queue chained (.deliver worker), unhurried _, rfl, ?_⟩
      have fresh : ¬ state.now + lockTimeout ≤ state.now := by
        unfold lockTimeout
        omega
      simp [State.distance, worker, State.setLocks, fresh]
  | held token since =>
      by_cases elapsed : since + lockTimeout ≤ state.now
      · refine ⟨_, _, .worker queue chained (.timeout worker elapsed), unhurried _, rfl, ?_⟩
        simp [State.distance, worker, elapsed]
      · refine ⟨_, _, .tick (since + lockTimeout - state.now), ?_, trivial, ?_⟩
        · intro _ tick
          obtain rfl := Label.tick.inj tick
          exact .inr ⟨token, since, worker, by omega⟩
        · have later : since + lockTimeout ≤ state.now + (since + lockTimeout - state.now) := by
            omega
          simp [State.distance, worker, elapsed, later]
  | releasing =>
      refine ⟨_, _, .worker queue chained (.remove worker), unhurried _, rfl, ?_⟩
      simp [State.distance, worker]

/-- A client which comes into a channel asks for the lock of a chained queue. -/
theorem Step.chained_of_arrival (step : Step queues state label next) {client : Nat}
    (arrives : client ∈ arrivals queue ⟨state, label, next⟩) : isChainedQueue queues queue := by
  cases step with
  | lock asking other chained _ =>
      by_cases same : other = queue
      · exact same ▸ chained
      · simp [arrivals, same] at arrives
  | _ => cases arrives

theorem chained_of_waiting (run : Run (Step queues) (State.initial db now) trace state)
    (waits : state.locks.waiting queue ≠ []) : isChainedQueue queues queue := by
  have conserved := (clientFlow queues queue).run run trivial fun _ _ => trivial
  obtain ⟨client, waiting⟩ := List.exists_mem_of_ne_nil _ waits
  have arrived : client ∈ trace.flatMap (arrivals queue) := by
    change [] ++ trace.flatMap (arrivals queue) = _ at conserved
    rw [List.nil_append] at conserved
    rw [conserved]
    exact List.mem_append_right _ waiting
  obtain ⟨transition, member, arrives⟩ := List.mem_flatMap.mp arrived
  exact (run.step_of_mem member).chained_of_arrival arrives

/-- A client is answered by steps of the worker and the clock alone, which lose no time. -/
theorem exists_answer (chained : isChainedQueue queues queue) {index client : Nat}
    (waits : (state.locks.waiting queue)[index]? = some client) :
    ∃ (trace : List (Transition State (Label pallas))) (final : State) (answer : Answer),
      Run (Step queues) state trace final ∧
        Guarded (fun state label => Prompt queue state label ∧ Alone queue label) trace ∧
        (trace.flatMap (answers queue))[index]? = some (client, answer) ∧
        final.now ≤ state.horizon queue + lockTimeout * index := by
  induction remaining : state.distance queue using Nat.strong_induction_on
    generalizing state index with
  | _ distance ih =>
      obtain ⟨label, next, step, prompt, alone, nearer⟩ :=
        @exists_step_of_waiting pallas _ _ _ chained (waiting_ne_nil waits)
      rcases step.moves_up waits with ⟨answer, answered⟩ | ⟨behind, moved⟩
      · refine ⟨_, next, answer, .cons step .nil, ?_, by simpa using answered, ?_⟩
        · exact (guarded_cons _ _ _).mpr ⟨⟨prompt, alone⟩, guarded_nil _⟩
        · rcases step.now_cases with same | ⟨elapsed, rfl, _⟩
          · unfold State.horizon
            omega
          · cases answered
      · subst remaining
        obtain ⟨trace, final, answer, run, guarded, answered, within⟩ := ih _ nearer moved rfl
        refine ⟨_, final, answer, .cons step run, ?_, ?_,
          Nat.le_trans within (step.horizon_le prompt waits behind)⟩
        · exact (guarded_cons _ _ _).mpr ⟨⟨prompt, alone⟩, guarded⟩
        · rw [List.flatMap_cons, List.getElem?_append_right behind, answered]

/-- How long a client with `index` others before it waits: the timeout for each of them and
once more, in every run in which the worker loses no time; and such a run is there, in which
nobody but the worker does anything. -/
structure BoundedWaiting (pallas : Pallas) (queues : Configs) (queue : String) (start : State)
    (index client : Nat) : Prop where
  always : ∀ (trace : List (Transition State (Label pallas))) (final : State),
    Run (Step queues) start trace final → Guarded (Prompt queue) trace →
      start.now + lockTimeout * (index + 1) < final.now →
        ∃ answer, (trace.flatMap (answers queue))[index]? = some (client, answer)
  alone : ∃ (trace : List (Transition State (Label pallas))) (final : State) (answer : Answer),
    Run (Step queues) start trace final ∧
      Guarded (fun state label => Prompt queue state label ∧ Alone queue label) trace ∧
      (trace.flatMap (answers queue))[index]? = some (client, answer) ∧
      final.now ≤ start.now + lockTimeout * (index + 1)

/-- In every state which is reached, every client which waits for a lock has bounded waiting. -/
theorem boundedWaiting_of_run (run : Run (Step queues) (State.initial db now) trace final)
    {index client : Nat} (waits : (final.locks.waiting queue)[index]? = some client) :
    BoundedWaiting pallas queues queue final index client := by
  have released := horizon_le_of_run run queue
  have chained := chained_of_waiting run (waiting_ne_nil waits)
  constructor
  · intro trace final run prompt late
    rw [Nat.mul_succ] at late
    exact answered_of_horizon run prompt waits (by omega)
  · obtain ⟨trace, final, answer, run, guarded, answered, within⟩ := exists_answer chained waits
    refine ⟨trace, final, answer, run, guarded, answered, ?_⟩
    rw [Nat.mul_succ]
    omega

/-- The second of two clients waits for the first to lose the lock. -/
theorem boundedWaiting_of_run_sample : ∃ state : State,
    state.locks.workers "banana" = .held "aaaaaaaa" 0 ∧
      BoundedWaiting samplePallas sampleQueues "banana" state 0 2 := by
  obtain ⟨trace, final, run, _, _, waiting, held⟩ := sampleClients_run
  exact ⟨final, held, boundedWaiting_of_run run (by rw [waiting]; rfl)⟩

end Boros.Server.Locking
