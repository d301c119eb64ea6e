import Boros.Server.Submit

/-!
# Submissions under queue locks

The workers of the chained queues, any number of `submit_tx` calls and the clock,
interleaved in any order. Other stages write to the store at any time. `accepted`
records which calls stored transactions, and under which tokens.
-/

namespace Boros.Server.Locking

open Boros.Data Boros.Semantics Boros.Storage Boros.Ledger Boros.Queue Boros.Queue.Chaining
open Boros.Server.Submit

/-- The store, the clock in milliseconds, the locks, the calls by number, and the
creations under tokens so far: call, queue and token. -/
structure State where
  db : Db
  now : Nat
  locks : Locks
  requests : Nat → Option Request
  accepted : List (Nat × String × String)

/-- Nothing was locked or submitted yet. -/
def State.initial (db : Db) (now : Nat) : State := ⟨db, now, .new, fun _ => none, []⟩

def State.setLocks (state : State) (locks : Locks) : State := { state with locks := locks }

/-- What a call becomes. -/
def State.setRequest (state : State) (id : Nat) (request : Request) : State :=
  { state with requests := Function.update state.requests id (some request) }

/-- Who takes the next step. -/
inductive Label (pallas : Pallas) where
  | tick (elapsed : Nat)
  /-- Another stage writes to the store. -/
  | store (next : Db)
  /-- A client asks for the lock of a queue. -/
  | lock (client : Nat) (queue : String)
  | worker (queue : String) (label : WorkerLabel)
  /-- A `submit_tx` call comes in. -/
  | submit (id : Nat) (message : List TxRequest)
  | examine (id : Nat) (validation evaluation : U5cDataAdapter pallas)
  /-- The token map is read. -/
  | check (id : Nat)
  /-- `storage.create` succeeds. -/
  | create (id : Nat)
  /-- `storage.create` fails. -/
  | createFail (id : Nat)
  /-- An unlock signal is sent, which waits while the channel is full. -/
  | unlock (id : Nat)
  | answer (id : Nat)

variable {pallas : Pallas}

/-- One step. -/
inductive Step (queues : Configs) : State → Label pallas → State → Prop where
  | tick {state : State} (elapsed : Nat) :
      Step queues state (.tick elapsed) { state with now := state.now + elapsed }
  | store {state : State} (next : Db) : Step queues state (.store next) { state with db := next }
  | lock {state : State} (client : Nat) (queue : String)
      (chained : isChainedQueue queues queue)
      (room : (state.locks.lockRequests queue).length < lockCapacity) :
      Step queues state (.lock client queue)
        (state.setLocks
          (state.locks.setLockRequests queue (state.locks.lockRequests queue ++ [client])))
  | worker {state : State} {label locks} (queue : String) (chained : isChainedQueue queues queue)
      (step : WorkerStep state.db state.now queue state.locks label locks) :
      Step queues state (.worker queue label) (state.setLocks locks)
  | submit {state : State} (id : Nat) (message : List TxRequest)
      (free : state.requests id = none) :
      Step queues state (.submit id message) (state.setRequest id (.new message))
  | examine {state : State} {id request index remaining}
      (validation evaluation : U5cDataAdapter pallas) (found : state.requests id = some request)
      (phase : request.phase = .examining index remaining) :
      Step queues state (.examine id validation evaluation)
        (state.setRequest id
          (request.examine pallas queues validation evaluation state.now index remaining))
  | check {state : State} {id request tx hash queue token index remaining}
      (found : state.requests id = some request)
      (phase : request.phase = .checking tx hash queue token index remaining) :
      Step queues state (.check id)
        (state.setRequest id (request.check state.locks tx hash queue token index remaining))
  | create {state : State} {id request next} (found : state.requests id = some request)
      (phase : request.phase = .creating) (created : state.db.create request.txs = .ok next) :
      Step queues state (.create id)
        { state.setRequest id request.created with
          db := next
          accepted := state.accepted ++ request.passed.map fun entry => (id, entry) }
  | createFail {state : State} {id request} (found : state.requests id = some request)
      (phase : request.phase = .creating) :
      Step queues state (.createFail id)
        (state.setRequest id (request.fail .internal "internal error"))
  | unlock {state : State} {id request queue rest} (found : state.requests id = some request)
      (phase : request.phase = .unlocking (queue :: rest))
      (room : state.locks.unlocks queue < unlockCapacity) :
      Step queues state (.unlock id)
        ((state.setRequest id { request with phase := .unlocking rest }).setLocks
          (state.locks.setUnlocks queue (state.locks.unlocks queue + 1)))
  | answer {state : State} {id request} (found : state.requests id = some request)
      (phase : request.phase = .unlocking []) :
      Step queues state (.answer id)
        (state.setRequest id { request with phase := .answered (.ok request.hashes) })

/-- The step of that label, where it can be taken. -/
def State.exec (queues : Configs) (state : State) : Label pallas → Option State
  | .tick elapsed => some { state with now := state.now + elapsed }
  | .store next => some { state with db := next }
  | .lock client queue =>
    if isChainedQueue queues queue ∧ (state.locks.lockRequests queue).length < lockCapacity then
      some (state.setLocks
        (state.locks.setLockRequests queue (state.locks.lockRequests queue ++ [client])))
    else none
  | .worker queue label =>
    if isChainedQueue queues queue then
      (state.locks.exec state.db state.now queue label).map state.setLocks
    else none
  | .submit id message =>
    match state.requests id with
    | none => some (state.setRequest id (.new message))
    | some _ => none
  | .examine id validation evaluation =>
    (state.requests id).bind fun request =>
    match request.phase with
    | .examining index remaining => some (state.setRequest id
        (request.examine pallas queues validation evaluation state.now index remaining))
    | _ => none
  | .check id =>
    (state.requests id).bind fun request =>
    match request.phase with
    | .checking tx hash queue token index remaining => some (state.setRequest id
        (request.check state.locks tx hash queue token index remaining))
    | _ => none
  | .create id =>
    (state.requests id).bind fun request =>
    match request.phase, state.db.create request.txs with
    | .creating, .ok next => some
        { state.setRequest id request.created with
          db := next
          accepted := state.accepted ++ request.passed.map fun entry => (id, entry) }
    | _, _ => none
  | .createFail id =>
    (state.requests id).bind fun request =>
    match request.phase with
    | .creating => some (state.setRequest id (request.fail .internal "internal error"))
    | _ => none
  | .unlock id =>
    (state.requests id).bind fun request =>
    match request.phase with
    | .unlocking (queue :: rest) =>
      if state.locks.unlocks queue < unlockCapacity then
        some ((state.setRequest id { request with phase := .unlocking rest }).setLocks
          (state.locks.setUnlocks queue (state.locks.unlocks queue + 1)))
      else none
    | _ => none
  | .answer id =>
    (state.requests id).bind fun request =>
    match request.phase with
    | .unlocking [] =>
      some (state.setRequest id { request with phase := .answered (.ok request.hashes) })
    | _ => none

theorem step_of_exec (queues : Configs) (state : State) (label : Label pallas) (next : State)
    (executed : state.exec queues label = some next) : Step queues state label next := by
  cases label with
  | tick | store =>
      obtain rfl := Option.some.inj executed
      constructor
  | lock client queue =>
      simp only [State.exec] at executed
      split at executed
      · rename_i allowed
        obtain rfl := Option.some.inj executed
        exact .lock client queue allowed.1 allowed.2
      · cases executed
  | worker queue label =>
      simp only [State.exec] at executed
      split at executed
      · obtain ⟨locks, step, rfl⟩ := Option.map_eq_some_iff.mp executed
        exact .worker queue ‹_› (workerStep_of_exec step)
      · cases executed
  | submit id message =>
      simp only [State.exec] at executed
      split at executed
      · obtain rfl := Option.some.inj executed
        exact .submit id message ‹_›
      · cases executed
  | examine | check | createFail | answer =>
      obtain ⟨request, found, taken⟩ := Option.bind_eq_some_iff.mp executed
      split at taken
      · obtain rfl := Option.some.inj taken
        constructor <;> assumption
      · cases taken
  | create id =>
      obtain ⟨request, found, taken⟩ := Option.bind_eq_some_iff.mp executed
      split at taken
      · obtain rfl := Option.some.inj taken
        exact .create found ‹_› ‹_›
      · cases taken
  | unlock id =>
      obtain ⟨request, found, taken⟩ := Option.bind_eq_some_iff.mp executed
      split at taken
      · split at taken
        · obtain rfl := Option.some.inj taken
          exact .unlock found ‹_› ‹_›
        · cases taken
      · cases taken

/-! ## What a call has done so far -/

/-- The call is about to check this token of the queue. -/
def State.Checking (state : State) (id : Nat) (queue token : String) : Prop :=
  ∃ request, state.requests id = some request ∧ request.phase.checked = some (queue, token)

/-- The call has passed the check of this token of the queue and may still store its
transactions. -/
def State.Pending (state : State) (id : Nat) (queue token : String) : Prop :=
  ∃ request, state.requests id = some request ∧ request.phase.beforeCreate ∧
    (queue, token) ∈ request.passed

/-- The call has stored its transactions and has an unlock signal for the queue left
to send. -/
def State.Signalling (state : State) (id : Nat) (queue : String) : Prop :=
  ∃ request queues, state.requests id = some request ∧ request.phase = .unlocking queues ∧
    queue ∈ queues

/-- The step completes the `create` of a call which was accepted under the token. -/
def Completes (queue token : String) (state : State) (label : Label pallas) : Prop :=
  ∃ id, label = .create id ∧ state.Pending id queue token

variable {queues : Configs} {state next : State} {label : Label pallas} {id : Nat}
  {queue token : String}

@[simp]
theorem State.setLocks_locks (locks : Locks) : (state.setLocks locks).locks = locks := rfl

@[simp]
theorem State.setLocks_requests (locks : Locks) :
    (state.setLocks locks).requests = state.requests := rfl

@[simp]
theorem State.setRequest_requests (request : Request) :
    (state.setRequest id request).requests = Function.update state.requests id (some request) :=
  rfl

/-- A call which has not come in has nothing to store or to send. -/
theorem State.idle_of_none (absent : state.requests id = none) (queue : String) :
    ¬ state.Signalling id queue ∧ ∀ token, ¬ state.Pending id queue token := by
  constructor
  · rintro ⟨request, _, found, _⟩
    rw [absent] at found
    cases found
  · rintro token ⟨request, found, _⟩
    rw [absent] at found
    cases found

/-- A call which may still store its transactions is not sending signals. -/
theorem State.Pending.not_signalling {other : String} (pending : state.Pending id queue token) :
    ¬ state.Signalling id other := by
  rintro ⟨request, signals, found, phase, _⟩
  obtain ⟨same, found', before, _⟩ := pending
  obtain rfl : same = request := Option.some.inj (found'.symm.trans found)
  rw [phase] at before
  exact Bool.noConfusion before

theorem State.Checking.not_signalling {other : String} (checking : state.Checking id queue token) :
    ¬ state.Signalling id other := by
  rintro ⟨request, signals, found, phase, _⟩
  obtain ⟨same, found', checked⟩ := checking
  obtain rfl : same = request := Option.some.inj (found'.symm.trans found)
  rw [phase] at checked
  cases checked

/-! ## What one step can do -/

/-- A call is as it was, or is the one which was set. -/
theorem State.setRequest_found {other : Nat} {request after : Request}
    (found : (state.setRequest other request).requests id = some after) :
    state.requests id = some after ∨ id = other ∧ after = request := by
  rw [setRequest_requests, Function.update_apply] at found
  split at found
  · exact .inr ⟨‹id = other›, (Option.some.inj found).symm⟩
  · exact .inl found

/-- A call which may store its transactions under a token could before, or has just
passed the check. -/
theorem Step.pending (step : Step queues state label next)
    (pending : next.Pending id queue token) :
    state.Pending id queue token ∨
      label = .check id ∧ state.Checking id queue token ∧
        state.locks.tokens queue = some token := by
  obtain ⟨after, found', before, member⟩ := pending
  cases step with
  | tick _ | store _ | lock _ _ _ _ | worker _ _ _ => exact .inl ⟨after, found', before, member⟩
  | submit other message free =>
      rcases State.setRequest_found found' with same | ⟨_, rfl⟩
      · exact .inl ⟨after, same, before, member⟩
      · cases member
  | @examine other request index remaining _ _ found phase =>
      rcases State.setRequest_found found' with same | ⟨rfl, rfl⟩
      · exact .inl ⟨after, same, before, member⟩
      · rw [Request.examine_passed] at member
        exact .inl ⟨request, found, by rw [phase]; rfl, member⟩
  | @check other request tx hash checked presented index remaining found phase =>
      rcases State.setRequest_found found' with same | ⟨rfl, rfl⟩
      · exact .inl ⟨after, same, before, member⟩
      · rcases Request.check_cases remaining with ⟨current, passed, _⟩ | ⟨_, refused⟩
        · rw [passed, List.mem_append, List.mem_singleton, Prod.mk.injEq] at member
          rcases member with earlier | ⟨rfl, rfl⟩
          · exact .inl ⟨request, found, by rw [phase]; rfl, earlier⟩
          · exact .inr ⟨rfl, ⟨request, found, by rw [phase]; rfl⟩, current⟩
        · rw [refused] at before
          exact Bool.noConfusion before
  | create _ _ _ | createFail _ _ | unlock _ _ _ | answer _ _ =>
      rcases State.setRequest_found found' with same | ⟨_, rfl⟩
      · exact .inl ⟨after, same, before, member⟩
      · exact Bool.noConfusion before

/-- A call with a signal left to send had it before, or has just stored its
transactions. -/
theorem Step.signalling (step : Step queues state label next)
    (signalling : next.Signalling id queue) :
    state.Signalling id queue ∨ label = .create id ∧ ∃ token, state.Pending id queue token := by
  obtain ⟨after, signals, found', phase', member⟩ := signalling
  cases step with
  | tick _ | store _ | lock _ _ _ _ | worker _ _ _ =>
      exact .inl ⟨after, signals, found', phase', member⟩
  | submit _ _ _ | createFail _ _ | answer _ _ =>
      rcases State.setRequest_found found' with same | ⟨_, rfl⟩
      · exact .inl ⟨after, signals, same, phase', member⟩
      · cases phase'
  | examine _ _ _ _ =>
      rcases State.setRequest_found found' with same | ⟨_, rfl⟩
      · exact .inl ⟨after, signals, same, phase', member⟩
      · exact absurd phase' (Request.examine_phase_ne_unlocking _ _)
  | check _ _ =>
      rcases State.setRequest_found found' with same | ⟨_, rfl⟩
      · exact .inl ⟨after, signals, same, phase', member⟩
      · rcases Request.check_cases _ with ⟨_, _, examining⟩ | ⟨_, refused⟩
        · rw [examining] at phase'
          cases phase'
        · rw [refused] at phase'
          cases phase'
  | @create other request _ found phase _ =>
      rcases State.setRequest_found found' with same | ⟨rfl, rfl⟩
      · exact .inl ⟨after, signals, same, phase', member⟩
      · obtain rfl := Phase.unlocking.inj phase'
        obtain ⟨⟨_, token⟩, passed, rfl⟩ := List.mem_map.mp member
        exact .inr ⟨rfl, token, request, found, by rw [phase]; rfl, passed⟩
  | @unlock other request first rest found phase _ =>
      rcases State.setRequest_found found' with same | ⟨rfl, rfl⟩
      · exact .inl ⟨after, signals, same, phase', member⟩
      · obtain rfl := Phase.unlocking.inj phase'
        exact .inl ⟨request, _, found, phase, List.mem_cons_of_mem _ member⟩

/-- A call which stores its transactions has a signal to send for each queue it passed. -/
theorem Step.signalling_of_completes (step : Step queues state label next)
    (created : label = .create id) (pending : state.Pending id queue token) :
    next.Signalling id queue := by
  subst created
  obtain ⟨request, found, _, passed⟩ := pending
  cases step with
  | create found' _ _ =>
      obtain rfl := Option.some.inj (found.symm.trans found')
      exact ⟨request.created, _, Function.update_self _ _ _, rfl,
        List.mem_map_of_mem passed⟩

/-- A call which is sending signals is not affected by what another call does. -/
theorem State.Signalling.setRequest {other : Nat} (signalling : state.Signalling id queue)
    (apart : ∀ request, state.requests other = some request →
      ∀ signals, request.phase ≠ .unlocking signals) (after : Request) :
    (state.setRequest other after).Signalling id queue := by
  obtain ⟨request, signals, found, phase, member⟩ := signalling
  have other_ne : id ≠ other := by
    rintro rfl
    exact apart request found signals phase
  exact ⟨request, signals, by simpa [other_ne] using found, phase, member⟩

/-- A signal which is left to send stays so until it is sent. -/
theorem Step.signalling_of_before (step : Step queues state label next)
    (signalling : state.Signalling id queue) :
    next.Signalling id queue ∨ 0 < next.locks.unlocks queue := by
  cases step with
  | tick _ | store _ | lock _ _ _ _ | worker _ _ _ => exact .inl signalling
  | submit _ _ free =>
      refine .inl (signalling.setRequest (fun request found => ?_) _)
      rw [free] at found
      cases found
  | examine _ _ found phase | check found phase | create found phase _ | createFail found phase =>
      refine .inl (signalling.setRequest (fun request found' signals sending => ?_) _)
      obtain rfl := Option.some.inj (found.symm.trans found')
      rw [phase] at sending
      cases sending
  | @unlock other request first rest found phase room =>
      obtain ⟨request', signals, found', phase', member⟩ := signalling
      by_cases same : id = other
      · subst same
        obtain rfl := Option.some.inj (found.symm.trans found')
        obtain rfl := Phase.unlocking.inj (phase.symm.trans phase')
        rcases List.mem_cons.mp member with rfl | later
        · exact .inr (by simp)
        · exact .inl ⟨_, rest, Function.update_self _ _ _, rfl, later⟩
      · refine .inl ⟨request', signals, ?_, phase', member⟩
        simpa [same] using found'
  | @answer other request found phase =>
      obtain ⟨request', signals, found', phase', member⟩ := signalling
      by_cases same : id = other
      · subst same
        obtain rfl := Option.some.inj (found.symm.trans found')
        obtain rfl := Phase.unlocking.inj (phase.symm.trans phase')
        cases member
      · refine .inl ⟨request', signals, ?_, phase', member⟩
        simpa [same] using found'

/-- A queue's token and worker change by a step of this worker only. -/
theorem Step.lock_cases (step : Step queues state label next) (queue : String) :
    next.locks.tokens queue = state.locks.tokens queue ∧
        next.locks.workers queue = state.locks.workers queue ∨
      ∃ taken, label = .worker queue taken ∧ next.now = state.now ∧
        WorkerStep state.db state.now queue state.locks taken next.locks := by
  cases step with
  | worker changed _ step =>
      by_cases same : queue = changed
      · subst same
        exact .inr ⟨_, rfl, rfl, step⟩
      · obtain ⟨tokens, workers, _⟩ := step.other same
        exact .inl ⟨tokens, workers⟩
  | _ => exact .inl ⟨rfl, rfl⟩

/-- Signals are put into a queue's channel by calls which have stored transactions, and
taken out by the queue's worker, which then removes the token. -/
theorem Step.unlocks_cases (step : Step queues state label next) (queue : String) :
    next.locks.unlocks queue = state.locks.unlocks queue ∨
      (∃ id, state.Signalling id queue) ∨
        0 < state.locks.unlocks queue ∧ next.locks.workers queue = .releasing := by
  cases step with
  | worker changed _ step =>
      by_cases same : queue = changed
      · subst same
        cases step with
        | unlock _ signal => exact .inr (.inr ⟨signal, Function.update_self _ _ _⟩)
        | _ => exact .inl rfl
      · exact .inl (step.other same).2.2
  | @unlock id request signalled rest found phase _ =>
      by_cases same : queue = signalled
      · subst same
        exact .inr (.inl ⟨id, request, _, found, phase, List.mem_cons_self⟩)
      · exact .inl (by simp [same])
  | _ => exact .inl rfl

/-- Time passes only when the clock says so. -/
theorem Step.now_cases (step : Step queues state label next) :
    next.now = state.now ∨ ∃ elapsed, label = .tick elapsed ∧ next.now = state.now + elapsed := by
  cases step with
  | tick elapsed => exact .inr ⟨elapsed, rfl, rfl⟩
  | _ => exact .inl rfl

theorem Step.now_le (step : Step queues state label next) : state.now ≤ next.now := by
  rcases step.now_cases with same | ⟨elapsed, _, later⟩ <;> omega

/-- What a call is recorded to have stored it had passed the check for. -/
theorem Step.accepted_cases (step : Step queues state label next)
    (accepted : (id, queue, token) ∈ next.accepted) :
    (id, queue, token) ∈ state.accepted ∨
      label = .create id ∧ state.Pending id queue token := by
  cases step with
  | @create _ request _ found phase _ =>
      rcases List.mem_append.mp accepted with earlier | new
      · exact .inl earlier
      · obtain ⟨entry, passed, same⟩ := List.mem_map.mp new
        obtain ⟨rfl, rfl⟩ := Prod.mk.inj same
        exact .inr ⟨rfl, request, found, by rw [phase]; rfl, passed⟩
  | _ => exact .inl accepted

/-- What the workers have published is in the map. -/
theorem Step.published (step : Step queues state label next)
    (published : Published state.locks) : Published next.locks := by
  cases step with
  | worker _ _ step => exact step.published published
  | _ => exact published

/-- In every state which is reached, what the workers have published is in the map. -/
theorem published_of_run {db : Db} {now : Nat} {trace : List (Transition State (Label pallas))}
    (run : Run (Step queues) (State.initial db now) trace state) : Published state.locks := by
  have preserved : Preserved (@Step pallas queues) (fun _ _ => True)
      (fun state => Published state.locks) := by
    intro state label next published _ step
    exact step.published published
  exact run.invariant preserved published_new fun _ _ => trivial

/-! ## A small server

One chained queue, and calls whose transactions are for it. -/

def sampleQueues : Configs := ⟨[{}, { name := "banana", chained := true }], by decide⟩

/-- The transaction of one byte, submitted under a token. -/
def sampleRequest (byte : UInt8) (token : String) : TxRequest :=
  ⟨[byte], some "banana", some token⟩

/-- A client asks for the lock and is about to be sent the token. -/
def sampleLock (client : Nat) (token : String) : List (Label samplePallas) :=
  [.lock client "banana", .worker "banana" (.receive token), .worker "banana" .publish,
    .worker "banana" .latest]

/-- A call comes in, and its transactions are examined, one a millisecond. -/
def sampleSubmission (id : Nat) (message : List TxRequest) : List (Label samplePallas) :=
  .submit id message :: message.flatMap (fun _ =>
    [.tick 1, .examine id sampleAdapter sampleAdapter, .check id]) ++
    [.examine id sampleAdapter sampleAdapter]

/-- A call under the first client's token is about to check it. -/
def sampleChecking : List (Label samplePallas) :=
  sampleLock 1 "aaaaaaaa" ++ [.worker "banana" .deliver, .submit 0 [sampleRequest 1 "aaaaaaaa"],
    .examine 0 sampleAdapter sampleAdapter]

end Boros.Server.Locking
