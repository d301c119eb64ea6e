import Mathlib.Logic.Function.Basic
import Boros.Semantics.Transition
import Boros.Storage.Sqlite

/-!
# Chained queues

`src/queue/chaining.rs`. One worker a chained queue hands the queue's lock to one
client after the other; the token of the lock is published in a map which the
submit service reads. `Worker` is the worker's loop cut at its awaits.
-/

namespace Boros.Queue.Chaining

open Boros.Data Boros.Semantics Boros.Storage

/-- `LOCK_TIMEOUT`, in milliseconds. -/
def lockTimeout : Nat := 30000

/-- The capacity of a queue's channel of lock requests. -/
def lockCapacity : Nat := 256

/-- The capacity of a queue's channel of unlock signals. -/
def unlockCapacity : Nat := 64

/-- `TxChaining::is_chained_queue`: the queue is configured as chained. -/
def isChainedQueue (queues : Configs) (queue : String) : Bool :=
  (queues.get queue).any Config.chained

/-- A token as the worker samples it: eight alphanumeric characters. -/
def IsToken (token : String) : Prop :=
  token.toList.length = 8 ∧ token.toList.all Char.isAlphanum

instance (token : String) : Decidable (IsToken token) :=
  inferInstanceAs (Decidable (_ ∧ _))

/-- The worker of a queue between two of its steps. -/
inductive Worker where
  /-- Waiting for the next lock request. -/
  | waiting
  /-- A token was sampled for the client; it is about to be published. -/
  | publishing (client : Nat) (token : String)
  /-- About to read the latest transaction of the queue. -/
  | reading (client : Nat) (token : String)
  /-- About to send the token, and the latest transaction's bytes, to the client. -/
  | delivering (client : Nat) (token : String) (cbor : Option Bytes)
  /-- The client has the lock, since a point in time. -/
  | held (token : String) (since : Nat)
  /-- Unlocked or timed out; the token is about to be removed. -/
  | releasing
deriving DecidableEq, Repr

/-- `TxChaining`: the published tokens, the two channels of each queue, and its
worker. The unlock signals carry no information and are only counted. -/
structure Locks where
  tokens : String → Option String
  lockRequests : String → List Nat
  unlocks : String → Nat
  workers : String → Worker

/-- `TxChaining::new`: every worker waits. -/
def Locks.new : Locks := ⟨fun _ => none, fun _ => [], fun _ => 0, fun _ => .waiting⟩

/-- `TxChaining::is_valid_token`. -/
def Locks.isValidToken (locks : Locks) (queue token : String) : Bool :=
  match locks.tokens queue with
  | some currentToken => currentToken = token
  | none => false

@[simp]
theorem Locks.isValidToken_iff {locks : Locks} {queue token : String} :
    locks.isValidToken queue token ↔ locks.tokens queue = some token := by
  cases published : locks.tokens queue <;> simp [isValidToken, published]

/-- Publish a token, or remove the one which is published. -/
def Locks.setToken (locks : Locks) (queue : String) (token : Option String) : Locks :=
  { locks with tokens := Function.update locks.tokens queue token }

def Locks.setWorker (locks : Locks) (queue : String) (worker : Worker) : Locks :=
  { locks with workers := Function.update locks.workers queue worker }

def Locks.setUnlocks (locks : Locks) (queue : String) (count : Nat) : Locks :=
  { locks with unlocks := Function.update locks.unlocks queue count }

def Locks.setLockRequests (locks : Locks) (queue : String) (clients : List Nat) : Locks :=
  { locks with lockRequests := Function.update locks.lockRequests queue clients }

section Fields

variable (locks : Locks) (queue : String)

@[simp]
theorem Locks.setToken_tokens (token : Option String) :
    (locks.setToken queue token).tokens = Function.update locks.tokens queue token := rfl

@[simp]
theorem Locks.setToken_workers (token : Option String) :
    (locks.setToken queue token).workers = locks.workers := rfl

@[simp]
theorem Locks.setToken_unlocks (token : Option String) :
    (locks.setToken queue token).unlocks = locks.unlocks := rfl

@[simp]
theorem Locks.setWorker_tokens (worker : Worker) :
    (locks.setWorker queue worker).tokens = locks.tokens := rfl

@[simp]
theorem Locks.setWorker_workers (worker : Worker) :
    (locks.setWorker queue worker).workers = Function.update locks.workers queue worker := rfl

@[simp]
theorem Locks.setWorker_unlocks (worker : Worker) :
    (locks.setWorker queue worker).unlocks = locks.unlocks := rfl

@[simp]
theorem Locks.setUnlocks_tokens (count : Nat) :
    (locks.setUnlocks queue count).tokens = locks.tokens := rfl

@[simp]
theorem Locks.setUnlocks_workers (count : Nat) :
    (locks.setUnlocks queue count).workers = locks.workers := rfl

@[simp]
theorem Locks.setUnlocks_unlocks (count : Nat) :
    (locks.setUnlocks queue count).unlocks = Function.update locks.unlocks queue count := rfl

@[simp]
theorem Locks.setLockRequests_tokens (clients : List Nat) :
    (locks.setLockRequests queue clients).tokens = locks.tokens := rfl

@[simp]
theorem Locks.setLockRequests_workers (clients : List Nat) :
    (locks.setLockRequests queue clients).workers = locks.workers := rfl

@[simp]
theorem Locks.setLockRequests_unlocks (clients : List Nat) :
    (locks.setLockRequests queue clients).unlocks = locks.unlocks := rfl

end Fields

/-- What happens to a queue's worker next. -/
inductive WorkerLabel where
  /-- A lock request is received and a token sampled. -/
  | receive (token : String)
  | publish
  /-- `latest` returns. -/
  | latest
  /-- `latest` fails, and the client is sent an error. -/
  | latestFail
  | deliver
  /-- The client is gone when the token is sent. -/
  | disconnect
  /-- An unlock signal is received. -/
  | unlock
  | timeout
  | remove
deriving DecidableEq, Repr

/-- One step of the worker of `queue`, at time `now`. -/
inductive WorkerStep (db : Db) (now : Nat) (queue : String) :
    Locks → WorkerLabel → Locks → Prop where
  | receive {locks : Locks} {client rest} (token : String) (sampled : IsToken token)
      (worker : locks.workers queue = .waiting)
      (request : locks.lockRequests queue = client :: rest) :
      WorkerStep db now queue locks (.receive token)
        ((locks.setLockRequests queue rest).setWorker queue (.publishing client token))
  | publish {locks : Locks} {client token}
      (worker : locks.workers queue = .publishing client token) :
      WorkerStep db now queue locks .publish
        ((locks.setToken queue (some token)).setWorker queue (.reading client token))
  | latest {locks : Locks} {client token latest}
      (worker : locks.workers queue = .reading client token) (read : db.latest queue = .ok latest) :
      WorkerStep db now queue locks .latest
        (locks.setWorker queue (.delivering client token (latest.map Transaction.raw)))
  | latestFail {locks : Locks} {client token}
      (worker : locks.workers queue = .reading client token) :
      WorkerStep db now queue locks .latestFail (locks.setWorker queue .waiting)
  | deliver {locks : Locks} {client token cbor}
      (worker : locks.workers queue = .delivering client token cbor) :
      WorkerStep db now queue locks .deliver (locks.setWorker queue (.held token now))
  | disconnect {locks : Locks} {client token cbor}
      (worker : locks.workers queue = .delivering client token cbor) :
      WorkerStep db now queue locks .disconnect (locks.setWorker queue .waiting)
  | unlock {locks : Locks} {token since} (worker : locks.workers queue = .held token since)
      (signal : 0 < locks.unlocks queue) :
      WorkerStep db now queue locks .unlock
        ((locks.setUnlocks queue (locks.unlocks queue - 1)).setWorker queue .releasing)
  | timeout {locks : Locks} {token since} (worker : locks.workers queue = .held token since)
      (elapsed : since + lockTimeout ≤ now) :
      WorkerStep db now queue locks .timeout (locks.setWorker queue .releasing)
  | remove {locks : Locks} (worker : locks.workers queue = .releasing) :
      WorkerStep db now queue locks .remove
        ((locks.setToken queue none).setWorker queue .waiting)

/-- The step of that label, where the worker can take it. -/
def Locks.exec (db : Db) (now : Nat) (queue : String) (locks : Locks) :
    WorkerLabel → Option Locks
  | .receive token =>
    match locks.workers queue, locks.lockRequests queue with
    | .waiting, client :: rest =>
      if IsToken token then
        some ((locks.setLockRequests queue rest).setWorker queue (.publishing client token))
      else none
    | _, _ => none
  | .publish =>
    match locks.workers queue with
    | .publishing client token =>
      some ((locks.setToken queue (some token)).setWorker queue (.reading client token))
    | _ => none
  | .latest =>
    match locks.workers queue, db.latest queue with
    | .reading client token, .ok latest =>
      some (locks.setWorker queue (.delivering client token (latest.map Transaction.raw)))
    | _, _ => none
  | .latestFail =>
    match locks.workers queue with
    | .reading _ _ => some (locks.setWorker queue .waiting)
    | _ => none
  | .deliver =>
    match locks.workers queue with
    | .delivering _ token _ => some (locks.setWorker queue (.held token now))
    | _ => none
  | .disconnect =>
    match locks.workers queue with
    | .delivering _ _ _ => some (locks.setWorker queue .waiting)
    | _ => none
  | .unlock =>
    match locks.workers queue with
    | .held _ _ =>
      if 0 < locks.unlocks queue then
        some ((locks.setUnlocks queue (locks.unlocks queue - 1)).setWorker queue .releasing)
      else none
    | _ => none
  | .timeout =>
    match locks.workers queue with
    | .held _ since =>
      if since + lockTimeout ≤ now then some (locks.setWorker queue .releasing) else none
    | _ => none
  | .remove =>
    match locks.workers queue with
    | .releasing => some ((locks.setToken queue none).setWorker queue .waiting)
    | _ => none

theorem workerStep_of_exec {db : Db} {now : Nat} {queue : String} {locks after : Locks}
    {label : WorkerLabel} (executed : locks.exec db now queue label = some after) :
    WorkerStep db now queue locks label after := by
  cases label with
  | receive token =>
      simp only [Locks.exec] at executed
      split at executed
      · rename_i worker request
        split at executed
        · obtain rfl := Option.some.inj executed
          exact .receive token ‹_› worker request
        · cases executed
      · cases executed
  | latest =>
      simp only [Locks.exec] at executed
      split at executed
      · obtain rfl := Option.some.inj executed
        exact .latest ‹_› ‹_›
      · cases executed
  | unlock =>
      simp only [Locks.exec] at executed
      split at executed
      · split at executed
        · obtain rfl := Option.some.inj executed
          exact .unlock ‹_› ‹_›
        · cases executed
      · cases executed
  | timeout =>
      simp only [Locks.exec] at executed
      split at executed
      · split at executed
        · obtain rfl := Option.some.inj executed
          exact .timeout ‹_› ‹_›
        · cases executed
      · cases executed
  | publish | latestFail | deliver | disconnect | remove =>
      simp only [Locks.exec] at executed
      split at executed
      · obtain rfl := Option.some.inj executed
        constructor
        assumption
      · cases executed

/-- The worker of one queue does not touch another queue. -/
theorem WorkerStep.other {db : Db} {now : Nat} {queue other : String} {locks after : Locks}
    {label : WorkerLabel} (step : WorkerStep db now queue locks label after)
    (apart : other ≠ queue) :
    after.tokens other = locks.tokens other ∧ after.workers other = locks.workers other ∧
      after.unlocks other = locks.unlocks other := by
  cases step <;> simp [apart]

/-- A worker whose lock is held goes on by an unlock signal or by the timeout. -/
theorem WorkerStep.of_held {db : Db} {now since : Nat} {queue token : String}
    {locks after : Locks} {label : WorkerLabel} (step : WorkerStep db now queue locks label after)
    (held : locks.workers queue = .held token since) :
    label = .unlock ∧ 0 < locks.unlocks queue ∨
      label = .timeout ∧ since + lockTimeout ≤ now := by
  cases step with
  | unlock _ signal => exact .inl ⟨rfl, signal⟩
  | timeout worker elapsed =>
      rw [held] at worker
      obtain ⟨rfl, rfl⟩ := Worker.held.inj worker
      exact .inr ⟨rfl, elapsed⟩
  | receive _ _ worker | publish worker | latest worker | latestFail worker | deliver worker
  | disconnect worker | remove worker =>
      rw [held] at worker
      cases worker

/-- The token which a worker has published and not yet begun to remove. -/
def Worker.published : Worker → Option String
  | .reading _ token => some token
  | .delivering _ token _ => some token
  | .held token _ => some token
  | _ => none

/-- The token for which a worker has read the latest transaction. -/
def Worker.handed : Worker → Option String
  | .delivering _ token _ => some token
  | .held token _ => some token
  | _ => none

/-- A token is handed out after the latest transaction was read for it. -/
theorem WorkerStep.handed {db : Db} {now : Nat} {queue : String} {locks after : Locks}
    {label : WorkerLabel} {token : String} (step : WorkerStep db now queue locks label after)
    (handed : (after.workers queue).handed = some token) :
    (locks.workers queue).handed = some token ∨
      label = .latest ∧ ∃ client, locks.workers queue = .reading client token := by
  cases step with
  | @latest client _ _ worker read =>
      rw [Locks.setWorker_workers, Function.update_self] at handed
      obtain rfl := Option.some.inj handed
      exact .inr ⟨rfl, client, worker⟩
  | deliver worker =>
      rw [Locks.setWorker_workers, Function.update_self] at handed
      exact .inl (by rw [worker]; exact handed)
  | _ => simp [Worker.handed] at handed

/-- A token which is in the map after a step was published by it, or was there before;
and a worker which is removing a token has not taken up the next one. -/
theorem WorkerStep.tokens_cases {db : Db} {now : Nat} {queue : String} {locks after : Locks}
    {label : WorkerLabel} {token : String} (step : WorkerStep db now queue locks label after)
    (current : after.tokens queue = some token) :
    (label = .publish ∧ ∃ client, locks.workers queue = .publishing client token) ∨
      locks.tokens queue = some token ∧ (after.workers queue = .releasing ∨
        locks.workers queue ≠ .releasing ∧ after.unlocks queue = locks.unlocks queue) := by
  cases step with
  | @publish client _ worker =>
      rw [Locks.setWorker_tokens, Locks.setToken_tokens, Function.update_self] at current
      obtain rfl := Option.some.inj current
      exact .inl ⟨rfl, client, worker⟩
  | remove worker => simp at current
  | unlock _ _ | timeout _ _ => exact .inr ⟨current, .inl (Function.update_self _ _ _)⟩
  | receive _ _ worker | latest worker | latestFail worker | deliver worker | disconnect worker =>
      refine .inr ⟨current, .inr ⟨?_, rfl⟩⟩
      rw [worker]
      exact Worker.noConfusion

/-- What a worker has published is in the map. -/
def Published (locks : Locks) : Prop :=
  ∀ queue token, (locks.workers queue).published = some token → locks.tokens queue = some token

theorem published_new : Published .new := by
  intro queue token published
  cases published

/-- Every step of a worker keeps what the workers have published in the map. -/
theorem WorkerStep.published {db : Db} {now : Nat} {queue : String} {locks after : Locks}
    {label : WorkerLabel} (step : WorkerStep db now queue locks label after)
    (published : Published locks) : Published after := by
  intro other token holds
  by_cases same : other = queue
  · subst same
    cases step with
    | latest worker read =>
        refine published other token ?_
        rw [worker]
        simpa [Worker.published] using holds
    | deliver worker =>
        refine published other token ?_
        rw [worker]
        simpa [Worker.published] using holds
    | publish => simpa [Worker.published] using holds
    | _ => simp [Worker.published] at holds
  · obtain ⟨tokens, workers, _⟩ := step.other same
    rw [workers] at holds
    rw [tokens]
    exact published other token holds

end Boros.Queue.Chaining
