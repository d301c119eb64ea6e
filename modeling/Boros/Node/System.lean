import Boros.Pipeline.Fanout
import Boros.Pipeline.Payload
import Boros.Server.Calls

/-!
# The node

Everything that `main` starts: the submit service with its queue locks, the ingest stage and
the peers behind its output port, and the monitor. The parts meet in the store, and their steps
interleave in any order. A crash leaves the store, and nothing else.
-/

namespace Boros.Node

open Boros.Data Boros.Semantics Boros.Storage Boros.Ledger Boros.Queue Boros.Server Boros.Pipeline

/-- The server, which has the store, and the stages. `sent` records what was ever sent on the
output port. -/
structure State where
  server : Locking.State
  sent : List (String × Bytes)
  ingest : Ingest.Worker
  monitor : Monitor.Worker
  peers : Fanout.Peers

/-- A node with an empty store, which has just been started. -/
def State.initial (now : Nat) : State := ⟨.initial .empty now, [], .schedule, .schedule, .empty⟩

/-- The store. -/
def State.db (state : State) : Db := state.server.db

/-- The ingest stage and the peers. -/
def State.fanout (state : State) : Fanout.State :=
  ⟨⟨state.db, state.sent, state.ingest⟩, state.peers⟩

/-- The store and the two workers. -/
def State.pipeline (state : State) : Pipeline.State :=
  ⟨state.db, state.sent, state.ingest, state.monitor⟩

/-- The ingest stage and the peers have taken a step. -/
def State.setFanout (state : State) (fanout : Fanout.State) : State :=
  { state with
    server := { state.server with db := fanout.ingest.db }
    sent := fanout.ingest.sent
    ingest := fanout.ingest.worker
    peers := fanout.peers }

/-- The monitor has taken a step. -/
def State.setMonitor (state : State) (db : Db) (worker : Monitor.Worker) : State :=
  { state with server := { state.server with db := db }, monitor := worker }

/-- The node after a crash: the calls, the locks, the units in hand and the connections are
gone. -/
def State.restart (state : State) : State :=
  ⟨.initial state.db state.server.now, state.sent, .schedule, .schedule, .empty⟩

/-- Who takes the next step. -/
inductive Label (pallas : Pallas) where
  | server (label : Locking.Label pallas)
  /-- The ingest stage, or a peer. -/
  | fanout (label : Fanout.Label pallas)
  | monitor (label : Monitor.Label)
  /-- The process stops anywhere, and is started again. -/
  | restart

variable {pallas : Pallas}

/-- One step. The server and the ingest stage do not see writes to the store but those which
another part of the node makes. -/
inductive Step (setup : Setup) : State → Label pallas → State → Prop where
  | server {state label server} (own : ∀ db, label ≠ .store db)
      (step : Locking.Step setup.ingest.queues state.server label server) :
      Step setup state (.server label) { state with server := server }
  | fanout {state label fanout} (own : ∀ db, label ≠ .store db)
      (step : Fanout.Step setup.profile setup.ingest state.fanout label fanout) :
      Step setup state (.fanout label) (state.setFanout fanout)
  | monitor {state label db worker}
      (step : Monitor.Step setup.profile setup.monitor (state.db, state.monitor) label
        (db, worker)) :
      Step setup state (.monitor label) (state.setMonitor db worker)
  | restart {state} : Step setup state .restart state.restart

/-! ## The calls -/

variable {setup : Setup} {state next final : State} {label : Label pallas}
  {trace : List (Transition State (Label pallas))} {now : Nat}

/-- The calls after a step of the node: a step of the server's, or as before, or none. -/
theorem Step.calls_cases (step : Step setup state label next) :
    (∃ taken, label = .server taken ∧ (∀ db, taken ≠ .store db) ∧
        Locking.Step setup.ingest.queues state.server taken next.server) ∨
      (∀ taken, label ≠ .server taken) ∧ (next.server.requests = state.server.requests ∨
        ∀ id, next.server.requests id = none) := by
  cases step with
  | server own step => exact .inl ⟨_, rfl, own, step⟩
  | fanout | monitor => exact .inr ⟨by simp, .inl rfl⟩
  | restart => exact .inr ⟨by simp, .inr fun _ => rfl⟩

/-- Every step keeps what the calls were made of. -/
theorem Step.callsFrom {items : Nat → TxRequest → Prop} (step : Step setup state label next)
    (submitted : ∀ id message, label = .server (.submit id message) →
      ∀ item ∈ message, items id item)
    (calls : Locking.CallsFrom pallas items state.server) :
    Locking.CallsFrom pallas items next.server := by
  rcases step.calls_cases with ⟨taken, rfl, _, serverStep⟩ | ⟨_, same | gone⟩
  · refine serverStep.callsFrom (fun id message sent => submitted id message ?_) calls
    rw [sent]
  · intro id request found
    rw [same] at found
    exact calls id request found
  · intro id request found
    rw [gone] at found
    cases found

theorem callsFrom_initial (items : Nat → TxRequest → Prop) (now : Nat) :
    Locking.CallsFrom pallas items (State.initial now).server := by
  intro id request found
  cases found

/-- A server step which is not a creation leaves the store alone. -/
theorem db_of_not_create {queues : Configs} {server after : Locking.State}
    {taken : Locking.Label pallas} (step : Locking.Step queues server taken after)
    (own : ∀ db, taken ≠ .store db) (create : ∀ id, taken ≠ .create id) :
    after.db = server.db := by
  cases step with
  | store db => exact absurd rfl (own db)
  | create => exact absurd rfl (create _)
  | _ => rfl

end Boros.Node
