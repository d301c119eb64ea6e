import Boros.Node.Acknowledgement
import Boros.Server.Serialization

/-!
# Chained queues are chains

With its token a client is sent the latest transaction of the queue, for its own to spend from.
Where the locks are in time, nobody else stores a record of the queue from then on until the
client does: `extended_of_timely`. So what is newer than the transaction it was sent is its own.
-/

namespace Boros.Node

open Boros.Data Boros.Semantics Boros.Storage Boros.Ledger Boros.Queue Boros.Queue.Chaining
open Boros.Server Boros.Pipeline

variable {pallas : Pallas} {setup : Setup} {state next start final : State}
  {label : Label pallas} {trace : List (Transition State (Label pallas))} {now : Nat}
  {queue token : String}

/-- The locks are in time at the steps of the server. -/
def Timely (state : State) (label : Label pallas) : Prop :=
  ∀ taken, label = .server taken → Locking.Timely state.server taken

/-- A call stores the records which it was accepted for under the token. -/
def Completes (queue token : String) (transition : Transition State (Label pallas)) : Prop :=
  ∃ taken, transition.label = .server taken ∧
    Locking.Completes queue token transition.before.server taken

/-- The worker of the queue reads the latest transaction, to send it with the token. -/
def Reads (queue token : String) (latest : Option Transaction)
    (transition : Transition State (Label pallas)) : Prop :=
  transition.label = .server (.worker queue .latest) ∧
    (∃ client, transition.before.server.locks.workers queue = .reading client token) ∧
    transition.before.db.latest queue = .ok latest

/-! ## Calls and locks -/

/-- The calls which may store transactions hold their locks, and have passed the checks for all
their records. -/
structure Guards (queues : Configs) (state : State) : Prop where
  holds : Locking.PendingHold state.server
  tokened : Locking.CallsTokened queues state.server

theorem guards_of_idle {queues : Configs} (idle : ∀ id, state.server.requests id = none) :
    Guards queues state := by
  constructor
  · intro id queue token pending
    exact absurd pending ((Locking.State.idle_of_none (idle id) queue).2 token)
  · intro id request found
    rw [idle] at found
    cases found

theorem Step.guards (step : Step setup state label next) (timely : Timely state label)
    (guards : Guards setup.ingest.queues state) : Guards setup.ingest.queues next := by
  by_cases up : Up state label
  · obtain ⟨action, seen, taken⟩ := step.inServer up
    refine ⟨taken.pendingHold ?_ guards.holds, taken.callsTokened guards.tokened⟩
    cases label with
    | server own =>
        cases seen
        exact timely _ rfl
    | fanout | monitor =>
        cases seen
        exact Locking.timely_of_label (by simp) (by simp) (by simp)
    | restart => exact absurd rfl up
  · cases step with
    | restart => exact guards_of_idle fun _ => rfl
    | _ => exact absurd (by simp [Up]) up

/-- A token is handed out after the latest transaction was read for it. -/
theorem Step.reads (step : Step setup state label next)
    (missing : ¬ Locking.Handed queue token state.server)
    (handed : Locking.Handed queue token next.server) :
    ∃ latest, Reads queue token latest ⟨state, label, next⟩ := by
  cases step with
  | fanout | monitor => exact absurd handed missing
  | restart => cases handed
  | server own step =>
      obtain earlier | ⟨rfl, client, reading⟩ := step.handed handed
      · exact absurd earlier missing
      · cases step with
        | worker _ _ workerStep =>
            cases workerStep with
            | latest worker read => exact ⟨_, rfl, ⟨client, reading⟩, read⟩

end Boros.Node
