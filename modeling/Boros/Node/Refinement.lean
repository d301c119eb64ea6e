import Boros.Node.Execution
import Boros.Semantics.Simulation

/-!
# The node and its parts

The pipeline, in which a creation is one step, and the server, for which the store changes at
any time, are each a view of the whole node. `process_of_run` and `locking_of_run` say that
what is seen of a run of the node is a run of the part, in any interleaving with the others.
-/

namespace Boros.Node

open Boros.Data Boros.Semantics Boros.Storage Boros.Ledger Boros.Queue Boros.Server Boros.Pipeline

variable {pallas : Pallas} {setup : Setup} {state next start final : State}
  {label : Label pallas} {trace : List (Transition State (Label pallas))} {now : Nat}

/-! ## The pipeline -/

/-- What is seen of a step in the pipeline: the creation of a call's records, the steps of the
stages, and crashes. -/
def inPipeline (transition : Transition State (Label pallas)) : Option (Process.Label pallas) :=
  match transition.label with
  | .server (.create id) =>
    (transition.before.server.requests id).map fun request => .stage (.create request.txs)
  | .fanout (.ingest label) => some (.stage (.ingest label))
  | .monitor label => some (.stage (.monitor label))
  | .restart => some .restart
  | _ => none

/-- The calls store nothing but records which `submit_tx` made. -/
def CallsSound (pallas : Pallas) (state : State) : Prop :=
  Locking.CallsFrom pallas (fun _ _ => True) state.server

/-- A step of the node is the step of the pipeline which is seen of it. -/
theorem Step.pipeline (step : Step setup state label next) (calls : CallsSound pallas state) :
    match inPipeline ⟨state, label, next⟩ with
    | some action => Process.Step setup state.pipeline action next.pipeline
    | none => next.pipeline = state.pipeline := by
  cases step with
  | restart => exact .restart
  | monitor step => exact .stage (.monitor step)
  | fanout own step =>
      cases step with
      | ingest step answers => exact .stage (.ingest step)
      | store db => exact absurd rfl (own db)
      | peer | subscribe | refuse => rfl
  | @server taken server own step =>
      by_cases create : ∃ id, taken = .create id
      · obtain ⟨id, rfl⟩ := create
        cases step with
        | @create _ request db found phase created =>
            simp only [inPipeline, found, Option.map_some]
            exact .stage (.create (calls.accepted found) created)
      · have same : server.db = state.server.db :=
          db_of_not_create step own fun id creates => create ⟨id, creates⟩
        have unseen : inPipeline ⟨state, .server taken, { state with server := server }⟩ =
            none := by
          cases taken with
          | create id => exact absurd ⟨id, rfl⟩ create
          | _ => rfl
        rw [unseen]
        simp only [State.pipeline, State.db, same]

/-- The node simulates the pipeline. -/
def pipelineSimulation (setup : Setup) :
    Simulation (@Step pallas setup) (@Process.Step pallas setup) (fun _ _ => True)
      (CallsSound pallas) where
  view := State.pipeline
  visible := inPipeline
  preserved _ _ _ calls _ step := step.callsFrom (fun _ _ _ _ _ => trivial) calls
  matched _ _ _ _ calls _ step seen := by
    have matched := step.pipeline calls
    rw [seen] at matched
    exact matched
  stutters _ _ _ calls _ step seen := by
    have stutters := step.pipeline calls
    rw [seen] at stutters
    exact stutters

/-- A transition as it is seen in the pipeline. -/
def seenInPipeline (transition : Transition State (Label pallas)) :
    Option (Transition Pipeline.State (Process.Label pallas)) :=
  (inPipeline transition).map fun action =>
    ⟨transition.before.pipeline, action, transition.after.pipeline⟩

/-- What is seen of a run of the node is a run of the pipeline: in any interleaving of any
number of calls with the stages, the peers and crashes, the pipeline sees atomic creations of
records which `submit_tx` made, and its own steps. -/
theorem process_of_run (run : Run (@Step pallas setup) (State.initial now) trace final) :
    Run (Process.Step setup) (Pipeline.State.initial .empty) (trace.filterMap seenInPipeline)
      final.pipeline :=
  (pipelineSimulation setup).run run (callsFrom_initial _ now) fun _ _ => trivial

/-- The life of one transaction as the pipeline sees it. -/
theorem process_of_run_sample :
    ∃ (trace : List (Transition State (Label samplePallas))) (final : State),
      Run (Step sampleSetup) (State.initial 0) trace final ∧
        Run (Process.Step sampleSetup) (Pipeline.State.initial .empty)
          (trace.filterMap seenInPipeline) final.pipeline ∧
        final.db.tx.rows = [sampleRow] := by
  obtain ⟨trace, final, run, _, rows, _⟩ := sampleLife_run
  exact ⟨trace, final, run, process_of_run run, rows⟩

/-! ## The server -/

/-- What the server sees of a step: its own steps, and the store after a step of a stage. -/
def inServer (transition : Transition State (Label pallas)) : Option (Locking.Label pallas) :=
  match transition.label with
  | .server label => some label
  | .fanout _ | .monitor _ => some (.store transition.after.db)
  | .restart => none

/-- The process does not crash. -/
def Up (_ : State) (label : Label pallas) : Prop := label ≠ .restart

/-- A step of the node is the step of the server which is seen of it. -/
theorem Step.inServer (step : Step setup state label next) (up : Up state label) :
    ∃ action, inServer ⟨state, label, next⟩ = some action ∧
      Locking.Step setup.ingest.queues state.server action next.server := by
  cases step with
  | restart => exact absurd rfl up
  | server own step => exact ⟨_, rfl, step⟩
  | fanout => exact ⟨_, rfl, .store _⟩
  | monitor => exact ⟨_, rfl, .store _⟩

/-- The node simulates the server. -/
def serverSimulation (setup : Setup) :
    Simulation (@Step pallas setup) (@Locking.Step pallas setup.ingest.queues) Up
      (fun _ => True) where
  view := State.server
  visible := Node.inServer
  preserved _ _ _ _ _ _ := trivial
  matched _ _ _ _ _ up step seen := by
    obtain ⟨action, visible, taken⟩ := step.inServer up
    rw [seen] at visible
    cases visible
    exact taken
  stutters _ _ _ _ up step unseen := by
    obtain ⟨action, visible, _⟩ := step.inServer up
    rw [unseen] at visible
    cases visible

/-- A transition as the server sees it. -/
def seenInServer (transition : Transition State (Label pallas)) :
    Option (Transition Locking.State (Locking.Label pallas)) :=
  (Node.inServer transition).map fun action =>
    ⟨transition.before.server, action, transition.after.server⟩

/-- Between crashes what the server sees of a run of the node is one of its own runs, with the
writes of the stages at any time. -/
theorem locking_of_run (run : Run (@Step pallas setup) start trace final)
    (up : Guarded Up trace) :
    Run (Locking.Step setup.ingest.queues) start.server (trace.filterMap seenInServer)
      final.server :=
  (serverSimulation setup).run run trivial up

end Boros.Node
