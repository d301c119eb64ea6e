import Boros.Pipeline.Fanout
import Boros.Pipeline.System

/-!
# Executions of the stages

The step relations of the ingest stage, the monitor and the peers as functions of the label,
where the step can be taken, so that a run can be followed from the labels alone.
-/

namespace Boros.Pipeline

open Boros.Data Boros.Semantics Boros.Storage Boros.Ledger Boros.Queue

variable {pallas : Pallas}

/-- The step of that label, where the ingest stage can take it. -/
def Ingest.exec (profile : Profile) (stage : Ingest.Stage) (state : Ingest.State) :
    Ingest.Label pallas → Option Ingest.State
  | .schedule queuedLen quotaOrder =>
    match state.worker with
    | .schedule => some ⟨state.db, state.sent, schedule profile stage quotaOrder state.db queuedLen⟩
    | _ => none
  | .select limitOrder =>
    match state.worker with
    | .selecting limits =>
      some ⟨state.db, state.sent, afterSelect (state.db.next .pending (limitOrder.order limits))⟩
    | _ => none
  | .examine replies =>
    match state.worker with
    | .awaiting unit tx rest .examine =>
      some ⟨state.db, state.sent, afterExamine unit rest (examine stage replies tx)⟩
    | _ => none
  | .send true =>
    match state.worker with
    | .awaiting unit tx rest .send =>
      some ⟨state.db, state.sent ++ [(tx.id, tx.raw)], .awaiting unit tx rest .fetchTip⟩
    | _ => none
  | .send false =>
    match state.worker with
    | .awaiting unit _ rest .send => some ⟨state.db, state.sent, proceed unit rest⟩
    | _ => none
  | .fetchTip tip =>
    match state.worker with
    | .awaiting unit tx rest .fetchTip =>
      some ⟨state.db, state.sent,
        .awaiting unit { tx with status := .inFlight, slot := some tip.1 } rest .update⟩
    | _ => none
  | .update =>
    match state.worker with
    | .awaiting unit tx rest .update => some ⟨state.db.update tx, state.sent, proceed unit rest⟩
    | _ => none
  | .fail =>
    match state.worker with
    | .selecting _ => some ⟨state.db, state.sent, .schedule⟩
    | .awaiting unit _ _ .fetchTip => some ⟨state.db, state.sent, .retrying unit⟩
    | .awaiting unit _ _ .update => some ⟨state.db, state.sent, .retrying unit⟩
    | _ => none
  | .rerun =>
    match state.worker with
    | .retrying unit => some ⟨state.db, state.sent, proceed unit unit⟩
    | _ => none
  | .restart =>
    match state.worker with
    | .stopped _ => some ⟨state.db, state.sent, .schedule⟩
    | _ => none

theorem Ingest.step_of_exec {profile : Profile} {stage : Ingest.Stage} {state next : Ingest.State}
    {label : Ingest.Label pallas} (executed : Ingest.exec profile stage state label = some next) :
    Ingest.Step profile stage state label next := by
  obtain ⟨db, sent, worker⟩ := state
  cases label with
  | schedule queuedLen quotaOrder =>
      cases worker <;> cases executed
      exact .schedule queuedLen quotaOrder rfl
  | select limitOrder =>
      cases worker <;> cases executed
      exact .select limitOrder rfl
  | examine replies =>
      cases worker with
      | awaiting unit tx rest await =>
          cases await <;> cases executed
          exact .examine replies rfl
      | _ => cases executed
  | send delivered =>
      cases delivered <;> cases worker with
      | awaiting unit tx rest await =>
          cases await <;> cases executed
          constructor
      | _ => cases executed
  | fetchTip | update =>
      cases worker with
      | awaiting unit tx rest await =>
          cases await <;> cases executed
          constructor
      | _ => cases executed
  | fail =>
      cases worker with
      | awaiting unit tx rest await => cases await <;> cases executed <;> constructor
      | _ =>
          cases executed
          try constructor
  | rerun | restart =>
      cases worker <;> cases executed
      constructor

/-- The step of that label, where the monitor can take it. -/
def Monitor.exec (profile : Profile) (config : Monitor.Config) (state : Db × Monitor.Worker) :
    Monitor.Label → Option (Db × Monitor.Worker)
  | .receive event =>
    match state.2 with
    | .schedule => some (state.1, .awaiting event .find)
    | _ => none
  | .resume =>
    match state.2 with
    | .awaiting event await => some (resume profile config event state.1 await)
    | _ => none
  | .fail =>
    match state.2 with
    | .awaiting event _ => some (state.1, .retrying event)
    | _ => none
  | .rerun =>
    match state.2 with
    | .retrying event => some (state.1, .awaiting event .find)
    | _ => none

theorem Monitor.step_of_exec {profile : Profile} {config : Monitor.Config}
    {state next : Db × Monitor.Worker} {label : Monitor.Label}
    (executed : Monitor.exec profile config state label = some next) :
    Monitor.Step profile config state label next := by
  obtain ⟨db, worker⟩ := state
  cases label <;> cases worker <;> cases executed
  · exact .receive _
  · exact .resume rfl
  · exact .fail
  · exact .rerun

instance (sent : Nat) (peer : Fanout.Peer) : DecidablePred (peer.Can sent)
  | .connect => inferInstanceAs (Decidable (_ = _))
  | .receive => inferInstanceAs (Decidable (_ ∧ _))
  | .exit => inferInstanceAs (Decidable (_ = _))

instance (state : Fanout.State) (label : Ingest.Label pallas) : Decidable (state.Answers label) :=
  match label with
  | .schedule _ _ => inferInstanceAs (Decidable (_ = _))
  | .send _ => inferInstanceAs (Decidable (_ = _))
  | .select _ | .examine _ | .fetchTip _ | .update | .fail | .rerun | .restart =>
    inferInstanceAs (Decidable True)

/-- The step of that label, where the ingest stage or the peer can take it. -/
def Fanout.exec (profile : Profile) (stage : Ingest.Stage) (state : Fanout.State) :
    Fanout.Label pallas → Option Fanout.State
  | .ingest label =>
    if state.Answers label then
      (Ingest.exec profile stage state.ingest label).map fun ingest => { state with ingest }
    else none
  | .store next => some { state with ingest := { state.ingest with db := next } }
  | .peer addr label =>
    (state.peers.lookup addr).bind fun peer =>
    if peer.Can state.sent label then
      some { state with
        peers := state.peers.modify addr (Peer.act state.sent label) (Peer.act_addr _ _) }
    else none
  | .subscribe addr =>
    (state.peers.insert? ⟨addr, .connecting, state.sent⟩).map fun peers => { state with peers }
  | .refuse addr =>
    (state.peers.lookup addr).bind fun peer =>
    if peer.task = .connecting then some { state with peers := state.peers.remove addr } else none

theorem Fanout.step_of_exec {profile : Profile} {stage : Ingest.Stage} {state next : Fanout.State}
    {label : Fanout.Label pallas} (executed : Fanout.exec profile stage state label = some next) :
    Fanout.Step profile stage state label next := by
  cases label with
  | ingest label =>
      simp only [Fanout.exec] at executed
      split at executed
      · obtain ⟨ingest, step, rfl⟩ := Option.map_eq_some_iff.mp executed
        exact .ingest (Ingest.step_of_exec step) ‹_›
      · cases executed
  | store next =>
      cases executed
      exact .store next
  | peer addr label =>
      obtain ⟨peer, found, taken⟩ := Option.bind_eq_some_iff.mp executed
      split at taken
      · cases taken
        exact .peer found ‹_›
      · cases taken
  | subscribe addr =>
      obtain ⟨peers, added, rfl⟩ := Option.map_eq_some_iff.mp executed
      exact .subscribe added
  | refuse addr =>
      obtain ⟨peer, found, taken⟩ := Option.bind_eq_some_iff.mp executed
      split at taken
      · cases taken
        exact .refuse found ‹_›
      · cases taken

end Boros.Pipeline
