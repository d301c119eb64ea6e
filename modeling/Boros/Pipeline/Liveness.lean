import Boros.Pipeline.Discovery
import Boros.Ledger.Validation

/-!
# The liveness flag of peers

`connected_peers_count` and `pick_peer_rand` go by the flag which `Peer::init` sets. Nothing
resets it: a background task which leaves its loop has no handle on the flag, and the manager
has none on the task. So the flag says that a peer is in its loop exactly until a first task
ends, `accurate_iff`, and from then on discovery counts a peer which is gone.
-/

namespace Boros.Pipeline.Discovery

open Boros.Data Boros.Semantics Boros.Ledger Boros.Network.PeerManager

/-- The number of peers whose background task is in its loop. -/
def runningCount (peers : Network.Peers) : Nat :=
  peers.rows.countP fun entry => entry.peer.any Network.Peer.isRunning

/-- The flags tell which tasks are running: the count is that of the running tasks, `schedule`
requires what is missing of them, and only a peer with a running task is asked for others. -/
structure Accurate (peers : Network.Peers) : Prop where
  count : connectedPeersCount peers = runningCount peers
  shortfall : ∀ profile config, additionalPeersRequired profile config peers =
    usizeSub profile config.desiredPeerCount.toNat (runningCount peers)
  picked : ∀ entry ∈ candidates peers, entry.peer.any Network.Peer.isRunning

/-- No background task leaves its loop. -/
def Stays (_ : State) (label : Label) : Prop := ∀ addr cause, label ≠ .exit addr cause

/-! ## What is true of every peer -/

/-- Every peer which is connected has a property. -/
def EveryPeer (property : Network.Peer → Prop) (peers : Network.Peers) : Prop :=
  ∀ entry ∈ peers.rows, ∀ peer, entry.peer = some peer → property peer

section EveryPeer

variable {property : Network.Peer → Prop} {peers next : Network.Peers} {addr : String}

theorem everyPeer_new (addresses : List String) : EveryPeer property (new addresses) := by
  intro entry member peer connected
  obtain ⟨addr, _, rfl⟩ := List.mem_map.mp member
  cases connected

theorem everyPeer_update {change : Network.Peer → Network.Peer} (every : EveryPeer property peers)
    (kept : ∀ peer, property peer → property (change peer)) :
    EveryPeer property (update peers addr change) := by
  intro entry member peer connected
  rcases Table.mem_modify_cases _ member with before | ⟨old, found, rfl⟩
  · exact every entry before peer connected
  · obtain ⟨was, present, rfl⟩ := Option.map_eq_some_iff.mp connected
    exact kept was (every old (Table.lookup_eq_some_iff.mp found).1 was present)

theorem everyPeer_initPeer {peer : Network.Peer} (every : EveryPeer property peers)
    (fresh : property peer) : EveryPeer property (initPeer peers addr peer) := by
  intro entry member other connected
  rcases Table.mem_modify_cases _ member with before | ⟨old, found, rfl⟩
  · exact every entry before other connected
  · cases connected
    exact fresh

theorem everyPeer_addPeer {newPeer : Option Network.Peer} (every : EveryPeer property peers)
    (fresh : ∀ peer, newPeer = some peer → property peer) :
    EveryPeer property (addPeer peers addr newPeer) := by
  unfold addPeer
  split
  · exact every
  · cases newPeer with
    | none => exact every
    | some peer =>
        simp only [Network.PeerManager.insert]
        cases inserted : peers.insert? ⟨addr, some peer⟩ with
        | none => exact everyPeer_initPeer every (fresh peer rfl)
        | some table =>
            intro entry member other connected
            rcases (Table.mem_insert? inserted).mp member with before | rfl
            · exact every entry before other connected
            · cases connected
              exact fresh peer rfl

theorem everyPeer_picks {picked : Option (Option String)} (every : EveryPeer property peers)
    (picks : Picks peers next picked) (sharing : ∀ peer, property peer →
      property { peer with isPeerSharingEnabled := false }) : EveryPeer property next := by
  cases picks with
  | noAgency candidate => exact everyPeer_update every sharing
  | nobody | failed | shared => exact every

end EveryPeer

/-- A property of a peer which does not depend on what the manager knows of it, and which its
task keeps as long as it stays in the loop. -/
structure Lasting (property : Network.Peer → Prop) : Prop where
  fresh : ∀ sharing now port, property (.initialized sharing now port)
  sharing : ∀ peer, property peer → property { peer with isPeerSharingEnabled := false }
  serve : ∀ peer loop, property peer → property { peer with task := .running loop }

variable {pallas : Pallas} {profile : Profile} {config : Config} {state next : State}
  {label : Label} {peers : Network.Peers} {property : Network.Peer → Prop}

/-- A step keeps a lasting property of every peer, if the end of a task does. -/
theorem Step.everyPeer (step : Step pallas profile config state label next)
    (lasting : Lasting property) (every : EveryPeer property state.peers)
    (exits : ∀ addr cause, label = .exit addr cause →
      ∀ peer, property peer → property { peer with task := .ended cause }) :
    EveryPeer property next.peers := by
  cases step with
  | init sharing now port => exact everyPeer_initPeer every (lasting.fresh sharing now port)
  | initFail | bootstrap => exact every
  | schedule scheduled =>
      cases scheduled with
      | overflow | enough => exact every
      | pickFail _ _ picks | nobody _ _ picks | unit _ _ picks =>
          exact everyPeer_picks every picks lasting.sharing
  | execute now port =>
      refine everyPeer_addPeer every fun peer new => ?_
      cases new
      exact lasting.fresh false now port
  | executeFail => exact everyPeer_addPeer every fun peer new => by cases new
  | serve => exact everyPeer_update every fun peer here => lasting.serve peer _ here
  | exit => exact everyPeer_update every (exits _ _ rfl)

/-! ## The flag and the tasks -/

theorem lasting_alive : Lasting fun peer => peer.isAlive :=
  ⟨fun _ _ _ => rfl, fun _ here => here, fun _ _ here => here⟩

theorem lasting_running : Lasting fun peer => peer.isAlive ∧ peer.isRunning :=
  ⟨fun _ _ _ => ⟨rfl, rfl⟩, fun _ here => here, fun _ _ here => ⟨here.1, rfl⟩⟩

/-- The flags are accurate if no task has ended. -/
theorem accurate_of_running (every : EveryPeer (fun peer => peer.isAlive ∧ peer.isRunning) peers) :
    Accurate peers := by
  have count : connectedPeersCount peers = runningCount peers := by
    refine List.countP_congr fun entry member => ?_
    cases connected : entry.peer with
    | none => rfl
    | some peer => simp [every entry member peer connected]
  refine ⟨count, fun profile config => ?_, fun entry member => ?_⟩
  · rw [additionalPeersRequired, count]
  · obtain ⟨present, candidate⟩ := List.mem_filter.mp member
    cases connected : entry.peer with
    | none =>
        rw [connected] at candidate
        cases candidate
    | some peer => exact (every entry present peer connected).2

/-- The flags are wrong as soon as a task has ended. -/
theorem not_accurate_of_ended {addr : String} {peer : Network.Peer}
    (alive : EveryPeer (fun peer => peer.isAlive) peers)
    (found : peers.lookup addr = some ⟨addr, some peer⟩) (ended : ¬ peer.isRunning) :
    ¬ Accurate peers := by
  intro accurate
  obtain ⟨member, _⟩ := Table.lookup_eq_some_iff.mp found
  obtain ⟨before, after, rows⟩ := List.append_of_mem member
  have count := accurate.count
  have fewer : ∀ part : List Network.Entry, (∀ entry ∈ part, entry ∈ peers.rows) →
      part.countP (fun entry => entry.peer.any Network.Peer.isRunning) ≤
        part.countP fun entry => entry.peer.any Network.Peer.isAlive := by
    intro part within
    refine List.countP_mono_left fun entry there running => ?_
    cases connected : entry.peer with
    | none =>
        rw [connected] at running
        cases running
    | some peer => exact alive entry (within entry there) peer connected
  have first := fewer before fun entry there => by simp [rows, there]
  have second := fewer after fun entry there => by simp [rows, there]
  have flagged : (⟨addr, some peer⟩ : Network.Entry).peer.any Network.Peer.isAlive :=
    alive _ member peer rfl
  have idle : ¬ (⟨addr, some peer⟩ : Network.Entry).peer.any Network.Peer.isRunning := ended
  rw [connectedPeersCount, runningCount, rows, List.countP_append, List.countP_append,
    List.countP_cons_of_pos (by exact flagged), List.countP_cons_of_neg (by exact idle)] at count
  omega

/-- In a run the flags are accurate exactly as long as no task leaves its loop. -/
theorem accurate_iff {trace : List (Transition State Label)} {final : State}
    (run : Run (Step pallas profile config) (State.initial config) trace final) :
    (∀ transition ∈ trace, Accurate transition.after.peers) ↔ Guarded Stays trace := by
  constructor
  · intro accurate transition member addr cause left
    have preserved : Preserved (Step pallas profile config) (fun _ _ => True)
        (fun state => EveryPeer (fun peer => peer.isAlive) state.peers) :=
      fun _ _ _ every _ step =>
        step.everyPeer lasting_alive every fun _ _ _ _ here => here
    have alive := (run.invariant_of_mem preserved (everyPeer_new _) (fun _ _ => trivial) member).2
    have step := run.step_of_mem member
    have here := accurate transition member
    obtain ⟨before, label, after⟩ := transition
    cases left
    cases step with
    | exit serving leaves =>
        obtain ⟨peer, found, task⟩ := serving
        refine not_accurate_of_ended alive (lookup_setTask found) ?_ here
        simp [Network.Peer.isRunning]
  · intro stays transition member
    have preserved : Preserved (Step pallas profile config) Stays
        (fun state => EveryPeer (fun peer => peer.isAlive ∧ peer.isRunning) state.peers) :=
      fun _ _ _ every here step =>
        step.everyPeer lasting_running every fun addr cause left => absurd left (here addr cause)
    exact accurate_of_running
      (run.invariant_of_mem preserved (everyPeer_new _) stays member).2

/-- One static peer, which is all that is desired. -/
def single : Config := ⟨["alpha:3001"], 1⟩

/-- The static peer is connected, and shares its peers. -/
def singlePeer : Network.Peers :=
  initPeer (new single.peers) "alpha:3001" (.initialized true 0 [])

/-- The discovery stage is spawned with the static peer connected. -/
theorem single_started :
    Run (Step samplePallas .debug single) (State.initial single)
      [⟨State.initial single, .init, ⟨singlePeer, .initializing []⟩⟩,
        ⟨⟨singlePeer, .initializing []⟩, .bootstrap, ⟨singlePeer, .scheduling 0⟩⟩]
      ⟨singlePeer, .scheduling 0⟩ := by
  have initial : State.initial single =
      ⟨new single.peers, .initializing ([] ++ ["alpha:3001"])⟩ := by decide
  rw [initial]
  exact .cons (@Step.init _ _ _ _ [] "alpha:3001" [] true 0 []) (.cons .bootstrap .nil)

/-- Until its task ends, the peer is counted. -/
theorem accurate_single :
    ∃ trace final, Run (Step samplePallas .debug single) (State.initial single) trace final ∧
      connectedPeersCount final.peers = 1 ∧
      ∀ transition ∈ trace, Accurate transition.after.peers :=
  ⟨_, _, single_started, by decide, (accurate_iff single_started).mpr (by simp [Stays])⟩

/-- The task of the static peer has ended. -/
def droppedPeer : Network.Peers := setTask singlePeer "alpha:3001" (.ended .readError)

/-- Nothing happens any more once the only peer is gone: `schedule` goes on to idle. -/
theorem dropped_stuck {label : Label} {next : State}
    (step : Step samplePallas .debug single ⟨droppedPeer, .scheduling 0⟩ label next) :
    next = ⟨droppedPeer, .scheduling 0⟩ := by
  have difference : additionalPeersRequired .debug single droppedPeer = .ok 0 := by decide
  have ended : ∀ addr loop, ¬ Serving droppedPeer addr loop := by
    rintro addr loop ⟨peer, found, running⟩
    obtain ⟨member, _⟩ := Table.lookup_eq_some_iff.mp found
    cases List.mem_singleton.mp member
    cases running
  cases step with
  | schedule scheduled =>
      cases scheduled with
      | overflow overflow =>
          rw [difference] at overflow
          cases overflow
      | enough => rfl
      | pickFail other required | nobody other required | unit other required =>
          rw [difference] at other
          cases other
          exact absurd required (by decide)
  | serve serving => exact absurd serving (ended _ _)
  | exit serving => exact absurd serving (ended _ _)

/-- The connection to the only peer drops, and its task ends. The peer is still counted, so that
`schedule` idles for ever, and it is still a candidate when a peer is picked. -/
theorem stale_after_readError :
    ∃ trace final, Run (Step samplePallas .debug single) (State.initial single) trace final ∧
      runningCount final.peers = 0 ∧ connectedPeersCount final.peers = 1 ∧
      (candidates final.peers).length = 1 ∧
      (∀ label next, Step samplePallas .debug single final label next → next = final) ∧
      ¬ ∀ transition ∈ trace, Accurate transition.after.peers := by
  have serving : Serving singlePeer "alpha:3001" (.initial 0 []) := by
    exact ⟨_, rfl, rfl⟩
  have dropped : Step samplePallas .debug single ⟨singlePeer, .scheduling 0⟩
      (.exit "alpha:3001" .readError) ⟨droppedPeer, .scheduling 0⟩ := .exit serving trivial
  refine ⟨_, _, single_started.snoc dropped, by decide, by decide, by decide,
    fun _ _ => dropped_stuck, fun accurate => ?_⟩
  have last := accurate _ (List.mem_append_right _ List.mem_cons_self)
  exact absurd last.count (by decide)

end Boros.Pipeline.Discovery
