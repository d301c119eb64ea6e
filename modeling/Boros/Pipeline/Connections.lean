import Boros.Pipeline.Liveness
import Boros.Pipeline.PeerBound
import Boros.Semantics.Simulation

/-!
# Connections

`PeerManager` keeps a peer for good: none is removed or replaced, and `add_peer` leaves the one
which is there. So the requests which a peer's task answers in a run of the process are one run of
its request loop, `loops_of_run`, and what is true of the loop is true of each peer. Once there
are enough peers, the same peers stay, running or not: `settled_of_run`.
-/

namespace Boros.Pipeline.Discovery

open Boros.Data Boros.Semantics Boros.Ledger Boros.Network.PeerManager

/-- The peer at an address, if it is connected. -/
def peerAt (peers : Network.Peers) (addr : String) : Option Network.Peer :=
  (peers.lookup addr).bind Network.Entry.peer

section PeerAt

variable {peers : Network.Peers} {addr other : String} {peer : Network.Peer}

theorem peerAt_eq_some_iff :
    peerAt peers addr = some peer ↔ peers.lookup addr = some ⟨addr, some peer⟩ := by
  constructor
  · intro connected
    obtain ⟨entry, found, here⟩ := Option.bind_eq_some_iff.mp connected
    obtain ⟨key, value⟩ := entry
    have same : key = addr := Table.key_of_lookup found
    have present : value = some peer := here
    rw [found, same, present]
  · intro found
    rw [peerAt, found]
    rfl

theorem peerAt_of_mem {entry : Network.Entry} (member : entry ∈ peers.rows) :
    peerAt peers entry.addr = entry.peer := by
  have found : peers.lookup entry.addr = some entry := Table.lookup_of_mem member
  rw [peerAt, found]
  rfl

theorem peerAt_new (addresses : List String) : peerAt (new addresses) addr = none := by
  cases connected : peerAt (new addresses) addr with
  | none => rfl
  | some peer =>
      obtain ⟨member, _⟩ := Table.lookup_eq_some_iff.mp (peerAt_eq_some_iff.mp connected)
      obtain ⟨_, _, entry⟩ := List.mem_map.mp member
      cases entry

theorem peerAt_update (change : Network.Peer → Network.Peer) :
    peerAt (update peers addr change) other =
      if other = addr then (peerAt peers other).map change else peerAt peers other := by
  rw [peerAt, update, Table.lookup_modify]
  split
  · rw [peerAt, Option.bind_map, Option.map_bind]
    rfl
  · rfl

theorem peerAt_initPeer_self {entry : Network.Entry} (found : peers.lookup addr = some entry) :
    peerAt (initPeer peers addr peer) addr = some peer := by
  rw [peerAt, initPeer, Table.lookup_modify, if_pos rfl, found]
  rfl

theorem peerAt_initPeer_of_ne (apart : other ≠ addr) :
    peerAt (initPeer peers addr peer) other = peerAt peers other := by
  rw [peerAt, lookup_initPeer_ne apart, peerAt]

/-- A peer is added at an address which is not known. -/
theorem peerAt_addPeer (peers : Network.Peers) (addr : String) (newPeer : Option Network.Peer) :
    (∀ other, peerAt (addPeer peers addr newPeer) other = peerAt peers other) ∨
      peerAt peers addr = none ∧ ∀ other, peerAt (addPeer peers addr newPeer) other =
        if other = addr then newPeer else peerAt peers other := by
  unfold addPeer
  split
  case isTrue => exact .inl fun _ => rfl
  case isFalse unknown =>
      have absent : peers.lookup addr = none := by
        simpa [isPeerExist] using unknown
      cases newPeer with
      | none => exact .inl fun _ => rfl
      | some peer =>
          refine .inr ⟨by rw [peerAt, absent]; rfl, fun other => ?_⟩
          simp only [Network.PeerManager.insert]
          cases inserted : peers.insert? ⟨addr, some peer⟩ with
          | none =>
              obtain ⟨taken, found⟩ := Table.insert?_eq_none_iff.mp inserted
              rw [absent] at found
              cases found
          | some table =>
              rw [Option.getD_some, peerAt, (Table.insert?_eq_some inserted).2 other]
              by_cases same : other = addr
              · rw [if_pos same, if_pos same.symm]
                rfl
              · rw [if_neg same, if_neg fun here => same here.symm]
                rfl

end PeerAt

/-! ## What a step does to a peer -/

/-- The request which the peer at an address answers. -/
def Label.servedAt (addr : String) : Label → Option Network.Label
  | .serve other action => if other = addr then some action else none
  | _ => none

variable (pallas : Pallas) (config : Config)

/-- What becomes of the peer at an address. -/
inductive Change (label : Label) (addr : String) :
    Option Network.Peer → Option Network.Peer → Prop where
  | same {peer} (idle : label.servedAt addr = none) : Change label addr peer peer
  /-- Peer sharing is disabled. -/
  | disabled {peer} (asked : label = .schedule) :
      Change label addr (some peer) (some { peer with isPeerSharingEnabled := false })
  /-- A peer is connected; only static peers are queried for their sharing mode. -/
  | connected {sharing : Bool} {now : Nat} {port : List Network.Arrival}
      (idle : label.servedAt addr = none)
      (static : sharing → addr ∈ config.peers) :
      Change label addr none (some (.initialized sharing now port))
  | served {peer loop after action} (here : label = .serve addr action)
      (running : peer.task = .running loop) (step : Network.Step pallas loop action after) :
      Change label addr (some peer) (some { peer with task := .running after })
  | ended {peer loop cause} (here : label = .exit addr cause)
      (running : peer.task = .running loop) (leaves : Leaves pallas loop cause) :
      Change label addr (some peer) (some { peer with task := .ended cause })

/-- The static peers which are still to be connected are not. -/
def Waiting (state : State) : Prop :=
  ∀ remaining, state.worker = .initializing remaining → remaining.Nodup ∧
    ∀ addr ∈ remaining, addr ∈ config.peers ∧ state.peers.lookup addr = some ⟨addr, none⟩

variable {pallas config} {profile : Profile} {state next : State} {label : Label} {addr : String}

theorem waiting_initial : Waiting config (State.initial config) := by
  intro remaining initializing
  cases initializing
  refine ⟨List.nodup_dedup config.peers, fun addr member => ?_⟩
  exact ⟨List.mem_dedup.mp member, lookup_new (List.mem_dedup.mp member)⟩

/-- The task of a peer goes on, or ends, and the others wait as before. -/
theorem waiting_setTask {peers : Network.Peers} {worker : Worker} {task : Network.Task}
    {loop : Network.State} (waiting : Waiting config ⟨peers, worker⟩)
    (serving : Serving peers addr loop) : Waiting config ⟨setTask peers addr task, worker⟩ := by
  intro remaining initializing
  obtain ⟨distinct, absent⟩ := waiting remaining initializing
  refine ⟨distinct, fun other member => ⟨(absent other member).1, ?_⟩⟩
  have unconnected : peers.lookup other = some ⟨other, none⟩ := (absent other member).2
  obtain ⟨peer, found, _⟩ := serving
  have apart : other ≠ addr := by
    rintro rfl
    rw [found] at unconnected
    cases unconnected
  show (setTask peers addr task).lookup other = some ⟨other, none⟩
  rw [setTask, update, Table.lookup_modify, if_neg apart, unconnected]

theorem Step.waiting (step : Step pallas profile config state label next)
    (waiting : Waiting config state) : Waiting config next := by
  cases step with
  | @init peers first addr rest sharing now port =>
      rintro _ ⟨⟩
      obtain ⟨distinct, absent⟩ := waiting _ rfl
      have rest := List.nodup_middle.mp distinct
      rw [List.nodup_cons] at rest
      refine ⟨rest.2, fun other member => ?_⟩
      have there := absent other (by
        rw [List.mem_append, List.mem_cons]
        exact (List.mem_append.mp member).imp_right .inr)
      have apart : other ≠ addr := by
        rintro rfl
        exact rest.1 member
      exact ⟨there.1, (lookup_initPeer_ne apart).trans there.2⟩
  | initFail => nofun
  | bootstrap => nofun
  | schedule scheduled =>
      intro remaining initializing
      cases scheduled with
      | overflow | enough | pickFail | nobody => cases initializing
      | unit =>
          unfold begin at initializing
          split at initializing <;> cases initializing
  | execute | executeFail =>
      intro remaining initializing
      simp only [finish] at initializing
      split at initializing <;> cases initializing
  | serve serving => exact waiting_setTask waiting serving
  | exit serving => exact waiting_setTask waiting serving

/-- What a step may do to the peer at an address. -/
theorem Step.change (step : Step pallas profile config state label next)
    (waiting : Waiting config state) (addr : String) :
    Change pallas config label addr (peerAt state.peers addr) (peerAt next.peers addr) := by
  cases step with
  | @init peers first there rest sharing now port =>
      obtain ⟨static, absent⟩ := (waiting _ rfl).2 there (by simp)
      by_cases same : addr = there
      · subst same
        have before : peerAt peers addr = none := by
          rw [peerAt, absent]
          rfl
        rw [before, peerAt_initPeer_self absent]
        exact .connected rfl fun _ => static
      · rw [peerAt_initPeer_of_ne same]
        exact .same rfl
  | initFail | bootstrap => exact .same rfl
  | @schedule peers queue next worker scheduled =>
      have picked : ∀ {result}, Picks peers next result →
          Change pallas config .schedule addr (peerAt peers addr) (peerAt next addr) := by
        intro result picks
        cases picks with
        | nobody | failed | shared => exact .same rfl
        | @noAgency entry candidate =>
            rw [disableSharing, peerAt_update]
            split
            case isFalse => exact .same rfl
            case isTrue =>
                cases peerAt peers addr with
                | none => exact .same rfl
                | some peer => exact .disabled rfl
      cases scheduled with
      | overflow | enough => exact .same rfl
      | pickFail _ _ picks | nobody _ _ picks | unit _ _ picks => exact picked picks
  | @execute peers queue unit now port =>
      obtain same | ⟨absent, added⟩ := peerAt_addPeer peers unit
        (some (.initialized false now port))
      · rw [same]
        exact .same rfl
      · rw [added]
        split
        case isFalse => exact .same rfl
        case isTrue here =>
            rw [here, absent]
            exact .connected rfl fun sharing => (Bool.false_ne_true sharing).elim
  | @executeFail peers queue unit =>
      have same : addPeer peers unit none = peers := by
        unfold addPeer
        split <;> rfl
      rw [same]
      exact .same rfl
  | @serve peers worker there loop after action serving step =>
      obtain ⟨peer, found, running⟩ := serving
      rw [setTask, peerAt_update]
      split
      case isFalse apart => exact .same (if_neg fun same => apart same.symm)
      case isTrue same =>
          subst same
          rw [peerAt_eq_some_iff.mpr found]
          exact .served rfl running step
  | @exit peers worker there loop cause serving leaves =>
      obtain ⟨peer, found, running⟩ := serving
      rw [setTask, peerAt_update]
      split
      case isFalse => exact .same rfl
      case isTrue same =>
          subst same
          rw [peerAt_eq_some_iff.mpr found]
          exact .ended rfl running leaves

/-! ## The requests of a peer -/

variable (pallas) in
/-- Where a task is whose loop has come to a state. -/
def AtLoop (loop : Network.State) : Network.Task → Prop
  | .running here => here = loop
  | .ended cause => Leaves pallas loop cause

variable (pallas) in
/-- The requests answered at an address are those of one run of the request loop, from its start. -/
def Follows (actions : List Network.Label) : Option Network.Peer → Prop
  | none => actions = []
  | some peer => ∃ now port requests loop,
    Run (Network.Step pallas) (.initial now port) requests loop ∧
      requests.map Transition.label = actions ∧ AtLoop pallas loop peer.task

/-- A change answers the request of its label, and no other. -/
theorem Change.follows {actions : List Network.Label} {before after : Option Network.Peer}
    (change : Change pallas config label addr before after)
    (follows : Follows pallas actions before) :
    Follows pallas (actions ++ (label.servedAt addr).toList) after := by
  cases change with
  | same idle =>
      rw [idle, Option.toList_none, List.append_nil]
      exact follows
  | disabled asked =>
      subst asked
      have idle : Label.schedule.servedAt addr = none := rfl
      rw [idle, Option.toList_none, List.append_nil]
      exact follows
  | @connected sharing now port idle static =>
      rw [idle, Option.toList_none, List.append_nil]
      exact ⟨now, port, [], _, .nil, follows.symm, rfl⟩
  | @served peer loop next action here running step =>
      subst here
      obtain ⟨now, port, requests, loop', run, same, atLoop⟩ := follows
      rw [running] at atLoop
      obtain rfl : loop = loop' := atLoop
      refine ⟨now, port, _, _, run.snoc step, ?_, rfl⟩
      rw [List.map_append, same, Label.servedAt, if_pos rfl]
      rfl
  | @ended peer loop cause here running leaves =>
      subst here
      have idle : (Label.exit addr cause).servedAt addr = none := rfl
      obtain ⟨now, port, requests, loop', run, same, atLoop⟩ := follows
      rw [running] at atLoop
      obtain rfl : loop = loop' := atLoop
      rw [idle, Option.toList_none, List.append_nil]
      exact ⟨now, port, requests, loop, run, same, leaves⟩

variable {trace prior : List (Transition State Label)} {final : State}

/-- In every run of the process, the requests which were answered at an address are those of one
run of the request loop, from an empty mempool; the task is in the state this run ends with, or
has left the loop there. -/
theorem loops_of_run (run : Run (Step pallas profile config) (State.initial config) trace final)
    (addr : String) : Follows pallas
      (trace.filterMap fun transition => transition.label.servedAt addr)
      (peerAt final.peers addr) := by
  suffices both : Waiting config final ∧ Follows pallas
      (trace.filterMap fun transition => transition.label.servedAt addr)
      (peerAt final.peers addr) from both.2
  refine @Run.history _ _ _ (fun trace state => Waiting config state ∧ Follows pallas
    (trace.filterMap fun transition => transition.label.servedAt addr) (peerAt state.peers addr))
    _ _ _ run ⟨waiting_initial, ?_⟩ ?_
  · rw [State.initial, peerAt_new]
    rfl
  · rintro prior state label next _ ⟨waiting, follows⟩ step
    refine ⟨step.waiting waiting, ?_⟩
    have later := (step.change waiting addr).follows follows
    rw [List.filterMap_append]
    cases served : label.servedAt addr <;> simpa [served] using later

/-- A static peer is connected, and announces the two transactions of its port. -/
theorem loops_of_run_sample :
    ∃ (trace : List (Transition State Label)) (final : State) (action : Network.Label)
      (loop : Network.State),
      Run (Step samplePallas .debug single) (State.initial single) trace final ∧
        Serving final.peers "alpha:3001" loop ∧ loop.announced.length = 2 ∧
        Follows samplePallas [action] (peerAt final.peers "alpha:3001") := by
  have answered : ((Network.State.initial 0 Network.samplePort).handle samplePallas
      (.txIds 0 2)).toOption.map (fun result => result.1.announced.length) = some 2 := by
    decide +kernel
  obtain ⟨loop, reply, served, announced⟩ := Network.step_of_view answered
  have initial : State.initial single =
      ⟨new single.peers, .initializing ([] ++ ["alpha:3001"])⟩ := by decide
  have first : Step samplePallas .debug single (State.initial single) .init
      ⟨initPeer (new single.peers) "alpha:3001" (.initialized true 0 Network.samplePort),
        .initializing []⟩ := by
    rw [initial]
    exact @Step.init _ _ _ _ [] "alpha:3001" [] true 0 Network.samplePort
  have serving : Serving (initPeer (new single.peers) "alpha:3001"
      (.initialized true 0 Network.samplePort)) "alpha:3001" (.initial 0 Network.samplePort) := by
    exact ⟨_, rfl, rfl⟩
  have run := Run.cons first (.cons .bootstrap (.cons (.serve serving served) .nil))
  exact ⟨_, _, _, loop, run, ⟨_, lookup_setTask rfl, rfl⟩, announced,
    loops_of_run run "alpha:3001"⟩

/-! ## Enough peers -/

/-- What is left of a peer: it stays connected, its task is not started again, and it is not asked
for peers again. -/
def Lasts : Option Network.Peer → Option Network.Peer → Prop
  | none, none => True
  | some before, some after => after.isAlive = before.isAlive ∧
    (after.isRunning → before.isRunning) ∧
    (after.isPeerSharingEnabled → before.isPeerSharingEnabled)
  | _, _ => False

theorem Lasts.refl (peer : Option Network.Peer) : Lasts peer peer := by
  cases peer with
  | none => trivial
  | some peer => exact ⟨rfl, id, id⟩

theorem Lasts.trans {first second third : Option Network.Peer} (before : Lasts first second)
    (after : Lasts second third) : Lasts first third := by
  cases first <;> cases second <;> cases third <;> try contradiction
  · trivial
  · obtain ⟨alive, running, sharing⟩ := before
    obtain ⟨alive', running', sharing'⟩ := after
    exact ⟨alive'.trans alive, running ∘ running', sharing ∘ sharing'⟩

/-- A change but that of connecting leaves the same peer. -/
theorem Change.lasts {before after : Option Network.Peer}
    (change : Change pallas config label addr before after)
    (known : before = none → after = none) : Lasts before after := by
  cases change with
  | same => exact .refl _
  | disabled => exact ⟨rfl, id, fun sharing => (Bool.false_ne_true sharing).elim⟩
  | connected => cases known rfl
  | served here running step =>
      exact ⟨rfl, fun _ => by simp [Network.Peer.isRunning, running], id⟩
  | ended here running leaves => exact ⟨rfl, fun running => (Bool.false_ne_true running).elim, id⟩

/-- As many peers are connected as are desired. -/
def Full (config : Config) (state : State) : Prop :=
  Within config state ∧ connectedPeersCount state.peers = config.desiredPeerCount.toNat

/-- With enough peers no other is connected. -/
theorem Step.full (step : Step pallas profile config state label next)
    (full : Full config state) : Full config next ∧
      ∀ addr, peerAt state.peers addr = none → peerAt next.peers addr = none := by
  obtain ⟨within, count⟩ := full
  have within' : Within config next := (step.within within).1
  cases step with
  | init =>
      have bound := within
      simp only [Within, List.length_append, List.length_cons] at bound
      dsimp only at count
      omega
  | initFail | bootstrap => exact ⟨⟨within', count⟩, fun _ absent => absent⟩
  | schedule scheduled =>
      obtain ⟨bound, rfl⟩ := within
      rcases scheduled.within bound with ⟨rfl, rfl⟩ | ⟨missing, _⟩
      · exact ⟨⟨within', count⟩, fun _ absent => absent⟩
      · exact absurd count (Nat.ne_of_lt missing)
  | execute | executeFail => exact absurd count (Nat.ne_of_lt within.1)
  | serve | exit =>
      refine ⟨⟨within', (connectedPeersCount_setTask _).trans count⟩, fun addr absent => ?_⟩
      rw [setTask, peerAt_update, absent]
      exact ite_self none

/-- If each peer lasts, and no other was connected, no more of them are running. -/
theorem runningCount_le {before after : Network.Peers}
    (lasts : ∀ addr, Lasts (peerAt before addr) (peerAt after addr)) :
    runningCount after ≤ runningCount before := by
  refine Table.countP_le_of_keys fun entry member running => ?_
  have there := peerAt_of_mem member
  have last := lasts entry.addr
  rw [there] at last
  cases connected : entry.peer with
  | none =>
      rw [connected] at running
      cases running
  | some peer =>
      rw [connected] at running last
      cases was : peerAt before entry.addr with
      | none =>
          rw [was] at last
          exact last.elim
      | some old =>
          rw [was] at last
          obtain ⟨present, same⟩ := Table.lookup_eq_some_iff.mp (peerAt_eq_some_iff.mp was)
          exact ⟨_, present, same, last.2.1 running⟩

/-- Only static peers are asked for others. -/
def Asks (config : Config) (peers : Network.Peers) : Prop :=
  ∀ entry ∈ candidates peers, entry.addr ∈ config.peers

/-- A peer which shares its peers is a static one. -/
def Static (config : Config) (addr : String) : Option Network.Peer → Prop
  | none => True
  | some peer => peer.isPeerSharingEnabled → addr ∈ config.peers

theorem Change.static {before after : Option Network.Peer}
    (change : Change pallas config label addr before after) (static : Static config addr before) :
    Static config addr after := by
  cases change with
  | same => exact static
  | disabled => exact fun sharing => (Bool.false_ne_true sharing).elim
  | connected _ queried => exact queried
  | served | ended => exact static

theorem asks_of_static {peers : Network.Peers}
    (static : ∀ addr, Static config addr (peerAt peers addr)) : Asks config peers := by
  intro entry candidate
  obtain ⟨member, sharing⟩ := List.mem_filter.mp candidate
  have here := static entry.addr
  rw [peerAt_of_mem member] at here
  cases connected : entry.peer with
  | none =>
      rw [connected] at sharing
      cases sharing
  | some peer =>
      rw [connected] at sharing here
      exact here (Bool.and_eq_true_iff.mp sharing).2

/-- The peers of two states of a run are the same, and fewer of them are running if any have left
their loops. -/
structure Settled (before after : Network.Peers) : Prop where
  lasts : ∀ addr, Lasts (peerAt before addr) (peerAt after addr)
  count : connectedPeersCount after = connectedPeersCount before
  running : runningCount after ≤ runningCount before

/-- If no more static peers are configured than are desired: once as many are connected, the peers
are the same for the rest of the run, and one whose task ends is not replaced. All along, only
static peers are asked for others. -/
theorem settled_of_run (few : config.peers.dedup.length ≤ config.desiredPeerCount.toNat)
    (run : Run (Step pallas profile config) (State.initial config) prior state)
    (full : connectedPeersCount state.peers = config.desiredPeerCount.toNat)
    (rest : Run (Step pallas profile config) state trace final) :
    Settled state.peers final.peers ∧
      ∀ transition ∈ prior ++ trace, Asks config transition.before.peers := by
  have staysWithin : Preserved (Step pallas profile config) (fun _ _ => True) (Within config) :=
    fun _ _ _ here _ step => (step.within here).1
  have within := run.invariant staysWithin (within_initial_iff.mpr few) fun _ _ => trivial
  constructor
  · have lasting : Preserved (Step pallas profile config) (fun _ _ => True) (fun later =>
        Waiting config later ∧ Full config later ∧
          ∀ addr, Lasts (peerAt state.peers addr) (peerAt later.peers addr)) := by
      rintro before label after ⟨waiting, enough, lasts⟩ _ step
      refine ⟨step.waiting waiting, (step.full enough).1, fun addr => (lasts addr).trans ?_⟩
      exact (step.change waiting addr).lasts ((step.full enough).2 addr)
    have waits : Preserved (Step pallas profile config) (fun _ _ => True) (Waiting config) :=
      fun _ _ _ here _ step => step.waiting here
    have waiting := run.invariant waits waiting_initial fun _ _ => trivial
    obtain ⟨_, enough, lasts⟩ := rest.invariant lasting
      ⟨waiting, ⟨within, full⟩, fun _ => .refl _⟩ fun _ _ => trivial
    exact ⟨lasts, enough.2.trans full.symm, runningCount_le lasts⟩
  · intro transition member
    have preserved : Preserved (Step pallas profile config) (fun _ _ => True) (fun later =>
        Waiting config later ∧ ∀ addr, Static config addr (peerAt later.peers addr)) :=
      fun _ _ _ here _ step =>
        ⟨step.waiting here.1, fun addr => (step.change here.1 addr).static (here.2 addr)⟩
    have initial : ∀ addr, Static config addr (peerAt (State.initial config).peers addr) := by
      intro addr
      rw [State.initial, peerAt_new]
      trivial
    have here := ((run.append rest).invariant_of_mem preserved ⟨waiting_initial, initial⟩
      (fun _ _ => trivial) member).1
    exact asks_of_static here.2

/-- The only peer is gone, and stays the only peer. -/
theorem settled_of_run_sample :
    runningCount singlePeer = 1 ∧ runningCount droppedPeer = 0 ∧
      Settled singlePeer droppedPeer := by
  have serving : Serving singlePeer "alpha:3001" (.initial 0 []) := by
    exact ⟨_, rfl, rfl⟩
  have dropped : Step samplePallas .debug single ⟨singlePeer, .scheduling 0⟩
      (.exit "alpha:3001" .readError) ⟨droppedPeer, .scheduling 0⟩ := .exit serving trivial
  exact ⟨by decide, by decide,
    (settled_of_run (by decide) single_started (by decide) (.cons dropped .nil)).1⟩

end Boros.Pipeline.Discovery
