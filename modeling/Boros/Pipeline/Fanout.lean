import Boros.Data.Broadcast
import Boros.Pipeline.Execute

/-!
# Fanout to the peers

The ingest stage, the broadcast channel behind its output port, and the peers of
`src/network/peer_manager.rs`, each with a receiver of the channel. A peer's background
task leaves its loop at any point, but its `Peer` stays in the manager's map and keeps
the receiver. Clients and the monitor write to the store at any time.
-/

namespace Boros.Pipeline.Fanout

open Boros.Data Boros.Semantics Boros.Storage Boros.Ledger Boros.Queue

/-- The messages kept by `broadcast_channel(CAP)`: the capacity is rounded up to a power
of two. -/
def ring : Nat := 64

/-- The background task of a peer. -/
inductive Task where
  /-- `add_peer` has subscribed the peer's input port and waits for `Peer::init`. -/
  | connecting
  | running
  /-- The loop was left: reading a request failed, or there is no client. -/
  | exited
deriving DecidableEq, Repr

/-- A peer, with the number of messages which its receiver is past. -/
structure Peer where
  addr : String
  task : Task
  seen : Nat
deriving DecidableEq, Repr

/-- What a peer does. -/
inductive PeerLabel where
  /-- `Peer::init` returns, and the peer's task was started. -/
  | connect
  /-- The task receives from the input port. -/
  | receive
  /-- The task leaves its loop. -/
  | exit
deriving DecidableEq, Repr

/-- The peer is where it can do this. -/
def Peer.Can (sent : Nat) (peer : Peer) : PeerLabel → Prop
  | .connect => peer.task = .connecting
  | .receive => peer.task = .running ∧ peer.seen < sent
  | .exit => peer.task = .running

/-- The peer once it has done this. -/
def Peer.act (sent : Nat) (label : PeerLabel) (peer : Peer) : Peer :=
  match label with
  | .connect => { peer with task := .running }
  | .receive => { peer with seen := Broadcast.receive ring sent peer.seen }
  | .exit => { peer with task := .exited }

@[simp]
theorem Peer.act_addr (sent : Nat) (label : PeerLabel) (peer : Peer) :
    (peer.act sent label).addr = peer.addr := by
  cases label <;> rfl

/-- A peer does not fall back. -/
theorem Peer.le_act (sent : Nat) (label : PeerLabel) (peer : Peer) :
    peer.seen ≤ (peer.act sent label).seen := by
  cases label with
  | receive => exact Broadcast.le_receive ring sent peer.seen
  | connect | exit => exact Nat.le_refl _

/-- `PeerManager::peers`, together with the peer which is being added. -/
abbrev Peers := Table Peer String Peer.addr

/-- The ingest stage and the peers. -/
structure State where
  ingest : Ingest.State
  peers : Peers

/-- Nothing was sent and the ingest stage is about to schedule. -/
def State.initial (db : Db) (peers : Peers) : State := ⟨⟨db, [], .schedule⟩, peers⟩

/-- The number of messages sent so far. -/
def State.sent (state : State) : Nat := state.ingest.sent.length

/-- `output.len()`. -/
def State.queuedLen (state : State) : Nat :=
  Broadcast.queuedLen ring state.sent (state.peers.rows.map Peer.seen)

/-- What happens next. -/
inductive Label (pallas : Pallas) where
  | ingest (label : Ingest.Label pallas)
  /-- Another stage, or a client, writes to the store. -/
  | store (next : Db)
  | peer (addr : String) (label : PeerLabel)
  /-- `add_peer` subscribes a new peer. -/
  | subscribe (addr : String)
  /-- `Peer::init` fails or times out, and the peer is dropped. -/
  | refuse (addr : String)

variable {pallas : Pallas}

/-- What the output port answers the ingest stage. -/
def State.Answers (state : State) : Ingest.Label pallas → Prop
  | .schedule queuedLen _ => queuedLen = state.queuedLen
  | .send delivered => delivered = !state.peers.rows.isEmpty
  | _ => True

/-- One step. -/
inductive Step (profile : Profile) (stage : Ingest.Stage) :
    State → Label pallas → State → Prop where
  | ingest {state : State} {ingest label}
      (step : Ingest.Step profile stage state.ingest label ingest)
      (answers : state.Answers label) :
      Step profile stage state (.ingest label) { state with ingest := ingest }
  | store {state : State} (next : Db) :
      Step profile stage state (.store next)
        { state with ingest := { state.ingest with db := next } }
  | peer {state : State} {addr peer label} (found : state.peers.lookup addr = some peer)
      (can : peer.Can state.sent label) :
      Step profile stage state (.peer addr label)
        { state with
          peers := state.peers.modify addr (Peer.act state.sent label) (Peer.act_addr _ _) }
  | subscribe {state : State} {addr peers}
      (added : state.peers.insert? ⟨addr, .connecting, state.sent⟩ = some peers) :
      Step profile stage state (.subscribe addr) { state with peers := peers }
  | refuse {state : State} {addr peer} (found : state.peers.lookup addr = some peer)
      (connecting : peer.task = .connecting) :
      Step profile stage state (.refuse addr) { state with peers := state.peers.remove addr }

variable {profile : Profile} {stage : Ingest.Stage} {state next : State} {label : Label pallas}

/-! ## What a step does to the channel -/

/-- The ingest stage sends by a delivered `output.send` only. -/
theorem ingest_sent {before after : Ingest.State} {label : Ingest.Label pallas}
    (step : Ingest.Step profile stage before label after) :
    label = .send true ∧ after.sent.length = before.sent.length + 1 ∨
      label ≠ .send true ∧ after.sent = before.sent := by
  cases step with
  | send => exact .inl ⟨rfl, by simp⟩
  | _ => exact .inr ⟨by simp, rfl⟩

/-- A peer after a step was there before, has just moved on, or is new and at the end of
the channel. -/
theorem Step.peer_cases (step : Step profile stage state label next) {peer : Peer}
    (member : peer ∈ next.peers.rows) :
    peer ∈ state.peers.rows ∨
      (∃ old ∈ state.peers.rows, ∃ action, label = .peer old.addr action ∧
        old.Can state.sent action ∧ peer = old.act state.sent action) ∨
      label = .subscribe peer.addr ∧ peer.seen = state.sent := by
  cases step with
  | ingest step answers => exact .inl member
  | store next => exact .inl member
  | refuse found connecting => exact .inl (Table.mem_of_mem_remove member)
  | subscribe added =>
      rcases (Table.mem_insert? added).mp member with before | rfl
      · exact .inl before
      · exact .inr (.inr ⟨rfl, rfl⟩)
  | peer found can =>
      rcases Table.mem_modify_cases (Peer.act_addr _ _) member with before | ⟨old, found', rfl⟩
      · exact .inl before
      · obtain rfl := Option.some.inj (found.symm.trans found')
        obtain ⟨oldMem, rfl⟩ := Table.lookup_eq_some_iff.mp found
        exact .inr (.inl ⟨_, oldMem, _, rfl, can, rfl⟩)

/-- The messages sent after a step. -/
theorem Step.sent_cases (step : Step profile stage state label next) :
    label = .ingest (.send true) ∧ next.sent = state.sent + 1 ∧ next.peers = state.peers ∨
      label ≠ .ingest (.send true) ∧ next.sent = state.sent := by
  cases step with
  | ingest step answers =>
      rcases ingest_sent step with ⟨rfl, more⟩ | ⟨other, same⟩
      · exact .inl ⟨rfl, more, rfl⟩
      · exact .inr ⟨by simpa using other, congrArg List.length same⟩
  | _ => exact .inr ⟨by simp, rfl⟩

/-- A step fills the channel by the message it sends. -/
theorem Step.queuedLen_le (step : Step profile stage state label next) :
    next.queuedLen + state.sent ≤ state.queuedLen + next.sent := by
  rcases step.sent_cases with ⟨_, more, peers⟩ | ⟨_, same⟩
  · have bound := Broadcast.queuedLen_add_le ring state.sent 1 (state.peers.rows.map Peer.seen)
    simp only [State.queuedLen, peers, more]
    omega
  · have forward : Broadcast.queuedLen ring state.sent (next.peers.rows.map Peer.seen) ≤
        Broadcast.queuedLen ring state.sent (state.peers.rows.map Peer.seen) := by
      apply Broadcast.queuedLen_le_of_forward
      intro position member
      obtain ⟨peer, peerMem, rfl⟩ := List.mem_map.mp member
      rcases step.peer_cases peerMem with before | ⟨old, oldMem, action, _, _, rfl⟩ | ⟨_, atEnd⟩
      · exact .inr ⟨_, List.mem_map_of_mem before, Nat.le_refl _⟩
      · exact .inr ⟨_, List.mem_map_of_mem oldMem, old.le_act _ _⟩
      · exact .inl atEnd.ge
    simp only [State.queuedLen, same]
    omega

end Boros.Pipeline.Fanout
