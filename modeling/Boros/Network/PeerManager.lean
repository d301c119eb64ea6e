import Mathlib.Data.List.Dedup
import Boros.Data.Table
import Boros.Network.Peer

/-!
# The peers of the manager

`src/network/peer_manager.rs` over `src/network/peer.rs`. A `Peer` carries the flag which
`Peer::init` sets and the background task which it spawns; the task has no handle on the flag.
Each function of the manager is one change of the map of peers, or one reading of it.
-/

namespace Boros.Network

open Boros.Data Boros.Semantics Boros.Ledger

/-- How a background task has left its loop. That there is no client, the other way out, does
not happen: `Peer::init` sets the client before it spawns the task, and nothing takes it away. -/
inductive Exit where
  /-- Reading the next request failed. -/
  | readError
  | panicked (fault : Fault)
deriving DecidableEq, Repr

/-- The background task of a peer. -/
inductive Task where
  | running (loop : State)
  | ended (exit : Exit)
deriving DecidableEq

/-- `Peer`. -/
structure Peer where
  isAlive : Bool
  isPeerSharingEnabled : Bool
  task : Task
deriving DecidableEq

/-- A peer as `Peer::init` leaves it. -/
def Peer.initialized (isPeerSharingEnabled : Bool) (now : Nat) (port : List Arrival) : Peer :=
  ⟨true, isPeerSharingEnabled, .running (.initial now port)⟩

/-- The background task is in its loop. -/
def Peer.isRunning (peer : Peer) : Bool :=
  match peer.task with
  | .running _ => true
  | .ended _ => false

/-- An entry of `PeerManager::peers`. -/
structure Entry where
  addr : String
  peer : Option Peer
deriving DecidableEq

/-- `PeerManager::peers`. -/
abbrev Peers := Table Entry String Entry.addr

namespace PeerManager

/-- `PeerManager::new`: no peer is connected yet. -/
def new (peerAddresses : List String) : Peers :=
  ⟨peerAddresses.dedup.map fun addr => ⟨addr, none⟩, by
    rw [List.map_map]
    exact (List.map_id _).symm ▸ List.nodup_dedup peerAddresses⟩

/-- `peers.insert(addr, Some(peer))`. -/
def insert (peers : Peers) (addr : String) (peer : Peer) : Peers :=
  (peers.insert? ⟨addr, some peer⟩).getD
    (peers.modify addr (fun entry => { entry with peer := some peer }) fun _ => rfl)

/-- One iteration of `init`. -/
def initPeer (peers : Peers) (addr : String) (peer : Peer) : Peers :=
  peers.modify addr (fun entry => { entry with peer := some peer }) fun _ => rfl

/-- A peer changes, if there is one. -/
def update (peers : Peers) (addr : String) (change : Peer → Peer) : Peers :=
  peers.modify addr (fun entry => { entry with peer := entry.peer.map change }) fun _ => rfl

/-- The task of a peer goes on, or ends. -/
def setTask (peers : Peers) (addr : String) (task : Task) : Peers :=
  update peers addr fun peer => { peer with task := task }

/-- `discover_peers` without agency. -/
def disableSharing (peers : Peers) (addr : String) : Peers :=
  update peers addr fun peer => { peer with isPeerSharingEnabled := false }

/-- `is_peer_exist`. -/
def isPeerExist (peers : Peers) (addr : String) : Bool := (peers.lookup addr).isSome

/-- `add_peer`, for a peer which was initialized in time, or was not. -/
def addPeer (peers : Peers) (addr : String) (newPeer : Option Peer) : Peers :=
  if isPeerExist peers addr then peers
  else match newPeer with
    | some peer => insert peers addr peer
    | none => peers

/-- `connected_peers_count`. -/
def connectedPeersCount (peers : Peers) : Nat :=
  peers.rows.countP fun entry => entry.peer.any Peer.isAlive

/-- The candidates of `pick_peer_rand`. -/
def candidates (peers : Peers) : List Entry :=
  peers.rows.filter fun entry =>
    entry.peer.any fun peer => peer.isAlive && peer.isPeerSharingEnabled

/-- What `pick_peer_rand` comes to: the peers after it, and an address unless it fails. -/
inductive Picks (peers : Peers) : Peers → Option (Option String) → Prop where
  | nobody (none : candidates peers = []) : Picks peers peers (some Option.none)
  | noAgency {entry} (candidate : entry ∈ candidates peers) :
      Picks peers (disableSharing peers entry.addr) (some Option.none)
  /-- The share request failed. -/
  | failed {entry} (candidate : entry ∈ candidates peers) : Picks peers peers Option.none
  /-- One of the addresses the peer has sent, if there are any. -/
  | shared {entry} (candidate : entry ∈ candidates peers) (subPeer : Option String) :
      Picks peers peers (some subPeer)

/-! ## How many peers are connected -/

variable {peers next : Peers} {addr : String} {peer : Peer}

@[simp]
theorem connectedPeersCount_new (peerAddresses : List String) :
    connectedPeersCount (new peerAddresses) = 0 := by
  simp [connectedPeersCount, new]

/-- No peer is connected at first. -/
theorem lookup_new {peerAddresses : List String} (member : addr ∈ peerAddresses) :
    (new peerAddresses).lookup addr = some ⟨addr, none⟩ :=
  Table.lookup_eq_some_iff.mpr
    ⟨List.mem_map.mpr ⟨addr, List.mem_dedup.mpr member, rfl⟩, rfl⟩

theorem lookup_initPeer_ne {other : String} (distinct : other ≠ addr) :
    (initPeer peers addr peer).lookup other = peers.lookup other := by
  rw [initPeer, Table.lookup_modify, if_neg distinct]

theorem lookup_setTask {task : Task} (found : peers.lookup addr = some ⟨addr, some peer⟩) :
    (setTask peers addr task).lookup addr = some ⟨addr, some { peer with task := task }⟩ := by
  rw [setTask, update, Table.lookup_modify, if_pos rfl, found]
  rfl

/-- The share request may end well, or there is nobody to ask. -/
theorem exists_picks (peers : Peers) : ∃ picked, Picks peers peers (some picked) := by
  cases asked : candidates peers with
  | nil => exact ⟨none, .nobody asked⟩
  | cons entry rest => exact ⟨none, .shared (asked ▸ List.mem_cons_self) none⟩

/-- A change which leaves the flags alone does not change the count. -/
theorem connectedPeersCount_update {change : Peer → Peer}
    (same : ∀ peer, (change peer).isAlive = peer.isAlive) :
    connectedPeersCount (update peers addr change) = connectedPeersCount peers := by
  refine Table.countP_modify _ fun entry => ?_
  cases entry.peer <;> simp [same]

@[simp]
theorem connectedPeersCount_setTask (task : Task) :
    connectedPeersCount (setTask peers addr task) = connectedPeersCount peers :=
  connectedPeersCount_update fun _ => rfl

@[simp]
theorem connectedPeersCount_disableSharing :
    connectedPeersCount (disableSharing peers addr) = connectedPeersCount peers :=
  connectedPeersCount_update fun _ => rfl

theorem connectedPeersCount_picks {picked : Option (Option String)}
    (picks : Picks peers next picked) :
    connectedPeersCount next = connectedPeersCount peers := by
  cases picks with
  | noAgency => exact connectedPeersCount_disableSharing
  | nobody | failed | shared => rfl

/-- A peer which is connected counts, and its entry was there before. -/
theorem connectedPeersCount_initPeer (waiting : peers.lookup addr = some ⟨addr, none⟩)
    (alive : peer.isAlive) :
    connectedPeersCount (initPeer peers addr peer) = connectedPeersCount peers + 1 := by
  have count : connectedPeersCount (initPeer peers addr peer) + 0 =
      connectedPeersCount peers + if peer.isAlive then 1 else 0 :=
    Table.countP_modify_of_lookup _ _ waiting
  rw [if_pos alive] at count
  exact count

theorem connectedPeersCount_initPeer_le :
    connectedPeersCount (initPeer peers addr peer) ≤ connectedPeersCount peers + 1 :=
  Table.countP_modify_le _ _ _ _ _

/-- At most one peer is added. -/
theorem connectedPeersCount_addPeer_le (newPeer : Option Peer) :
    connectedPeersCount (addPeer peers addr newPeer) ≤ connectedPeersCount peers + 1 := by
  unfold addPeer
  split
  · exact Nat.le_succ _
  · cases newPeer with
    | none => exact Nat.le_succ _
    | some peer =>
        simp only [insert]
        cases inserted : peers.insert? ⟨addr, some peer⟩ with
        | none => exact connectedPeersCount_initPeer_le
        | some table =>
            rw [Option.getD_some, connectedPeersCount, Table.rows_insert? inserted,
              List.countP_append]
            exact Nat.add_le_add_left List.countP_le_length _

end PeerManager

end Boros.Network
