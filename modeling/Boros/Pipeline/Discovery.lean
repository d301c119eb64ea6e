import Boros.Network.PeerManager

/-!
# The discovery stage

`src/pipeline/peer_discovery/mod.rs` over the peer manager: the static peers are connected
when the process starts; then the stage schedules one address after the other, of an on-chain
relay or from another peer, and adds it. The background tasks of the peers serve requests, and
leave their loops, at any time.
-/

namespace Boros.Pipeline.Discovery

open Boros.Data Boros.Semantics Boros.Ledger Boros.Network.PeerManager

/-- `PeerManagerConfig`, less the number of addresses to ask a peer for. -/
structure Config where
  peers : List String
  desiredPeerCount : UInt8
deriving DecidableEq, Repr

/-- Where the process is. -/
inductive Worker where
  /-- In `PeerManager::init`, with the addresses still to connect, in any order. -/
  | initializing (remaining : List String)
  /-- `PeerManager::init` returned an error, and the process ends. -/
  | failed
  | scheduling (peerDiscoveryQueue : UInt8)
  | executing (peerDiscoveryQueue : UInt8) (unit : String)
  | panicked (fault : Fault)
deriving DecidableEq, Repr

structure State where
  peers : Network.Peers
  worker : Worker
deriving DecidableEq

/-- The process starts. -/
def State.initial (config : Config) : State :=
  ⟨new config.peers, .initializing config.peers.dedup⟩

/-- `additional_peers_required`. -/
def additionalPeersRequired (profile : Profile) (config : Config) (peers : Network.Peers) :
    Except Fault Nat :=
  usizeSub profile config.desiredPeerCount.toNat (connectedPeersCount peers)

/-- `self.peer_discovery_queue += 1; Ok(WorkSchedule::Unit(addr))`. -/
def begin (profile : Profile) (queue : UInt8) (addr : String) : Worker :=
  match u8Add profile queue 1 with
  | .ok queue => .executing queue addr
  | .error fault => .panicked fault

/-- `self.peer_discovery_queue -= 1`. -/
def finish (profile : Profile) (queue : UInt8) : Worker :=
  match u8Sub profile queue 1 with
  | .ok queue => .scheduling queue
  | .error fault => .panicked fault

/-- What `schedule` comes to; an idle schedule, or one that fails, is called again. -/
inductive Scheduled (profile : Profile) (config : Config) (peers : Network.Peers)
    (queue : UInt8) : Network.Peers → Worker → Prop where
  | overflow {fault} (difference : additionalPeersRequired profile config peers = .error fault) :
      Scheduled profile config peers queue peers (.panicked fault)
  | enough {additional}
      (difference : additionalPeersRequired profile config peers = .ok additional)
      (enough : ¬ queue < UInt8.ofNat additional) :
      Scheduled profile config peers queue peers (.scheduling queue)
  | pickFail {additional next}
      (difference : additionalPeersRequired profile config peers = .ok additional)
      (required : queue < UInt8.ofNat additional) (picks : Picks peers next none) :
      Scheduled profile config peers queue next (.scheduling queue)
  /-- The source of addresses which was chosen has none. -/
  | nobody {additional next picked} {relay : Option String}
      (difference : additionalPeersRequired profile config peers = .ok additional)
      (required : queue < UInt8.ofNat additional) (picks : Picks peers next (some picked))
      (chosen : relay = none ∨ picked = none) :
      Scheduled profile config peers queue next (.scheduling queue)
  | unit {additional next picked addr} {relay : Option String}
      (difference : additionalPeersRequired profile config peers = .ok additional)
      (required : queue < UInt8.ofNat additional) (picks : Picks peers next (some picked))
      (chosen : relay = some addr ∨ picked = some addr) :
      Scheduled profile config peers queue next (begin profile queue addr)

/-- What happens next. -/
inductive Label where
  | init
  /-- The discovery stage is spawned. -/
  | bootstrap
  | schedule
  | execute
  /-- The task of a peer answers a request. -/
  | serve (addr : String) (label : Network.Label)
  /-- The task of a peer leaves its loop. -/
  | exit (addr : String) (cause : Network.Exit)
deriving DecidableEq

/-- The task of the peer at an address is in its loop. -/
def Serving (peers : Network.Peers) (addr : String) (loop : Network.State) : Prop :=
  ∃ peer, peers.lookup addr = some ⟨addr, some peer⟩ ∧ peer.task = .running loop

/-- A running task may leave its loop like this: reading a request fails at any time, and a panic
is that of a request. -/
def Leaves (pallas : Pallas) (loop : Network.State) : Network.Exit → Prop
  | .readError => True
  | .panicked fault => ∃ wait request,
    (loop.advance wait).handle pallas request = .error (.panic fault)

variable (pallas : Pallas)

/-- One step. -/
inductive Step (profile : Profile) (config : Config) : State → Label → State → Prop where
  | init {peers first addr rest} (sharing : Bool) (now : Nat) (port : List Network.Arrival) :
      Step profile config ⟨peers, .initializing (first ++ addr :: rest)⟩ .init
        ⟨initPeer peers addr (.initialized sharing now port), .initializing (first ++ rest)⟩
  | initFail {peers first addr rest} :
      Step profile config ⟨peers, .initializing (first ++ addr :: rest)⟩ .init ⟨peers, .failed⟩
  | bootstrap {peers} :
      Step profile config ⟨peers, .initializing []⟩ .bootstrap ⟨peers, .scheduling 0⟩
  | schedule {peers queue next worker}
      (scheduled : Scheduled profile config peers queue next worker) :
      Step profile config ⟨peers, .scheduling queue⟩ .schedule ⟨next, worker⟩
  | execute {peers queue unit} (now : Nat) (port : List Network.Arrival) :
      Step profile config ⟨peers, .executing queue unit⟩ .execute
        ⟨addPeer peers unit (some (.initialized false now port)), finish profile queue⟩
  /-- `Peer::init` fails or does not return in time. -/
  | executeFail {peers queue unit} :
      Step profile config ⟨peers, .executing queue unit⟩ .execute
        ⟨addPeer peers unit none, finish profile queue⟩
  | serve {peers worker addr loop after label} (serving : Serving peers addr loop)
      (step : Network.Step pallas loop label after) :
      Step profile config ⟨peers, worker⟩ (.serve addr label)
        ⟨setTask peers addr (.running after), worker⟩
  | exit {peers worker addr loop cause} (serving : Serving peers addr loop)
      (leaves : Leaves pallas loop cause) :
      Step profile config ⟨peers, worker⟩ (.exit addr cause)
        ⟨setTask peers addr (.ended cause), worker⟩

end Boros.Pipeline.Discovery
