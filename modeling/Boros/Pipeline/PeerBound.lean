import Boros.Pipeline.Discovery

/-!
# The number of connected peers

`schedule` subtracts the number of connected peers from the desired one, keeps the lowest eight
bits, and goes on only if that many are missing. The subtraction is exact as long as no more
peers are connected than desired, and then no more are added; but the static peers are connected
without regard to it. `bounded_iff` says for which configurations every run is bounded.
-/

namespace Boros.Pipeline.Discovery

open Boros.Data Boros.Semantics Boros.Ledger Boros.Network.PeerManager

/-- The subtraction of `schedule` is exact, `schedule` idles if there are enough peers, and no
peer is added beyond those desired. -/
structure Bounded (config : Config) (transition : Transition State Label) : Prop where
  exact : transition.label = .schedule →
    connectedPeersCount transition.before.peers ≤ config.desiredPeerCount.toNat
  idles : transition.label = .schedule →
    config.desiredPeerCount.toNat ≤ connectedPeersCount transition.before.peers →
      transition.after = transition.before
  adds : transition.label = .execute →
    connectedPeersCount transition.before.peers < connectedPeersCount transition.after.peers →
      connectedPeersCount transition.after.peers ≤ config.desiredPeerCount.toNat

/-- The peers which are connected, and those which may still be, are within the bound. -/
def Within (config : Config) (state : State) : Prop :=
  match state.worker with
  | .initializing remaining =>
    connectedPeersCount state.peers + remaining.length ≤ config.desiredPeerCount.toNat
  | .scheduling queue =>
    connectedPeersCount state.peers ≤ config.desiredPeerCount.toNat ∧ queue = 0
  | .executing queue _ =>
    connectedPeersCount state.peers < config.desiredPeerCount.toNat ∧ queue = 1
  | .failed => connectedPeersCount state.peers ≤ config.desiredPeerCount.toNat
  | .panicked _ => False

variable {pallas : Pallas} {profile : Profile} {config : Config} {state next : State}
  {label : Label} {peers after : Network.Peers} {worker : Worker}

theorem additionalPeersRequired_eq
    (within : connectedPeersCount peers ≤ config.desiredPeerCount.toNat) :
    additionalPeersRequired profile config peers =
      .ok (config.desiredPeerCount.toNat - connectedPeersCount peers) :=
  if_pos within

/-- Within the bound, the lowest eight bits are the whole difference. -/
theorem zero_lt_ofNat_iff (within : connectedPeersCount peers ≤ config.desiredPeerCount.toNat) :
    0 < UInt8.ofNat (config.desiredPeerCount.toNat - connectedPeersCount peers) ↔
      connectedPeersCount peers < config.desiredPeerCount.toNat := by
  have bound : config.desiredPeerCount.toNat < 2 ^ 8 := config.desiredPeerCount.toNat_lt
  have fits : config.desiredPeerCount.toNat - connectedPeersCount peers < UInt8.size := by
    rw [UInt8.size]
    omega
  rw [UInt8.lt_iff_toNat_lt, UInt8.toNat_ofNat_of_lt' fits, UInt8.toNat_zero]
  omega

/-- Within the bound, `schedule` idles, or has an address for a peer which is missing. -/
theorem Scheduled.within (scheduled : Scheduled profile config peers 0 after worker)
    (within : connectedPeersCount peers ≤ config.desiredPeerCount.toNat) :
    after = peers ∧ worker = .scheduling 0 ∨
      connectedPeersCount peers < config.desiredPeerCount.toNat ∧
        connectedPeersCount after = connectedPeersCount peers ∧
          (worker = .scheduling 0 ∨ ∃ addr, worker = .executing 1 addr) := by
  have exact : additionalPeersRequired profile config peers = .ok _ :=
    additionalPeersRequired_eq within
  cases scheduled with
  | overflow difference =>
      rw [exact] at difference
      cases difference
  | enough difference enough => exact .inl ⟨rfl, rfl⟩
  | pickFail difference required picks =>
      rw [exact] at difference
      cases difference
      exact .inr ⟨(zero_lt_ofNat_iff within).mp required, connectedPeersCount_picks picks, .inl rfl⟩
  | nobody difference required picks chosen =>
      rw [exact] at difference
      cases difference
      exact .inr ⟨(zero_lt_ofNat_iff within).mp required, connectedPeersCount_picks picks, .inl rfl⟩
  | @unit _ _ _ addr _ difference required picks chosen =>
      rw [exact] at difference
      cases difference
      exact .inr ⟨(zero_lt_ofNat_iff within).mp required, connectedPeersCount_picks picks,
        .inr ⟨addr, rfl⟩⟩

/-- A task which goes on, or ends, leaves the bound as it is. -/
theorem within_setTask {addr : String} {task : Network.Task}
    (within : Within config ⟨peers, worker⟩) :
    Within config ⟨setTask peers addr task, worker⟩ := by
  cases worker with
  | panicked fault => exact within.elim
  | initializing _ | failed | scheduling _ | executing _ _ =>
      simpa only [Within, connectedPeersCount_setTask] using within

/-- An execution from within the bound leads back to scheduling. -/
theorem within_execute {queue : UInt8} {unit : String}
    (within : Within config ⟨peers, .executing queue unit⟩)
    (added : connectedPeersCount after ≤ connectedPeersCount peers + 1) :
    connectedPeersCount after ≤ config.desiredPeerCount.toNat ∧
      Within config ⟨after, finish profile queue⟩ := by
  obtain ⟨missing, rfl⟩ := within
  have bound : connectedPeersCount after ≤ config.desiredPeerCount.toNat :=
    Nat.le_trans added missing
  exact ⟨bound, bound, rfl⟩

/-- A step from within the bound is bounded and stays within it. -/
theorem Step.within (step : Step pallas profile config state label next)
    (within : Within config state) :
    Within config next ∧ Bounded config ⟨state, label, next⟩ := by
  cases step with
  | @init peers first addr rest sharing now port =>
      have added : connectedPeersCount (initPeer peers addr (.initialized sharing now port)) ≤
          connectedPeersCount peers + 1 := connectedPeersCount_initPeer_le
      have before : connectedPeersCount peers + (first ++ addr :: rest).length ≤
        config.desiredPeerCount.toNat := within
      rw [List.length_append, List.length_cons] at before
      refine ⟨?_, by simp, by simp, by simp⟩
      simp only [Within, List.length_append]
      omega
  | initFail =>
      exact ⟨Nat.le_trans (Nat.le_add_right _ _) within, by simp, by simp, by simp⟩
  | bootstrap => exact ⟨⟨within, rfl⟩, by simp, by simp, by simp⟩
  | schedule scheduled =>
      obtain ⟨bound, rfl⟩ := within
      rcases scheduled.within bound with ⟨rfl, rfl⟩ | ⟨missing, same, rfl | ⟨addr, rfl⟩⟩
      · exact ⟨⟨bound, rfl⟩, fun _ => bound, fun _ _ => rfl, by simp⟩
      · refine ⟨⟨same ▸ bound, rfl⟩, fun _ => bound, fun _ enough => ?_, by simp⟩
        exact absurd missing (Nat.not_lt_of_le enough)
      · refine ⟨⟨same ▸ missing, rfl⟩, fun _ => bound, fun _ enough => ?_, by simp⟩
        exact absurd missing (Nat.not_lt_of_le enough)
  | execute now port =>
      obtain ⟨bound, here⟩ := within_execute within (connectedPeersCount_addPeer_le _)
      exact ⟨here, by simp, by simp, fun _ _ => bound⟩
  | executeFail =>
      obtain ⟨bound, here⟩ := within_execute within (connectedPeersCount_addPeer_le none)
      exact ⟨here, by simp, by simp, fun _ _ => bound⟩
  | serve serving step => exact ⟨within_setTask within, by simp, by simp, by simp⟩
  | exit serving leaves => exact ⟨within_setTask within, by simp, by simp, by simp⟩

/-- The process starts within the bound exactly if there are no more static peers than desired. -/
theorem within_initial_iff :
    Within config (State.initial config) ↔
      config.peers.dedup.length ≤ config.desiredPeerCount.toNat := by
  simp [Within, State.initial]

/-- There is always something which `schedule` comes to. -/
theorem exists_scheduled (profile : Profile) (config : Config) (peers : Network.Peers)
    (queue : UInt8) : ∃ worker, Scheduled profile config peers queue peers worker := by
  cases difference : additionalPeersRequired profile config peers with
  | error fault => exact ⟨_, .overflow difference⟩
  | ok additional =>
      by_cases required : queue < UInt8.ofNat additional
      · obtain ⟨picked, picks⟩ := exists_picks peers
        exact ⟨_, .nobody difference required picks (.inl rfl)⟩
      · exact ⟨_, .enough difference required⟩

/-- `PeerManager::init` may connect every static peer. -/
theorem exists_run_init (pallas : Pallas) (profile : Profile) (config : Config)
    {remaining : List String} (distinct : remaining.Nodup)
    (waiting : ∀ addr ∈ remaining, peers.lookup addr = some ⟨addr, none⟩) :
    ∃ trace after, Run (Step pallas profile config) ⟨peers, .initializing remaining⟩ trace
        ⟨after, .initializing []⟩ ∧
      connectedPeersCount after = connectedPeersCount peers + remaining.length := by
  induction remaining generalizing peers with
  | nil => exact ⟨[], peers, .nil, rfl⟩
  | cons addr rest ih =>
      rw [List.nodup_cons] at distinct
      rw [List.forall_mem_cons] at waiting
      have step : Step pallas profile config ⟨peers, .initializing (addr :: rest)⟩ .init
          ⟨initPeer peers addr (.initialized false 0 []), .initializing rest⟩ :=
        @Step.init _ _ _ peers [] addr rest false 0 []
      have others : ∀ other ∈ rest,
          (initPeer peers addr (.initialized false 0 [])).lookup other = some ⟨other, none⟩ := by
        intro other member
        rw [lookup_initPeer_ne, waiting.2 other member]
        rintro rfl
        exact distinct.1 member
      obtain ⟨trace, after, run, count⟩ := ih distinct.2 others
      refine ⟨_, after, .cons step run, ?_⟩
      rw [count, connectedPeersCount_initPeer waiting.1 rfl, List.length_cons]
      omega

/-- Every run is bounded exactly if no more static peers are configured than are desired. -/
theorem bounded_iff (pallas : Pallas) (profile : Profile) (config : Config) :
    (∀ trace final, Run (Step pallas profile config) (State.initial config) trace final →
        ∀ transition ∈ trace, Bounded config transition) ↔
      config.peers.dedup.length ≤ config.desiredPeerCount.toNat := by
  constructor
  · intro bounded
    obtain ⟨trace, peers, init, count⟩ := exists_run_init pallas profile config
      (List.nodup_dedup config.peers) fun _ member => lookup_new (List.mem_dedup.mp member)
    obtain ⟨worker, scheduled⟩ := exists_scheduled profile config peers 0
    have run := (init.snoc .bootstrap).snoc (.schedule scheduled)
    have exact := (bounded _ _ run _ (List.mem_append_right _ List.mem_cons_self)).exact rfl
    rw [count, connectedPeersCount_new, Nat.zero_add] at exact
    exact exact
  · intro few trace final run transition member
    have preserved : Preserved (Step pallas profile config) (fun _ _ => True) (Within config) :=
      fun _ _ _ here _ step => (step.within here).1
    obtain ⟨here, _⟩ := run.invariant_of_mem preserved (within_initial_iff.mpr few)
      (fun _ _ => trivial) member
    exact ((run.step_of_mem member).within here).2

/-- Two static peers, where one is desired. -/
def overfull : Config := ⟨["alpha:3001", "beta:3001"], 1⟩

/-- Both static peers are connected. -/
def overfullPeers : Network.Peers :=
  initPeer (initPeer (new overfull.peers) "alpha:3001" (.initialized false 0 [])) "beta:3001"
    (.initialized false 0 [])

/-- The discovery stage comes to its first schedule with both static peers connected. -/
theorem overfull_started (profile : Profile) :
    ∃ trace, Run (Step samplePallas profile overfull) (State.initial overfull) trace
      ⟨overfullPeers, .scheduling 0⟩ := by
  have initial : State.initial overfull =
      ⟨new overfull.peers, .initializing (["alpha:3001"] ++ ["beta:3001"])⟩ := by decide
  rw [initial]
  exact ⟨_, .cons (@Step.init _ _ _ _ [] "alpha:3001" ["beta:3001"] false 0 [])
    (.cons (@Step.init _ _ _ _ [] "beta:3001" [] false 0 []) (.cons .bootstrap .nil))⟩

/-- With overflow checks the first schedule then panics; without, 255 peers more are required,
and the next relay is added to the two peers. -/
theorem overfull_unbounded :
    (∃ trace peers, Run (Step samplePallas .debug overfull) (State.initial overfull) trace
        ⟨peers, .panicked .overflow⟩) ∧
      ∃ trace final, Run (Step samplePallas .release overfull) (State.initial overfull) trace
          final ∧ connectedPeersCount final.peers = 3 ∧
        ¬ ∀ transition ∈ trace, Bounded overfull transition := by
  constructor
  · obtain ⟨trace, run⟩ := overfull_started .debug
    exact ⟨_, _, run.snoc (.schedule (.overflow (by decide)))⟩
  · obtain ⟨trace, run⟩ := overfull_started .release
    have difference : additionalPeersRequired .release overfull overfullPeers =
        .ok (2 ^ 64 - 1) := by decide
    have picks : Picks overfullPeers overfullPeers (some none) := .nobody (by decide)
    have scheduled : Scheduled .release overfull overfullPeers 0 overfullPeers
        (.executing 1 "gamma:3001") := .unit difference (by decide) picks (.inl rfl)
    have added := (run.snoc (.schedule scheduled)).snoc (.execute 0 [])
    refine ⟨_, _, added, by decide, fun bounded => ?_⟩
    have exact := (bounded _ (List.mem_append_left _
      (List.mem_append_right _ List.mem_cons_self))).exact rfl
    exact absurd exact (by decide)

end Boros.Pipeline.Discovery
