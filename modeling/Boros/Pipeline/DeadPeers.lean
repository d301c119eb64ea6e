import Boros.Pipeline.Fanout
import Boros.Pipeline.System

/-!
# Peers whose task has ended

A message stays queued until every receiver is past it, and the receiver of a peer whose
task has left its loop is never dropped. `unheld_of_attended` says that such a peer leaves
the ingest stage its whole capacity as long as it has seen every message, that is if it
was past all of them when it ended and nothing is sent afterwards.
-/

namespace Boros.Pipeline.Fanout

open Boros.Data Boros.Semantics Boros.Storage Boros.Ledger Boros.Queue

variable {pallas : Pallas} {profile : Profile} {stage : Ingest.Stage} {state next final : State}
  {label : Label pallas} {trace : List (Transition State (Label pallas))}

/-- Every peer whose task is running has received all messages. -/
def State.CaughtUp (state : State) : Prop :=
  ∀ peer ∈ state.peers.rows, peer.task = .running → state.sent ≤ peer.seen

/-- Once the running peers are caught up, the ingest stage has its whole capacity. -/
def Unheld (profile : Profile) (state : State) : Prop :=
  state.CaughtUp → Ingest.currentCap profile state.queuedLen = .ok cap

/-- A task leaves its loop when it has received all messages, and a message is sent while
the task of every subscribed peer is running. -/
def Attended (state : State) : Label pallas → Prop
  | .peer addr .exit => ∀ peer, state.peers.lookup addr = some peer → state.sent ≤ peer.seen
  | .ingest (.send true) => ∀ peer ∈ state.peers.rows, peer.task = .running
  | _ => True

/-- Every peer whose task is not running is past all messages. -/
def Unattended (state : State) : Prop :=
  ∀ peer ∈ state.peers.rows, peer.task ≠ .running → state.sent ≤ peer.seen

/-- An attended step leaves the peers which are not running past all messages. -/
theorem Step.unattended (step : Step profile stage state label next)
    (attended : Attended state label) (unattended : Unattended state) : Unattended next := by
  intro peer member stopped
  rcases step.sent_cases with ⟨rfl, _, same⟩ | ⟨_, same⟩
  · rw [same] at member
    exact absurd (attended peer member) stopped
  · rw [same]
    rcases step.peer_cases member with before | ⟨old, oldMem, action, rfl, can, rfl⟩ | ⟨_, atEnd⟩
    · exact unattended peer before stopped
    · cases action with
      | connect => exact absurd rfl stopped
      | receive => exact absurd can.1 stopped
      | exit => exact attended old (Table.lookup_of_mem oldMem)
    · exact atEnd.ge

/-- Once the running peers are caught up too, nothing is queued. -/
theorem Unattended.unheld (unattended : Unattended state) : Unheld profile state := by
  intro caughtUp
  have empty : state.queuedLen = 0 := by
    apply (Broadcast.queuedLen_eq_zero_iff (by decide)).mpr
    intro position member
    obtain ⟨peer, peerMem, rfl⟩ := List.mem_map.mp member
    by_cases running : peer.task = .running
    · exact caughtUp peer peerMem running
    · exact unattended peer peerMem running
  rw [empty]
  rfl

/-- In every run in which each task ends with all messages received, and messages are
sent while every task is running, no peer holds the ingest stage back. -/
theorem unheld_of_attended (db : Db) (peers : Peers)
    (run : Run (Step profile stage) (State.initial db peers) trace final)
    (attended : Guarded Attended trace) : Unheld profile final := by
  have preserved : Preserved (@Step pallas profile stage) Attended Unattended := by
    intro state label next unattended attended step
    exact step.unattended attended unattended
  have initial : Unattended (State.initial db peers) := by
    intro peer _ _
    exact Nat.zero_le peer.seen
  exact (run.invariant preserved initial attended).unheld

/-! ## A message and two peers -/

/-- The peers of two addresses. -/
def samplePeers (first second : Task) (seenFirst seenSecond : Nat) : Peers :=
  ⟨[⟨"a", first, seenFirst⟩, ⟨"b", second, seenSecond⟩], by simp⟩

/-- The ingest stage once it has sent the first transaction. -/
def sampleSent : Ingest.State :=
  ⟨sampleDb, [((sampleTx 1 1).id, [1])],
    .awaiting sampleUnit (sampleTx 1 1) [sampleTx 2 2] .fetchTip⟩

/-- With two peers at the start of the channel, the ingest stage sends the first
transaction. -/
theorem sample_send {allowed : State → Label samplePallas → Prop} (first second : Task)
    (allows : ∀ ingest label, allowed ⟨ingest, samplePeers first second 0 0⟩ (.ingest label)) :
    Reaches (Step .debug sampleSetup.ingest) allowed
      (.initial sampleDb (samplePeers first second 0 0))
      ⟨sampleSent, samplePeers first second 0 0⟩ :=
  have scheduled : Ingest.schedule .debug sampleSetup.ingest (.inserted _) sampleDb 0 =
    .selecting [(defaultQueue, 2)] := by decide +kernel
  .cons (.ingest (.schedule 0 (.inserted _) scheduled) rfl) (allows _ _) <|
    .cons (.ingest (.select (.inserted _) rfl) trivial) (allows _ _) <|
    .cons (.ingest (.examine sampleReplies rfl) trivial) (allows _ _) <|
    .cons (.ingest .send rfl) (allows _ _) (.refl _ _)

/-- Both peers receive the message, and then the task of one of them ends. -/
theorem unheld_of_attended_sample :
    ∃ (trace : List (Transition State (Label samplePallas))) (final : State),
      Run (Step .debug sampleSetup.ingest)
        (.initial sampleDb (samplePeers .running .running 0 0)) trace final ∧
      Unheld .debug final ∧ final.peers = samplePeers .exited .running 1 1 := by
  have sent : Reaches (Step .debug sampleSetup.ingest) (@Attended samplePallas)
      (.initial sampleDb (samplePeers .running .running 0 0))
      ⟨sampleSent, samplePeers .running .running 0 0⟩ := by
    apply sample_send
    intro ingest label
    cases label with
    | send delivered => cases delivered <;> simp [Attended, samplePeers]
    | _ => trivial
  have receive : Step .debug sampleSetup.ingest ⟨sampleSent, samplePeers .running .running 0 0⟩
      (.peer "a" .receive : Label samplePallas)
      ⟨sampleSent, samplePeers .running .running 1 0⟩ :=
    .peer rfl ⟨rfl, Nat.zero_lt_one⟩
  have receive' : Step .debug sampleSetup.ingest ⟨sampleSent, samplePeers .running .running 1 0⟩
      (.peer "b" .receive : Label samplePallas)
      ⟨sampleSent, samplePeers .running .running 1 1⟩ :=
    .peer rfl ⟨rfl, Nat.zero_lt_one⟩
  have exit : Step .debug sampleSetup.ingest ⟨sampleSent, samplePeers .running .running 1 1⟩
      (.peer "a" .exit : Label samplePallas) ⟨sampleSent, samplePeers .exited .running 1 1⟩ :=
    .peer rfl rfl
  have received : Attended ⟨sampleSent, samplePeers .running .running 1 1⟩
      (.peer "a" .exit : Label samplePallas) := by
    intro peer found
    obtain rfl := Option.some.inj found
    exact Nat.le_refl 1
  obtain ⟨trace, run, attended⟩ := sent.trans <|
    .cons receive trivial <| .cons receive' trivial <| .cons exit received (.refl _ _)
  exact ⟨trace, _, run, unheld_of_attended _ _ run attended, rfl⟩

/-- The task of a peer ends, and then a message is sent: the other peer receives it, but
the capacity stays reduced. -/
theorem not_unheld_of_exit :
    ∃ (trace : List (Transition State (Label samplePallas))) (final : State),
      Run (Step .debug sampleSetup.ingest)
        (.initial sampleDb (samplePeers .running .running 0 0)) trace final ∧
      ¬ Unheld .debug final := by
  have exit : Step .debug sampleSetup.ingest
      (.initial sampleDb (samplePeers .running .running 0 0))
      (.peer "a" .exit : Label samplePallas)
      (.initial sampleDb (samplePeers .exited .running 0 0)) := .peer rfl rfl
  have receive : Step .debug sampleSetup.ingest ⟨sampleSent, samplePeers .exited .running 0 0⟩
      (.peer "b" .receive : Label samplePallas)
      ⟨sampleSent, samplePeers .exited .running 0 1⟩ :=
    .peer rfl ⟨rfl, Nat.zero_lt_one⟩
  have reached : Reaches (Step .debug sampleSetup.ingest)
      (fun (_ : State) (_ : Label samplePallas) => True)
      (.initial sampleDb (samplePeers .running .running 0 0))
      ⟨sampleSent, samplePeers .exited .running 0 1⟩ :=
    .cons exit trivial <| (sample_send .exited .running fun _ _ => trivial).trans <|
      .cons receive trivial (.refl _ _)
  obtain ⟨trace, run, _⟩ := reached
  refine ⟨trace, _, run, fun unheld => ?_⟩
  have caughtUp : State.CaughtUp ⟨sampleSent, samplePeers .exited .running 0 1⟩ := by
    simp [State.CaughtUp, samplePeers, State.sent, sampleSent]
  exact absurd (unheld caughtUp) (by decide)

end Boros.Pipeline.Fanout
