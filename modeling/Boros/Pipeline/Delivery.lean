import Boros.Pipeline.Backpressure
import Boros.Pipeline.Execution
import Boros.Semantics.Flow

/-!
# Delivery to the peers

A peer gets the messages of the output port in the order in which they were sent, none of them
twice. `delivered_iff_keepsUp` says that it gets all of them exactly if it never lags behind by
more than the channel keeps, and `delivered_of_fits` that no peer does, however slow, as long as
the ingest stage does not schedule more than the free capacity.
-/

namespace Boros.Pipeline.Fanout

open Boros.Data Boros.Semantics Boros.Storage Boros.Ledger Boros.Queue

variable {pallas : Pallas} {profile : Profile} {stage : Ingest.Stage}
  {state next start final : State} {label : Label pallas} {addr : String}
  {trace prior : List (Transition State (Label pallas))}

/-- A transaction's id, and the bytes which are sent for it. -/
abbrev Sent := String × Bytes

/-- The messages which a peer has not seen. -/
def State.unread (state : State) (addr : String) : List Sent :=
  (state.peers.lookup addr).elim [] fun peer => state.ingest.sent.drop peer.seen

/-- The message which a step sends to the peers. -/
def broadcasts (transition : Transition State (Label pallas)) : List Sent :=
  transition.after.ingest.sent.drop transition.before.sent

/-- What a step of a peer does with the messages it has not seen. -/
def atReceive (addr : String) (take : List Sent → Nat → List Sent)
    (transition : Transition State (Label pallas)) : List Sent :=
  match transition.label, transition.before.peers.lookup addr with
  | .peer other .receive, some peer =>
    if other = addr then take transition.before.ingest.sent peer.seen else []
  | _, _ => []

/-- The message which a step hands to the peer. -/
def received (addr : String) : Transition State (Label pallas) → List Sent :=
  atReceive addr fun sent seen => (Broadcast.received ring sent seen).toList

/-- The messages which a step makes the peer skip. -/
def skipped (addr : String) : Transition State (Label pallas) → List Sent :=
  atReceive addr (Broadcast.skipped ring)

/-- The peer is not dropped. -/
def Stays (addr : String) (_ : State) (label : Label pallas) : Prop := label ≠ .refuse addr

/-- The peer does not receive when it lags behind by more than the channel keeps. -/
def KeepsUp (addr : String) (state : State) (label : Label pallas) : Prop :=
  ∀ peer, label = .peer addr .receive → state.peers.lookup addr = some peer →
    state.sent - peer.seen ≤ ring

/-- No receiver is past the end of the channel. -/
def Placed (state : State) : Prop := ∀ peer ∈ state.peers.rows, peer.seen ≤ state.sent

/-- The peer has a receiver. -/
def Subscribed (addr : String) (state : State) : Prop := (state.peers.lookup addr).isSome

/-! ## One step -/

theorem Step.placed (step : Step profile stage state label next) (placed : Placed state) :
    Placed next := by
  intro peer member
  rcases step.sent_cases with ⟨_, more, same⟩ | ⟨_, same⟩
  · rw [same] at member
    have before := placed peer member
    omega
  · rw [same]
    rcases step.peer_cases member with before | ⟨old, before, action, _, can, rfl⟩ | ⟨_, atEnd⟩
    · exact placed peer before
    · cases action with
      | connect | exit => exact placed old before
      | receive => exact Broadcast.receive_le can.2
    · exact atEnd.le

/-- What is sent comes at the end of the channel. -/
theorem Step.sent_append (step : Step profile stage state label next) :
    next.ingest.sent = state.ingest.sent ++ broadcasts ⟨state, label, next⟩ := by
  cases step with
  | @ingest after _ step answers =>
      change after.sent = state.ingest.sent ++ after.sent.drop state.ingest.sent.length
      generalize state.ingest = before at step
      cases step <;> simp
  | _ => simp [broadcasts, State.sent]

/-- A peer which stays changes by what it does itself. -/
theorem Step.lookup_cases (step : Step profile stage state label next)
    (stays : Stays addr state label) (subscribed : Subscribed addr state) :
    (∃ peer action, label = .peer addr action ∧ state.peers.lookup addr = some peer ∧
        peer.Can state.sent action ∧
        next.peers.lookup addr = some (peer.act state.sent action) ∧
        next.ingest = state.ingest) ∨
      (∀ action, label ≠ .peer addr action) ∧
        next.peers.lookup addr = state.peers.lookup addr := by
  cases step with
  | ingest | store => exact .inr ⟨by simp, rfl⟩
  | @subscribe other peers added =>
      obtain ⟨free, lookup⟩ := Table.insert?_eq_some added
      have apart : other ≠ addr := by
        rintro rfl
        rw [Subscribed, free] at subscribed
        cases subscribed
      exact .inr ⟨by simp, (lookup addr).trans (if_neg apart)⟩
  | @refuse other _ _ _ =>
      have apart : addr ≠ other := by
        rintro rfl
        exact stays rfl
      exact .inr ⟨by simp, Table.lookup_remove_of_ne apart⟩
  | @peer other peer action found can =>
      by_cases same : addr = other
      · subst same
        exact .inl ⟨peer, action, rfl, found, can, by simp [found], rfl⟩
      · refine .inr ⟨?_, by simp [same]⟩
        rintro action acts
        exact same (Label.peer.inj acts).1.symm

/-- Nothing is handed to a peer which does not receive. -/
theorem atReceive_of_ne {take : List Sent → Nat → List Sent}
    (idle : label ≠ .peer addr .receive) : atReceive addr take ⟨state, label, next⟩ = [] := by
  unfold atReceive
  split
  · rename_i acts _
    refine if_neg ?_
    rintro rfl
    exact idle acts
  · rfl

/-- A step keeps what the peer has not seen in order: the first of it is skipped or received,
and what is sent comes behind. -/
theorem Step.unread (step : Step profile stage state label next)
    (stays : Stays addr state label) (placed : Placed state)
    (subscribed : Subscribed addr state) :
    state.unread addr ++ broadcasts ⟨state, label, next⟩ =
      (skipped addr ⟨state, label, next⟩ ++ received addr ⟨state, label, next⟩) ++
        next.unread addr := by
  have appended := step.sent_append
  rcases step.lookup_cases stays subscribed with
    ⟨peer, action, rfl, found, can, moved, same⟩ | ⟨idle, same⟩
  · rw [same, List.self_eq_append_right] at appended
    rw [appended, List.append_nil]
    cases action with
    | connect | exit =>
        simp [State.unread, skipped, received, atReceive, found, moved, same, Peer.act]
    | receive =>
        have cut := Broadcast.drop_eq_of_receive ring can.2
        simpa [State.unread, skipped, received, atReceive, found, moved, same, Peer.act,
          State.sent] using cut
  · obtain ⟨peer, found⟩ := Option.isSome_iff_exists.mp subscribed
    have within : peer.seen ≤ state.ingest.sent.length :=
      placed peer (Table.lookup_eq_some_iff.mp found).1
    rw [skipped, received, atReceive_of_ne (idle _), atReceive_of_ne (idle _), List.append_nil,
      List.nil_append]
    simp only [State.unread, same, found, Option.elim_some]
    rw [appended, List.drop_append_of_le_length within]

theorem Step.subscribed (step : Step profile stage state label next)
    (stays : Stays addr state label) (subscribed : Subscribed addr state) :
    Subscribed addr next := by
  rcases step.lookup_cases stays subscribed with ⟨_, _, _, _, _, moved, _⟩ | ⟨_, same⟩
  · rw [Subscribed, moved]
    rfl
  · rw [Subscribed, same]
    exact subscribed

/-! ## Runs -/

/-- The channel has what was sent. -/
theorem sent_of_run (run : Run (Step profile stage) start trace final) :
    final.ingest.sent = start.ingest.sent ++ trace.flatMap broadcasts := by
  induction run with
  | nil => simp
  | cons step rest ih => rw [ih, step.sent_append, List.flatMap_cons, List.append_assoc]

/-- The messages on their way to a peer. -/
def messageFlow (profile : Profile) (stage : Ingest.Stage) (addr : String) :
    Flow (@Step pallas profile stage) (Stays addr)
      (fun state => Placed state ∧ Subscribed addr state) Sent where
  held state := state.unread addr
  incoming := broadcasts
  outgoing transition := skipped addr transition ++ received addr transition
  preserved _ _ _ here stays step := ⟨step.placed here.1, step.subscribed stays here.2⟩
  balanced _ _ _ here stays step := step.unread stays here.1 here.2

/-- The peer has received what it had not seen and what was sent since, in order, but for what
it has not seen yet. -/
def Delivered (addr : String) (start : State) (trace : List (Transition State (Label pallas)))
    (final : State) : Prop :=
  start.unread addr ++ trace.flatMap broadcasts =
    trace.flatMap (received addr) ++ final.unread addr

/-- A step makes a peer skip something exactly if it does not keep up. -/
theorem skipped_eq_nil_iff :
    skipped addr ⟨state, label, next⟩ = [] ↔ KeepsUp addr state label := by
  constructor
  · rintro none peer rfl found
    simp only [skipped, atReceive, found, if_true] at none
    exact Broadcast.skipped_eq_nil_iff.mp none
  · intro keepsUp
    by_cases receives : label = .peer addr .receive
    · subst receives
      cases found : state.peers.lookup addr with
      | none => simp [skipped, atReceive, found]
      | some peer =>
          simp only [skipped, atReceive, found, if_true]
          exact Broadcast.skipped_eq_nil_iff.mpr (keepsUp peer rfl found)
    · exact atReceive_of_ne receives

/-- What a peer has not seen, and what is sent, it skips, receives, or has not seen yet. -/
theorem unread_run (run : Run (Step profile stage) start trace final) (placed : Placed start)
    (subscribed : Subscribed addr start) (stays : Guarded (Stays addr) trace) :
    start.unread addr ++ trace.flatMap broadcasts =
      trace.flatMap (fun transition => skipped addr transition ++ received addr transition) ++
        final.unread addr :=
  (messageFlow profile stage addr).run run ⟨placed, subscribed⟩ stays

/-- A peer which skips nothing gets everything. -/
theorem delivered_of_none_skipped (run : Run (Step profile stage) start trace final)
    (placed : Placed start) (subscribed : Subscribed addr start)
    (stays : Guarded (Stays addr) trace)
    (none : ∀ transition ∈ trace, skipped addr transition = []) :
    Delivered addr start trace final := by
  rw [Delivered, unread_run run placed subscribed stays]
  congr 1
  refine List.flatMap_congr fun transition member => ?_
  rw [none transition member, List.nil_append]

/-- What a peer gets comes in the order in which it was sent, each message once at most. A peer
which stays subscribed gets all messages exactly if it never lags behind by more than the channel
keeps. -/
theorem delivered_iff_keepsUp (run : Run (Step profile stage) start trace final)
    (placed : Placed start) (subscribed : Subscribed addr start)
    (stays : Guarded (Stays addr) trace) :
    (trace.flatMap (received addr)).Sublist (start.unread addr ++ trace.flatMap broadcasts) ∧
      (Delivered addr start trace final ↔ Guarded (KeepsUp addr) trace) := by
  have conserved := unread_run run placed subscribed stays
  refine ⟨?_, ?_, ?_⟩
  · rw [conserved]
    refine List.Sublist.trans (List.Sublist.flatMap_right _ fun transition _ => ?_)
      (List.sublist_append_left _ _)
    exact List.sublist_append_right _ _
  · intro all
    have lengths := congrArg List.length (conserved.symm.trans all)
    simp only [List.length_append, List.length_flatMap, List.sum_map_add] at lengths
    have none : trace.flatMap (skipped addr) = [] := by
      apply List.eq_nil_of_length_eq_zero
      rw [List.length_flatMap]
      omega
    rw [List.flatMap_eq_nil_iff] at none
    intro transition member
    exact skipped_eq_nil_iff.mp (none transition member)
  · intro keepsUp
    refine delivered_of_none_skipped run placed subscribed stays fun transition member => ?_
    exact skipped_eq_nil_iff.mpr (keepsUp transition member)

/-! ## Room for all messages -/

/-- Whatever fits into the capacity is kept by the channel. -/
theorem Room.keepsUp (room : Room state) : KeepsUp addr state label := by
  intro peer _ found
  have capacity : cap.toNat = 50 := rfl
  have backlog : Broadcast.backlog ring state.sent peer.seen ≤ state.queuedLen :=
    Broadcast.backlog_le_queuedLen
      (List.mem_map_of_mem (Table.lookup_eq_some_iff.mp found).1)
  unfold Room at room
  unfold Broadcast.backlog ring at backlog
  unfold ring
  omega

theorem room_initial (db : Db) (peers : Peers) : Room (.initial db peers) := by
  have empty : State.queuedLen (.initial db peers) = 0 := by
    apply Nat.le_zero.mp
    apply Broadcast.queuedLen_le_iff.mpr
    intro position _
    simp [Broadcast.backlog, State.sent, State.initial]
  unfold Room
  rw [empty]
  exact Nat.zero_le _

/-- There is always room for what a batch which fits will send. -/
theorem room_of_fits {db : Db} {peers : Peers} (fresh : ∀ peer ∈ peers.rows, peer.seen = 0)
    (reached : Run (Step profile stage) (State.initial db peers) prior state)
    (fits : Guarded (Fits stage) prior) : Placed state ∧ Room state := by
  have preserved : Preserved (@Step pallas profile stage) (Fits stage)
      (fun state => Placed state ∧ Room state) :=
    fun _ _ _ here fits step => ⟨step.placed here.1, step.room fits here.2⟩
  have placed : Placed (.initial db peers) := fun peer member => (fresh peer member).le
  exact reached.invariant preserved ⟨placed, room_initial db peers⟩ fits

theorem keepsUp_of_fits {db : Db} {peers : Peers} (fresh : ∀ peer ∈ peers.rows, peer.seen = 0)
    (reached : Run (Step profile stage) (State.initial db peers) prior start)
    (run : Run (Step profile stage) start trace final)
    (fits : Guarded (Fits stage) (prior ++ trace)) : Guarded (KeepsUp addr) trace := by
  intro transition member
  obtain ⟨first, second, rfl⟩ := List.append_of_mem member
  obtain ⟨before, _, _⟩ := run.around
  rw [← List.append_assoc, guarded_append] at fits
  exact (room_of_fits fresh (reached.append before) fits.1).2.keepsUp

/-- In every run in which each batch fits into the free capacity, every peer gets all messages
from its subscription on, however slow it is. -/
theorem delivered_of_fits (db : Db) {peers : Peers}
    (fresh : ∀ peer ∈ peers.rows, peer.seen = 0)
    (reached : Run (Step profile stage) (State.initial db peers) prior start)
    (run : Run (Step profile stage) start trace final)
    (fits : Guarded (Fits stage) (prior ++ trace)) (subscribed : Subscribed addr start)
    (stays : Guarded (Stays addr) trace) : Delivered addr start trace final := by
  have placed := (room_of_fits fresh reached ((guarded_append _ _ _).mp fits).1).1
  refine delivered_of_none_skipped run placed subscribed stays fun transition member => ?_
  exact skipped_eq_nil_iff.mpr (keepsUp_of_fits fresh reached run fits transition member)

/-! ## A message for one peer -/

/-- The first transaction of the batch is sent and received. -/
def sampleDelivery : List (Label samplePallas) :=
  [.ingest (.select (.inserted _)), .ingest (.examine Ingest.sampleCalls.replies),
    .ingest (.send true), .peer "a" .receive]

theorem sampleDelivery_run :
    ∃ (trace : List (Transition State (Label samplePallas))) (final : State),
      Run (Step .debug sampleSetup.ingest) (.initial sampleDb samplePeer) trace final ∧
        Guarded (Fits sampleSetup.ingest) trace ∧ Guarded (Stays "a") trace ∧
        trace.flatMap broadcasts = [((sampleTx 1 1).id, [1])] ∧ final.unread "a" = [] := by
  have schedule : Step .debug sampleSetup.ingest (.initial sampleDb samplePeer)
      (.ingest (.schedule 0 (.inserted _)) : Label samplePallas)
      ⟨⟨sampleDb, [], .selecting [(defaultQueue, 2)]⟩, samplePeer⟩ :=
    .ingest (.schedule 0 (.inserted _) (by decide +kernel)) rfl
  have fits : Fits sampleSetup.ingest (.initial sampleDb samplePeer)
      (.ingest (.schedule 0 (.inserted _)) : Label samplePallas) :=
    Priority.serve_le_iff.mp (by decide +kernel)
  have reached : (follow (Fanout.exec .debug sampleSetup.ingest)
      ⟨⟨sampleDb, [], .selecting [(defaultQueue, 2)]⟩, samplePeer⟩ sampleDelivery).map
        (fun final => (final.ingest.sent, final.unread "a")) =
      some ([((sampleTx 1 1).id, [1])], []) := by
    decide +kernel
  obtain ⟨final, followed, seen⟩ := Option.map_eq_some_iff.mp reached
  obtain ⟨sent, unread⟩ := Prod.mk.inj seen
  obtain ⟨trace, rest, labels⟩ :=
    Run.of_follow (fun state label next =>
      @Fanout.step_of_exec _ .debug sampleSetup.ingest state next label) followed
  have run := Run.cons schedule rest
  refine ⟨_, final, run, ?_, ?_, ?_, unread⟩
  · rw [guarded_cons]
    refine ⟨fits, fun transition member => ?_⟩
    have label := label_mem labels member
    simp only [sampleDelivery, List.mem_cons, List.not_mem_nil, or_false] at label
    rcases label with same | same | same | same <;> rw [same] <;> trivial
  · rw [guarded_cons]
    refine ⟨by simp [Stays], fun transition member refused => ?_⟩
    have label := label_mem labels member
    rw [refused] at label
    simp [sampleDelivery] at label
  · have all := sent_of_run run
    rw [sent] at all
    exact all.symm

/-- The message is received, as the peer keeps up. -/
theorem delivered_iff_keepsUp_sample :
    ∃ (trace : List (Transition State (Label samplePallas))) (final : State),
      Run (Step .debug sampleSetup.ingest) (.initial sampleDb samplePeer) trace final ∧
        trace.flatMap broadcasts = [((sampleTx 1 1).id, [1])] ∧
        Delivered "a" (.initial sampleDb samplePeer) trace final := by
  obtain ⟨trace, final, run, fits, stays, sent, _⟩ := sampleDelivery_run
  have fresh : ∀ peer ∈ samplePeer.rows, peer.seen = 0 := by simp [samplePeer]
  have subscribed : Subscribed "a" (.initial sampleDb samplePeer) := rfl
  have placed : Placed (.initial sampleDb samplePeer) := fun peer member => (fresh peer member).le
  exact ⟨trace, final, run, sent, (delivered_iff_keepsUp run placed subscribed stays).2.mpr
    (keepsUp_of_fits fresh .nil run fits)⟩

/-- The message is all that the peer receives. -/
theorem delivered_of_fits_sample :
    ∃ (trace : List (Transition State (Label samplePallas))) (final : State),
      Run (Step .debug sampleSetup.ingest) (.initial sampleDb samplePeer) trace final ∧
        Delivered "a" (.initial sampleDb samplePeer) trace final ∧
        trace.flatMap (received "a") = [((sampleTx 1 1).id, [1])] := by
  obtain ⟨trace, final, run, fits, stays, sent, unread⟩ := sampleDelivery_run
  have fresh : ∀ peer ∈ samplePeer.rows, peer.seen = 0 := by simp [samplePeer]
  have subscribed : Subscribed "a" (.initial sampleDb samplePeer) := rfl
  have delivered := delivered_of_fits sampleDb fresh .nil run fits subscribed stays
  refine ⟨trace, final, run, delivered, ?_⟩
  rw [Delivered, sent, unread, List.append_nil] at delivered
  exact delivered.symm

end Boros.Pipeline.Fanout
