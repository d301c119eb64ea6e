import Boros.Pipeline.Fanout
import Boros.Pipeline.System

/-!
# Backpressure

`schedule` subtracts the messages queued on the output port from `CAP`, and the batch it
takes is to fit into the rest. `backpressured_of_fits` says that the subtraction is exact
in every run in which the batches do fit: a batch is sized by rounded quotas, which may
exceed the capacity they are computed from, and the channel has room for the excess.
-/

namespace Boros.Pipeline.Fanout

open Boros.Data Boros.Semantics Boros.Storage Boros.Ledger Boros.Queue

variable {pallas : Pallas} {profile : Profile} {stage : Ingest.Stage} {state next final : State}
  {label : Label pallas} {trace : List (Transition State (Label pallas))}

/-- The free capacity of the output port. -/
def State.free (state : State) : UInt16 := cap - UInt16.ofNat state.queuedLen

/-- When the ingest stage schedules, at most `CAP` messages are queued, and the capacity
which it computes is what they leave free. -/
def Backpressured (profile : Profile) (state : State) : Prop :=
  state.ingest.worker = .schedule → state.queuedLen ≤ cap.toNat ∧
    ∃ free, Ingest.currentCap profile state.queuedLen = .ok free ∧
      free.toNat = cap.toNat - state.queuedLen

/-- The batch which is scheduled fits into the free capacity, and so does a unit which
gasket runs again. -/
def Fits (stage : Ingest.Stage) (state : State) : Label pallas → Prop
  | .ingest (.schedule _ quotaOrder) =>
    let pending := state.ingest.db.state .pending
    Priority.WithinCap pending (Priority.orderedQuota stage.queues quotaOrder pending state.free)
      state.free
  | .ingest .rerun =>
    ∀ unit, state.ingest.worker = .retrying unit → state.queuedLen + unit.length ≤ cap.toNat
  | _ => True

/-! ## The messages still to be sent -/

/-- The messages which the stage may send before it schedules again. -/
def outstanding : Ingest.Worker → Nat
  | .selecting limits => (limits.map fun entry => entry.2.toNat).sum
  | .awaiting _ _ rest .examine => rest.length + 1
  | .awaiting _ _ rest .send => rest.length + 1
  | .awaiting _ _ rest _ => rest.length
  | _ => 0

@[simp]
theorem outstanding_proceed (unit rest : List Transaction) :
    outstanding (Ingest.proceed unit rest) = rest.length := by
  cases rest <;> rfl

/-- The second storage call returns no more than its limits. -/
theorem outstanding_afterSelect {db : Db} {limits : List (String × UInt16)}
    (limitOrder : Priority.HashOrder (String × UInt16)) :
    outstanding (Ingest.afterSelect (db.next .pending (limitOrder.order limits))) ≤
      outstanding (.selecting limits) := by
  cases selected : db.next .pending (limitOrder.order limits) with
  | error cause => exact Nat.zero_le _
  | ok txs =>
      rw [Ingest.afterSelect, outstanding_proceed, Db.next_length selected, outstanding,
        ← ((limitOrder.perm limits).map fun entry => entry.2.toNat).sum_eq]
      exact List.sum_le_sum fun entry _ => Nat.min_le_left _ _

theorem outstanding_afterExamine (unit rest : List Transaction)
    (examined : Except (Abort WorkerError) (Transaction × Bool)) :
    outstanding (Ingest.afterExamine unit rest examined) ≤ rest.length + 1 := by
  rcases Ingest.afterExamine_cases unit rest examined with
    ⟨tx, await, _, same⟩ | same | ⟨cause, same⟩ | ⟨fault, same⟩ <;> rw [same]
  · cases await with
    | examine | send => exact Nat.le_refl _
    | fetchTip | update => exact Nat.le_succ _
  all_goals exact Nat.zero_le _

/-- Between two schedules of the stage a message that is sent was outstanding. -/
theorem ingest_outstanding {before after : Ingest.State} {label : Ingest.Label pallas}
    (step : Ingest.Step profile stage before label after)
    (schedule : ∀ queuedLen quotaOrder, label ≠ .schedule queuedLen quotaOrder)
    (rerun : label ≠ .rerun) :
    after.sent.length + outstanding after.worker ≤
      before.sent.length + outstanding before.worker := by
  cases step with
  | schedule queuedLen quotaOrder scheduled => exact absurd rfl (schedule _ _)
  | rerun => exact absurd rfl rerun
  | select limitOrder selected =>
      subst selected
      exact Nat.add_le_add_left (outstanding_afterSelect limitOrder) _
  | examine replies examined =>
      subst examined
      exact Nat.add_le_add_left (outstanding_afterExamine _ _ _) _
  | send =>
      simp only [List.length_append, List.length_singleton, outstanding]
      omega
  | sendFail =>
      simp only [outstanding_proceed]
      exact Nat.add_le_add_left (Nat.le_succ _) _
  | update =>
      simp only [outstanding_proceed]
      exact Nat.le_refl _
  | selectFail | updateFail | fetchTipFail => exact Nat.add_le_add_left (Nat.zero_le _) _
  | fetchTip | restart => exact Nat.le_refl _

/-! ## Room for them -/

/-- The messages queued and those still to be sent fit into the capacity. -/
def Room (state : State) : Prop :=
  state.queuedLen + outstanding state.ingest.worker ≤ cap.toNat

/-- Up to `CAP` queued messages the subtraction is exact. -/
theorem State.free_of_le (profile : Profile) (fits : state.queuedLen ≤ cap.toNat) :
    Ingest.currentCap profile state.queuedLen = .ok state.free ∧
      state.free.toNat = cap.toNat - state.queuedLen := by
  have capacity : cap.toNat = 50 := rfl
  have narrow : state.queuedLen < UInt16.size := Nat.lt_of_le_of_lt fits (by decide)
  have length : (UInt16.ofNat state.queuedLen).toNat = state.queuedLen :=
    UInt16.toNat_ofNat_of_lt' narrow
  have ordered : UInt16.ofNat state.queuedLen ≤ cap := by
    rw [UInt16.le_iff_toNat_le, length]
    exact fits
  refine ⟨if_pos ordered, ?_⟩
  rw [State.free, UInt16.toNat_sub_of_le _ _ ordered, length]

/-- A batch which fits into the free capacity leaves room for it. -/
theorem outstanding_schedule (profile : Profile) (stage : Ingest.Stage)
    (quotaOrder : Priority.HashOrder (String × UInt16)) (room : state.queuedLen ≤ cap.toNat)
    (fits : Priority.WithinCap (state.ingest.db.state .pending) (Priority.orderedQuota stage.queues
      quotaOrder (state.ingest.db.state .pending) state.free) state.free) :
    state.queuedLen + outstanding (Ingest.schedule profile stage quotaOrder state.ingest.db
      state.queuedLen) ≤ cap.toNat := by
  obtain ⟨exact, value⟩ := State.free_of_le profile room
  have small : state.free ≤ 50 := by
    rw [UInt16.le_iff_toNat_le, value]
    exact Nat.sub_le _ _
  obtain ⟨limits, computed, _, served, _⟩ := Priority.limits_ok profile stage.queues quotaOrder
    (state.ingest.db.state .pending) small
  have total := Priority.serve_le_iff.mpr fits
  rw [← served, value] at total
  simp only [Ingest.schedule, exact, computed]
  split
  · exact room
  · split
    · exact room
    · simp only [outstanding]
      omega

/-- What `schedule` does to the ingest stage. -/
theorem ingest_schedule {before after : Ingest.State} {queuedLen : Nat}
    {quotaOrder : Priority.HashOrder (String × UInt16)}
    (step : Ingest.Step profile stage before
      (.schedule queuedLen quotaOrder : Ingest.Label pallas) after) :
    before.worker = .schedule ∧ after = { before with
      worker := Ingest.schedule profile stage quotaOrder before.db queuedLen } := by
  cases step with
  | schedule _ _ scheduled =>
      subst scheduled
      exact ⟨rfl, rfl⟩

/-- What running a unit again does to the ingest stage. -/
theorem ingest_rerun {before after : Ingest.State}
    (step : Ingest.Step profile stage before (.rerun : Ingest.Label pallas) after) :
    ∃ unit, before.worker = .retrying unit ∧
      after = { before with worker := Ingest.proceed unit unit } := by
  cases step
  exact ⟨_, rfl, rfl⟩

/-- A step of the ingest stage whose batch fits keeps room for what is still to be sent. -/
theorem Room.ingest {ingest : Ingest.State} {label : Ingest.Label pallas}
    (step : Ingest.Step profile stage state.ingest label ingest) (answers : state.Answers label)
    (fits : Fits stage state (.ingest label)) (room : Room state) :
    Room { state with ingest := ingest } := by
  have fills := (Step.ingest step answers).queuedLen_le
  unfold Room at room ⊢
  by_cases schedule : ∃ queuedLen quotaOrder, label = .schedule queuedLen quotaOrder
  · obtain ⟨queuedLen, quotaOrder, rfl⟩ := schedule
    obtain ⟨scheduling, rfl⟩ := ingest_schedule step
    obtain rfl : queuedLen = state.queuedLen := answers
    rw [scheduling] at room
    exact outstanding_schedule profile stage quotaOrder room fits
  · by_cases rerun : label = .rerun
    · subst rerun
      obtain ⟨unit, retrying, rfl⟩ := ingest_rerun step
      simp only [outstanding_proceed]
      exact fits unit retrying
    · have sends := ingest_outstanding step (fun _ _ same => schedule ⟨_, _, same⟩) rerun
      simp only [State.sent] at fills
      change _ + outstanding ingest.worker ≤ _
      omega

/-- A step whose batch fits keeps room for what is still to be sent. -/
theorem Step.room (step : Step profile stage state label next) (fits : Fits stage state label)
    (room : Room state) : Room next := by
  have fills := step.queuedLen_le
  cases step with
  | ingest step answers => exact room.ingest step answers fits
  | store | peer | subscribe | refuse =>
      refine Nat.le_trans (Nat.add_le_add_right ?_ _) room
      exact Nat.le_of_add_le_add_right fills

/-- In every run in which each batch, and each unit run again, fits into the free capacity,
`schedule` computes that capacity. -/
theorem backpressured_of_fits (db : Db) (peers : Peers)
    (run : Run (Step profile stage) (State.initial db peers) trace final)
    (fits : Guarded (Fits stage) trace) : Backpressured profile final := by
  have preserved : Preserved (@Step pallas profile stage) (Fits stage) Room := by
    intro state label next room fits step
    exact step.room fits room
  have initial : Room (State.initial db peers) := by
    have empty : State.queuedLen (.initial db peers) = 0 := by
      apply Nat.le_zero.mp
      apply Broadcast.queuedLen_le_iff.mpr
      intro position _
      simp [Broadcast.backlog, State.sent, State.initial]
    unfold Room
    rw [empty]
    exact Nat.zero_le _
  have room := run.invariant preserved initial fits
  intro scheduling
  unfold Room at room
  rw [scheduling] at room
  exact ⟨room, _, State.free_of_le profile room⟩

/-! ## Units sent as a whole -/

/-- While a peer is subscribed, the ingest stage executes a unit and all its messages are
delivered. -/
theorem reaches_execute (profile : Profile) (stage : Ingest.Stage) {peers : Peers}
    (subscribed : peers.rows.isEmpty = false) (unit : List Transaction)
    (entries : List (Transaction × Ingest.Calls pallas)) (output : Ingest.Output)
    (delivered : ∀ entry ∈ entries, entry.2.delivered = true) :
    Reaches (Step profile stage : State → Label pallas → State → Prop) (Fits stage)
      ⟨⟨output.db, output.sent, Ingest.proceed unit (entries.map Prod.fst)⟩, peers⟩
      ⟨⟨(Ingest.execute stage entries output).1.db, (Ingest.execute stage entries output).1.sent,
        Ingest.afterExecute unit .schedule (Ingest.execute stage entries output).2⟩, peers⟩ := by
  refine (Ingest.reaches_execute profile stage unit entries output).map (State.mk · peers)
    Label.ingest ?_
  rintro before label after ⟨entry, member, during⟩ step
  cases label with
  | schedule | select | rerun | restart => cases during
  | send outcome =>
      obtain rfl : outcome = entry.2.delivered := during
      exact ⟨.ingest step (by simp [State.Answers, delivered entry member, subscribed]), trivial⟩
  | examine | fetchTip | update | fail => exact ⟨.ingest step trivial, trivial⟩

/-- A peer which has not received anything. -/
def samplePeer : Peers := ⟨[⟨"a", .running, 0⟩], by simp⟩

/-- A batch of valid transactions is sent as a whole. -/
theorem reaches_batch {stage : Ingest.Stage} {db : Db} {limits : List (String × UInt16)}
    {unit : List Transaction} (selected : db.next .pending limits = .ok unit)
    (valid : ∀ tx ∈ unit, Ingest.examine stage Ingest.sampleCalls.replies tx = .ok (tx, true)) :
    ∃ final : State, Reaches (Step .debug stage) (@Fits samplePallas stage)
        ⟨⟨db, [], .selecting limits⟩, samplePeer⟩ final ∧
      final.ingest.worker = .schedule ∧ final.queuedLen = min ring unit.length := by
  let entries := unit.map fun tx => (tx, Ingest.sampleCalls)
  have txs : entries.map Prod.fst = unit := by simp [entries, Function.comp_def]
  have all : ∀ entry ∈ entries, (∃ tx, Ingest.examine stage entry.2.replies entry.1 =
      .ok (tx, true)) ∧ entry.2.delivered ∧ (∃ tip, entry.2.tip = some tip) ∧ entry.2.stored := by
    intro entry member
    obtain ⟨tx, txMem, rfl⟩ := List.mem_map.mp member
    exact ⟨⟨tx, valid tx txMem⟩, rfl, ⟨sampleTip, rfl⟩, rfl⟩
  obtain ⟨finished, length⟩ := Ingest.execute_delivered entries ⟨db, []⟩ all
  have executed := reaches_execute .debug stage (show samplePeer.rows.isEmpty = false from rfl)
    unit entries ⟨db, []⟩ fun entry member => (all entry member).2.1
  rw [txs, finished] at executed
  have afterSelect : Ingest.afterSelect (db.next .pending limits) = Ingest.proceed unit unit := by
    rw [selected]
    rfl
  refine ⟨_, .cons (.ingest (.select (.inserted _) afterSelect) trivial) trivial executed, rfl, ?_⟩
  simp only [State.queuedLen, State.sent, length]
  simp [samplePeer, Broadcast.queuedLen, Broadcast.backlog, entries]

/-- The batch of two transactions fits, and after it the capacity left is 48. -/
theorem backpressured_of_fits_two :
    ∃ (trace : List (Transition State (Label samplePallas))) (final : State),
      Run (Step .debug sampleSetup.ingest) (.initial sampleDb samplePeer) trace final ∧
      Backpressured .debug final ∧ final.ingest.worker = .schedule ∧ final.queuedLen = 2 := by
  have schedule : Step .debug sampleSetup.ingest (.initial sampleDb samplePeer)
      (.ingest (.schedule 0 (.inserted _)) : Label samplePallas)
      ⟨⟨sampleDb, [], .selecting [(defaultQueue, 2)]⟩, samplePeer⟩ :=
    .ingest (.schedule 0 (.inserted _) (by decide +kernel)) rfl
  have fits : Fits sampleSetup.ingest (.initial sampleDb samplePeer)
      (.ingest (.schedule 0 (.inserted _)) : Label samplePallas) :=
    Priority.serve_le_iff.mp (by decide +kernel)
  have valid : ∀ tx ∈ sampleUnit,
      Ingest.examine sampleSetup.ingest Ingest.sampleCalls.replies tx = .ok (tx, true) := by
    decide +kernel
  have selected : sampleDb.next .pending [(defaultQueue, 2)] = .ok sampleUnit := rfl
  obtain ⟨final, batch, scheduling, queued⟩ := reaches_batch selected valid
  obtain ⟨trace, run, guarded⟩ := Reaches.cons schedule fits batch
  exact ⟨trace, final, run, backpressured_of_fits _ _ run guarded, scheduling, queued⟩

/-! Four queues of equal weight: a quarter of the capacity is rounded up four times. -/

/-- The names of the queues. -/
def sampleNames : List String := ["a", "b", "c", "d"]

def sampleStage : Ingest.Stage :=
  ⟨⟨sampleNames.map fun name => { name := name }, by decide⟩, false⟩

/-- Thirteen pending transactions of each queue. -/
def sampleRows : List TxRow :=
  sampleNames.flatMap fun queue => (List.range 13).map fun index =>
    ⟨queue ++ String.singleton (Char.ofNat (97 + index)), [UInt8.ofNat index], .pending, none,
      queue, index⟩

def sampleBacklog : Db := ⟨⟨sampleRows, by decide +kernel⟩, [], none⟩

/-- The limits computed for them. -/
def sampleLimits : List (String × UInt16) := sampleNames.map fun name => (name, 13)

/-- The batch which these limits select. -/
def sampleBatch : List Transaction :=
  sampleRows.map fun row => ⟨row.id, row.raw, row.status, row.queue, none, none, row.createdAt⟩

/-- A batch of 52 transactions is sent, which is more than the capacity. -/
theorem not_backpressured_of_four :
    ∃ (trace : List (Transition State (Label samplePallas))) (final : State),
      Run (Step .debug sampleStage) (.initial sampleBacklog samplePeer) trace final ∧
      ¬ Backpressured .debug final := by
  have schedule : Step .debug sampleStage (.initial sampleBacklog samplePeer)
      (.ingest (.schedule 0 (.inserted _)) : Label samplePallas)
      ⟨⟨sampleBacklog, [], .selecting sampleLimits⟩, samplePeer⟩ :=
    .ingest (.schedule 0 (.inserted _) (by decide +kernel)) rfl
  have valid : ∀ tx ∈ sampleBatch,
      Ingest.examine sampleStage Ingest.sampleCalls.replies tx = .ok (tx, true) := by
    decide +kernel
  have selected : sampleBacklog.next .pending sampleLimits = .ok sampleBatch := by decide +kernel
  obtain ⟨final, batch, scheduling, queued⟩ := reaches_batch selected valid
  obtain ⟨trace, run, _⟩ := Reaches.cons schedule trivial (batch.mono fun _ _ _ => trivial)
  refine ⟨trace, final, run, fun backpressured => ?_⟩
  have bound := (backpressured scheduling).1
  rw [queued] at bound
  exact absurd bound (by decide)

end Boros.Pipeline.Fanout
