import Boros.Pipeline.Backpressure
import Boros.Pipeline.Hand
import Boros.Queue.Shares
import Boros.Storage.Ahead

/-!
# Turns

No transaction waits for ever: in each round a queue has its share of the batch, so whatever
is ahead of a transaction in its queue runs out. `served_of_rounds` counts the rounds it takes.
-/

namespace Boros.Pipeline

open Boros.Data Boros.Semantics Boros.Storage Boros.Ledger Boros.Queue

namespace Ingest

variable {pallas : Pallas} {profile : Profile} {stage : Stage} {state next : Ingest.State}
  {label : Label pallas} {db : Db} {queue : String} {time least : Nat} {tx : Transaction}
  {unit rest txs : List Transaction} {limits : List (String × UInt16)}

/-- How many transactions of the queue which are no younger than the time wait to be taken. -/
def State.waiting (queue : String) (time : Nat) (state : Ingest.State) : Nat :=
  state.db.ahead queue time state.worker.taken

/-- The limits in hand grant the queue so many transactions, or all which wait. -/
def State.Due (queue : String) (time least : Nat) (state : Ingest.State) : Prop :=
  ∀ limits, state.worker = .selecting limits →
    min least (state.db.ahead queue time []) ≤ Priority.amountOf limits queue

/-- The step does not leave a transaction in hand behind: its message reaches a receiver, and
an examination which fails is retried. -/
def LeavesNone (stage : Stage) (state : Ingest.State) : Label pallas → Prop
  | .examine replies => ∀ unit tx rest, state.worker = .awaiting unit tx rest .examine →
    (∃ outcome, examine stage replies tx = .ok outcome) ∨
      examine stage replies tx = .error (.error .retry)
  | .send delivered => delivered = true
  | _ => True

/-- The free capacity, if there is any, has a share of the queue of at least so many
transactions. -/
def Grants (profile : Profile) (stage : Stage) (queue : String) (least : Nat)
    (state : Ingest.State) : Label pallas → Prop
  | .schedule queuedLen _ => ∀ free, currentCap profile queuedLen = .ok free → free ≠ 0 →
    0 < state.db.countOf .pending queue →
      least ≤ ⌊Priority.share
        (Priority.totalWeight (Priority.stateQueues stage.queues (state.db.state .pending)))
        (Priority.weightOf stage.queues queue) free⌋₊
  | _ => True

/-- A batch is taken in this step. -/
def takesBatch (transition : Transition Ingest.State (Label pallas)) : Bool :=
  match transition.label, transition.before.worker with
  | .select limitOrder, .selecting limits =>
    (transition.before.db.next .pending (limitOrder.order limits)).isOk
  | _, _ => false

/-! ## The batch -/

/-- `schedule` has the limits for the capacity which is free. -/
theorem schedule_selecting {quotaOrder : Priority.HashOrder (String × UInt16)} {queuedLen : Nat}
    (selecting : schedule profile stage quotaOrder db queuedLen = .selecting limits) :
    ∃ free, currentCap profile queuedLen = .ok free ∧ free ≠ 0 ∧
      Priority.limits profile stage.queues quotaOrder (db.state .pending) free = .ok limits := by
  revert selecting
  fun_cases schedule profile stage quotaOrder db queuedLen with
  | case5 free capacity nonzero state _ found computed =>
      rintro ⟨⟩
      exact ⟨free, capacity, nonzero, computed⟩
  | _ => rintro ⟨⟩

/-- The limit of a queue is at least the whole part of its share, or as much as it has. -/
theorem min_share_le_amountOf {quotaOrder : Priority.HashOrder (String × UInt16)} {free : UInt16}
    (computed : Priority.limits profile stage.queues quotaOrder (db.state .pending) free =
      .ok limits) (pending : 0 < db.countOf .pending queue) :
    min ⌊Priority.share
        (Priority.totalWeight (Priority.stateQueues stage.queues (db.state .pending)))
        (Priority.weightOf stage.queues queue) free⌋₊ (db.countOf .pending queue) ≤
      Priority.amountOf limits queue := by
  have known := ((db.state_queues .pending).2 queue).mpr pending
  obtain ⟨same, computed', _, _, amounts⟩ := Priority.limitsIn_state profile Priority.single
    stage.queues quotaOrder db .pending free
  rw [Priority.limitsIn_single, computed] at computed'
  obtain rfl := Except.ok.inj computed'
  have quota := Priority.floor_share_le Priority.single free
    (Priority.weightOf_le stage.queues known)
  rw [← Priority.amountOf_orderedQuotaIn Priority.single stage.queues quotaOrder free known] at quota
  obtain ⟨entry, member, rfl⟩ := List.mem_map.mp known
  rw [amounts entry member, Db.state_count member, Priority.offeredTo, offered]
  omega

/-- Limits are in hand once they were computed. -/
theorem Step.selecting (step : Step profile stage state label next)
    (selecting : next.worker = .selecting limits) :
    ∃ queuedLen quotaOrder, label = .schedule queuedLen quotaOrder ∧ next.db = state.db ∧
      Ingest.schedule profile stage quotaOrder state.db queuedLen = .selecting limits := by
  have proceeds : ∀ unit rest, proceed unit rest ≠ .selecting limits := by
    intro unit rest
    cases rest <;> simp [proceed]
  cases step with
  | schedule queuedLen quotaOrder scheduled =>
      exact ⟨queuedLen, quotaOrder, rfl, rfl, scheduled.trans selecting⟩
  | select limitOrder selected =>
      subst selected
      simp only [afterSelect] at selecting
      split at selecting
      · exact absurd selecting (proceeds _ _)
      · cases selecting
  | @examine db sent unit tx rest worker replies examined =>
      rcases @afterExamine_examine _ stage replies tx unit rest with
        ⟨raw, same⟩ | ⟨raw, same⟩ | same | ⟨cause, same⟩ | ⟨fault, same⟩ <;>
      · rw [← examined, same] at selecting
        cases selecting
  | sendFail | update | rerun => exact absurd selecting (proceeds _ _)
  | send | fetchTip | selectFail | fetchTipFail | updateFail | restart => cases selecting

/-- What is scheduled is due to the queue. -/
theorem Step.due (step : Step profile stage state label next)
    (grants : Grants profile stage queue least state label) :
    next.Due queue time least := by
  intro limits selecting
  obtain ⟨queuedLen, quotaOrder, rfl, same, scheduled⟩ := step.selecting selecting
  obtain ⟨free, capacity, nonzero, computed⟩ := schedule_selecting scheduled
  have few := state.db.ahead_le_countOf queue time []
  rw [same]
  by_cases pending : 0 < state.db.countOf .pending queue
  · have enough := grants free capacity nonzero pending
    have granted := min_share_le_amountOf computed pending
    omega
  · omega

/-- A batch has the transactions which were due. -/
theorem ahead_next_of_due {limitOrder : Priority.HashOrder (String × UInt16)}
    (success : db.next .pending (limitOrder.order limits) = .ok txs)
    (due : min least (db.ahead queue time []) ≤ Priority.amountOf limits queue) :
    db.ahead queue time (txs.map Transaction.id) ≤ db.ahead queue time [] - least := by
  cases found : limits.find? fun entry => entry.1 = queue with
  | none =>
      have fewer : db.ahead queue time (txs.map Transaction.id) ≤ db.ahead queue time [] :=
        Db.ahead_mono (List.nil_subset _)
      rw [Priority.amountOf, found] at due
      have nothing : min least (db.ahead queue time []) ≤ 0 := due
      omega
  | some entry =>
      have member : entry ∈ limitOrder.order limits :=
        (limitOrder.perm limits).mem_iff.mpr (List.mem_of_find?_eq_some found)
      obtain rfl : entry.1 = queue := by simpa using List.find?_some found
      have batch := @Db.ahead_next _ time _ _ success _ member
      rw [Priority.amountOf, found] at due
      have granted : min least (db.ahead entry.1 time []) ≤ entry.2.toNat := due
      omega

/-- No step brings back what was taken, and a batch takes what is due. -/
theorem Step.waiting_le (step : Step profile stage state label next) (holds : state.worker.Holds)
    (due : state.Due queue time least) (leavesNone : LeavesNone stage state label) :
    next.waiting queue time ≤ state.waiting queue time -
      if takesBatch ⟨state, label, next⟩ then least else 0 := by
  cases step with
  | @schedule db sent worker queuedLen quotaOrder scheduled =>
      subst scheduled
      simp only [State.waiting, takesBatch, (schedule_holds _ _ _ _ _).2.2]
      exact Nat.le_refl _
  | @select db sent limits worker limitOrder selected =>
      subst selected
      cases batch : db.next .pending (limitOrder.order limits) with
      | error cause =>
          simp only [State.waiting, takesBatch, batch]
          exact Nat.le_refl _
      | ok txs =>
          simp only [State.waiting, takesBatch, batch, afterSelect, taken_proceed]
          exact ahead_next_of_due batch (due limits rfl)
  | @examine db sent unit tx rest worker replies examined =>
      have goesOn := leavesNone unit tx rest rfl
      subst examined
      rcases @afterExamine_examine _ stage replies tx unit rest with
        ⟨raw, same⟩ | ⟨raw, same⟩ | same | ⟨cause, same⟩ | ⟨fault, same⟩
      · simp only [State.waiting, takesBatch, same]
        exact Nat.le_refl _
      · simp only [State.waiting, takesBatch, same]
        exact Nat.le_refl _
      · simp only [State.waiting, takesBatch, same]
        exact Db.ahead_mono holds.1
      all_goals
        rcases goesOn with ⟨⟨result, valid⟩, examined⟩ | examined
        · rw [examined] at same
          cases valid <;> cases same
        · rw [examined] at same
          cases same
  | sendFail => cases leavesNone
  | update =>
      simp only [State.waiting, takesBatch, taken_proceed]
      exact Db.ahead_update (holds.2 rfl)
  | fetchTipFail | updateFail => exact Db.ahead_mono holds.1
  | rerun =>
      simp only [State.waiting, takesBatch, taken_proceed]
      exact Nat.le_refl _
  | send | fetchTip | selectFail | restart => exact Nat.le_refl _

end Ingest

namespace Fanout

variable {pallas : Pallas} {profile : Profile} {stage : Ingest.Stage}
  {state next start final : State} {label : Label pallas} {queue : String} {time least : Nat}
  {trace : List (Transition State (Label pallas))}

/-- The step leaves no transaction in hand behind, and none comes to be ahead of the time which
was not before. -/
def Undisturbed (stage : Ingest.Stage) (queue : String) (time : Nat) (state : State) :
    Label pallas → Prop
  | .ingest label => Ingest.LeavesNone stage state.ingest label
  | .store next => ∀ id row, next.row id = some row → row.Ahead queue time [] →
    ∃ old, state.ingest.db.row id = some old ∧ old.Ahead queue time []
  | _ => True

/-- A schedule grants the queue a share of at least so many transactions. -/
def Grants (profile : Profile) (stage : Ingest.Stage) (queue : String) (least : Nat)
    (state : State) : Label pallas → Prop
  | .ingest label => Ingest.Grants profile stage queue least state.ingest label
  | _ => True

/-- A batch is taken in this step. -/
def takesBatch (transition : Transition State (Label pallas)) : Bool :=
  match transition.label with
  | .ingest label => Ingest.takesBatch ⟨transition.before.ingest, label, transition.after.ingest⟩
  | _ => false

/-- The unit in hand is whole, and the limits in hand are due. -/
def InTurn (queue : String) (time least : Nat) (state : State) : Prop :=
  state.ingest.worker.Holds ∧ state.ingest.Due queue time least

/-- Whoever writes to the store puts nothing ahead of the time. -/
theorem ahead_store {taken : List String} {db after : Db}
    (none : ∀ id row, after.row id = some row → row.Ahead queue time [] →
      ∃ old, db.row id = some old ∧ old.Ahead queue time []) :
    after.ahead queue time taken ≤ db.ahead queue time taken := by
  refine Db.ahead_le fun id row found ahead => ?_
  obtain ⟨pending, inQueue, older, untaken⟩ := ahead
  obtain ⟨old, foundToo, wasAhead⟩ := none id row found ⟨pending, inQueue, older, by simp⟩
  refine ⟨old, foundToo, wasAhead.1, wasAhead.2.1, wasAhead.2.2.1, ?_⟩
  rw [Db.row_id foundToo, ← Db.row_id found]
  exact untaken

theorem Step.inTurn (step : Step profile stage state label next)
    (undisturbed : Undisturbed stage queue time state label)
    (grants : Grants profile stage queue least state label)
    (inTurn : InTurn queue time least state) : InTurn queue time least next := by
  cases step with
  | ingest step answers => exact ⟨step.holds inTurn.1, step.due grants⟩
  | store db =>
      refine ⟨inTurn.1, fun limits selecting => ?_⟩
      have due := inTurn.2 limits selecting
      have fewer := @ahead_store queue time [] _ _ undisturbed
      simp only
      omega
  | peer | subscribe | refuse => exact inTurn

/-- No step brings back what was taken, and a batch takes what is due. -/
theorem Step.waiting_le (step : Step profile stage state label next)
    (undisturbed : Undisturbed stage queue time state label)
    (inTurn : InTurn queue time least state) :
    next.ingest.waiting queue time ≤ state.ingest.waiting queue time -
      if takesBatch ⟨state, label, next⟩ then least else 0 := by
  cases step with
  | ingest step answers => exact step.waiting_le inTurn.1 inTurn.2 undisturbed
  | store db => exact ahead_store undisturbed
  | peer | subscribe | refuse => exact Nat.le_refl _

/-- What waits runs out, by the share of the queue in every round. -/
theorem waiting_of_run (run : Run (Step profile stage) start trace final)
    (scheduling : start.ingest.worker = .schedule)
    (undisturbed : Guarded (Undisturbed stage queue time) trace)
    (grants : Guarded (Grants profile stage queue least) trace) :
    final.ingest.waiting queue time ≤
      start.ingest.db.ahead queue time [] - least * trace.countP takesBatch := by
  have preserved : Preserved (@Step pallas profile stage)
      (fun state label => Undisturbed stage queue time state label ∧
        Grants profile stage queue least state label) (InTurn queue time least) :=
    fun _ _ _ inTurn guards step => step.inTurn guards.1 guards.2 inTurn
  have inTurn : InTurn queue time least start := by
    constructor
    · rw [scheduling]
      trivial
    · intro limits selecting
      rw [scheduling] at selecting
      cases selecting
  have lowered := run.level_le preserved
    (fun _ _ _ inTurn guards step => step.waiting_le guards.1 inTurn) inTurn
    fun transition member => ⟨undisturbed transition member, grants transition member⟩
  have waiting : start.ingest.waiting queue time = start.ingest.db.ahead queue time [] := by
    rw [Ingest.State.waiting, scheduling]
    rfl
  rw [← waiting]
  exact lowered

/-- After as many rounds as it takes for what was ahead, every transaction of the queue which is
no younger than the time was dealt with, or is in hand. -/
theorem served_of_rounds (run : Run (Step profile stage) start trace final)
    (scheduling : start.ingest.worker = .schedule)
    (undisturbed : Guarded (Undisturbed stage queue time) trace)
    (grants : Guarded (Grants profile stage queue least) trace)
    (enough : start.ingest.db.ahead queue time [] ≤ least * trace.countP takesBatch) :
    ∀ id row, final.ingest.db.row id = some row → row.queue = queue → row.createdAt ≤ time →
      row.status = .pending → id ∈ final.ingest.worker.taken := by
  intro id row found inQueue older pending
  have lowered := waiting_of_run run scheduling undisturbed grants
  have none : final.ingest.waiting queue time = 0 := by omega
  by_contra untaken
  rw [← Db.row_id found] at untaken
  exact Db.ahead_eq_zero_iff.mp none id row found ⟨pending, inQueue, older, untaken⟩

/-- A valid transaction in hand is sent and stored, while there is a peer. -/
theorem reaches_dealt {replies : Ingest.Replies pallas} {tx result : Transaction}
    {unit rest : List Transaction} {db : Db} {sent : List (String × Bytes)} {peers : Peers}
    (tip : Point) (valid : Ingest.examine stage replies tx = .ok (result, true))
    (subscribed : peers.rows.isEmpty = false) :
    Reaches (@Step pallas profile stage)
      (fun state label => Undisturbed stage queue time state label ∧
        Grants profile stage queue least state label)
      ⟨⟨db, sent, .awaiting unit tx rest .examine⟩, peers⟩
      ⟨⟨db.update { result with status := .inFlight, slot := some tip.1 },
        sent ++ [(result.id, result.raw)], Ingest.proceed unit rest⟩, peers⟩ := by
  have leavesNone : Ingest.LeavesNone stage ⟨db, sent, .awaiting unit tx rest .examine⟩
      (.examine replies) := by
    rintro _ _ _ ⟨⟩
    exact .inl ⟨_, valid⟩
  have examined : Ingest.Step profile stage ⟨db, sent, .awaiting unit tx rest .examine⟩
      (.examine replies) ⟨db, sent, .awaiting unit result rest .send⟩ :=
    .examine replies (by rw [valid]; rfl)
  have answered : State.Answers ⟨⟨db, sent, .awaiting unit result rest .send⟩, peers⟩
      (.send true : Ingest.Label pallas) := by
    simp [State.Answers, subscribed]
  exact .cons (.ingest examined trivial) ⟨leavesNone, trivial⟩
    (.cons (.ingest .send answered) ⟨rfl, trivial⟩
      (.cons (.ingest (.fetchTip tip) trivial) ⟨trivial, trivial⟩
        (.cons (.ingest .update trivial) ⟨trivial, trivial⟩ (.refl _ _))))

/-- So is a unit of valid transactions. -/
theorem reaches_unit {replies : Ingest.Replies pallas} {unit rest : List Transaction}
    {peers : Peers} (tip : Point)
    (valid : ∀ tx ∈ rest, ∃ result, Ingest.examine stage replies tx = .ok (result, true))
    (subscribed : peers.rows.isEmpty = false) (db : Db) (sent : List (String × Bytes)) :
    ∃ db' sent', Reaches (@Step pallas profile stage)
      (fun state label => Undisturbed stage queue time state label ∧
        Grants profile stage queue least state label)
      ⟨⟨db, sent, Ingest.proceed unit rest⟩, peers⟩ ⟨⟨db', sent', .schedule⟩, peers⟩ := by
  induction rest generalizing db sent with
  | nil => exact ⟨db, sent, .refl _ _⟩
  | cons tx rest ih =>
      obtain ⟨result, examined⟩ := valid tx List.mem_cons_self
      obtain ⟨db', sent', later⟩ := ih (fun tx member => valid tx (List.mem_cons_of_mem _ member))
        (db.update { result with status := .inFlight, slot := some tip.1 })
        (sent ++ [(result.id, result.raw)])
      exact ⟨db', sent', (reaches_dealt tip examined subscribed).trans later⟩

/-- Both transactions are dealt with after one round. -/
theorem served_of_rounds_sample :
    ∃ (trace : List (Transition State (Label samplePallas))) (final : State),
      Run (Step .debug sampleSetup.ingest) (.initial sampleDb samplePeer) trace final ∧
        ∀ id row, final.ingest.db.row id = some row → row.queue = defaultQueue →
          row.createdAt ≤ 2 → row.status ≠ .pending := by
  have schedule : Step .debug sampleSetup.ingest (.initial sampleDb samplePeer)
      (.ingest (.schedule 0 (.inserted _)) : Label samplePallas)
      ⟨⟨sampleDb, [], .selecting [(defaultQueue, 2)]⟩, samplePeer⟩ :=
    .ingest (.schedule 0 (.inserted _) (by decide +kernel)) rfl
  have select : Step .debug sampleSetup.ingest
      ⟨⟨sampleDb, [], .selecting [(defaultQueue, 2)]⟩, samplePeer⟩
      (.ingest (.select (.inserted _)) : Label samplePallas)
      ⟨⟨sampleDb, [], Ingest.proceed sampleUnit sampleUnit⟩, samplePeer⟩ :=
    .ingest (.select (.inserted _) rfl) trivial
  have grants : Grants .debug sampleSetup.ingest defaultQueue 50 (.initial sampleDb samplePeer)
      (.ingest (.schedule 0 (.inserted _)) : Label samplePallas) := by
    rintro free ⟨⟩ _ _
    decide +kernel
  have valid : ∀ tx ∈ sampleUnit, ∃ result,
      Ingest.examine sampleSetup.ingest Ingest.sampleCalls.replies tx = .ok (result, true) := by
    have all : ∀ tx ∈ sampleUnit, Ingest.examine sampleSetup.ingest Ingest.sampleCalls.replies tx =
        .ok (tx, true) := by
      decide +kernel
    exact fun tx member => ⟨tx, all tx member⟩
  have subscribed : samplePeer.rows.isEmpty = false := rfl
  obtain ⟨db, sent, trace, rest, guarded⟩ :=
    @reaches_unit _ .debug _ defaultQueue 2 50 _ _ _ _ sampleTip valid subscribed sampleDb []
  have run := Run.cons schedule (.cons select rest)
  refine ⟨_, _, run, fun id row found inQueue older pending => ?_⟩
  have undisturbed := guarded.mono fun _ _ guards => guards.1
  have granted := guarded.mono fun _ _ guards => guards.2
  have two : sampleDb.ahead defaultQueue 2 [] = 2 := by decide +kernel
  have inHand := served_of_rounds run rfl
    ((guarded_cons _ _ _).mpr ⟨trivial, (guarded_cons _ _ _).mpr ⟨trivial, undisturbed⟩⟩)
    ((guarded_cons _ _ _).mpr ⟨grants, (guarded_cons _ _ _).mpr ⟨trivial, granted⟩⟩)
    (by
      rw [List.countP_cons, List.countP_cons_of_pos rfl]
      exact two.le.trans (by omega)) id row found inQueue older pending
  cases inHand

end Fanout

end Boros.Pipeline
