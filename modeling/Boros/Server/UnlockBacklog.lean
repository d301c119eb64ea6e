import Mathlib.Algebra.BigOperators.Group.Finset.Piecewise
import Mathlib.Algebra.Order.BigOperators.Group.Finset
import Boros.Server.Sequential

/-!
# The backlog of unlock signals

A call sends one unlock signal for each of its chained transactions, into a channel which
has room for `unlockCapacity` of them; the worker takes one for each lock, and none while
no lock is held. `unblocked_iff` says that no call can ever be blocked on a channel whose
lock nobody holds in exactly the runs in which whatever is stored leaves no more signals
for a queue than its channel has room for.
-/

namespace Boros.Server.Submit

/-- The signals which a call has left to send. -/
def Request.left (request : Request) : List String :=
  match request.phase with
  | .unlocking signals => signals
  | _ => []

end Boros.Server.Submit

namespace Boros.Server.Locking

open Boros.Data Boros.Semantics Boros.Storage Boros.Ledger Boros.Queue Boros.Queue.Chaining
open Boros.Server.Submit

variable {pallas : Pallas} {queues : Configs} {state next start final : State}
  {label : Label pallas} {id : Nat} {queue : String}
  {trace : List (Transition State (Label pallas))}

/-- The signals which each call has left to send. -/
def State.left (state : State) (id : Nat) : List String :=
  (state.requests id).elim [] Request.left

/-- The signals for a queue which are in its channel, or which some of the calls have left to
send. -/
def State.backlog (state : State) (queue : String) (calls : Finset Nat) : Nat :=
  state.locks.unlocks queue + ∑ call ∈ calls, (state.left call).count queue

/-- The call waits for room in the channel of a queue whose lock nobody holds. -/
def Blocked (state : State) (id : Nat) (queue : String) : Prop :=
  ∃ request rest, state.requests id = some request ∧ request.phase = .unlocking (queue :: rest) ∧
    unlockCapacity ≤ state.locks.unlocks queue ∧
    ∀ token since, state.locks.workers queue ≠ .held token since

/-- No call stores its transactions. -/
def NotCreated (_ : State) (label : Label pallas) : Prop := ∀ id, label ≠ .create id

/-- In every state which is reached, and in every later one until a further call stores its
transactions, no call is blocked; and each call which has stored its transactions can send its
signals and answer without waiting for anything. -/
structure Unblocked (queues : Configs) (trace : List (Transition State (Label pallas))) :
    Prop where
  never : ∀ transition ∈ trace, ∀ later : State,
    Reaches (Step queues : State → Label pallas → State → Prop) NotCreated transition.after
      later → ∀ id queue, ¬ Blocked later id queue
  answers : ∀ transition ∈ trace, ∀ id request signals,
    transition.after.requests id = some request → request.phase = .unlocking signals →
      ∃ later : State, Reaches (Step queues : State → Label pallas → State → Prop) (Ending id)
          transition.after later ∧
        later.requests id = some { request with phase := .answered (.ok request.hashes) }

/-- When a call stores its transactions, then for every queue these and the backlog of any other
calls are no more than its channel has room for. -/
def Fits (state : State) (label : Label pallas) : Prop :=
  ∀ id request, label = .create id → state.requests id = some request → ∀ queue calls,
    state.backlog queue calls + (request.passed.map Prod.fst).count queue ≤ unlockCapacity

/-! ## What one step does to the signals -/

theorem State.left_of_found {request : Request} (found : state.requests id = some request) :
    state.left id = request.left := by
  rw [State.left, found]
  rfl

theorem State.left_of_unlocking {request : Request} {signals : List String}
    (found : state.requests id = some request) (phase : request.phase = .unlocking signals) :
    state.left id = signals := by
  rw [State.left_of_found found, Request.left, phase]

theorem State.setRequest_left (state : State) (id : Nat) (request : Request) :
    (state.setRequest id request).left = Function.update state.left id request.left := by
  funext other
  by_cases same : other = id
  · subst same
    simp [State.left]
  · simp [State.left, same]

/-- A call which sends no signals before and after is set. -/
theorem State.setRequest_left_of_nil {request : Request} (before : state.left id = [])
    (after : request.left = []) : (state.setRequest id request).left = state.left := by
  rw [State.setRequest_left, after, ← before, Function.update_eq_self]

/-- A call which stores its transactions has a signal to send for each of the chained ones. -/
theorem Step.left_of_create {request : Request}
    (step : Step queues state (.create id : Label pallas) next)
    (found : state.requests id = some request) :
    state.left id = [] ∧
      next.left = Function.update state.left id (request.passed.map Prod.fst) ∧
      next.locks = state.locks := by
  cases step with
  | create here phase _ =>
      obtain rfl := Option.some.inj (found.symm.trans here)
      refine ⟨?_, State.setRequest_left _ id _, rfl⟩
      rw [State.left_of_found found, Request.left, phase]

/-- What changes the signals: a call stores its transactions, or sends a signal. The worker takes
signals out of the channels. -/
theorem Step.left_cases (step : Step queues state label next) :
    next.left = state.left ∧ (∀ queue, next.locks.unlocks queue ≤ state.locks.unlocks queue) ∨
    (∃ id request, label = .create id ∧ state.requests id = some request ∧ state.left id = [] ∧
      next.left = Function.update state.left id (request.passed.map Prod.fst) ∧
      next.locks = state.locks) ∨
    ∃ id queue rest, label = .unlock id ∧ state.left id = queue :: rest ∧
      next.left = Function.update state.left id rest ∧
      state.locks.unlocks queue < unlockCapacity ∧
      next.locks = state.locks.setUnlocks queue (state.locks.unlocks queue + 1) := by
  cases step with
  | tick | store | lock => exact .inl ⟨rfl, fun _ => Nat.le_refl _⟩
  | worker changed _ workerStep =>
      refine .inl ⟨rfl, fun queue => ?_⟩
      by_cases same : queue = changed
      · subst same
        cases workerStep with
        | unlock => simp
        | _ => exact Nat.le_refl _
      · exact (workerStep.other same).2.2.le
  | submit id message free =>
      refine .inl ⟨State.setRequest_left_of_nil ?_ rfl, fun _ => Nat.le_refl _⟩
      rw [State.left, free]
      rfl
  | @examine id request index remaining validation evaluation found phase =>
      refine .inl ⟨State.setRequest_left_of_nil ?_ ?_, fun _ => Nat.le_refl _⟩
      · rw [State.left_of_found found, Request.left, phase]
      · unfold Request.left
        split
        · rename_i signals sending
          exact absurd sending (Request.examine_phase_ne_unlocking remaining signals)
        · rfl
  | @check id request tx hash queue token index remaining found phase =>
      refine .inl ⟨State.setRequest_left_of_nil ?_ ?_, fun _ => Nat.le_refl _⟩
      · rw [State.left_of_found found, Request.left, phase]
      · rcases Request.check_cases remaining with ⟨_, _, examining⟩ | ⟨_, refused⟩
        · rw [Request.left, examining]
        · rw [refused]
          rfl
  | @create id request stored found phase created =>
      have step : Step queues state (.create id : Label pallas) _ := .create found phase created
      exact .inr (.inl ⟨id, request, rfl, found, step.left_of_create found⟩)
  | @createFail id request found phase =>
      refine .inl ⟨State.setRequest_left_of_nil ?_ rfl, fun _ => Nat.le_refl _⟩
      rw [State.left_of_found found, Request.left, phase]
  | @unlock id request queue rest found phase room =>
      refine .inr (.inr ⟨id, queue, rest, rfl, ?_, State.setRequest_left _ id _, room, rfl⟩)
      rw [State.left_of_found found, Request.left, phase]
  | @answer id request found phase =>
      refine .inl ⟨State.setRequest_left_of_nil ?_ rfl, fun _ => Nat.le_refl _⟩
      rw [State.left_of_found found, Request.left, phase]

/-! ## The backlog -/

/-- The signals of one call are replaced, in a sum over the calls. -/
theorem State.sum_left (measure : List String → Nat) {signals : List String} {calls : Finset Nat}
    (after : next.left = Function.update state.left id signals) (member : id ∈ calls) :
    ∑ call ∈ calls, measure (next.left call) + measure (state.left id) =
      ∑ call ∈ calls, measure (state.left call) + measure signals := by
  have measured : (fun call => measure (next.left call)) =
      Function.update (fun call => measure (state.left call)) id (measure signals) := by
    rw [after]
    exact Function.comp_update measure state.left id signals
  have parts := Finset.add_sum_erase calls (fun call => measure (state.left call)) member
  rw [measured, Finset.sum_update_of_mem member, Finset.sdiff_singleton_eq_erase]
  omega

/-- The backlog changes with the channel and with the signals which are replaced. -/
theorem State.backlog_update (queue : String) {signals : List String} {calls : Finset Nat}
    (after : next.left = Function.update state.left id signals) (member : id ∈ calls) :
    next.backlog queue calls + state.locks.unlocks queue + (state.left id).count queue =
      state.backlog queue calls + next.locks.unlocks queue + signals.count queue := by
  have parts := State.sum_left (List.count queue) after member
  unfold State.backlog
  omega

/-- More calls have no fewer signals. -/
theorem State.backlog_le_insert (state : State) (queue : String) (id : Nat) (calls : Finset Nat) :
    state.backlog queue calls ≤ state.backlog queue (insert id calls) :=
  Nat.add_le_add_left (Finset.sum_le_sum_of_subset (Finset.subset_insert id calls)) _

/-- A signal which is sent stays in the backlog. -/
theorem State.backlog_of_sent (queue : String) {sent : String} {rest : List String}
    {calls : Finset Nat} (here : state.left id = sent :: rest)
    (after : next.left = Function.update state.left id rest)
    (locks : next.locks = state.locks.setUnlocks sent (state.locks.unlocks sent + 1))
    (member : id ∈ calls) : next.backlog queue calls = state.backlog queue calls := by
  have replaced := State.backlog_update queue after member
  by_cases same : queue = sent
  · subst same
    simp only [locks, here, Locks.setUnlocks_unlocks, Function.update_self,
      List.count_cons_self] at replaced
    omega
  · simp only [locks, here, Locks.setUnlocks_unlocks, Function.update_of_ne same,
      List.count_cons_of_ne (Ne.symm same)] at replaced
    omega

/-- No channel will ever have to take more than it has room for. -/
def Within (state : State) : Prop :=
  ∀ queue calls, state.backlog queue calls ≤ unlockCapacity

/-- Storing what fits keeps the backlog within the channels. -/
theorem Step.within (step : Step queues state label next) (fits : Fits state label)
    (within : Within state) : Within next := by
  intro queue calls
  rcases step.left_cases with ⟨left, unlocks⟩ | ⟨id, request, created, found, idle, left, locks⟩ |
    ⟨id, sent, rest, _, here, left, _, locks⟩
  · refine Nat.le_trans (Nat.add_le_add (unlocks queue) ?_) (within queue calls)
    rw [left]
  · have fitting := fits id request created found queue (insert id calls)
    have replaced := State.backlog_update queue left (Finset.mem_insert_self id calls)
    rw [locks, idle, List.count_nil] at replaced
    have more := next.backlog_le_insert queue id calls
    omega
  · have same := State.backlog_of_sent queue here left locks
      (Finset.mem_insert_self id calls)
    have more := next.backlog_le_insert queue id calls
    have bound := within queue (insert id calls)
    omega

theorem within_initial (db : Db) (now : Nat) : Within (State.initial db now) := by
  intro queue calls
  simp [State.backlog, State.left, State.initial, Locks.new]

theorem fits_of_notCreated (notCreated : NotCreated state label) : Fits state label :=
  fun id _ created => absurd created (notCreated id)

/-- Within the channels nothing is blocked. -/
theorem Within.not_blocked (within : Within state) (id : Nat) (queue : String) :
    ¬ Blocked state id queue := by
  rintro ⟨request, rest, found, phase, full, _⟩
  have bound := within queue {id}
  rw [State.backlog, Finset.sum_singleton, State.left_of_unlocking found phase,
    List.count_cons_self] at bound
  omega

/-- If whatever is stored fits, no call is ever blocked, and each one which has stored its
transactions answers by itself. -/
theorem unblocked_of_fits (db : Db) (now : Nat)
    (run : Run (Step queues) (State.initial db now) trace final) (fits : Guarded Fits trace) :
    Unblocked queues trace := by
  have preserved : Preserved (@Step pallas queues) Fits Within := by
    intro state label next within fits step
    exact step.within fits within
  have after : ∀ transition ∈ trace, Within transition.after := fun transition member =>
    (run.invariant_of_mem preserved (within_initial db now) fits member).2
  constructor
  · intro transition member later reached id queue
    obtain ⟨rest, run, guarded⟩ := reached
    have within : Within later := run.invariant preserved (after transition member)
      (guarded.mono fun _ _ => fits_of_notCreated)
    exact within.not_blocked id queue
  · intro transition member id request signals found phase
    obtain ⟨later, reached, answered, _⟩ := reaches_answer signals found phase fun queue => by
      have bound := after transition member queue {id}
      rw [State.backlog, Finset.sum_singleton, State.left_of_unlocking found phase] at bound
      exact bound
    exact ⟨later, reached, answered⟩

/-! ## What does not fit -/

/-- No channel has taken more than it has room for, and only the locks of chained queues are
held. -/
structure Bounded (queues : Configs) (state : State) : Prop where
  unlocks : ∀ queue, state.locks.unlocks queue ≤ unlockCapacity
  chained : ∀ queue token since, state.locks.workers queue = .held token since →
    isChainedQueue queues queue

theorem Step.bounded (step : Step queues state label next) (bounded : Bounded queues state) :
    Bounded queues next := by
  constructor
  · intro queue
    have before := bounded.unlocks queue
    rcases step.left_cases with ⟨_, unlocks⟩ | ⟨_, _, _, _, _, _, locks⟩ |
      ⟨_, sent, _, _, _, _, room, locks⟩
    · exact Nat.le_trans (unlocks queue) before
    · rw [locks]
      exact before
    · rw [locks, Locks.setUnlocks_unlocks, Function.update_apply]
      split
      · exact room
      · exact before
  · intro queue token since held
    cases step with
    | worker changed chained workerStep =>
        by_cases same : queue = changed
        · subst same
          exact chained
        · rw [State.setLocks_locks, (workerStep.other same).2.1] at held
          exact bounded.chained queue token since held
    | _ => exact bounded.chained queue token since held

theorem bounded_of_run (db : Db) (now : Nat)
    (run : Run (Step queues : State → Label pallas → State → Prop) (.initial db now) trace
      state) : Bounded queues state := by
  have preserved : Preserved (@Step pallas queues) (fun _ _ => True) (Bounded queues) := by
    intro state label next bounded _ step
    exact step.bounded bounded
  have start : Bounded queues (State.initial db now) :=
    ⟨fun _ => Nat.zero_le _, fun _ _ _ held => Worker.noConfusion held⟩
  exact run.invariant preserved start fun _ _ => trivial

/-- A held lock times out, which sends and takes no signal. -/
theorem reaches_unheld (bounded : Bounded queues state) (queue : String) :
    ∃ later : State, Reaches (Step queues : State → Label pallas → State → Prop) NotCreated state
        later ∧
      later.requests = state.requests ∧ later.locks.unlocks = state.locks.unlocks ∧
      ∀ token since, later.locks.workers queue ≠ .held token since := by
  by_cases held : ∃ token since, state.locks.workers queue = .held token since
  · obtain ⟨token, since, held⟩ := held
    let waited : State := { state with now := state.now + (since + lockTimeout) }
    let released := waited.setLocks (waited.locks.setWorker queue .releasing)
    have wait : Step queues state (.tick (since + lockTimeout) : Label pallas) waited := .tick _
    have timeout : Step queues waited (.worker queue .timeout : Label pallas) released :=
      .worker queue (bounded.chained queue token since held)
        (.timeout held (Nat.le_add_left _ _))
    have run : Reaches (Step queues : State → Label pallas → State → Prop) NotCreated state
        released :=
      .cons wait (by simp [NotCreated]) (.cons timeout (by simp [NotCreated]) (.refl _ _))
    exact ⟨released, run, rfl, rfl, by simp [released]⟩
  · exact ⟨state, .refl _ _, rfl, rfl, fun token since here => held ⟨token, since, here⟩⟩

/-- A call has a signal left to send. -/
theorem State.unlocking_of_left {rest : List String} (here : state.left id = queue :: rest) :
    ∃ request, state.requests id = some request ∧ request.phase = .unlocking (queue :: rest) := by
  unfold State.left at here
  cases found : state.requests id with
  | none =>
      rw [found] at here
      cases here
  | some request =>
      rw [found] at here
      change request.left = queue :: rest at here
      unfold Request.left at here
      split at here
      · rename_i signals phase
        rw [here] at phase
        exact ⟨request, rfl, phase⟩
      · cases here

/-- A backlog too large for the channel is not all in the channel. -/
theorem Bounded.exists_left {calls : Finset Nat} (bounded : Bounded queues state)
    (overflow : unlockCapacity < state.backlog queue calls) :
    ∃ id ∈ calls, ∃ sent rest, state.left id = sent :: rest := by
  by_contra none
  push Not at none
  have idle : ∑ call ∈ calls, (state.left call).count queue = 0 := by
    refine Finset.sum_eq_zero fun call member => ?_
    cases left : state.left call with
    | nil => rfl
    | cons sent rest => exact absurd left (none call member sent rest)
  have taken := bounded.unlocks queue
  rw [State.backlog, idle] at overflow
  omega

/-- Where the backlog is too large for the channel, some call comes to be blocked: the calls send
their signals until one of them finds a channel full, and then its lock times out. -/
theorem reaches_blocked {calls : Finset Nat} {remaining : Nat} (bounded : Bounded queues state)
    (bound : ∑ call ∈ calls, (state.left call).length < remaining)
    (overflow : unlockCapacity < state.backlog queue calls) :
    ∃ (later : State) (id : Nat) (full : String),
      Reaches (Step queues : State → Label pallas → State → Prop) NotCreated state later ∧
        Blocked later id full := by
  induction remaining generalizing state with
  | zero => exact absurd bound (Nat.not_lt_zero _)
  | succ remaining ih =>
      obtain ⟨id, member, sent, rest, here⟩ := bounded.exists_left overflow
      obtain ⟨request, found, phase⟩ := State.unlocking_of_left here
      by_cases room : state.locks.unlocks sent < unlockCapacity
      · let next := (state.setRequest id { request with phase := .unlocking rest }).setLocks
          (state.locks.setUnlocks sent (state.locks.unlocks sent + 1))
        have step : Step queues state (.unlock id : Label pallas) next := .unlock found phase room
        have after : next.left = Function.update state.left id rest :=
          State.setRequest_left state id _
        have fewer : ∑ call ∈ calls, (next.left call).length < remaining := by
          have parts := State.sum_left List.length after member
          rw [here, List.length_cons] at parts
          omega
        rw [← State.backlog_of_sent queue here after rfl member] at overflow
        obtain ⟨later, blocked, full, run, waits⟩ := ih (step.bounded bounded) fewer overflow
        exact ⟨later, blocked, full, .cons step (by simp [NotCreated]) run, waits⟩
      · obtain ⟨later, reached, requests, unlocks, unheld⟩ := reaches_unheld bounded sent
        refine ⟨later, id, sent, reached, request, rest, ?_, phase, ?_, unheld⟩
        · rw [requests]
          exact found
        · rw [unlocks]
          omega

/-- If what is stored does not fit, some call may come to be blocked. -/
theorem fits_of_unblocked (db : Db) (now : Nat)
    (run : Run (Step queues) (State.initial db now) trace final)
    (unblocked : Unblocked queues trace) : Guarded Fits trace := by
  intro transition member id request created found queue calls
  by_contra overflow
  obtain ⟨first, second, rfl⟩ := List.append_of_mem member
  obtain ⟨prior, step, _⟩ := run.around
  have bounded := step.bounded (bounded_of_run db now prior)
  have large : unlockCapacity < transition.after.backlog queue (insert id calls) := by
    rw [created] at step
    obtain ⟨idle, left, locks⟩ := step.left_of_create found
    have replaced := State.backlog_update queue left (Finset.mem_insert_self id calls)
    rw [idle, locks, List.count_nil] at replaced
    have more := transition.before.backlog_le_insert queue id calls
    omega
  obtain ⟨later, blocked, full, reached, waits⟩ :=
    reaches_blocked bounded (Nat.lt_succ_self _) large
  exact unblocked.never transition member later reached blocked full waits

/-- No call can be blocked on a channel whose lock nobody holds, and each one which has stored its
transactions answers by itself, in exactly the runs in which what is stored fits the channels. -/
theorem unblocked_iff (db : Db) (now : Nat)
    (run : Run (Step queues) (State.initial db now) trace final) :
    Unblocked queues trace ↔ Guarded Fits trace :=
  ⟨fits_of_unblocked db now run, unblocked_of_fits db now run⟩

/-! ## Two calls -/

/-- No signal was sent yet, or is left to send. -/
structure Unsignalled (state : State) : Prop where
  left : ∀ id, state.left id = []
  unlocks : ∀ queue, state.locks.unlocks queue = 0

/-- Until a call stores its transactions there are no signals. -/
theorem Step.unsignalled (step : Step queues state label next) (notCreated : NotCreated state label)
    (unsignalled : Unsignalled state) : Unsignalled next := by
  rcases step.left_cases with ⟨left, unlocks⟩ | ⟨id, _, created, _⟩ | ⟨id, _, _, _, here, _⟩
  · constructor
    · intro id
      rw [left]
      exact unsignalled.left id
    · intro queue
      have fewer := unlocks queue
      rw [unsignalled.unlocks queue] at fewer
      exact Nat.le_zero.mp fewer
  · exact absurd created (notCreated id)
  · rw [unsignalled.left id] at here
    cases here

theorem unsignalled_of_run (db : Db) (now : Nat)
    (run : Run (Step queues) (State.initial db now) trace final)
    (notCreated : Guarded NotCreated trace) : Unsignalled final := by
  have preserved : Preserved (@Step pallas queues) NotCreated Unsignalled := by
    intro state label next unsignalled notCreated step
    exact step.unsignalled notCreated unsignalled
  exact run.invariant preserved ⟨fun _ => rfl, fun _ => rfl⟩ notCreated

/-- What is stored first fits if there are not too many transactions. -/
theorem Unsignalled.fits {request : Request} (unsignalled : Unsignalled state)
    (found : state.requests id = some request) (few : request.passed.length ≤ unlockCapacity) :
    Fits state (.create id : Label pallas) := by
  intro other stored created found' queue calls
  obtain rfl := Label.create.inj created
  obtain rfl := Option.some.inj (found.symm.trans found')
  have fewer := List.count_le_length (a := queue) (l := request.passed.map Prod.fst)
  rw [List.length_map] at fewer
  have idle : ∑ call ∈ calls, (state.left call).count queue = 0 := by
    refine Finset.sum_eq_zero fun call _ => ?_
    rw [unsignalled.left call]
    rfl
  rw [State.backlog, unsignalled.unlocks, idle]
  omega

/-- A call with as many transactions under the first client's token comes to store them. -/
def sampleBatch (count : Nat) : List (Label samplePallas) :=
  sampleLock 1 "aaaaaaaa" ++ [.worker "banana" .deliver] ++
    sampleSubmission 0 ((List.range count).map fun byte => sampleRequest byte.toUInt8 "aaaaaaaa")

/-- A call with two transactions sends its signals and answers. -/
theorem unblocked_iff_sample :
    ∃ (trace : List (Transition State (Label samplePallas))) (final : State),
      Run (Step sampleQueues) (State.initial .empty 0) trace final ∧
        final.locks.unlocks "banana" = 2 ∧ Unblocked sampleQueues trace := by
  have reached : ((follow (State.exec sampleQueues) (State.initial .empty 0)
      (sampleBatch 2)).bind fun ready => (ready.requests 0).bind fun request =>
        (ready.exec sampleQueues (.create 0 : Label samplePallas)).bind fun stored =>
          (follow (State.exec sampleQueues) stored
            ([.unlock 0, .unlock 0, .answer 0] : List (Label samplePallas))).map fun final =>
              (request.passed.length, final.locks.unlocks "banana")) = some (2, 2) := by
    decide +kernel
  obtain ⟨ready, first, reached⟩ := Option.bind_eq_some_iff.mp reached
  obtain ⟨request, found, reached⟩ := Option.bind_eq_some_iff.mp reached
  obtain ⟨stored, created, reached⟩ := Option.bind_eq_some_iff.mp reached
  obtain ⟨final, last, seen⟩ := Option.map_eq_some_iff.mp reached
  obtain ⟨passed, sent⟩ := Prod.mk.inj seen
  obtain ⟨before, prior, labels⟩ := Run.of_follow (step_of_exec sampleQueues) first
  obtain ⟨after, rest, labels'⟩ := Run.of_follow (step_of_exec sampleQueues) last
  have create := step_of_exec sampleQueues ready _ stored created
  have notCreated : Guarded NotCreated before := by
    intro transition member id same
    have label := label_mem labels member
    simp [same, sampleBatch, sampleLock, sampleSubmission] at label
  have unsignalled := unsignalled_of_run .empty 0 prior notCreated
  have run := prior.append (.cons create rest)
  refine ⟨_, final, run, sent, (unblocked_iff .empty 0 run).mpr ?_⟩
  rw [guarded_append, guarded_cons]
  refine ⟨notCreated.mono fun _ _ => fits_of_notCreated, ?_, ?_⟩
  · exact unsignalled.fits found (by rw [passed]; decide)
  · intro transition member
    refine fits_of_notCreated fun id same => ?_
    have label := label_mem labels' member
    simp [same] at label

/-- A call with 66 transactions: the worker takes the first of its signals and removes the token,
64 more fill the channel, and nobody takes any of them for the last one to be sent. -/
theorem not_unblocked_of_batch :
    ∃ (trace : List (Transition State (Label samplePallas))) (final : State),
      Run (Step sampleQueues) (State.initial .empty 0) trace final ∧
        final.locks.workers "banana" = .waiting ∧ Blocked final 0 "banana" ∧
        ¬ Unblocked sampleQueues trace := by
  have reached : ((follow (State.exec sampleQueues) (State.initial .empty 0)
      (sampleBatch 66 ++ [.create 0, .unlock 0, .worker "banana" .unlock] ++
        List.replicate 64 (.unlock 0))).bind fun before =>
          (before.exec sampleQueues (.worker "banana" .remove : Label samplePallas)).bind
            fun final => (final.requests 0).map fun request =>
              (request.phase, final.locks.unlocks "banana", final.locks.workers "banana")) =
      some (.unlocking ["banana"], 64, .waiting) := by
    decide +kernel
  obtain ⟨before, followed, reached⟩ := Option.bind_eq_some_iff.mp reached
  obtain ⟨final, removed, reached⟩ := Option.bind_eq_some_iff.mp reached
  obtain ⟨request, found, seen⟩ := Option.map_eq_some_iff.mp reached
  simp only [Prod.mk.injEq] at seen
  obtain ⟨phase, full, waiting⟩ := seen
  obtain ⟨trace, prior, _⟩ := Run.of_follow (step_of_exec sampleQueues) followed
  have run := prior.snoc (step_of_exec sampleQueues before _ final removed)
  have blocked : Blocked final 0 "banana" := by
    refine ⟨request, [], found, phase, full.ge, fun token since held => ?_⟩
    rw [waiting] at held
    cases held
  refine ⟨_, final, run, waiting, blocked, fun unblocked => ?_⟩
  exact unblocked.never _ (List.mem_append_right _ List.mem_cons_self) final (.refl _ _) 0 "banana"
    blocked

end Boros.Server.Locking
