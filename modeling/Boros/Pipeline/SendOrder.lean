import Boros.Pipeline.Provenance

/-!
# The order of broadcasts

A unit has the oldest pending transactions of each queue in the order of their creation, and
`execute` goes through it in this order. But a transaction whose `output.send` fails is passed
over and stays pending, and the next ones are sent. `inOrder_iff` says that nothing else lets a
transaction be sent before an older one of its queue.
-/

namespace Boros.Pipeline

open Boros.Data Boros.Semantics Boros.Storage Boros.Ledger

variable {pallas : Pallas} {setup : Setup} {state next final : State} {label : Process.Label pallas}
  {trace : List (Transition State (Process.Label pallas))} {unit rest : List Transaction}
  {tx : Transaction} {id : String}

/-- The transaction was sent at least once. -/
def WasSent (sent : List (String × Bytes)) (id : String) : Prop := ∃ raw, (id, raw) ∈ sent

/-- The transactions which `execute` was through with before the one in hand. -/
def handled (unit rest : List Transaction) : List Transaction :=
  unit.take (unit.length - (rest.length + 1))

/-- What is created is younger than every record of its queue, stored or created with it. -/
def CreatedLater (state : State) : Process.Label pallas → Prop
  | .stage (.create txs) =>
    (∀ tx ∈ txs, ∀ id row, state.db.row id = some row → row.queue = tx.queue →
      row.createdAt < tx.createdAt) ∧
    txs.Pairwise fun first second => first.queue = second.queue → first.createdAt < second.createdAt
  | _ => True

/-- A transaction which is sent for the first time is the oldest of its queue, except for those
which were sent before or were marked as failed. -/
def InOrder (prior : List (Transition State (Process.Label pallas)))
    (transition : Transition State (Process.Label pallas)) : Prop :=
  ∀ unit tx rest, transition.label = .stage (.ingest (.send true)) →
    transition.before.ingest = .awaiting unit tx rest .send →
    ¬ WasSent transition.before.sent tx.id →
    ∀ id row, transition.before.db.row id = some row → row.queue = tx.queue →
      row.createdAt < tx.createdAt → WasSent transition.before.sent id ∨
        ∃ earlier ∈ prior, earlier.after.db.HasStatus id .failed

/-- No transaction is sent for the first time after `execute` passed over one of its queue, which
is then still pending and was never sent. -/
def InTurn (state : State) : Process.Label pallas → Prop
  | .stage (.ingest (.send true)) => ∀ unit tx rest, state.ingest = .awaiting unit tx rest .send →
    ¬ WasSent state.sent tx.id → ∀ other ∈ handled unit rest, other.queue = tx.queue →
      state.db.HasStatus other.id .pending → WasSent state.sent other.id
  | _ => True

/-! ## Units -/

/-- A unit has its transactions as they are stored and in the order of their creation, and
before each of them all those of its queue which are still to be sent. -/
structure UnitOrdered (db : Db) (sent : List (String × Bytes)) (unit : List Transaction) :
    Prop where
  stored : ∀ tx ∈ unit, ∃ row, db.row tx.id = some row ∧ row.queue = tx.queue ∧
    row.createdAt = tx.createdAt
  ordered : unit.Pairwise fun first second =>
    first.queue = second.queue → first.createdAt < second.createdAt
  older : ∀ tx ∈ unit, ∀ id row, db.row id = some row → row.queue = tx.queue →
    row.createdAt < tx.createdAt →
      WasSent sent id ∨ db.HasStatus id .failed ∨ ∃ other ∈ unit, other.id = id

/-- The transaction in hand is one of the unit, after those which were handled. -/
def AtPosition (unit : List Transaction) (tx : Transaction) (rest : List Transaction) : Prop :=
  ∃ old, unit = handled unit rest ++ old :: rest ∧ tx.id = old.id ∧ tx.queue = old.queue ∧
    tx.createdAt = old.createdAt

/-- What ingest has in hand is in order. -/
def Ingest.Worker.Sequenced (db : Db) (sent : List (String × Bytes)) : Ingest.Worker → Prop
  | .selecting limits => (limits.map Prod.fst).Nodup
  | .awaiting unit tx rest _ => UnitOrdered db sent unit ∧ AtPosition unit tx rest
  | .retrying unit => UnitOrdered db sent unit
  | _ => True

/-- What is known of a state in which records were created one after the other. -/
structure Sequenced (state : State) : Prop where
  broadcast : Broadcast state
  chronological : state.db.Chronological
  inHand : state.ingest.Sequenced state.db state.sent

theorem handled_append (done : List Transaction) (tx : Transaction) (rest : List Transaction) :
    handled (done ++ tx :: rest) rest = done := by
  have length : (done ++ tx :: rest).length - (rest.length + 1) = done.length := by simp
  rw [handled, length, List.take_left']
  rfl

theorem atPosition_append (done : List Transaction) (tx : Transaction) (rest : List Transaction) :
    AtPosition (done ++ tx :: rest) tx rest :=
  ⟨tx, by rw [handled_append], rfl, rfl, rfl⟩

/-- Going on in a unit stays in order. -/
theorem proceed_sequenced {db : Db} {sent : List (String × Bytes)} (done : List Transaction)
    (ordered : UnitOrdered db sent (done ++ rest)) :
    (Ingest.proceed (done ++ rest) rest).Sequenced db sent := by
  cases rest with
  | nil => trivial
  | cons head tail => exact ⟨ordered, atPosition_append done head tail⟩

/-- After the transaction in hand the next ones are in order. -/
theorem AtPosition.advance {db : Db} {sent : List (String × Bytes)}
    (position : AtPosition unit tx rest) (ordered : UnitOrdered db sent unit) :
    (Ingest.proceed unit rest).Sequenced db sent := by
  obtain ⟨old, cut, _⟩ := position
  rw [List.append_cons] at cut
  rw [cut] at ordered ⊢
  exact proceed_sequenced _ ordered

/-- The transaction in hand is replaced by one which agrees with it. -/
theorem AtPosition.replace {result : Transaction} (position : AtPosition unit tx rest)
    (sameId : result.id = tx.id) (sameQueue : result.queue = tx.queue)
    (sameTime : result.createdAt = tx.createdAt) : AtPosition unit result rest := by
  obtain ⟨old, cut, oldId, oldQueue, oldTime⟩ := position
  exact ⟨old, cut, sameId.trans oldId, sameQueue.trans oldQueue, sameTime.trans oldTime⟩

/-- A fresh unit is in order. -/
theorem unitOrdered_of_next {limits : List (String × UInt16)} (broadcast : Broadcast state)
    (chronological : state.db.Chronological) (queues : (limits.map Prod.fst).Nodup)
    (success : state.db.next .pending limits = .ok unit) :
    UnitOrdered state.db state.sent unit where
  stored tx member := by
    obtain ⟨row, found, _, decoded⟩ := Db.next_sound success member
    obtain ⟨_, _, _, queue, createdAt, _⟩ := TxRow.fromRow_ok decoded
    exact ⟨row, found, queue.symm, createdAt.symm⟩
  ordered := Db.next_ordered success queues chronological
  older tx member id row found sameQueue older := by
    rcases broadcast.stored id row found with pending | failed | sent
    · exact .inr (.inr (Db.next_older success member found pending sameQueue older))
    · exact .inr (.inl ⟨row, found, failed⟩)
    · exact .inl ⟨row.raw, sent⟩

/-! ## One step -/

/-- A failed record stays failed until it is sent. -/
theorem Process.Step.failed_kept (step : Process.Step setup state label next)
    (broadcast : Broadcast state) (failed : state.db.HasStatus id .failed) :
    WasSent next.sent id ∨ next.db.HasStatus id .failed := by
  obtain ⟨row, found, status⟩ := failed
  rcases step.db_cases broadcast with ⟨_, _, _, created⟩ | rewritten
  · exact .inr (created.hasStatus ⟨row, found, status⟩)
  · obtain ⟨after, here, _, _, rfl | still | sent⟩ := rewritten.kept id row found
    · exact .inr ⟨after, here, status⟩
    · exact .inr ⟨after, here, still⟩
    · rw [Db.row_id here] at sent
      exact .inl ⟨_, step.sent_subset sent⟩

theorem Process.Step.wasSent_kept (step : Process.Step setup state label next)
    (sent : WasSent state.sent id) : WasSent next.sent id := by
  obtain ⟨raw, member⟩ := sent
  exact ⟨raw, step.sent_subset member⟩

/-- A row after a step was there before, or is younger than every record of its queue. -/
theorem Process.Step.row_origin (step : Process.Step setup state label next)
    (broadcast : Broadcast state) (later : CreatedLater state label) {row : TxRow}
    (found : next.db.row id = some row) :
    (∃ old, state.db.row id = some old ∧ row.queue = old.queue ∧ row.createdAt = old.createdAt) ∨
      state.db.row id = none ∧ ∀ other old, state.db.row other = some old →
        old.queue = row.queue → old.createdAt < row.createdAt := by
  rcases step.db_cases broadcast with ⟨txs, rfl, _, created⟩ | rewritten
  · rcases created.row_cases found with before | ⟨tx, member, _, rfl, absent⟩
    · exact .inl ⟨row, before, rfl, rfl⟩
    · exact .inr ⟨absent, fun other old stored sameQueue =>
        later.1 tx member other old stored sameQueue⟩
  · obtain ⟨old, before, queue, createdAt, _⟩ := rewritten.origin found
    exact .inl ⟨old, before, queue, createdAt⟩

/-- A step keeps the units in hand in order. -/
theorem Process.Step.unitOrdered (step : Process.Step setup state label next)
    (broadcast : Broadcast state) (later : CreatedLater state label)
    (ordered : UnitOrdered state.db state.sent unit) : UnitOrdered next.db next.sent unit where
  stored tx member := by
    obtain ⟨row, found, queue, createdAt⟩ := ordered.stored tx member
    obtain ⟨after, here, _, sameQueue, sameTime⟩ := step.keepsRecords broadcast _ row found
    exact ⟨after, here, sameQueue.trans queue, sameTime.trans createdAt⟩
  ordered := ordered.ordered
  older tx member id row found sameQueue older := by
    rcases step.row_origin broadcast later found with ⟨old, before, queue, createdAt⟩ |
      ⟨_, younger⟩
    · rw [queue] at sameQueue
      rw [createdAt] at older
      rcases ordered.older tx member id old before sameQueue older with sent | failed | inUnit
      · exact .inl (step.wasSent_kept sent)
      · exact (step.failed_kept broadcast failed).imp_right .inl
      · exact .inr (.inr inUnit)
    · obtain ⟨stored, before, queue, createdAt⟩ := ordered.stored tx member
      have after := younger _ stored before (queue.trans sameQueue.symm)
      rw [createdAt] at after
      exact absurd older (Nat.lt_asymm after)

/-- Transactions which are created together are created at different times in each queue. -/
theorem CreatedLater.apart {txs : List Transaction} {first second : Transaction}
    (later : CreatedLater state (.stage (.create txs) : Process.Label pallas))
    (firstMem : first ∈ txs) (secondMem : second ∈ txs) (sameQueue : first.queue = second.queue)
    (sameTime : first.createdAt = second.createdAt) : first = second := by
  by_contra distinct
  have apart : txs.Pairwise fun first second =>
      first.queue = second.queue → first.createdAt ≠ second.createdAt :=
    later.2.imp fun before same => Nat.ne_of_lt (before same)
  have symmetric : Std.Symm fun first second : Transaction =>
      first.queue = second.queue → first.createdAt ≠ second.createdAt :=
    ⟨fun _ _ differ same => (differ same.symm).symm⟩
  exact apart.forall firstMem secondMem distinct sameQueue sameTime

/-- Creations one after the other keep the times of creation apart. -/
theorem Process.Step.chronological (step : Process.Step setup state label next)
    (broadcast : Broadcast state) (later : CreatedLater state label)
    (chronological : state.db.Chronological) : next.db.Chronological := by
  intro first second row other found foundToo sameQueue sameTime
  rcases step.db_cases broadcast with ⟨txs, rfl, _, created⟩ | rewritten
  · rcases created.row_cases found with before | ⟨tx, member, rfl, rfl, _⟩ <;>
      rcases created.row_cases foundToo with beforeToo | ⟨txToo, memberToo, rfl, rfl, _⟩
    · exact chronological _ _ row other before beforeToo sameQueue sameTime
    · exact absurd sameTime (Nat.ne_of_lt (later.1 txToo memberToo _ row before sameQueue))
    · exact absurd sameTime.symm
        (Nat.ne_of_lt (later.1 tx member _ other beforeToo sameQueue.symm))
    · exact congrArg Transaction.id (later.apart member memberToo sameQueue sameTime)
  · obtain ⟨old, before, queue, createdAt, _⟩ := rewritten.origin found
    obtain ⟨oldToo, beforeToo, queueToo, createdAtToo, _⟩ := rewritten.origin foundToo
    exact chronological _ _ old oldToo before beforeToo
      (queue.symm.trans (sameQueue.trans queueToo))
      (createdAt.symm.trans (sameTime.trans createdAtToo))

/-- After a step of ingest what it has in hand is in order. -/
theorem Ingest.Step.sequenced {profile : Profile} {stage : Ingest.Stage}
    {ingest after : Ingest.State} {label : Ingest.Label pallas}
    (step : Ingest.Step profile stage ingest label after)
    (kept : ∀ unit, UnitOrdered ingest.db ingest.sent unit → UnitOrdered after.db after.sent unit)
    (fresh : ∀ limits unit, (limits.map Prod.fst).Nodup →
      ingest.db.next .pending limits = .ok unit → UnitOrdered ingest.db ingest.sent unit)
    (inHand : ingest.worker.Sequenced ingest.db ingest.sent) :
    after.worker.Sequenced after.db after.sent := by
  cases step with
  | schedule queuedLen quotaOrder scheduled =>
      subst scheduled
      rcases Ingest.schedule_cases profile stage quotaOrder _ queuedLen with
        same | ⟨fault, same⟩ | ⟨currentCap, limits, computed, same⟩ <;> rw [same]
      · trivial
      · trivial
      · exact Queue.Priority.limits_distinct computed
  | @select db sent limits _ limitOrder selected =>
      subst selected
      have queues : ((limitOrder.order limits).map Prod.fst).Nodup :=
        ((limitOrder.perm limits).map _).nodup_iff.mpr inHand
      cases found : db.next .pending (limitOrder.order limits) with
      | error cause => trivial
      | ok unit => exact proceed_sequenced [] (fresh _ unit queues found)
  | examine replies examined =>
      subst examined
      obtain ⟨ordered, position⟩ := inHand
      cases outcome : Ingest.examine stage replies _ with
      | ok pair =>
          obtain ⟨result, valid⟩ := pair
          obtain ⟨raw, rfl⟩ := Ingest.examine_ok outcome
          cases valid <;> exact ⟨ordered, position.replace rfl rfl rfl⟩
      | error abort =>
          cases abort with
          | panic fault => trivial
          | error cause =>
              cases cause with
              | retry => exact ordered
              | _ => trivial
  | send => exact ⟨kept _ inHand.1, inHand.2⟩
  | sendFail | update => exact inHand.2.advance (kept _ inHand.1)
  | fetchTip tip => exact ⟨inHand.1, inHand.2.replace rfl rfl rfl⟩
  | fetchTipFail | updateFail => exact inHand.1
  | rerun => exact proceed_sequenced [] inHand
  | selectFail | restart => trivial

/-- A step, with creations one after the other, keeps a state in order. -/
theorem Process.Step.sequenced (step : Process.Step setup state label next)
    (later : CreatedLater state label) (sequenced : Sequenced state) : Sequenced next := by
  obtain ⟨broadcast, chronological, inHand⟩ := sequenced
  refine ⟨step.broadcast broadcast, step.chronological broadcast later chronological, ?_⟩
  have kept : ∀ unit, UnitOrdered state.db state.sent unit → UnitOrdered next.db next.sent unit :=
    fun unit ordered => step.unitOrdered broadcast later ordered
  -- Ingest keeps what it has in hand while another stage goes on.
  have waits : next.ingest = state.ingest → next.ingest.Sequenced next.db next.sent := by
    intro same
    rw [same]
    revert inHand
    cases state.ingest with
    | awaiting unit tx rest await => exact fun inHand => ⟨kept unit inHand.1, inHand.2⟩
    | retrying unit => exact kept unit
    | _ => exact id
  cases step with
  | restart => trivial
  | stage step =>
      cases step with
      | create | monitor => exact waits rfl
      | ingest step =>
          exact step.sequenced kept
            (fun _ _ queues success => unitOrdered_of_next broadcast chronological queues success)
            inHand

theorem sequenced_initial : Sequenced (State.initial Db.empty) where
  broadcast := broadcast_initial
  chronological _ _ _ _ found := by cases found
  inHand := trivial

/-! ## Runs -/

/-- Along a run with creations one after the other every state is in order. -/
theorem sequenced_of_mem (run : Run (Process.Step setup) (State.initial Db.empty) trace final)
    (later : Guarded CreatedLater trace) {transition : Transition State (Process.Label pallas)}
    (member : transition ∈ trace) : Sequenced transition.before := by
  have preserved : Preserved (@Process.Step pallas setup) CreatedLater Sequenced :=
    fun _ _ _ sequenced here step => step.sequenced here sequenced
  exact (run.invariant_of_mem preserved sequenced_initial later member).1

/-- An older transaction of the queue was sent, failed or was passed over. -/
theorem Sequenced.older (sequenced : Sequenced state)
    (inHand : state.ingest = .awaiting unit tx rest .send) {row : TxRow}
    (found : state.db.row id = some row) (sameQueue : row.queue = tx.queue)
    (older : row.createdAt < tx.createdAt) :
    WasSent state.sent id ∨ state.db.HasStatus id .failed ∨
      ∃ other ∈ handled unit rest, other.id = id ∧ other.queue = tx.queue := by
  have ordered := sequenced.inHand
  rw [inHand] at ordered
  obtain ⟨ordered, old, cut, _, queue, createdAt⟩ := ordered
  rw [queue] at sameQueue
  rw [createdAt] at older
  have oldMem : old ∈ unit := by
    rw [cut]
    exact List.mem_append_right _ List.mem_cons_self
  rcases ordered.older old oldMem id row found sameQueue older with
    sent | failed | ⟨other, member, rfl⟩
  · exact .inl sent
  · exact .inr (.inl failed)
  · obtain ⟨stored, here, otherQueue, otherTime⟩ := ordered.stored other member
    rw [found] at here
    cases here
    have pairs := ordered.ordered
    rw [cut] at member pairs
    rcases List.mem_append.mp member with before | behind
    · exact .inr (.inr ⟨other, before, rfl, otherQueue.symm.trans (sameQueue.trans queue.symm)⟩)
    · exfalso
      rcases List.mem_cons.mp behind with rfl | behind
      · exact absurd otherTime (Nat.ne_of_lt older)
      · have after := (List.pairwise_cons.mp (List.pairwise_append.mp pairs).2.1).1 other behind
          (sameQueue.symm.trans otherQueue)
        omega

/-- Whatever of its queue was handled before is older. -/
theorem Sequenced.handled_older (sequenced : Sequenced state)
    (inHand : state.ingest = .awaiting unit tx rest .send) {other : Transaction}
    (member : other ∈ handled unit rest) (sameQueue : other.queue = tx.queue) :
    ∃ row, state.db.row other.id = some row ∧ row.queue = tx.queue ∧
      row.createdAt < tx.createdAt := by
  have ordered := sequenced.inHand
  rw [inHand] at ordered
  obtain ⟨ordered, old, cut, _, queue, createdAt⟩ := ordered
  have pairs := ordered.ordered
  rw [cut] at pairs
  have older := (List.pairwise_append.mp pairs).2.2 other member old List.mem_cons_self
    (sameQueue.trans queue)
  have inUnit : other ∈ unit := by
    rw [cut]
    exact List.mem_append_left _ member
  obtain ⟨row, found, rowQueue, rowTime⟩ := ordered.stored other inUnit
  exact ⟨row, found, rowQueue.trans sameQueue, by omega⟩

/-- A record which is failed was marked so in the run. -/
theorem exists_failed_of_failed
    (run : Run (Process.Step setup) (State.initial Db.empty) trace final)
    (failed : final.db.HasStatus id .failed) :
    ∃ transition ∈ trace, transition.after.db.HasStatus id .failed := by
  have absent : ¬ (State.initial Db.empty).db.HasStatus id .failed := by
    rintro ⟨row, found, _⟩
    cases found
  obtain ⟨transition, member, _, after⟩ :=
    @Run.exists_step_of_change _ _ _ (fun state => state.db.HasStatus id .failed) _ _ _ run
      absent failed
  exact ⟨transition, member, after⟩

/-- A record which was marked as failed in the run still is, or was sent since. -/
theorem failed_or_sent_of_failed
    (run : Run (Process.Step setup) (State.initial Db.empty) trace final)
    {transition : Transition State (Process.Label pallas)} (member : transition ∈ trace)
    (failed : transition.after.db.HasStatus id .failed) :
    WasSent final.sent id ∨ final.db.HasStatus id .failed := by
  have broadcast := (broadcast_of_mem run member).2
  obtain ⟨first, second, rfl⟩ := List.append_of_mem member
  have preserved : Preserved (@Process.Step pallas setup) (fun _ _ => True) fun state =>
      Broadcast state ∧ (WasSent state.sent id ∨ state.db.HasStatus id .failed) := by
    rintro state label next ⟨here, sent | failed⟩ _ step
    · exact ⟨step.broadcast here, .inl (step.wasSent_kept sent)⟩
    · exact ⟨step.broadcast here, step.failed_kept here failed⟩
  exact (run.around.2.2.invariant preserved ⟨broadcast, .inr failed⟩ fun _ _ => trivial).2

/-- With creations one after the other, transactions are sent in the order of their creation
in each queue exactly as long as none is sent after an older one was passed over. -/
theorem inOrder_iff (run : Run (Process.Step setup) (State.initial Db.empty) trace final)
    (later : Guarded CreatedLater trace) :
    (∀ prior transition subsequent, trace = prior ++ transition :: subsequent →
      InOrder prior transition) ↔ Guarded InTurn trace := by
  constructor
  · intro inOrder transition member
    have sequenced := sequenced_of_mem run later member
    obtain ⟨prior, subsequent, rfl⟩ := List.append_of_mem member
    have sends := inOrder prior transition subsequent rfl
    have before := run.around.1
    unfold InTurn
    split
    · rename_i label
      intro unit tx rest inHand first other handled sameQueue pending
      obtain ⟨row, found, queue, older⟩ := sequenced.handled_older inHand handled sameQueue
      rcases sends unit tx rest label inHand first other.id row found queue older with
        sent | ⟨earlier, earlierMem, failed⟩
      · exact sent
      · rcases failed_or_sent_of_failed before earlierMem failed with sent | failed
        · exact sent
        · cases failed.unique pending
    · trivial
  · intro inTurn prior transition subsequent cut unit tx rest label inHand first id row found
      sameQueue older
    have member : transition ∈ trace := by
      rw [cut]
      exact List.mem_append_right _ List.mem_cons_self
    have sequenced := sequenced_of_mem run later member
    have here := inTurn transition member
    subst cut
    have before := run.around.1
    rcases sequenced.older inHand found sameQueue older with
      sent | failed | ⟨other, handled, rfl, queue⟩
    · exact .inl sent
    · exact .inr (exists_failed_of_failed before failed)
    · rcases sequenced.broadcast.stored _ row found with pending | failed | sent
      · rw [label] at here
        exact .inl (here unit tx rest inHand first other handled queue ⟨row, found, pending⟩)
      · exact .inr (exists_failed_of_failed before ⟨row, found, failed⟩)
      · exact .inl ⟨row.raw, sent⟩

/-! ## Deliveries -/

/-- The message in hand, if there is one, can be delivered. -/
def Delivers (_ : State) (label : Process.Label pallas) : Prop :=
  label ≠ .stage (.ingest (.send false))

/-- `execute` passed over none of the transactions which it is through with. -/
def Ingest.Worker.Through (db : Db) (sent : List (String × Bytes)) : Ingest.Worker → Prop
  | .awaiting unit _ rest _ =>
    ∀ other ∈ handled unit rest, WasSent sent other.id ∨ db.HasStatus other.id .failed
  | _ => True

theorem proceed_through {db : Db} {sent : List (String × Bytes)} (done : List Transaction)
    (through : ∀ other ∈ done, WasSent sent other.id ∨ db.HasStatus other.id .failed) :
    (Ingest.proceed (done ++ rest) rest).Through db sent := by
  cases rest with
  | nil => trivial
  | cons head tail =>
      intro other member
      rw [handled_append] at member
      exact through other member

/-- After a step of ingest nothing was passed over if it delivers what it sends. -/
theorem Ingest.Step.through {profile : Profile} {stage : Ingest.Stage}
    {ingest after : Ingest.State} {label : Ingest.Label pallas}
    (step : Ingest.Step profile stage ingest label after) (delivers : label ≠ .send false)
    (kept : ∀ id, WasSent ingest.sent id ∨ ingest.db.HasStatus id .failed →
      WasSent after.sent id ∨ after.db.HasStatus id .failed)
    (sent : ingest.worker.Sent ingest.sent)
    (inHand : ingest.worker.Sequenced ingest.db ingest.sent)
    (through : ingest.worker.Through ingest.db ingest.sent) :
    after.worker.Through after.db after.sent := by
  cases step with
  | schedule queuedLen quotaOrder scheduled =>
      subst scheduled
      rcases Ingest.schedule_cases profile stage quotaOrder _ queuedLen with
        same | ⟨fault, same⟩ | ⟨currentCap, limits, computed, same⟩ <;> rw [same] <;> trivial
  | @select db sent limits _ limitOrder selected =>
      subst selected
      cases db.next .pending (limitOrder.order limits) with
      | error cause => trivial
      | ok unit => exact proceed_through [] (by simp)
  | @examine _ _ unit tx rest _ replies examined =>
      subst examined
      rcases Ingest.afterExamine_cases unit rest (Ingest.examine stage replies tx) with
        ⟨result, await, _, same⟩ | same | ⟨cause, same⟩ | ⟨fault, same⟩ <;> rw [same]
      · exact through
      · trivial
      · trivial
      · trivial
  | send => exact fun other member => kept other.id (through other member)
  | sendFail => exact absurd rfl delivers
  | fetchTip => exact through
  | @update db log unit tx rest =>
      obtain ⟨ordered, old, cut, sameId, _, _⟩ := inHand
      have done : ∀ other ∈ handled unit rest ++ [old],
          WasSent log other.id ∨ (db.update tx).HasStatus other.id .failed := by
        intro other member
        rcases List.mem_append.mp member with before | here
        · exact kept other.id (through other before)
        · rw [List.mem_singleton.mp here, ← sameId]
          rcases sent with failed | sent
          · have oldMem : old ∈ unit := by
              rw [cut]
              exact List.mem_append_right _ List.mem_cons_self
            obtain ⟨row, found, _⟩ := ordered.stored old oldMem
            rw [← failed]
            exact .inr (Db.hasStatus_update_self ⟨row, sameId ▸ found⟩)
          · exact .inl ⟨tx.raw, sent⟩
      rw [List.append_cons] at cut
      have next := @proceed_through rest (db.update tx) log _ done
      rw [← cut] at next
      exact next
  | rerun => exact proceed_through [] (by simp)
  | selectFail | fetchTipFail | updateFail | restart => trivial

/-- A step which delivers what it sends passes over nothing. -/
theorem Process.Step.through (step : Process.Step setup state label next)
    (delivers : Delivers state label) (sequenced : Sequenced state)
    (through : state.ingest.Through state.db state.sent) :
    next.ingest.Through next.db next.sent := by
  have kept : ∀ id, WasSent state.sent id ∨ state.db.HasStatus id .failed →
      WasSent next.sent id ∨ next.db.HasStatus id .failed := by
    rintro id (sent | failed)
    · exact .inl (step.wasSent_kept sent)
    · exact step.failed_kept sequenced.broadcast failed
  have waits : next.ingest = state.ingest → next.ingest.Through next.db next.sent := by
    intro same
    rw [same]
    revert through
    cases state.ingest with
    | awaiting unit tx rest await =>
        exact fun through other member => kept other.id (through other member)
    | _ => exact id
  cases step with
  | restart => trivial
  | stage step =>
      cases step with
      | create | monitor => exact waits rfl
      | ingest step =>
          refine step.through ?_ kept sequenced.broadcast.ingest sequenced.inHand through
          rintro rfl
          exact delivers rfl

/-- As long as there is a receiver for whatever is sent, no transaction is passed over. -/
theorem inTurn_of_delivers (run : Run (Process.Step setup) (State.initial Db.empty) trace final)
    (later : Guarded CreatedLater trace) (delivers : Guarded Delivers trace) :
    Guarded InTurn trace := by
  have preserved : Preserved (@Process.Step pallas setup)
      (fun state label => CreatedLater state label ∧ Delivers state label)
      (fun state => Sequenced state ∧ state.ingest.Through state.db state.sent) :=
    fun _ _ _ here allowed step =>
      ⟨step.sequenced allowed.1 here.1, step.through allowed.2 here.1 here.2⟩
  intro transition member
  have both : Guarded (fun state label => CreatedLater state label ∧ Delivers state label) trace :=
    fun transition member => ⟨later transition member, delivers transition member⟩
  have through := (run.invariant_of_mem preserved ⟨sequenced_initial, trivial⟩ both member).1.2
  unfold InTurn
  split
  · intro unit tx rest inHand _ other handled _ pending
    rw [inHand] at through
    rcases through other handled with sent | failed
    · exact sent
    · cases failed.unique pending
  · trivial

/-! ## Two transactions of one queue -/

theorem sampleTxs_later :
    CreatedLater (State.initial Db.empty)
      (.stage (.create [sampleTx 1 1, sampleTx 2 2]) : Process.Label samplePallas) := by
  constructor
  · intro _ _ _ _ found
    cases found
  · rw [List.pairwise_pair]
    exact fun _ => by decide

/-- The first one is sent and stored as in flight, and then the second one is sent. -/
theorem inOrder_of_sample :
    ∃ (trace : List (Transition State (Process.Label samplePallas))) (final : State),
      Run (Process.Step sampleSetup) (State.initial Db.empty) trace final ∧
        final.sent.length = 2 ∧
          ∀ prior transition subsequent, trace = prior ++ transition :: subsequent →
            InOrder prior transition := by
  obtain ⟨final, ⟨trace, run, allowed⟩, both⟩ : ∃ final, Reaches (@Process.Step samplePallas
      sampleSetup) (fun state label => CreatedLater state label ∧ Delivers state label)
        (State.initial Db.empty) final ∧ final.sent.length = 2 :=
    ⟨_, .cons (.stage sample_create) ⟨sampleTxs_later, nofun⟩ <|
      .cons (.stage sample_schedule) ⟨trivial, nofun⟩ <|
      .cons (.stage sample_select) ⟨trivial, nofun⟩ <|
      .cons (.stage (.ingest (.examine sampleReplies rfl))) ⟨trivial, nofun⟩ <|
      .cons (.stage (.ingest .send)) ⟨trivial, nofun⟩ <|
      .cons (.stage (.ingest (.fetchTip sampleTip))) ⟨trivial, nofun⟩ <|
      .cons (.stage (.ingest .update)) ⟨trivial, nofun⟩ <|
      .cons (.stage (.ingest (.examine sampleReplies rfl))) ⟨trivial, nofun⟩ <|
      .cons (.stage (.ingest .send)) ⟨trivial, nofun⟩ <| .refl _ _, rfl⟩
  have later : Guarded CreatedLater trace := allowed.mono fun _ _ here => here.1
  have delivers : Guarded Delivers trace := allowed.mono fun _ _ here => here.2
  exact ⟨trace, final, run, both,
    (inOrder_iff run later).mpr (inTurn_of_delivers run later delivers)⟩

/-- There is no receiver when the first one is sent, and one when the second one is: it is sent
while the first one is pending, and was never marked as failed. -/
theorem not_inOrder_of_sendFail :
    ∃ (trace : List (Transition State (Process.Label samplePallas)))
      (transition : Transition State (Process.Label samplePallas)) (final : State),
      Run (Process.Step sampleSetup) (State.initial Db.empty) (trace ++ [transition]) final ∧
        Guarded CreatedLater (trace ++ [transition]) ∧ ¬ InOrder trace transition := by
  obtain ⟨trace, run, later⟩ : Reaches (@Process.Step samplePallas sampleSetup) CreatedLater
      (State.initial Db.empty)
      ⟨sampleDb, [], .awaiting sampleUnit (sampleTx 2 2) [] .send, .schedule⟩ :=
    .cons (.stage sample_create) sampleTxs_later <| .cons (.stage sample_schedule) trivial <|
      .cons (.stage sample_select) trivial <|
      .cons (.stage (.ingest (.examine sampleReplies rfl))) trivial <|
      .cons (.stage (.ingest .sendFail)) trivial <|
      .cons (.stage (.ingest (.examine sampleReplies rfl))) trivial <| .refl _ _
  refine ⟨trace, _, _, run.snoc (.stage (.ingest .send)), ?_, fun inOrder => ?_⟩
  · rw [guarded_append, guarded_cons]
    exact ⟨later, trivial, guarded_nil _⟩
  · have unsent : ∀ id, ¬ WasSent [] id := by
      rintro id ⟨raw, member⟩
      cases member
    rcases inOrder sampleUnit (sampleTx 2 2) [] rfl rfl (unsent _) (sampleTx 1 1).id _ rfl rfl
      (by decide) with sent | ⟨earlier, member, failed⟩
    · exact unsent _ sent
    · rcases failed_or_sent_of_failed run member failed with sent | ⟨row, found, status⟩
      · exact unsent _ sent
      · cases found
        cases status

end Boros.Pipeline
