import Boros.Pipeline.Lifecycle

/-!
# Confirmations are not lost

A block is applied: the monitor reads the in-flight records, confirms those of the
block and stores the cursor, while ingest goes on. A broadcast transaction of the
block is confirmed if its record was in flight, or confirmed already, when the
monitor read it. Ingest broadcasts before it stores the record as in flight, and a
retried record is pending again, so this need not be so: `Recorded` is the
condition, and `confirmed_of_recorded` the result.
-/

namespace Boros.Pipeline

open Boros.Data Boros.Semantics Boros.Storage Boros.Ledger

/-- When the monitor reads the in-flight records for a block, every broadcast
transaction of the block is recorded as in flight or confirmed. -/
def Recorded {pallas : Pallas} (state : State) : Label pallas → Prop
  | .monitor .resume =>
    match state.monitor with
    | .awaiting (.rollForward _ txs) .find =>
      ∀ id raw, (id, raw) ∈ state.sent → Monitor.containsTx txs id →
        state.db.HasStatus id .inFlight ∨ state.db.HasStatus id .confirmed
    | _ => True
  | _ => True

namespace Monitor

/-- The worker executes the event, and the record is confirmed by what it is about
to write or by what it will find. -/
def Worker.confirms (event : Event) (id : String) : Worker → Prop
  | .awaiting inHand .find => inHand = event
  | .awaiting inHand (.updateConfirm _ confirm) =>
    inHand = event ∧ id ∈ confirm.map Transaction.id
  | .retrying inHand => inHand = event
  | .panicked _ => True
  | _ => False

variable {profile : Profile} {config : Config} {db next : Db} {worker after : Worker}
  {label : Label} {point : Point} {txs : List Tx} {txsInflight : List Transaction} {id : String}

/-- A record found in flight is confirmed by the batch computed from the read. -/
theorem afterFind_confirms (query : db.find .inFlight = .ok txsInflight)
    (inFlight : db.HasStatus id .inFlight) (contained : containsTx txs id) :
    (afterFind profile config (.rollForward point txs) txs txsInflight).confirms
      (.rollForward point txs) id := by
  obtain ⟨row, found, status⟩ := inFlight
  obtain ⟨itx, member, rfl, _⟩ := Db.find_complete query found status
  have confirmed : { itx with status := .confirmed, slot := some point.1 } ∈
      txsConfirm point.1 txs txsInflight := mem_txsConfirm_iff.mpr ⟨itx, member, contained, rfl⟩
  unfold afterFind
  split
  · rename_i nothing
    exact absurd confirmed (by rw [show txsConfirm point.1 txs txsInflight = [] from nothing]; simp)
  · exact ⟨rfl, List.mem_map.mpr ⟨_, confirmed, rfl⟩⟩

/-- One step of a worker which is to confirm a record: it still is, or the record
is confirmed. -/
theorem Step.confirms (step : Step profile config (db, worker) label (next, after))
    (sound : worker.Sound db) (contained : containsTx txs id)
    (confirms : worker.confirms (.rollForward point txs) id)
    (recorded : worker = .awaiting (.rollForward point txs) .find → label = .resume →
      db.HasStatus id .inFlight ∨ db.HasStatus id .confirmed) :
    next.HasStatus id .confirmed ∨ after.confirms (.rollForward point txs) id := by
  cases step with
  | receive event => exact confirms.elim
  | rerun => exact .inr confirms
  | fail =>
      rename_i event await
      cases await with
      | find => exact .inr confirms
      | updateConfirm txsInflight confirm => exact .inr confirms.1
      | _ => exact confirms.elim
  | resume resumed =>
      rename_i event await
      cases await with
      | find =>
          subst confirms
          obtain ⟨rfl, found⟩ := resume_find resumed
          rcases found with rfl | ⟨_, _, txsInflight, same, query, rfl⟩ | ⟨_, _, _, same, _⟩
          · exact .inr rfl
          · obtain ⟨rfl, rfl⟩ := Event.rollForward.inj same
            rcases recorded rfl rfl with inFlight | confirmed
            · exact .inr (afterFind_confirms query inFlight contained)
            · exact .inl confirmed
          · cases same
      | updateConfirm txsInflight confirm =>
          obtain ⟨rfl, named⟩ := confirms
          obtain ⟨distinct, inFlight, part, status⟩ := sound
          cases resumed
          obtain ⟨tx, member, rfl⟩ := List.mem_map.mp named
          obtain ⟨itx, itxMem, sameId⟩ := List.mem_map.mp (part.subset named)
          obtain ⟨row, found, _⟩ := inFlight itx itxMem
          rw [sameId] at found
          have written :=
            Db.hasStatus_updateBatch_of_mem (distinct.sublist part) member ⟨row, found⟩
          rw [status tx member] at written
          exact .inl written
      | _ => exact confirms.elim

end Monitor

variable {pallas : Pallas} {setup : Setup} {state after final : State} {label : Label pallas}
  {point : Point} {txs : List Tx} {id : String}

/-- What was broadcast stays broadcast. -/
theorem Step.sent (step : Step setup state label after) {entry : String × Bytes}
    (member : entry ∈ state.sent) : entry ∈ after.sent := by
  cases step with
  | create accepted created => exact member
  | monitor step => exact member
  | ingest step =>
      cases step with
      | send => exact List.mem_append_left _ member
      | _ => exact member

/-- A sound state in which the monitor executes no rollback. -/
structure Forward (state : State) : Prop where
  sound : state.Sound
  event : ∀ point, state.monitor.inHand ≠ some (.rollback point)

/-- A unit is run again only while its records are pending, and no rollback
arrives. -/
def ForwardOnly (state : State) (label : Label pallas) : Prop :=
  UnitPending state label ∧ ∀ point, label ≠ .monitor (.receive (.rollback point))

theorem Step.forward (step : Step setup state label after) (forward : Forward state)
    (allowed : ForwardOnly state label) : Forward after := by
  refine ⟨(step.sound forward.sound allowed.1).1, fun point inHand => ?_⟩
  cases step with
  | create accepted created => exact forward.event point inHand
  | ingest step => exact forward.event point inHand
  | monitor step =>
      rcases step.inHand inHand with before | received
      · exact forward.event point before
      · exact allowed.2 point (congrArg Label.monitor received)

/-- Without rollbacks a confirmed record stays confirmed. -/
theorem Step.keepsConfirmed (step : Step setup state label after) (forward : Forward state)
    (allowed : ForwardOnly state label) (confirmed : state.db.HasStatus id .confirmed) :
    after.db.HasStatus id .confirmed := by
  by_contra gone
  have lawful := (step.sound forward.sound allowed.1).2
  obtain ⟨point, inHand⟩ := (lawful.confirmed id confirmed gone).2.inHand
  exact forward.event point inHand

/-- The transaction was broadcast, and its record is confirmed or about to be. -/
structure Confirming (event : Event) (id : String) (state : State) : Prop where
  forward : Forward state
  broadcast : ∃ raw, (id, raw) ∈ state.sent
  confirms : state.db.HasStatus id .confirmed ∨ state.monitor.confirms event id

theorem Step.confirming (contained : Monitor.containsTx txs id)
    (step : Step setup state label after)
    (confirming : Confirming (.rollForward point txs) id state)
    (allowed : ForwardOnly state label) (recorded : Recorded state label) :
    Confirming (.rollForward point txs) id after := by
  obtain ⟨forward, ⟨raw, broadcast⟩, confirms⟩ := confirming
  refine ⟨step.forward forward allowed, ⟨raw, step.sent broadcast⟩, ?_⟩
  by_cases confirmed : state.db.HasStatus id .confirmed
  · exact .inl (step.keepsConfirmed forward allowed confirmed)
  · have inHand := confirms.resolve_left confirmed
    cases step with
    | create accepted created => exact .inr inHand
    | ingest step => exact .inr inHand
    | monitor step =>
        refine step.confirms forward.sound.monitor contained inHand ?_
        rintro rfl rfl
        exact recorded id raw broadcast contained

/-- The monitor stores the cursor of an event, and so ends its execution. -/
def Executed (event : Event) (transition : Transition State (Label pallas)) : Prop :=
  transition.label = .monitor .resume ∧ transition.before.monitor = .awaiting event .setCursor

/-- A worker which has an event in hand receives no other. -/
theorem Step.not_receive {event received : Event} {await : Monitor.Await}
    (step : Step setup state label after) (awaiting : state.monitor = .awaiting event await) :
    label ≠ .monitor (.receive received) := by
  rintro rfl
  cases step with
  | monitor step =>
      cases step with
      | receive event => cases awaiting

/-- In every run in which gasket runs a unit again only while its records are
pending and the monitor reads only when broadcasts are recorded: a transaction
broadcast before the monitor reads the store for a block which contains it is
confirmed once the block was executed, and stays so unless a rollback arrives. -/
theorem confirmed_of_recorded {db : Db} {raw : Bytes}
    {first second : List (Transition State (Label pallas))}
    {found : Transition State (Label pallas)}
    (run : Run (Step setup) (State.initial db) (first ++ found :: second) final)
    (fresh : Guarded UnitPending (first ++ found :: second))
    (recorded : Guarded Recorded (first ++ found :: second))
    (reads : found.before.monitor = .awaiting (.rollForward point txs) .find)
    (broadcast : (id, raw) ∈ found.before.sent) (contained : Monitor.containsTx txs id)
    (executed : ∃ transition ∈ second, Executed (.rollForward point txs) transition)
    (noRollback : ∀ transition ∈ second, ∀ point,
      transition.label ≠ .monitor (.receive (.rollback point))) :
    final.db.HasStatus id .confirmed := by
  have soundBefore : found.before.Sound := by
    have preserved : Preserved (@Step pallas setup) UnitPending State.Sound :=
      fun _ _ _ sound allowed step => (step.sound sound allowed).1
    exact (run.invariant_of_mem preserved ⟨trivial, trivial⟩ fresh (by simp)).1
  obtain ⟨_, foundStep, rest⟩ := run.around
  rw [guarded_append, guarded_cons] at fresh recorded
  have foundAllowed : ForwardOnly found.before found.label :=
    ⟨fresh.2.1, fun _ => foundStep.not_receive reads⟩
  have secondAllowed : Guarded ForwardOnly second :=
    fun transition member => ⟨fresh.2.2 transition member, noRollback transition member⟩
  have reading : Confirming (.rollForward point txs) id found.before :=
    ⟨⟨soundBefore, by simp [reads, Monitor.Worker.inHand]⟩, ⟨raw, broadcast⟩,
      .inr (by rw [reads]; rfl)⟩
  have afterRead := foundStep.confirming contained reading foundAllowed recorded.2.1
  -- Up to the end of the execution the record is confirmed or about to be.
  obtain ⟨done, doneMem, _, storesCursor⟩ := executed
  obtain ⟨middle, last, rfl⟩ := List.append_of_mem doneMem
  obtain ⟨untilDone, doneStep, afterDone⟩ := rest.around
  rw [guarded_append, guarded_cons] at secondAllowed
  have confirming : Confirming (.rollForward point txs) id done.before := by
    have preserved : Preserved (@Step pallas setup)
        (fun state label => ForwardOnly state label ∧ Recorded state label)
        (Confirming (.rollForward point txs) id) :=
      fun _ _ _ confirming allowed step => step.confirming contained confirming allowed.1 allowed.2
    refine untilDone.invariant preserved afterRead fun transition member => ?_
    exact ⟨secondAllowed.1 transition member,
      recorded.2.2 transition (List.mem_append_left _ member)⟩
  -- The worker which stores the cursor has nothing left to confirm.
  have confirmed : done.before.db.HasStatus id .confirmed := by
    refine confirming.confirms.resolve_right ?_
    rw [storesCursor]
    exact fun impossible => impossible
  have stays : Preserved (@Step pallas setup) ForwardOnly
      (fun state => Forward state ∧ state.db.HasStatus id .confirmed) :=
    fun _ _ _ holds allowed step =>
      ⟨step.forward holds.1 allowed, step.keepsConfirmed holds.1 allowed holds.2⟩
  have doneConfirmed := stays _ _ _ ⟨confirming.forward, confirmed⟩ secondAllowed.2.1 doneStep
  exact (afterDone.invariant stays doneConfirmed secondAllowed.2.2).2

/-! One transaction is broadcast, and a block which contains it is applied. -/

/-- The record is in flight when the monitor reads the store. -/
theorem confirmed_of_recorded_sample :
    ∃ (trace : List (Transition State (Label samplePallas))) (final : State),
      Run (Step sampleSetup) (State.initial sampleDb) trace final ∧
        final.db.HasStatus (sampleTx 1 1).id .confirmed := by
  let inFlight : Transaction := { sampleTx 1 1 with status := .inFlight, slot := some 100 }
  obtain ⟨first, run, guarded⟩ : Reaches (@Step samplePallas sampleSetup)
      (fun state label => UnitPending state label ∧ Recorded state label) (State.initial sampleDb)
      ⟨sampleDb.update inFlight, [((sampleTx 1 1).id, [1])],
        Ingest.proceed sampleUnit [sampleTx 2 2],
        .awaiting (sampleBlock 110 1) .find⟩ :=
    .cons sample_schedule ⟨trivial, trivial⟩ <| .cons sample_select ⟨trivial, trivial⟩ <|
      .cons (.ingest (.examine sampleReplies rfl)) ⟨trivial, trivial⟩ <|
      .cons (.ingest .send) ⟨trivial, trivial⟩ <|
      .cons (.ingest (.fetchTip sampleTip)) ⟨trivial, trivial⟩ <|
      .cons (.ingest .update) ⟨trivial, trivial⟩ <|
      .cons (.monitor (.receive (sampleBlock 110 1))) ⟨trivial, trivial⟩ <| .refl _ _
  have recordedHere : ∀ id raw, (id, raw) ∈ [((sampleTx 1 1).id, ([1] : Bytes))] →
      Monitor.containsTx [⟨List.replicate 32 1⟩] id →
        (sampleDb.update inFlight).HasStatus id .inFlight ∨
          (sampleDb.update inFlight).HasStatus id .confirmed := by
    intro id raw member _
    cases List.mem_singleton.mp member
    exact .inl ⟨_, rfl, rfl⟩
  have whole := run.append <| .cons (.monitor (.resume rfl)) <| .cons (.monitor (.resume rfl)) <|
    .cons (.monitor (.resume rfl)) .nil
  refine ⟨_, _, whole, confirmed_of_recorded whole ?_ ?_ rfl List.mem_cons_self
    (by decide : Monitor.containsTx [⟨List.replicate 32 1⟩] (sampleTx 1 1).id)
    ⟨_, List.mem_cons_of_mem _ List.mem_cons_self, rfl, rfl⟩ (by simp)⟩
  · rw [guarded_append]
    exact ⟨fun t member => (guarded t member).1, by simp [UnitPending]⟩
  · rw [guarded_append]
    refine ⟨fun t member => (guarded t member).2, ?_⟩
    simp only [guarded_cons, guarded_nil, and_true]
    exact ⟨recordedHere, trivial, trivial⟩

/-- The monitor reads and finishes while ingest asks for the tip, and the record is
then put in flight. -/
theorem not_confirmed_of_race :
    ∃ (first second : List (Transition State (Label samplePallas)))
      (found : Transition State (Label samplePallas)) (final : State),
      Run (Step sampleSetup) (State.initial sampleDb) (first ++ found :: second) final ∧
        found.before.monitor = .awaiting (sampleBlock 110 1) .find ∧
        ((sampleTx 1 1).id, [1]) ∈ found.before.sent ∧
        Monitor.containsTx [⟨List.replicate 32 1⟩] (sampleTx 1 1).id ∧
        (∃ transition ∈ second, Executed (sampleBlock 110 1) transition) ∧
        (∀ transition ∈ second, ∀ point,
          transition.label ≠ .monitor (.receive (.rollback point))) ∧
        final.ingest = .schedule ∧ final.monitor = .schedule ∧
        final.db.HasStatus (sampleTx 1 1).id .inFlight := by
  have first : ∃ trace, Run (Step sampleSetup) (State.initial sampleDb) trace
      (⟨sampleDb, [((sampleTx 1 1).id, [1])],
        .awaiting sampleUnit (sampleTx 1 1) [sampleTx 2 2] .fetchTip,
        .awaiting (sampleBlock 110 1) .find⟩ : State) :=
    ⟨_, .cons sample_schedule <| .cons sample_select <|
      .cons (.ingest (.examine sampleReplies rfl)) <| .cons (.ingest .send) <|
      .cons (.monitor (.receive (sampleBlock 110 1))) .nil⟩
  obtain ⟨trace, run⟩ := first
  refine ⟨trace, _, _, _, run.append <| .cons (.monitor (.resume rfl)) <|
    .cons (.monitor (.resume rfl)) <| .cons (.ingest (.fetchTip sampleTip)) <|
    .cons (.ingest .update) <| .cons (.ingest (.examine sampleReplies rfl)) <|
    .cons (.ingest .sendFail) .nil, rfl, by simp, by decide,
    ⟨_, List.mem_cons_self, rfl, rfl⟩, ?_, rfl, rfl, ⟨_, rfl, rfl⟩⟩
  simp

end Boros.Pipeline
