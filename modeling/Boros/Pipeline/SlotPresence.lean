import Boros.Pipeline.System

/-!
# In-flight and confirmed records carry a slot

The monitor unwraps the slot of every in-flight record when a block is applied,
and of every confirmed record when one is undone. `SlotPresent` says that these
slots are there. Every write keeps it but one: a rollback puts the records above
its slot back in flight and clears their slot, so that the next block makes the
monitor panic. `slotPresent_of_ordered` says that this, and the subtraction of a
slot above the block's in a build with overflow checks, are all that can go wrong.
-/

namespace Boros.Pipeline

open Boros.Data Boros.Semantics Boros.Storage Boros.Ledger Boros.Server

/-- The statuses whose records are expected to carry a slot. -/
def NeedsSlot (status : TransactionStatus) : Prop := status = .inFlight ∨ status = .confirmed

/-- Every in-flight and every confirmed record carries a slot. -/
def SlotPresent (db : Db) : Prop :=
  ∀ id row, db.row id = some row → NeedsSlot row.status → row.slot ≠ none

/-- A record which may be written. -/
def CarriesSlot (tx : Transaction) : Prop := NeedsSlot tx.status → tx.slot ≠ none

variable {db next : Db} {tx : Transaction} {txs : List Transaction}

theorem SlotPresent.update (present : SlotPresent db) (carries : CarriesSlot tx) :
    SlotPresent (db.update tx) := by
  intro id row found needs
  rw [Db.row_update] at found
  split at found
  · obtain ⟨old, _, rfl⟩ := Option.map_eq_some_iff.mp found
    simpa using carries needs
  · exact present id row found needs

theorem SlotPresent.updateBatch (present : SlotPresent db) (carries : ∀ tx ∈ txs, CarriesSlot tx) :
    SlotPresent (db.updateBatch txs) := by
  induction txs generalizing db with
  | nil => exact present
  | cons tx rest ih =>
      rw [List.forall_mem_cons] at carries
      exact ih (present.update carries.1) carries.2

/-- New records are pending. -/
theorem SlotPresent.create {pallas : Pallas} (present : SlotPresent db)
    (accepted : ∀ tx ∈ txs, Submit.Accepted pallas tx) (created : db.create txs = .ok next) :
    SlotPresent next := by
  intro id row found needs
  rcases (Db.create_ok created).row_cases found with before | ⟨tx, member, _, rfl, _⟩
  · exact present id row before needs
  · have pending : (TxRow.ofTransaction tx).status = .pending := (accepted tx member).pending
    rw [NeedsSlot, pending] at needs
    rcases needs with inFlight | confirmed
    · cases inFlight
    · cases confirmed

/-! ## Ingest -/

namespace Ingest

/-- A record which ingest is about to write carries a slot, or failed. -/
def Worker.Slotted : Worker → Prop
  | .awaiting _ tx _ .update => CarriesSlot tx
  | _ => True

theorem proceed_slotted (unit rest : List Transaction) : (proceed unit rest).Slotted := by
  cases rest <;> trivial

theorem afterExamine_slotted {pallas : Pallas} {stage : Stage} {replies : Replies pallas}
    (unit rest : List Transaction) :
    (afterExamine unit rest (examine stage replies tx)).Slotted := by
  rcases afterExamine_examine unit rest with
    ⟨raw, same⟩ | ⟨raw, same⟩ | same | ⟨cause, same⟩ | ⟨fault, same⟩ <;> rw [same]
  · trivial
  · rintro (inFlight | confirmed)
    · cases inFlight
    · cases confirmed
  · trivial
  · trivial
  · trivial

theorem schedule_slotted (profile : Profile) (stage : Stage)
    (quotaOrder : Queue.Priority.HashOrder (String × UInt16)) (db : Db) (queuedLen : Nat) :
    (schedule profile stage quotaOrder db queuedLen).Slotted := by
  rcases schedule_cases profile stage quotaOrder db queuedLen with
    same | ⟨fault, same⟩ | ⟨currentCap, limits, _, same⟩ <;> rw [same] <;> trivial

/-- One step of ingest keeps the slots present. -/
theorem Step.slotted {pallas : Pallas} {profile : Profile} {stage : Stage} {state after : State}
    {label : Label pallas} (step : Step profile stage state label after)
    (present : SlotPresent state.db) (slotted : state.worker.Slotted) :
    SlotPresent after.db ∧ after.worker.Slotted := by
  cases step with
  | schedule queuedLen quotaOrder scheduled =>
      subst scheduled
      exact ⟨present, schedule_slotted _ _ _ _ _⟩
  | select limitOrder selected =>
      subst selected
      refine ⟨present, ?_⟩
      unfold afterSelect
      split
      · exact proceed_slotted _ _
      · trivial
  | selectFail => exact ⟨present, trivial⟩
  | examine replies examined =>
      subst examined
      exact ⟨present, afterExamine_slotted _ _⟩
  | send => exact ⟨present, trivial⟩
  | sendFail => exact ⟨present, proceed_slotted _ _⟩
  | fetchTip tip => exact ⟨present, fun _ => Option.some_ne_none _⟩
  | fetchTipFail => exact ⟨present, trivial⟩
  | update => exact ⟨present.update slotted, proceed_slotted _ _⟩
  | updateFail => exact ⟨present, trivial⟩
  | rerun => exact ⟨present, proceed_slotted _ _⟩
  | restart => exact ⟨present, trivial⟩

end Ingest

/-! ## Monitor -/

namespace Monitor

variable {profile : Profile} {config : Config} {slot : UInt64} {event : Event}
  {txsInflight confirm : List Transaction}

/-- The retry filter can be evaluated on a record at a block's slot. -/
def SentBefore (profile : Profile) (slot : UInt64) (itx : Transaction) : Prop :=
  ∃ sentAt, itx.slot = some sentAt ∧ (profile = .debug → sentAt ≤ slot)

theorem isRetry_total {itx : Transaction} (sent : SentBefore profile slot itx) :
    ∃ kept, isRetry profile config slot confirm itx = .ok kept := by
  obtain ⟨sentAt, found, ordered⟩ := sent
  have difference : ∃ diff, u64Sub profile slot sentAt = .ok diff := by
    unfold u64Sub
    by_cases before : sentAt ≤ slot
    · exact ⟨_, if_pos before⟩
    · cases profile with
      | debug => exact absurd (ordered rfl) before
      | release => exact ⟨_, if_neg before⟩
  obtain ⟨diff, subtracted⟩ := difference
  exact ⟨_, isRetry_ok_iff.mpr ⟨sentAt, diff, found, subtracted, rfl⟩⟩

theorem txsRetry_total (sent : ∀ itx ∈ txsInflight, SentBefore profile slot itx) :
    ∃ retry, txsRetry profile config slot confirm txsInflight = .ok retry := by
  induction txsInflight with
  | nil => exact ⟨[], rfl⟩
  | cons itx rest ih =>
      rw [List.forall_mem_cons] at sent
      obtain ⟨kept, filtered⟩ : ∃ kept, isRetry profile config slot confirm itx = .ok kept :=
        isRetry_total sent.1
      obtain ⟨others, tail⟩ := ih sent.2
      simp only [txsRetry, filtered, tail, bind, Except.bind, pure, Except.pure]
      exact ⟨_, rfl⟩

/-- The records which the monitor is about to write carry a slot, those which it
is about to filter can be filtered, and it has not panicked. -/
def Worker.Slotted (profile : Profile) : Worker → Prop
  | .awaiting event (.updateConfirm txsInflight confirm) =>
    (∀ itx ∈ txsInflight, SentBefore profile event.point.1 itx) ∧ ∀ tx ∈ confirm, CarriesSlot tx
  | .awaiting _ (.updateRetry retry) => ∀ tx ∈ retry, CarriesSlot tx
  | .awaiting _ (.updateRollback txs) => ∀ tx ∈ txs, CarriesSlot tx
  | .panicked _ => False
  | _ => True

/-- When the monitor reads the store for an event, no record which it looks for is
recorded above the event's slot. For a block this matters only where integer
overflow is checked. -/
def Ordered (profile : Profile) (db : Db) : Worker → Label → Prop
  | .awaiting (.rollForward (slot, _) _) .find, .resume =>
    profile = .debug → ∀ id row, db.row id = some row → row.status = .inFlight →
      ¬ recordedAbove row.slot slot
  | .awaiting (.rollback (slot, _)) .find, .resume =>
    ∀ id row, db.row id = some row → row.status = .confirmed → ¬ recordedAbove row.slot slot
  | _, _ => True

theorem afterConfirm_slotted
    (sent : ∀ itx ∈ txsInflight, SentBefore profile event.point.1 itx) :
    (afterConfirm profile config event txsInflight confirm).Slotted profile := by
  obtain ⟨retry, retried⟩ : ∃ retry,
      txsRetry profile config event.point.1 confirm txsInflight = .ok retry := txsRetry_total sent
  unfold afterConfirm
  rw [retried]
  split
  · rename_i impossible
    cases impossible
  · trivial
  · rename_i batch _ same
    cases same
    intro tx member
    obtain ⟨itx, _, _, rfl⟩ := (mem_txsRetry_iff retried).mp member
    rintro (inFlight | confirmed)
    · cases inFlight
    · cases confirmed

theorem afterFind_slotted {point : Point} {txs : List Tx} (present : SlotPresent db)
    (query : db.find .inFlight = .ok txsInflight)
    (ordered : Ordered profile db (.awaiting (.rollForward point txs) .find) .resume) :
    (afterFind profile config (.rollForward point txs) txs txsInflight).Slotted profile := by
  obtain ⟨slot, hash⟩ := point
  have sent : ∀ itx ∈ txsInflight, SentBefore profile slot itx := by
    intro itx member
    obtain ⟨row, found, status, decoded⟩ := Db.find_sound query member
    have read := (TxRow.fromRow_ok decoded).2.2.2.2.2.2
    cases recorded : itx.slot with
    | none =>
        have missing := (readSlot_none_iff read).mp recorded
        exact absurd missing (present _ row found (.inl status))
    | some sentAt =>
        refine ⟨sentAt, recorded, fun debug => ?_⟩
        rw [recorded] at read
        have below := ordered debug _ row found status
        rw [recordedAbove_iff_of_readSlot read] at below
        exact UInt64.not_lt.mp below
  unfold afterFind
  split
  · exact afterConfirm_slotted sent
  · refine ⟨sent, fun tx member => ?_⟩
    obtain ⟨itx, _, _, rfl⟩ := mem_txsConfirm_iff.mp member
    exact fun _ => Option.some_ne_none _

theorem afterFindToRollback_slotted {point : Point} {found : List Transaction}
    (present : SlotPresent db) (query : db.findToRollback point.1 = .ok found)
    (ordered : Ordered profile db (.awaiting (.rollback point) .find) .resume) :
    (afterFindToRollback (.rollback point) found).Slotted profile := by
  obtain ⟨slot, hash⟩ := point
  have kept : ∀ tx ∈ found, rollbackTx slot tx = .ok { tx with slot := some slot } := by
    intro tx member
    obtain ⟨row, stored, selected, decoded⟩ :=
      (Db.findToRollback_selected query).sound tx member
    simp only [Bool.and_eq_true, decide_eq_true_eq] at selected
    have read := (TxRow.fromRow_ok decoded).2.2.2.2.2.2
    cases recorded : tx.slot with
    | none =>
        have missing := (readSlot_none_iff read).mp recorded
        exact absurd missing (present _ row stored (.inr selected.1))
    | some confirmedAt =>
        rw [recorded] at read
        have below := ordered _ row stored selected.1
        rw [recordedAbove_iff_of_readSlot read] at below
        exact rollbackTx_ok_iff.mpr ⟨confirmedAt, recorded, by rw [if_neg below]⟩
  have mapped : found.mapM (rollbackTx slot) =
      .ok (found.map fun tx => { tx with slot := some slot }) := Table.mapM_eq_ok kept
  simp only [afterFindToRollback, Event.point, mapped]
  intro tx member
  obtain ⟨old, _, rfl⟩ := List.mem_map.mp member
  exact fun _ => Option.some_ne_none _

/-- Making the storage call in hand keeps the slots present and does not panic. -/
theorem resume_slotted {await : Await} {after : Worker}
    (resumed : resume profile config event db await = (next, after)) (present : SlotPresent db)
    (slotted : (Worker.awaiting event await).Slotted profile)
    (ordered : Ordered profile db (.awaiting event await) .resume) :
    SlotPresent next ∧ after.Slotted profile := by
  cases await with
  | find =>
      obtain ⟨rfl, found⟩ := resume_find resumed
      refine ⟨present, ?_⟩
      rcases found with rfl | ⟨point, txs, txsInflight, rfl, query, rfl⟩ |
        ⟨slot, hash, found, rfl, query, rfl⟩
      · trivial
      · exact afterFind_slotted present query ordered
      · exact afterFindToRollback_slotted present query ordered
  | updateConfirm txsInflight confirm =>
      cases resumed
      exact ⟨present.updateBatch slotted.2, afterConfirm_slotted slotted.1⟩
  | updateRetry retry =>
      cases resumed
      exact ⟨present.updateBatch slotted, trivial⟩
  | updateRollback txs =>
      cases resumed
      exact ⟨present.updateBatch slotted, trivial⟩
  | setCursor =>
      cases resumed
      exact ⟨present, trivial⟩

/-- One step of the monitor keeps the slots present and does not panic. -/
theorem Step.slotted {worker after : Worker} {label : Label}
    (step : Step profile config (db, worker) label (next, after)) (present : SlotPresent db)
    (slotted : worker.Slotted profile) (ordered : Ordered profile db worker label) :
    SlotPresent next ∧ after.Slotted profile := by
  cases step with
  | resume resumed => exact resume_slotted resumed present slotted ordered
  | receive event => exact ⟨present, trivial⟩
  | fail => exact ⟨present, trivial⟩
  | rerun => exact ⟨present, trivial⟩

end Monitor

/-! ## The pipeline -/

/-- The slots are present, and neither worker is about to write a record without
one. -/
structure State.Slotted (profile : Profile) (state : State) : Prop where
  present : SlotPresent state.db
  ingest : state.ingest.Slotted
  monitor : state.monitor.Slotted profile

/-- What the monitor looks for is not recorded above the slot of its event. -/
def Ordered {pallas : Pallas} (profile : Profile) (state : State) : Label pallas → Prop
  | .monitor label => Monitor.Ordered profile state.db state.monitor label
  | _ => True

variable {pallas : Pallas} {setup : Setup} {state after final : State} {label : Label pallas}
  {trace : List (Transition State (Label pallas))}

theorem Step.slotted (step : Step setup state label after) (slotted : state.Slotted setup.profile)
    (ordered : Ordered setup.profile state label) : after.Slotted setup.profile := by
  obtain ⟨present, ingest, monitor⟩ := slotted
  cases step with
  | create accepted created => exact ⟨present.create accepted created, ingest, monitor⟩
  | ingest step =>
      obtain ⟨presentAfter, ingestAfter⟩ := step.slotted present ingest
      exact ⟨presentAfter, ingestAfter, monitor⟩
  | monitor step =>
      obtain ⟨presentAfter, monitorAfter⟩ := step.slotted present monitor ordered
      exact ⟨presentAfter, ingest, monitorAfter⟩

/-- In every run from the empty store in which the monitor meets no record above
the slot of its event, the slots are present after every step and the monitor
does not panic. -/
theorem slotPresent_of_ordered (run : Run (Step setup) (State.initial Db.empty) trace final)
    (ordered : Guarded (Ordered setup.profile) trace) :
    ∀ transition ∈ trace, SlotPresent transition.after.db ∧
      ∀ fault, transition.after.monitor ≠ .panicked fault := by
  have preserved : Preserved (@Step pallas setup) (Ordered setup.profile)
      (State.Slotted setup.profile) :=
  fun _ _ _ slotted allowed step => step.slotted slotted allowed
  have initial : (State.initial Db.empty).Slotted setup.profile :=
    ⟨fun _ _ found => (by cases found), trivial, trivial⟩
  intro transition member
  have slotted := (run.invariant_of_mem preserved initial ordered member).2
  refine ⟨slotted.present, fun fault panicked => ?_⟩
  have monitor := slotted.monitor
  rw [panicked] at monitor
  exact monitor

/-! The two submitted transactions are broadcast and the first one is confirmed at
slot 110. -/

/-- The store with the first record in some status, recorded at some slot. -/
def sampleStored (status : TransactionStatus) (slot : UInt64) : Db :=
  sampleDb.update { sampleTx 1 1 with status := status, slot := some slot }

/-- The other record has no slot. -/
theorem sampleStored_notAbove {status : TransactionStatus} {slot bound : UInt64} {id : String}
    {row : TxRow} (found : (sampleStored status slot).row id = some row)
    (below : ¬ Monitor.recordedAbove (some (asI64 slot)) bound) :
    ¬ Monitor.recordedAbove row.slot bound := by
  rw [sampleStored, Db.row_update] at found
  split at found
  · obtain ⟨old, _, rfl⟩ := Option.map_eq_some_iff.mp found
    exact below
  · have unsent : ∀ stored ∈ sampleDb.tx.rows, stored.slot = none := by decide
    rw [unsent row (Table.lookup_eq_some_iff.mp found).1]
    rintro ⟨_, impossible, _⟩
    cases impossible

/-- The block at slot 110 is undone by a rollback to its own slot. -/
theorem slotPresent_of_ordered_sample :
    ∃ (trace : List (Transition State (Label samplePallas))) (final : State),
      Run (Step sampleSetup) (State.initial Db.empty) trace final ∧
        (∀ transition ∈ trace, SlotPresent transition.after.db ∧
          ∀ fault, transition.after.monitor ≠ .panicked fault) ∧
        final.db.HasStatus (sampleTx 1 1).id .confirmed := by
  obtain ⟨final, ⟨trace, run, ordered⟩, confirmed⟩ : ∃ final,
      Reaches (@Step samplePallas sampleSetup) (Ordered .debug) (State.initial Db.empty) final ∧
        final.db.HasStatus (sampleTx 1 1).id .confirmed :=
    ⟨_, .cons sample_create trivial <| .cons sample_schedule trivial <|
      .cons sample_select trivial <| .cons (.ingest (.examine sampleReplies rfl)) trivial <|
      .cons (.ingest .send) trivial <| .cons (.ingest (.fetchTip sampleTip)) trivial <|
      .cons (.ingest .update) trivial <|
      .cons (.monitor (.receive (sampleBlock 110 1))) trivial <|
      .cons (.monitor (.resume rfl))
        (fun _ _ _ found _ => sampleStored_notAbove found (by decide)) <|
      .cons (.monitor (.resume rfl)) trivial <| .cons (.monitor (.resume rfl)) trivial <|
      .cons (.monitor (.receive (.rollback (110, List.replicate 32 1)))) trivial <|
      .cons (.monitor (.resume rfl)) (fun _ _ found _ => sampleStored_notAbove found (by decide)) <|
      .cons (.monitor (.resume rfl)) trivial <| .cons (.monitor (.resume rfl)) trivial <|
      .refl _ _, ⟨_, rfl, rfl⟩⟩
  exact ⟨trace, final, run, slotPresent_of_ordered run ordered, confirmed⟩

/-- The blocks down to slot 105 are undone, and another block is applied. -/
theorem not_slotPresent_of_rollback :
    ∃ (trace : List (Transition State (Label samplePallas))) (final : State),
      Run (Step sampleSetup) (State.initial Db.empty) trace final ∧
        ¬ SlotPresent final.db ∧ final.monitor = .panicked .unwrap := by
  refine ⟨_, _, .cons sample_create <| .cons sample_schedule <| .cons sample_select <|
      .cons (.ingest (.examine sampleReplies rfl)) <| .cons (.ingest .send) <|
      .cons (.ingest (.fetchTip sampleTip)) <| .cons (.ingest .update) <|
      .cons (.monitor (.receive (sampleBlock 110 1))) <| .cons (.monitor (.resume rfl)) <|
      .cons (.monitor (.resume rfl)) <| .cons (.monitor (.resume rfl)) <|
      .cons (.monitor (.receive (.rollback (105, List.replicate 32 3)))) <|
      .cons (.monitor (.resume rfl)) <| .cons (.monitor (.resume rfl)) <|
      .cons (.monitor (.resume rfl)) <| .cons (.monitor (.receive (sampleBlock 106 7))) <|
      .cons (.monitor (.resume rfl)) .nil, ?_, rfl⟩
  intro present
  exact present (sampleTx 1 1).id _ rfl (.inl rfl) rfl

end Boros.Pipeline
