import Boros.Pipeline.Provenance
import Boros.Storage.Batch
import Boros.Storage.Log

/-!
# Properties of the bytes

The bytes of a record are copied: into the unit of ingest, into the batches of the monitor, to
the output port and back into the store, at any later step and after any number of replays.
Only the vault makes new ones. So a property of an entry and its bytes which creations
establish and signatures keep holds of all copies, in every run (`carries_of_run`).
-/

namespace Boros.Pipeline

open Boros.Data Boros.Semantics Boros.Storage Boros.Ledger Boros.Queue

/-- The server signs the transactions of the queue. -/
def ServerSigns (queues : Configs) (queue : String) : Prop :=
  ∃ config, queues.get queue = some config ∧ config.serverSigning = true

instance (queues : Configs) (queue : String) : Decidable (ServerSigns queues queue) :=
  decidable_of_iff ((queues.get queue).any Config.serverSigning) (by
    cases configured : queues.get queue <;> simp [ServerSigns, configured])

/-- A property of an entry of the log and of bytes. -/
abbrev Claim := Entry → Bytes → Prop

/-- The claim is true of bytes which the store has an entry for. -/
def Claim.Of (claim : Claim) (db : Db) (id : String) (raw : Bytes) : Prop :=
  ∃ entry ∈ db.log, entry.id = id ∧ claim entry raw

/-- The records which the ingest worker holds. -/
def Ingest.Worker.records : Ingest.Worker → List Transaction
  | .awaiting unit tx rest _ => tx :: (unit ++ rest)
  | .retrying unit => unit
  | _ => []

/-- The claim is true of all copies: those which are stored, those which were sent, and those
which the stages hold. -/
structure Carries (claim : Claim) (state : State) : Prop where
  stored : ∀ id row, state.db.row id = some row → claim.Of state.db id row.raw
  sent : ∀ copy ∈ state.sent, claim.Of state.db copy.1 copy.2
  ingest : ∀ tx ∈ state.ingest.records, tx.entry ∈ state.db.log ∧ claim tx.entry tx.raw
  monitor : ∀ tx ∈ state.monitor.records, claim.Of state.db tx.id tx.raw

/-- What is created has the claim, and what the vault signs keeps it. -/
def Claim.Admits (claim : Claim) (queues : Configs) {pallas : Pallas} :
    Process.Label pallas → Prop
  | .stage (.create txs) => ∀ tx ∈ txs, claim tx.entry tx.raw
  | .stage (.ingest (.examine replies)) => ∀ entry raw signed,
    ServerSigns queues entry.queue → claim entry raw → replies.sign raw = .ok signed →
      claim entry signed
  | _ => True

variable {claim : Claim} {db after : Db} {id : String} {raw : Bytes} {tx : Transaction}

theorem Claim.Of.mono (holds : claim.Of db id raw) (grown : db.log ⊆ after.log) :
    claim.Of after id raw := by
  obtain ⟨entry, member, same, claimed⟩ := holds
  exact ⟨entry, grown member, same, claimed⟩

/-- There is one entry for an id. -/
theorem Claim.Of.entry {entry : Entry} (holds : claim.Of db id raw) (member : entry ∈ db.log)
    (same : entry.id = id) : claim entry raw := by
  obtain ⟨other, otherMem, otherId, claimed⟩ := holds
  rw [← List.inj_on_of_nodup_map db.log_distinct otherMem member (otherId.trans same.symm)]
  exact claimed

/-- A record which is read has the claim if its row does. -/
theorem Claim.Of.read {row : TxRow} (holds : claim.Of db tx.id row.raw)
    (found : db.row tx.id = some row) (decoded : row.fromRow = .ok tx) :
    tx.entry ∈ db.log ∧ claim tx.entry tx.raw := by
  obtain ⟨sameId, sameRaw, _, sameQueue, sameTime, _⟩ := TxRow.fromRow_ok decoded
  have same : tx.entry = row.entry := by
    rw [Transaction.entry, TxRow.entry, sameId, sameQueue, sameTime]
  have member : row.entry ∈ db.log := Db.mem_log_of_row found
  rw [same, sameRaw]
  exact ⟨member, holds.entry member sameId.symm⟩

/-! ## Ingest -/

namespace Ingest

variable {pallas : Pallas} {profile : Profile} {stage : Stage} {state next : State}
  {label : Label pallas} {replies : Replies pallas} {unit rest : List Transaction}
  {result : Transaction}

/-- A transaction is signed if its queue asks for it, and otherwise left as it is. -/
theorem signed_cases (success : signed stage replies tx = .ok result) :
    result = tx ∨ ServerSigns stage.queues tx.queue ∧
      ∃ raw, replies.sign tx.raw = .ok raw ∧ result = { tx with raw := raw } := by
  unfold signed at success
  split at success
  · cases success
  · rename_i config configured
    split at success
    · rename_i signs
      split at success
      · split at success
        · rename_i raw signature
          cases success
          exact .inr ⟨⟨config, configured, signs⟩, raw, signature, rfl⟩
        · cases success
        · cases success
      · cases success
    · cases success
      exact .inl rfl

/-- What is in hand after the examination was signed or not, and has the entry it had. -/
theorem examined_record (success : examine stage replies tx = .ok (result, valid)) :
    result.entry = tx.entry ∧ (result.raw = tx.raw ∨
      ServerSigns stage.queues tx.queue ∧ replies.sign tx.raw = .ok result.raw) := by
  obtain ⟨clone, metx, signed, _, _, rfl⟩ := examine_ok_iff.mp success
  rcases signed_cases signed with rfl | ⟨signs, raw, signature, rfl⟩
  · cases valid <;> exact ⟨rfl, .inl rfl⟩
  · cases valid <;> exact ⟨rfl, .inr ⟨signs, signature⟩⟩

theorem proceed_records (member : tx ∈ (proceed unit rest).records) :
    tx ∈ unit ∨ tx ∈ rest := by
  cases rest with
  | nil => cases member
  | cons head tail =>
      rcases List.mem_cons.mp member with rfl | member
      · exact .inr List.mem_cons_self
      · exact (List.mem_append.mp member).imp_right (List.mem_cons_of_mem _)

/-- What ingest holds after an examination: what it held, and the record in hand as it was
examined. -/
theorem afterExamine_records (member : tx ∈
    (afterExamine unit rest (examine stage replies result)).records) :
    tx ∈ unit ++ rest ∨ ∃ valid, examine stage replies result = .ok (tx, valid) := by
  cases examined : examine stage replies result with
  | ok outcome =>
      obtain ⟨clone, valid⟩ := outcome
      rw [examined] at member
      cases valid <;> rcases List.mem_cons.mp member with rfl | member
      · exact .inr ⟨false, rfl⟩
      · exact .inl member
      · exact .inr ⟨true, rfl⟩
      · exact .inl member
  | error abort =>
      rw [examined] at member
      refine .inl ?_
      cases abort with
      | panic fault => cases member
      | error cause =>
          cases cause with
          | retry => exact List.mem_append_left _ member
          | _ => cases member

theorem schedule_records (profile : Profile) (stage : Stage)
    (quotaOrder : Queue.Priority.HashOrder (String × UInt16)) (db : Db) (queuedLen : Nat) :
    (schedule profile stage quotaOrder db queuedLen).records = [] := by
  rcases schedule_cases profile stage quotaOrder db queuedLen with
    same | ⟨fault, same⟩ | ⟨currentCap, limits, _, same⟩ <;> rw [same] <;> rfl

/-- What ingest holds after a step it held before, up to the status and the slot; or it was
selected, or has just been examined. -/
theorem Step.records (step : Step profile stage state label next)
    (member : tx ∈ next.worker.records) :
    (∃ old ∈ state.worker.records, tx.entry = old.entry ∧ tx.raw = old.raw) ∨
      (∃ row, state.db.row tx.id = some row ∧ row.fromRow = .ok tx) ∨
      ∃ replies, label = .examine replies ∧ ∃ old ∈ state.worker.records,
        tx.entry = old.entry ∧ ServerSigns stage.queues old.queue ∧
          replies.sign old.raw = .ok tx.raw := by
  have kept : ∀ {held : List Transaction}, held ⊆ state.worker.records → tx ∈ held →
      ∃ old ∈ state.worker.records, tx.entry = old.entry ∧ tx.raw = old.raw :=
    fun subset found => ⟨tx, subset found, rfl, rfl⟩
  cases step with
  | schedule queuedLen quotaOrder scheduled =>
      subst scheduled
      rw [schedule_records] at member
      cases member
  | select limitOrder selected =>
      subst selected
      refine .inr (.inl ?_)
      unfold afterSelect at member
      split at member
      · rename_i transactions success
        have selected : tx ∈ transactions := by
          rcases proceed_records member with found | found <;> exact found
        obtain ⟨row, found, _, decoded⟩ := Db.next_sound success selected
        exact ⟨row, found, decoded⟩
      · cases member
  | @examine db sent unit hand rest worker replies examined =>
      subst examined
      rcases afterExamine_records member with found | ⟨valid, success⟩
      · exact .inl ⟨tx, List.mem_cons_of_mem _ found, rfl, rfl⟩
      · obtain ⟨same, unsigned | ⟨signs, signature⟩⟩ := examined_record success
        · exact .inl ⟨hand, List.mem_cons_self, same, unsigned⟩
        · exact .inr (.inr ⟨replies, rfl, hand, List.mem_cons_self, same, signs, signature⟩)
  | send => exact .inl (kept (List.Subset.refl _) member)
  | @fetchTip db sent unit hand rest tip =>
      rcases List.mem_cons.mp member with rfl | found
      · exact .inl ⟨hand, List.mem_cons_self, rfl, rfl⟩
      · exact .inl ⟨tx, List.mem_cons_of_mem _ found, rfl, rfl⟩
  | sendFail | update =>
      exact .inl ⟨tx, List.mem_cons_of_mem _ (List.mem_append.mpr (proceed_records member)),
        rfl, rfl⟩
  | rerun =>
      refine .inl ⟨tx, ?_, rfl, rfl⟩
      rcases proceed_records member with found | found <;> exact found
  | fetchTipFail | updateFail =>
      exact .inl ⟨tx, List.mem_cons_of_mem _ (List.mem_append_left _ member), rfl, rfl⟩
  | selectFail | restart => cases member

/-- The ingest stage appends nothing to the log. -/
theorem Step.log (step : Step profile stage state label next) : next.db.log = state.db.log := by
  rcases step.db_cases with same | ⟨unit, tx, rest, _, _, same⟩
  · rw [same]
  · rw [same, Db.log_update]

end Ingest

/-- Nor does the monitor. -/
theorem Monitor.Step.log {profile : Profile} {config : Monitor.Config}
    {worker nextWorker : Monitor.Worker} {label : Monitor.Label}
    (step : Monitor.Step profile config (db, worker) label (after, nextWorker)) :
    after.log = db.log := by
  cases step with
  | receive | fail | rerun => rfl
  | @resume db event await next worker resumed =>
      cases await with
      | find => rw [(Monitor.resume_find resumed).1]
      | updateConfirm | updateRetry | updateRollback =>
          cases resumed
          exact Db.log_updateBatch _ _
      | setCursor =>
          cases resumed
          rfl

/-! ## The pipeline -/

section Carries

variable {pallas : Pallas} {setup : Setup} {state next final : State}
  {label : Process.Label pallas} {trace : List (Transition State (Process.Label pallas))}

/-- A step appends what it creates to the log. -/
theorem Process.Step.log (step : Process.Step setup state label next) :
    next.db.log = state.db.log ∨ ∃ txs, label = .stage (.create txs) ∧
      next.db.log = state.db.log ++ txs.map Transaction.entry := by
  cases step with
  | restart => exact .inl rfl
  | stage step =>
      cases step with
      | create accepted created => exact .inr ⟨_, rfl, Db.log_create created⟩
      | ingest step => exact .inl step.log
      | monitor step => exact .inl step.log

theorem Process.Step.log_subset (step : Process.Step setup state label next) :
    state.db.log ⊆ next.db.log := by
  rcases step.log with same | ⟨txs, _, grown⟩
  · rw [same]
    exact List.Subset.refl _
  · rw [grown]
    exact List.subset_append_left _ _

/-- A row after a step was there before, was created, or was written from a record which a
stage holds. -/
theorem Process.Step.row_cases (step : Process.Step setup state label next) {row : TxRow}
    (found : next.db.row id = some row) :
    (∃ old, state.db.row id = some old ∧ row.raw = old.raw) ∨
      (∃ txs, label = .stage (.create txs) ∧ ∃ tx ∈ txs, tx.id = id ∧ row = .ofTransaction tx) ∨
      (∃ tx ∈ state.ingest.records, tx.id = id ∧ row.raw = tx.raw) ∨
      ∃ tx ∈ state.monitor.records, tx.id = id ∧ row.raw = tx.raw := by
  cases step with
  | restart => exact .inl ⟨row, found, rfl⟩
  | stage step =>
      cases step with
      | create accepted created =>
          rcases (Db.create_ok created).row_cases found with before | ⟨tx, member, sameId, made, _⟩
          · exact .inl ⟨row, before, rfl⟩
          · exact .inr (.inl ⟨_, rfl, tx, member, sameId, made⟩)
      | ingest step =>
          rcases step.db_cases with same | ⟨unit, tx, rest, _, worker, same⟩
          · simp only at same
            subst same
            exact .inl ⟨row, found, rfl⟩
          · simp only at same worker
            subst same worker
            simp only [Db.row_update] at found
            split at found
            · obtain ⟨old, before, rfl⟩ := Option.map_eq_some_iff.mp found
              exact .inr (.inr (.inl ⟨tx, List.mem_cons_self, Eq.symm ‹_›, rfl⟩))
            · exact .inl ⟨row, found, rfl⟩
      | monitor step =>
          obtain ⟨old, before, _, _, rfl | ⟨tx, member, sameId, sameRaw⟩⟩ :=
            step.records.1.origin found
          · exact .inl ⟨row, before, rfl⟩
          · refine .inr (.inr (.inr ⟨tx, member, ?_, sameRaw⟩))
            rw [← sameId, Db.row_id found]

/-- Every step keeps a claim which creations establish and signatures keep. -/
theorem Process.Step.carries (step : Process.Step setup state label next)
    (admits : claim.Admits setup.ingest.queues label) (carries : Carries claim state) :
    Carries claim next := by
  have grown := step.log_subset
  refine ⟨fun id row found => ?_, fun copy member => ?_, fun tx member => ?_,
    fun tx member => ?_⟩
  · rcases step.row_cases found with ⟨old, before, sameRaw⟩ | ⟨txs, rfl, tx, txMem, same, rfl⟩ |
      ⟨tx, held, same, sameRaw⟩ | ⟨tx, held, same, sameRaw⟩
    · rw [sameRaw]
      exact (carries.stored id old before).mono grown
    · refine ⟨tx.entry, ?_, same, admits tx txMem⟩
      exact (Db.mem_log_of_row found : (TxRow.ofTransaction tx).entry ∈ next.db.log)
    · rw [sameRaw]
      obtain ⟨logged, claimed⟩ := carries.ingest tx held
      exact ⟨tx.entry, grown logged, same, claimed⟩
    · rw [sameRaw, ← same]
      exact (carries.monitor tx held).mono grown
  · rcases step.sent_cases with same | ⟨unit, tx, rest, _, worker, same⟩
    · rw [same] at member
      exact (carries.sent copy member).mono grown
    · rw [same] at member
      rcases List.mem_append.mp member with before | new
      · exact (carries.sent copy before).mono grown
      · rw [List.mem_singleton.mp new]
        obtain ⟨logged, claimed⟩ := carries.ingest tx (by rw [worker]; exact List.mem_cons_self)
        exact ⟨tx.entry, grown logged, rfl, claimed⟩
  · cases step with
    | restart => cases member
    | stage step =>
        cases step with
        | create | monitor =>
            obtain ⟨logged, claimed⟩ := carries.ingest tx member
            exact ⟨grown logged, claimed⟩
        | ingest step =>
            rcases step.records member with ⟨old, held, sameEntry, sameRaw⟩ |
              ⟨row, found, decoded⟩ | ⟨replies, rfl, old, held, sameEntry, signs, signature⟩
            · obtain ⟨logged, claimed⟩ := carries.ingest old held
              rw [sameEntry, sameRaw]
              exact ⟨grown logged, claimed⟩
            · obtain ⟨logged, claimed⟩ := (carries.stored _ row found).read found decoded
              exact ⟨grown logged, claimed⟩
            · obtain ⟨logged, claimed⟩ := carries.ingest old held
              rw [sameEntry]
              exact ⟨grown logged, admits old.entry old.raw tx.raw signs claimed signature⟩
  · cases step with
    | restart => cases member
    | stage step =>
        cases step with
        | create | ingest => exact (carries.monitor tx member).mono grown
        | monitor step =>
            rcases step.records.2 tx member with ⟨old, held, sameId, sameRaw⟩ |
              ⟨row, found, sameRaw, _⟩
            · rw [sameId, sameRaw]
              exact (carries.monitor old held).mono grown
            · rw [sameRaw]
              exact (carries.stored _ row found).mono grown

/-- What is true of all copies makes true what follows from it. -/
theorem Carries.mono {weaker : Claim} (carries : Carries claim state)
    (weaken : ∀ entry raw, claim entry raw → weaker entry raw) : Carries weaker state := by
  have of : ∀ {db id raw}, claim.Of db id raw → weaker.Of db id raw := by
    rintro db id raw ⟨entry, member, same, claimed⟩
    exact ⟨entry, member, same, weaken entry raw claimed⟩
  exact ⟨fun id row found => of (carries.stored id row found),
    fun copy member => of (carries.sent copy member),
    fun tx member => ⟨(carries.ingest tx member).1, weaken _ _ (carries.ingest tx member).2⟩,
    fun tx member => of (carries.monitor tx member)⟩

theorem carries_initial : Carries claim (State.initial .empty) where
  stored _ _ found := by cases found
  sent _ member := by cases member
  ingest _ member := by cases member
  monitor _ member := by cases member

/-- In every run, with any replays and crashes, a claim which creations establish and signatures
keep is true of all copies of the bytes. -/
theorem carries_of_run
    (run : Run (Process.Step setup) (State.initial .empty) trace final)
    (admits : ∀ transition ∈ trace, claim.Admits setup.ingest.queues transition.label) :
    Carries claim final := by
  have preserved : Preserved (@Process.Step pallas setup)
      (fun _ label => claim.Admits setup.ingest.queues label) (Carries claim) :=
    fun _ _ _ carries admits step => step.carries admits carries
  exact run.invariant preserved carries_initial admits

end Carries

end Boros.Pipeline
