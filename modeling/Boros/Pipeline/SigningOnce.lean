import Boros.Pipeline.Admission
import Boros.Pipeline.Provenance

/-!
# Signing a transaction once

`execute` signs the bytes which are stored, and what it signed is stored in their place. A
record does not tell that it was signed. So a transaction which the monitor puts back to
pending is signed again, on top of the first signature. `signedOnce_of_run` says that this is
the only way: as long as it is not executed with bytes which were broadcast before, it is
signed once however often it is executed.
-/

namespace Boros.Pipeline

open Boros.Data Boros.Semantics Boros.Storage Boros.Ledger Boros.Signing

variable {pallas : Pallas} {builder : TxBuilder pallas}

/-- `submit_tx` stores the transaction. -/
def Creates (tx : Transaction) (transition : Transition State (Process.Label pallas)) : Prop :=
  ∃ txs, transition.label = .stage (.create txs) ∧ tx ∈ txs

/-- In this run `submit_tx` stores the transaction. -/
def Submitted (trace : List (Transition State (Process.Label pallas))) (tx : Transaction) : Prop :=
  ∃ transition ∈ trace, Creates tx transition

/-- Bytes are signed by the vault, as long as it answers with the mnemonic. -/
def UsesVault (builder : TxBuilder pallas) (mnemonic : builder.Mnemonic) (_ : State) :
    Process.Label pallas → Prop
  | .stage (.ingest (.examine replies)) => ∃ read config,
    replies.sign = signer builder read config ∧
      ∀ found, getMnemonic builder read config = .ok found → found = mnemonic
  | _ => True

/-- The transaction is not examined with bytes which were broadcast before. -/
def SignsFresh (tx : Transaction) (state : State) : Process.Label pallas → Prop
  | .stage (.ingest (.examine _)) => ∀ unit hand rest,
    state.ingest = .awaiting unit hand rest .examine → hand.id = tx.id →
      (hand.id, hand.raw) ∉ state.sent
  | _ => True

/-- These are the bytes which signing the submitted ones once results in, with one more
witness of the server key. -/
structure Once (witnesses : builder.Witnesses) (mnemonic : builder.Mnemonic)
    (submitted raw : Bytes) : Prop where
  signed : signWith builder mnemonic submitted = .ok raw
  witness : witnesses.ofServer mnemonic raw = witnesses.ofServer mnemonic submitted + 1

/-- A submitted transaction is broadcast with the server's signature, once, and is stored as it
was submitted until it is stored with this signature. -/
structure SignedOnce (witnesses : builder.Witnesses) (mnemonic : builder.Mnemonic)
    (tx : Transaction) (state : State) : Prop where
  sent : ∀ raw, (tx.id, raw) ∈ state.sent → Once witnesses mnemonic tx.raw raw
  stored : ∀ row, state.db.row tx.id = some row →
    row.raw = tx.raw ∨ Once witnesses mnemonic tx.raw row.raw
  broadcast : ∀ row, state.db.row tx.id = some row →
    row.status = .inFlight ∨ row.status = .confirmed → Once witnesses mnemonic tx.raw row.raw

/-! ## The bytes of one transaction -/

/-- If this is the transaction, it has the bytes as submitted or as they were broadcast. -/
def Drawn (tx : Transaction) (sent : List (String × Bytes)) (other : Transaction) : Prop :=
  other.id = tx.id → other.queue = tx.queue ∧ (other.raw = tx.raw ∨ (other.id, other.raw) ∈ sent)

/-- If this is the transaction, it has the bytes as they were signed. -/
def Signed (builder : TxBuilder pallas) (mnemonic : builder.Mnemonic) (tx other : Transaction) :
    Prop :=
  other.id = tx.id → signWith builder mnemonic tx.raw = .ok other.raw

/-- Where the bytes of the transaction in the hands of ingest come from. -/
def Ingest.Worker.Lineage (builder : TxBuilder pallas) (mnemonic : builder.Mnemonic)
    (tx : Transaction) (sent : List (String × Bytes)) : Ingest.Worker → Prop
  | .awaiting unit hand rest .examine =>
    (∀ other ∈ unit, Drawn tx sent other) ∧ (∀ other ∈ rest, Drawn tx sent other) ∧
      Drawn tx sent hand
  | .awaiting unit hand rest _ =>
    (∀ other ∈ unit, Drawn tx sent other) ∧ (∀ other ∈ rest, Drawn tx sent other) ∧
      Signed builder mnemonic tx hand
  | .retrying unit => ∀ other ∈ unit, Drawn tx sent other
  | _ => True

/-- Where the bytes of the transaction come from: those which are pending were submitted or
broadcast, and those which were broadcast are the submitted ones, signed. -/
structure Lineage (builder : TxBuilder pallas) (mnemonic : builder.Mnemonic) (tx : Transaction)
    (state : State) : Prop where
  sent : ∀ raw, (tx.id, raw) ∈ state.sent → signWith builder mnemonic tx.raw = .ok raw
  queue : ∀ row, state.db.row tx.id = some row → row.queue = tx.queue
  stored : ∀ row, state.db.row tx.id = some row →
    row.raw = tx.raw ∨ signWith builder mnemonic tx.raw = .ok row.raw
  pending : ∀ row, state.db.row tx.id = some row → row.status = .pending →
    row.raw = tx.raw ∨ (tx.id, row.raw) ∈ state.sent
  ingest : state.ingest.Lineage builder mnemonic tx state.sent

/-- If this is the row of the transaction, it has the signed bytes, and they were broadcast if it
is pending. -/
def Resigned (builder : TxBuilder pallas) (mnemonic : builder.Mnemonic) (tx : Transaction)
    (sent : List (String × Bytes)) (row : TxRow) : Prop :=
  row.id = tx.id → signWith builder mnemonic tx.raw = .ok row.raw ∧
    (row.status = .pending → (tx.id, row.raw) ∈ sent)

variable {mnemonic : builder.Mnemonic} {tx : Transaction} {sent grown : List (String × Bytes)}
  {unit rest : List Transaction} {setup : Setup} {state next final : State}
  {label : Process.Label pallas} {trace : List (Transition State (Process.Label pallas))}

theorem Drawn.mono {other : Transaction} (drawn : Drawn tx sent other) (subset : sent ⊆ grown) :
    Drawn tx grown other :=
  fun same => ⟨(drawn same).1, (drawn same).2.imp_right fun member => subset member⟩

/-- What ingest has in hand comes from the same bytes when more is sent. -/
theorem Ingest.Worker.Lineage.mono {worker : Ingest.Worker}
    (lineage : worker.Lineage builder mnemonic tx sent) (subset : sent ⊆ grown) :
    worker.Lineage builder mnemonic tx grown := by
  cases worker with
  | awaiting unit hand rest await =>
      cases await with
      | examine =>
          obtain ⟨inUnit, inRest, inHand⟩ := lineage
          exact ⟨fun other member => (inUnit other member).mono subset,
            fun other member => (inRest other member).mono subset, inHand.mono subset⟩
      | send | fetchTip | update =>
          obtain ⟨inUnit, inRest, inHand⟩ := lineage
          exact ⟨fun other member => (inUnit other member).mono subset,
            fun other member => (inRest other member).mono subset, inHand⟩
  | retrying unit => exact fun other member => (lineage other member).mono subset
  | _ => trivial

theorem proceed_lineage (inUnit : ∀ other ∈ unit, Drawn tx sent other)
    (inRest : ∀ other ∈ rest, Drawn tx sent other) :
    (Ingest.proceed unit rest).Lineage builder mnemonic tx sent := by
  cases rest with
  | nil => trivial
  | cons head tail =>
      rw [List.forall_mem_cons] at inRest
      exact ⟨inUnit, inRest.2, inRest.1⟩

/-- What is selected was submitted or broadcast. -/
theorem Lineage.selected {limits : List (String × UInt16)}
    (lineage : Lineage builder mnemonic tx state)
    (success : state.db.next .pending limits = .ok unit) :
    ∀ other ∈ unit, Drawn tx state.sent other := by
  intro other member same
  obtain ⟨row, found, status, decoded⟩ := Db.next_sound success member
  obtain ⟨_, raw, _, queue, _⟩ := TxRow.fromRow_ok decoded
  rw [same] at found
  rw [queue, raw, same]
  exact ⟨lineage.queue row found, lineage.pending row found status⟩

/-- A transaction of a server-signing queue goes on with what the vault signed. -/
theorem Ingest.signed_of_serverSigned {stage : Ingest.Stage} {replies : Ingest.Replies pallas}
    {hand clone : Transaction} (signs : Ingest.ServerSigned stage hand)
    (success : Ingest.signed stage replies hand = .ok clone) :
    ∃ raw, replies.sign hand.raw = .ok raw ∧ clone = { hand with raw := raw } := by
  obtain ⟨config, configured, serverSigning⟩ := signs
  simp only [Ingest.signed, configured, if_pos serverSigning] at success
  split at success
  · split at success
    · rename_i raw signed
      cases success
      exact ⟨raw, signed, rfl⟩
    · cases success
    · cases success
  · cases success

/-- Examining a transaction of a server-signing queue signs the bytes it has. -/
theorem signWith_of_examined {stage : Ingest.Stage} {replies : Ingest.Replies pallas}
    {hand result : Transaction} {valid : Bool} (signs : Ingest.ServerSigned stage hand)
    (vault : UsesVault builder mnemonic state (.stage (.ingest (.examine replies))))
    (examined : Ingest.examine stage replies hand = .ok (result, valid)) :
    signWith builder mnemonic hand.raw = .ok result.raw := by
  obtain ⟨clone, metx, signature, _, _, produced⟩ := Ingest.examine_ok_iff.mp examined
  have sameRaw : result.raw = clone.raw := by
    rw [produced]
    split <;> rfl
  obtain ⟨raw, signed, rfl⟩ := Ingest.signed_of_serverSigned signs signature
  obtain ⟨read, config, adapter, secret⟩ := vault
  rw [adapter] at signed
  obtain ⟨found, answered, success⟩ := signer_ok signed
  rw [secret found answered] at success
  rw [sameRaw]
  exact success

theorem Drawn.serverSigned {stage : Ingest.Stage} {hand : Transaction} (drawn : Drawn tx sent hand)
    (same : hand.id = tx.id) (signs : Ingest.ServerSigned stage tx) :
    Ingest.ServerSigned stage hand := by
  rw [Ingest.ServerSigned, (drawn same).1]
  exact signs

/-- Examining the transaction, if it is in hand with the bytes as submitted, signs these. -/
theorem signed_of_examined {stage : Ingest.Stage} {replies : Ingest.Replies pallas}
    {hand result : Transaction} {valid : Bool} (signs : Ingest.ServerSigned stage tx)
    (vault : UsesVault builder mnemonic state (.stage (.ingest (.examine replies))))
    (drawn : Drawn tx sent hand) (fresh : hand.id = tx.id → (hand.id, hand.raw) ∉ sent)
    (examined : Ingest.examine stage replies hand = .ok (result, valid)) :
    Signed builder mnemonic tx result := by
  intro same
  have handId : hand.id = tx.id := (Ingest.id_of_examine examined).symm.trans same
  have submitted : hand.raw = tx.raw := (drawn handId).2.resolve_right (fresh handId)
  rw [← submitted]
  exact signWith_of_examined (drawn.serverSigned handId signs) vault examined

/-- Examining it with the bytes as they were broadcast adds a second witness of the server. -/
theorem witness_twice_of_examined {stage : Ingest.Stage} {replies : Ingest.Replies pallas}
    {hand result : Transaction} {valid : Bool} (witnesses : builder.Witnesses)
    (lineage : Lineage builder mnemonic tx state) (signs : Ingest.ServerSigned stage tx)
    (vault : UsesVault builder mnemonic state (.stage (.ingest (.examine replies))))
    (drawn : Drawn tx state.sent hand) (same : hand.id = tx.id)
    (broadcast : (hand.id, hand.raw) ∈ state.sent)
    (examined : Ingest.examine stage replies hand = .ok (result, valid)) :
    witnesses.ofServer mnemonic result.raw = witnesses.ofServer mnemonic tx.raw + 2 := by
  rw [same] at broadcast
  have first := witnesses.ofServer_signWith (lineage.sent hand.raw broadcast)
  have second := witnesses.ofServer_signWith
    (signWith_of_examined (drawn.serverSigned same signs) vault examined)
  rw [second, first]

/-- A step of ingest keeps what is known of what it has in hand. -/
theorem Ingest.Step.lineage {profile : Profile} {stage : Ingest.Stage}
    {ingest after : Ingest.State} {label : Ingest.Label pallas} {monitor : Monitor.Worker}
    (step : Ingest.Step profile stage ingest label after)
    (signs : Ingest.ServerSigned stage tx)
    (vault : UsesVault builder mnemonic ⟨ingest.db, ingest.sent, ingest.worker, monitor⟩
      (.stage (.ingest label)))
    (fresh : SignsFresh tx ⟨ingest.db, ingest.sent, ingest.worker, monitor⟩
      (.stage (.ingest label) : Process.Label pallas))
    (selected : ∀ limits unit, ingest.db.next .pending limits = .ok unit →
      ∀ other ∈ unit, Drawn tx ingest.sent other)
    (lineage : ingest.worker.Lineage builder mnemonic tx ingest.sent) :
    after.worker.Lineage builder mnemonic tx ingest.sent := by
  cases step with
  | schedule queuedLen quotaOrder scheduled =>
      subst scheduled
      rcases Ingest.schedule_cases profile stage quotaOrder _ queuedLen with
        same | ⟨fault, same⟩ | ⟨currentCap, limits, computed, same⟩ <;> rw [same] <;> trivial
  | @select db sent limits _ limitOrder chosen =>
      subst chosen
      cases found : db.next .pending (limitOrder.order limits) with
      | error cause => trivial
      | ok unit => exact proceed_lineage (selected _ unit found) (selected _ unit found)
  | @examine _ _ unit hand rest _ replies examined =>
      subst examined
      obtain ⟨inUnit, inRest, inHand⟩ := lineage
      cases outcome : Ingest.examine stage replies hand with
      | ok pair =>
          obtain ⟨result, valid⟩ := pair
          have signed := signed_of_examined signs vault inHand (fresh unit hand rest rfl) outcome
          cases valid <;> exact ⟨inUnit, inRest, signed⟩
      | error abort =>
          cases abort with
          | panic fault => trivial
          | error cause =>
              cases cause with
              | retry => exact inUnit
              | _ => trivial
  | send | fetchTip => exact lineage
  | sendFail | update => exact proceed_lineage lineage.1 lineage.2.1
  | fetchTipFail | updateFail => exact lineage.1
  | rerun => exact proceed_lineage lineage lineage
  | selectFail | restart => trivial

/-! ## One step of the process -/

/-- A step which creates nothing rewrites the transaction with its signed bytes. -/
theorem Process.Step.resigned (step : Process.Step setup state label next)
    (broadcast : Broadcast state) (lineage : Lineage builder mnemonic tx state) :
    (∃ txs, label = .stage (.create txs) ∧ Db.Created state.db next.db txs) ∨
      Db.Rewritten (Resigned builder mnemonic tx state.sent) state.db next.db := by
  cases step with
  | restart => exact .inr (.of_row fun _ => rfl)
  | stage step =>
      cases step with
      | create accepted created => exact .inl ⟨_, rfl, Db.create_ok created⟩
      | ingest step =>
          refine .inr ?_
          rcases step.db_cases with same | ⟨unit, hand, rest, _, worker, same⟩
          · simp only at same
            subst same
            exact .of_row fun _ => rfl
          · simp only at same worker
            subst same worker
            refine Db.rewritten_update fun row named same => ?_
            have handId : hand.id = tx.id := named.symm.trans same
            refine ⟨lineage.ingest.2.2 handId, fun pending => ?_⟩
            rcases broadcast.ingest with failed | sent
            · cases pending.symm.trans failed
            · rw [← handId]
              exact sent
      | monitor step =>
          refine .inr (step.records.1.mono fun row wrote same => ?_)
          obtain ⟨held, member, sameId, sameRaw⟩ := wrote
          have sent := broadcast.monitor held member
          rw [← sameId, ← sameRaw, same] at sent
          exact ⟨lineage.sent row.raw sent, fun _ => sent⟩

/-- No other transaction is created under the id of this one. -/
def CreatesOnly (tx : Transaction) (_ : State) : Process.Label pallas → Prop
  | .stage (.create txs) => ∀ other ∈ txs, other.id = tx.id → other = tx
  | _ => True

/-- A step sends the transaction with the signed bytes only. -/
theorem Process.Step.lineage_sent (step : Process.Step setup state label next)
    (lineage : Lineage builder mnemonic tx state) {raw : Bytes} (sent : (tx.id, raw) ∈ next.sent) :
    signWith builder mnemonic tx.raw = .ok raw := by
  rcases step.sent_cases with same | ⟨unit, hand, rest, _, worker, same⟩
  · rw [same] at sent
    exact lineage.sent raw sent
  · rw [same, List.mem_append, List.mem_singleton] at sent
    rcases sent with before | now
    · exact lineage.sent raw before
    · obtain ⟨handId, rfl⟩ := Prod.mk.inj now
      have inHand := lineage.ingest
      rw [worker] at inHand
      exact inHand.2.2 handId.symm

/-- What ingest has in hand after a step of the process comes from the same bytes. -/
theorem Process.Step.lineage_ingest (step : Process.Step setup state label next)
    (signs : Ingest.ServerSigned setup.ingest tx) (vault : UsesVault builder mnemonic state label)
    (fresh : SignsFresh tx state label) (lineage : Lineage builder mnemonic tx state) :
    next.ingest.Lineage builder mnemonic tx next.sent := by
  have grown := step.sent_subset
  cases step with
  | restart => trivial
  | stage step =>
      cases step with
      | create | monitor => exact lineage.ingest
      | ingest step =>
          exact (step.lineage signs vault fresh (fun _ _ success => lineage.selected success)
            lineage.ingest).mono grown

/-- A step keeps what is known of the bytes of the transaction. -/
theorem Process.Step.lineage (step : Process.Step setup state label next)
    (broadcast : Broadcast state) (signs : Ingest.ServerSigned setup.ingest tx)
    (vault : UsesVault builder mnemonic state label) (fresh : SignsFresh tx state label)
    (only : CreatesOnly tx state label) (lineage : Lineage builder mnemonic tx state) :
    Lineage builder mnemonic tx next := by
  have row_cases : ∀ row, next.db.row tx.id = some row →
      row = .ofTransaction tx ∨ ∃ old, state.db.row tx.id = some old ∧ row.queue = old.queue ∧
        (row = old ∨ Resigned builder mnemonic tx state.sent row) := by
    intro row found
    rcases step.resigned broadcast lineage with ⟨txs, rfl, created⟩ | rewritten
    · rcases created.row_cases found with before | ⟨other, member, sameId, rfl, _⟩
      · exact .inr ⟨row, before, rfl, .inl rfl⟩
      · rw [only other member sameId]
        exact .inl rfl
    · obtain ⟨old, before, queue, _, changed⟩ := rewritten.origin found
      exact .inr ⟨old, before, queue, changed⟩
  refine ⟨fun raw sent => step.lineage_sent lineage sent, ?_, ?_, ?_,
    step.lineage_ingest signs vault fresh lineage⟩
  · intro row found
    rcases row_cases row found with rfl | ⟨old, before, queue, _⟩
    · rfl
    · exact queue.trans (lineage.queue old before)
  · intro row found
    rcases row_cases row found with rfl | ⟨old, before, _, rfl | resigned⟩
    · exact .inl rfl
    · exact lineage.stored row before
    · exact .inr (resigned (Db.row_id found)).1
  · intro row found pending
    rcases row_cases row found with rfl | ⟨old, before, _, rfl | resigned⟩
    · exact .inl rfl
    · exact (lineage.pending row before pending).imp_right fun sent => step.sent_subset sent
    · exact .inr (step.sent_subset ((resigned (Db.row_id found)).2 pending))

/-! ## Creations -/

/-- A row stays in the store. -/
theorem row_of_run {start : State} {id : String} {row : TxRow}
    (run : Run (Process.Step setup) start trace final) (broadcast : Broadcast start)
    (found : start.db.row id = some row) : ∃ after, final.db.row id = some after := by
  induction run generalizing row with
  | nil => exact ⟨row, found⟩
  | cons step _ ih =>
      obtain ⟨after, here, _⟩ := step.keepsRecords broadcast id row found
      exact ih (step.broadcast broadcast) here

theorem Process.Step.created {txs : List Transaction}
    (step : Process.Step setup state (.stage (.create txs) : Process.Label pallas) next) :
    Db.Created state.db next.db txs := by
  cases step with
  | stage step =>
      cases step with
      | create accepted created => exact Db.create_ok created

/-- After a creation no other one uses the same id. -/
theorem id_unused_of_run {earlier later : List (Transition State (Process.Label pallas))}
    {creation again : Transition State (Process.Label pallas)} {other : Transaction}
    (run : Run (Process.Step setup) (State.initial Db.empty) (earlier ++ creation :: later) final)
    (creates : Creates tx creation) (member : again ∈ later) (createsAgain : Creates other again) :
    other.id ≠ tx.id := by
  intro same
  have broadcast : Broadcast creation.after :=
    (broadcast_of_mem run (List.mem_append_right _ List.mem_cons_self)).2
  obtain ⟨between, rest, rfl⟩ := List.append_of_mem member
  obtain ⟨_, step, afterwards⟩ := run.around
  obtain ⟨before, stepAgain, _⟩ := afterwards.around
  obtain ⟨txs, label, txMem⟩ := creates
  obtain ⟨others, labelAgain, otherMem⟩ := createsAgain
  rw [label] at step
  rw [labelAgain] at stepAgain
  obtain ⟨row, found⟩ := row_of_run before broadcast (step.created.added tx txMem)
  have unused := stepAgain.created.fresh other otherMem
  rw [same, found] at unused
  cases unused

/-- In a run a transaction is created once. -/
theorem createsOnly_of_run
    (run : Run (Process.Step setup) (State.initial Db.empty) trace final)
    (submitted : Submitted trace tx) : Guarded (CreatesOnly tx) trace := by
  obtain ⟨creation, member, created⟩ := submitted
  intro again memberAgain
  unfold CreatesOnly
  split
  · rename_i txs label
    intro other otherMem same
    have createsAgain : Creates other again := ⟨txs, label, otherMem⟩
    obtain ⟨earlier, later, rfl⟩ := List.append_of_mem member
    rcases List.mem_append.mp memberAgain with before | here
    · obtain ⟨first, between, rfl⟩ := List.append_of_mem before
      rw [List.append_assoc, List.cons_append] at run
      have behind : creation ∈ between ++ creation :: later :=
        List.mem_append_right _ List.mem_cons_self
      exact absurd same.symm (id_unused_of_run run createsAgain behind created)
    · rcases List.mem_cons.mp here with rfl | after
      · obtain ⟨_, sameLabel, txMem⟩ := created
        cases label.symm.trans sameLabel
        have step := run.step_of_mem memberAgain
        rw [label] at step
        exact List.inj_on_of_nodup_map step.created.distinct otherMem txMem same
      · exact absurd same (id_unused_of_run run created after createsAgain)
  · trivial

/-! ## The life of the store -/

theorem lineage_initial : Lineage builder mnemonic tx (State.initial Db.empty) where
  sent _ member := by cases member
  queue _ found := by cases found
  stored _ found := by cases found
  pending _ found := by cases found
  ingest := trivial

/-- Signing once adds one witness. -/
theorem Once.of_signed (witnesses : builder.Witnesses) {submitted raw : Bytes}
    (signed : signWith builder mnemonic submitted = .ok raw) :
    Once witnesses mnemonic submitted raw :=
  ⟨signed, witnesses.ofServer_signWith signed⟩

/-- What is known of the bytes says that they were signed once. -/
theorem Lineage.signedOnce (witnesses : builder.Witnesses) (broadcast : Broadcast state)
    (lineage : Lineage builder mnemonic tx state) : SignedOnce witnesses mnemonic tx state where
  sent raw sent := .of_signed witnesses (lineage.sent raw sent)
  stored row found := (lineage.stored row found).imp_right (.of_signed witnesses)
  broadcast row found status :=
    .of_signed witnesses (lineage.sent row.raw (broadcast.storesSent tx.id row found status))

/-- In every run of creations, ingest and monitor in any order, with any failures and crashes,
in which a transaction of a server-signing queue is never examined with bytes that were
broadcast before, it is broadcast and stored with one signature of the server. -/
theorem signedOnce_of_run (witnesses : builder.Witnesses)
    (run : Run (Process.Step setup) (State.initial Db.empty) trace final)
    (vault : Guarded (UsesVault builder mnemonic) trace)
    (fresh : Guarded (SignsFresh tx) trace) (submitted : Submitted trace tx)
    (signs : Ingest.ServerSigned setup.ingest tx)
    (transition : Transition State (Process.Label pallas)) (member : transition ∈ trace) :
    SignedOnce witnesses mnemonic tx transition.after := by
  have preserved : Preserved (@Process.Step pallas setup)
      (fun state label => UsesVault builder mnemonic state label ∧
        SignsFresh tx state label ∧ CreatesOnly tx state label)
      (fun state => Broadcast state ∧ Lineage builder mnemonic tx state) :=
    fun _ _ _ ⟨broadcast, lineage⟩ ⟨vault, fresh, only⟩ step =>
      ⟨step.broadcast broadcast, step.lineage broadcast signs vault fresh only lineage⟩
  have only := createsOnly_of_run run submitted
  obtain ⟨_, broadcast, lineage⟩ := run.invariant_of_mem preserved
    ⟨broadcast_initial, lineage_initial⟩
    (fun transition here => ⟨vault transition here, fresh transition here, only transition here⟩)
    member
  exact lineage.signedOnce witnesses broadcast

/-! ## A small pipeline with a server-signing queue -/

/-- One queue, which asks for the signature. -/
def signingSetup : Setup := ⟨.debug, Ingest.signingStage, ⟨1000⟩⟩

/-- The transaction of this queue without a witness, or with one of the server. -/
def signingSample (signed : Bool) : Transaction :=
  { Ingest.signingTx true with raw := if signed then [1, 7] else [1] }

/-- The store with this transaction, pending. -/
def signingDb (signed : Bool) : Db :=
  ⟨⟨[.ofTransaction (signingSample signed)], by simp⟩, [], none⟩

/-- The replies to `execute`: the vault answers, and everything is valid. -/
def signingReplies : Ingest.Replies eraPallas := Ingest.signingCalls.replies

theorem signingSample_signs (signed : Bool) :
    Ingest.ServerSigned signingSetup.ingest (signingSample signed) :=
  ⟨{ name := "signed", serverSigning := true }, rfl, rfl⟩

theorem signing_create : Step signingSetup (State.initial Db.empty)
    (.create [signingSample false] : Label eraPallas) (State.initial (signingDb false)) := by
  refine .create ?_ rfl
  intro tx member
  rw [List.mem_singleton.mp member]
  exact ⟨(true, []), [1], some "signed", 0, rfl, rfl⟩

section Cycle

variable {sent : List (String × Bytes)} {monitor : Monitor.Worker}

/-- It fits into a batch. -/
theorem signing_schedule (signed : Bool) :
    Step signingSetup ⟨signingDb signed, sent, .schedule, monitor⟩
      (.ingest (.schedule 0 (.inserted _)) : Label eraPallas)
      ⟨signingDb signed, sent, .selecting [("signed", 1)], monitor⟩ :=
  .ingest (.schedule 0 (.inserted _) (by cases signed <;> decide +kernel))

theorem signing_select (signed : Bool) :
    Step signingSetup ⟨signingDb signed, sent, .selecting [("signed", 1)], monitor⟩
      (.ingest (.select (.inserted _)) : Label eraPallas)
      ⟨signingDb signed, sent, Ingest.proceed [signingSample signed] [signingSample signed],
        monitor⟩ :=
  .ingest (.select (.inserted _) rfl)

end Cycle

theorem signingReplies_vault (state : State) :
    UsesVault sampleBuilder () state (.stage (.ingest (.examine signingReplies))) :=
  ⟨_, _, rfl, fun _ _ => rfl⟩

/-- A run after the submission is one with it. -/
theorem signing_submitted {allowed : State → Process.Label eraPallas → Prop}
    (here : allowed (State.initial Db.empty) (.stage (.create [signingSample false])))
    (reaches : Reaches (Process.Step signingSetup) allowed (State.initial (signingDb false))
      final) :
    ∃ trace, Run (Process.Step signingSetup) (State.initial Db.empty) trace final ∧
      Guarded allowed trace ∧ Submitted trace (signingSample false) := by
  obtain ⟨trace, run, guarded⟩ := reaches
  exact ⟨_, .cons (.stage signing_create) run, (guarded_cons _ _ _).mpr ⟨here, guarded⟩,
    _, List.mem_cons_self, _, rfl, List.mem_singleton_self _⟩

/-- The transaction is signed and sent, the tip cannot be fetched, and it is signed and sent
again before it is stored as in flight. -/
theorem signedOnce_of_rerun :
    ∃ (trace : List (Transition State (Process.Label eraPallas))) (final : State),
      Run (Process.Step signingSetup) (State.initial Db.empty) trace final ∧
        final.sent = [((signingSample false).id, [1, 7]), ((signingSample false).id, [1, 7])] ∧
        final.db.HasStatus (signingSample false).id .inFlight ∧
        ∀ transition ∈ trace,
          SignedOnce sampleWitnesses () (signingSample false) transition.after := by
  have fresh : ∀ state : State, (∀ unit tx rest, state.ingest = .awaiting unit tx rest .examine →
      (tx.id, tx.raw) ∉ state.sent) →
        SignsFresh (signingSample false) state
          (.stage (.ingest (.examine signingReplies)) : Process.Label eraPallas) :=
    fun _ unsent unit tx rest inHand _ => unsent unit tx rest inHand
  obtain ⟨final, reaches, sent, inFlight⟩ : ∃ final,
      Reaches (@Process.Step eraPallas signingSetup)
        (fun state label => UsesVault sampleBuilder () state label ∧
          SignsFresh (signingSample false) state label) (State.initial (signingDb false)) final ∧
      final.sent = [((signingSample false).id, [1, 7]), ((signingSample false).id, [1, 7])] ∧
        final.db.HasStatus (signingSample false).id .inFlight :=
    ⟨_, .cons (.stage (signing_schedule false)) ⟨trivial, trivial⟩ <|
      .cons (.stage (signing_select false)) ⟨trivial, trivial⟩ <|
      .cons (.stage (.ingest (.examine signingReplies rfl)))
        ⟨signingReplies_vault _, fresh _ (by rintro _ _ _ ⟨⟩; decide)⟩ <|
      .cons (.stage (.ingest .send)) ⟨trivial, trivial⟩ <|
      .cons (.stage (.ingest .fetchTipFail)) ⟨trivial, trivial⟩ <|
      .cons (.stage (.ingest .rerun)) ⟨trivial, trivial⟩ <|
      .cons (.stage (.ingest (.examine signingReplies rfl)))
        ⟨signingReplies_vault _, fresh _ (by rintro _ _ _ ⟨⟩; decide)⟩ <|
      .cons (.stage (.ingest .send)) ⟨trivial, trivial⟩ <|
      .cons (.stage (.ingest (.fetchTip sampleTip))) ⟨trivial, trivial⟩ <|
      .cons (.stage (.ingest .update)) ⟨trivial, trivial⟩ <| .refl _ _, rfl, ⟨_, rfl, rfl⟩⟩
  obtain ⟨trace, run, allowed, submitted⟩ := signing_submitted ⟨trivial, trivial⟩ reaches
  exact ⟨trace, final, run, sent, inFlight,
    signedOnce_of_run sampleWitnesses run (allowed.mono fun _ _ here => here.1)
      (allowed.mono fun _ _ here => here.2) submitted (signingSample_signs false)⟩

/-- The transaction is not found on chain and put back to pending by the monitor. It is signed
again, and what is broadcast has two witnesses of the server. -/
theorem not_signedOnce_of_retry :
    ∃ (trace : List (Transition State (Process.Label eraPallas)))
      (transition : Transition State (Process.Label eraPallas)),
      Run (Process.Step signingSetup) (State.initial Db.empty) (trace ++ [transition])
          transition.after ∧
        Guarded (UsesVault sampleBuilder ()) (trace ++ [transition]) ∧
        Submitted (trace ++ [transition]) (signingSample false) ∧
        Ingest.ServerSigned signingSetup.ingest (signingSample false) ∧
        transition.after.sent =
          [((signingSample false).id, [1, 7]), ((signingSample false).id, [1, 7, 7])] ∧
        ¬ SignedOnce sampleWitnesses () (signingSample false) transition.after := by
  obtain ⟨before, after, reaches, step, sent⟩ : ∃ before after,
      Reaches (@Process.Step eraPallas signingSetup) (UsesVault sampleBuilder ())
        (State.initial (signingDb false)) before ∧
      Process.Step signingSetup before (.stage (.ingest (.send true)) : Process.Label eraPallas)
        after ∧
      after.sent =
        [((signingSample false).id, [1, 7]), ((signingSample false).id, [1, 7, 7])] :=
    ⟨_, _, .cons (.stage (signing_schedule false)) trivial <|
      .cons (.stage (signing_select false)) trivial <|
      .cons (.stage (.ingest (.examine signingReplies rfl))) (signingReplies_vault _) <|
      .cons (.stage (.ingest .send)) trivial <|
      .cons (.stage (.ingest (.fetchTip sampleTip))) trivial <|
      .cons (.stage (.ingest .update)) trivial <|
      .cons (.stage (.monitor (.receive (sampleBlock 1200 2)))) trivial <|
      .cons (.stage (.monitor (.resume rfl))) trivial <|
      .cons (.stage (.monitor (.resume rfl))) trivial <|
      .cons (.stage (signing_schedule true)) trivial <|
      .cons (.stage (signing_select true)) trivial <|
      .cons (.stage (.ingest (.examine signingReplies rfl))) (signingReplies_vault _) <|
      .refl _ _, .stage (.ingest .send), rfl⟩
  obtain ⟨trace, run, vault, creation, member, creates⟩ := signing_submitted trivial reaches
  refine ⟨trace, ⟨before, _, after⟩, run.snoc step, ?_,
    ⟨creation, List.mem_append_left _ member, creates⟩, signingSample_signs false, sent,
    fun once => ?_⟩
  · rw [guarded_append, guarded_cons]
    exact ⟨vault, trivial, guarded_nil _⟩
  · have twice : ((signingSample false).id, [1, 7, 7]) ∈ after.sent := by simp [sent]
    exact absurd (once.sent [1, 7, 7] twice).witness (by decide)

end Boros.Pipeline
