import Boros.Ledger.Adapter
import Boros.Pipeline.Execute
import Boros.Pipeline.System
import Boros.Server.Sequential
import Boros.Signing.Vault
import Mathlib.Logic.Relation

/-!
# What is accepted and what can be ingested

`submit_tx` accepts a transaction of a server-signing queue if it decodes, whatever its era is.
`execute` signs it, and only a Conway transaction can be signed. `processed_iff_conway` says
that this is all that keeps accepted transactions from being ingested when every call succeeds.
-/

namespace Boros.Pipeline.Ingest

open Boros.Data Boros.Semantics Boros.Storage Boros.Ledger Boros.Queue Boros.Signing Boros.Server

variable {pallas : Pallas} (builder : TxBuilder pallas)
  (conway : ConwayProtParams → pallas.ProtocolParameters)

/-- A record which `submit_tx` made of a transaction it did not leave out. -/
def AcceptedBy (queues : Configs) (tx : Transaction) : Prop :=
  ∃ (validation evaluation : U5cServer) (now index : Nat) (item : TxRequest) (hash : Hash32),
    (Submit.judge queues
      ⟨u5cDataAdapterImpl conway validation, u5cDataAdapterImpl conway evaluation⟩
      now index item).accepted = some (tx, hash)

/-- Bytes which earlier executions may have stored in place of these. -/
def SignedSince : Bytes → Bytes → Prop :=
  Relation.ReflTransGen fun before after =>
    ∃ read config, signer builder read config before = .ok after

/-- An accepted transaction, which earlier executions may have signed. -/
def Admitted (queues : Configs) (tx : Transaction) : Prop :=
  ∃ accepted, AcceptedBy conway queues accepted ∧ tx.queue = accepted.queue ∧
    SignedSince builder accepted.raw tx.raw

/-- The transaction is in a queue whose transactions the server signs. -/
def ServerSigned (stage : Stage) (tx : Transaction) : Prop :=
  ∃ config, stage.queues.get tx.queue = some config ∧ config.serverSigning = true

/-- The calls made for a transaction succeed: to the vault, to the U5C server and to the store. -/
structure Succeeds (stage : Stage) (tx : Transaction) (calls : Calls pallas) : Prop where
  sign : ServerSigned stage tx → ∃ read config mnemonic,
    getMnemonic builder read config = .ok mnemonic ∧ calls.replies.sign = signer builder read config
  validation : ∃ server : U5cServer, server.Serves ∧
    calls.replies.validation = u5cDataAdapterImpl conway server
  evaluation : ∃ server : U5cServer, server.Serves ∧
    calls.replies.evaluation = u5cDataAdapterImpl conway server
  tip : calls.tip.isSome
  stored : calls.stored = true

/-- The unit is executed to its end, and each of its transactions is failed or in flight, or
still pending because it could not be delivered. -/
structure Processed (stage : Stage) (entries : List (Transaction × Calls pallas))
    (output : Output) : Prop where
  finishes : (execute stage entries output).2 = .ok ()
  each : ∀ entry ∈ entries,
    (execute stage entries output).1.db.HasStatus entry.1.id .failed ∨
    (execute stage entries output).1.db.HasStatus entry.1.id .inFlight ∨
    entry.2.delivered = false ∧
      (execute stage entries output).1.db.HasStatus entry.1.id .pending

variable {builder conway} {queues : Configs} {stage : Stage} {tx : Transaction}
  {calls : Calls pallas} {metx : pallas.MultiEraTx}

/-- The records of a call of `submit_tx`, once it is about to store them, are accepted. -/
theorem acceptedBy_of_creating {locks : Chaining.Locks} {now : Nat} {message : List TxRequest}
    (validation evaluation : Nat → U5cServer)
    (creating : ((Submit.Request.new message).handle queues locks (fun index =>
      ⟨u5cDataAdapterImpl conway (validation index), u5cDataAdapterImpl conway (evaluation index)⟩)
        now 0 message).phase = .creating) :
    ∀ tx ∈ ((Submit.Request.new message).handle queues locks (fun index =>
      ⟨u5cDataAdapterImpl conway (validation index), u5cDataAdapterImpl conway (evaluation index)⟩)
        now 0 message).txs, AcceptedBy conway queues tx := by
  intro tx member
  rw [(Submit.Request.handle_creating creating).1, Submit.Request.new, List.nil_append] at member
  obtain ⟨verdict, judged, accepted⟩ := List.mem_filterMap.mp member
  obtain ⟨index, item, rfl⟩ := Submit.exists_judge_of_mem judged
  obtain ⟨⟨_, hash⟩, kept, rfl⟩ := Option.map_eq_some_iff.mp accepted
  exact ⟨validation index, evaluation index, now, index, item, hash, kept⟩

/-- Bytes which were signed are those of a Conway transaction. -/
theorem conway_of_signedSince {before after : Bytes} (lawful : builder.Lawful)
    (signed : SignedSince builder before after) :
    after = before ∨ ∃ metx, pallas.decode after = some metx ∧ pallas.era metx = .conway := by
  cases signed with
  | refl => exact .inl rfl
  | tail _ last =>
      obtain ⟨read, config, success⟩ := last
      exact .inr (conway_of_signer lawful success)

/-- An accepted transaction decodes, and was validated if its queue asks for no signature. -/
theorem AcceptedBy.decodes (accepted : AcceptedBy conway queues tx) :
    ∃ metx, pallas.decode tx.raw = some metx ∧
      ∀ config, queues.get tx.queue = some config → config.serverSigning = false →
        pallas.era metx = .conway := by
  obtain ⟨validation, evaluation, now, index, item, hash, accepted⟩ := accepted
  obtain ⟨metx, decoded, validated, _, rfl⟩ := Submit.accepted_judge accepted
  have sameRaw : (Submit.txStorage hash item.raw item.queue now).raw = item.raw := by
    cases item.queue <;> rfl
  refine ⟨metx, by rw [sameRaw]; exact decoded, ?_⟩
  intro config configured unsigned
  refine era_of_isValid (validated ?_)
  cases queue : item.queue with
  | none => rfl
  | some name =>
      rw [queue] at configured
      have named : queues.get name = some config := configured
      simp [Submit.shouldValidate, named, unsigned]

theorem Admitted.decodes (lawful : builder.Lawful) (admitted : Admitted builder conway queues tx) :
    ∃ metx, pallas.decode tx.raw = some metx ∧
      ∀ config, queues.get tx.queue = some config → config.serverSigning = false →
        pallas.era metx = .conway := by
  obtain ⟨accepted, acceptedBy, queue, signed⟩ := admitted
  rcases conway_of_signedSince lawful signed with same | ⟨metx, decoded, era⟩
  · rw [same, queue]
    exact acceptedBy.decodes
  · exact ⟨metx, decoded, fun _ _ _ => era⟩

/-- A Conway transaction of a configured queue is examined to the end. -/
theorem examine_isOk {config : Queue.Config} {networkId : UInt8} (lawful : builder.Lawful)
    (network : pallas.networkId networkMagic.toUInt64 = some networkId)
    (succeeds : Succeeds builder conway stage tx calls)
    (configured : stage.queues.get tx.queue = some config)
    (adapter : config.serverSigning = true → stage.signingAdapter = true)
    (decoded : pallas.decode tx.raw = some metx) (era : pallas.era metx = .conway) :
    ∃ result valid, examine stage calls.replies tx = .ok (result, valid) := by
  obtain ⟨server, served, validation⟩ := succeeds.validation
  obtain ⟨server', served', evaluation⟩ := succeeds.evaluation
  have signature : ∃ clone signedTx, signed stage calls.replies tx = .ok clone ∧
      pallas.decode clone.raw = some signedTx ∧ pallas.era signedTx = .conway := by
    by_cases signs : config.serverSigning = true
    · obtain ⟨read, vault, mnemonic, found, signing⟩ := succeeds.sign ⟨config, configured, signs⟩
      obtain ⟨raw, signedTx, success, redecoded, again⟩ := signer_of_conway lawful found decoded era
      refine ⟨{ tx with raw := raw }, signedTx, ?_, redecoded, again⟩
      simp only [signed, configured, if_pos signs, if_pos (adapter signs), signing, success]
    · exact ⟨tx, metx, by simp only [signed, configured, if_neg signs], decoded, era⟩
  obtain ⟨clone, signedTx, signature, redecoded, again⟩ := signature
  obtain ⟨valid, verdict⟩ : ∃ valid, isValid (u5cDataAdapterImpl conway server)
      (u5cDataAdapterImpl conway server') signedTx = .ok valid :=
    isValid_isOk network again served served'
  rw [← validation, ← evaluation] at verdict
  exact ⟨_, valid, examine_ok_iff.mpr ⟨clone, signedTx, signature, redecoded, verdict, rfl⟩⟩

/-- A transaction of any other era makes the execution panic if it is to be signed. -/
theorem examine_of_other {config : Queue.Config} (lawful : builder.Lawful)
    (succeeds : Succeeds builder conway stage tx calls)
    (configured : stage.queues.get tx.queue = some config)
    (signs : config.serverSigning = true) (adapter : stage.signingAdapter = true)
    (decoded : pallas.decode tx.raw = some metx) (era : pallas.era metx ≠ .conway) :
    examine stage calls.replies tx = .error (.panic .explicit) := by
  obtain ⟨read, vault, mnemonic, found, signing⟩ := succeeds.sign ⟨config, configured, signs⟩
  have refused := signer_of_other lawful found decoded era
  have signature : signed stage calls.replies tx = .error (.panic .explicit) := by
    simp only [signed, configured, if_pos signs, if_pos adapter, signing, refused]
  simp only [examine, signature]
  rfl

/-- What becomes of a pending transaction which is examined to the end. -/
theorem executeOne_of_examined {output : Output} {result : Transaction} {valid : Bool}
    (succeeds : Succeeds builder conway stage tx calls)
    (pending : output.db.HasStatus tx.id .pending)
    (examined : examine stage calls.replies tx = .ok (result, valid)) :
    (executeOne stage calls tx output).2 = .ok () ∧
      ((executeOne stage calls tx output).1.db.HasStatus tx.id .failed ∨
        (executeOne stage calls tx output).1.db.HasStatus tx.id .inFlight ∨
        calls.delivered = false ∧
          (executeOne stage calls tx output).1.db.HasStatus tx.id .pending) := by
  rw [← id_of_examine examined] at pending ⊢
  cases valid with
  | false =>
      have status : result.status = .failed := by
        obtain ⟨raw, rfl⟩ := examine_ok examined
        rfl
      have executed : executeOne stage calls tx output = output.update true result := by
        simp only [executeOne, examined, succeeds.stored]
      rw [executed, ← status]
      exact ⟨rfl, .inl (Output.hasStatus_update_self pending)⟩
  | true =>
      obtain ⟨tip, fetchedTip⟩ := Option.isSome_iff_exists.mp succeeds.tip
      by_cases delivered : calls.delivered = true
      · let inFlight : Transaction := { result with status := .inFlight, slot := some tip.1 }
        have executed : executeOne stage calls tx output =
            (output.send result).update true inFlight := by
          simp only [executeOne, examined, if_pos delivered, fetchedTip, succeeds.stored, inFlight]
        have held : (output.send result).db.HasStatus inFlight.id .pending := pending
        rw [executed]
        exact ⟨rfl, .inr (.inl (Output.hasStatus_update_self held))⟩
      · have executed : executeOne stage calls tx output = (output, .ok ()) := by
          simp only [executeOne, examined, if_neg delivered]
        rw [executed]
        exact ⟨rfl, .inr (.inr ⟨by simpa using delivered, pending⟩)⟩

/-- What is assumed of a unit: its transactions were accepted under the configuration and are
pending, every call made for them succeeds, and the configuration lacks nothing that is
needed for them. -/
structure Ready (builder : TxBuilder pallas) (conway : ConwayProtParams → pallas.ProtocolParameters)
    (stage : Stage) (entries : List (Transaction × Calls pallas)) (output : Output) : Prop where
  distinct : (entries.map fun entry => entry.1.id).Nodup
  pending : ∀ entry ∈ entries, output.db.HasStatus entry.1.id .pending
  admitted : ∀ entry ∈ entries, Admitted builder conway stage.queues entry.1
  succeeds : ∀ entry ∈ entries, Succeeds builder conway stage entry.1 entry.2
  configured : ∀ entry ∈ entries, ∃ config, stage.queues.get entry.1.queue = some config
  adapter : (∃ name config, stage.queues.get name = some config ∧ config.serverSigning = true) →
    stage.signingAdapter = true

variable {entries rest : List (Transaction × Calls pallas)} {output : Output}

/-- The rest of the unit is ready after the first iteration. -/
theorem Ready.tail (ready : Ready builder conway stage ((tx, calls) :: rest) output) :
    Ready builder conway stage rest (executeOne stage calls tx output).1 := by
  have distinct := ready.distinct
  rw [List.map_cons, List.nodup_cons] at distinct
  refine ⟨distinct.2, ?_, ?_, ?_, ?_, ready.adapter⟩
  · intro entry member
    have apart : entry.1.id ≠ tx.id := by
      intro same
      exact distinct.1 (same ▸ List.mem_map_of_mem (f := fun entry => entry.1.id) member)
    exact (hasStatus_executeOne apart).mpr (ready.pending entry (List.mem_cons_of_mem _ member))
  · exact fun entry member => ready.admitted entry (List.mem_cons_of_mem _ member)
  · exact fun entry member => ready.succeeds entry (List.mem_cons_of_mem _ member)
  · exact fun entry member => ready.configured entry (List.mem_cons_of_mem _ member)

/-- The transaction can be signed if it is to be: it is a Conway transaction. -/
def Signable (pallas : Pallas) (stage : Stage) (tx : Transaction) : Prop :=
  ServerSigned stage tx → ∀ metx, pallas.decode tx.raw = some metx → pallas.era metx = .conway

/-- The first iteration over a ready unit ends well if its transaction can be signed. -/
theorem executeOne_of_signable {networkId : UInt8} (lawful : builder.Lawful)
    (network : pallas.networkId networkMagic.toUInt64 = some networkId)
    (ready : Ready builder conway stage ((tx, calls) :: rest) output)
    (signable : Signable pallas stage tx) :
    (executeOne stage calls tx output).2 = .ok () ∧
      ((executeOne stage calls tx output).1.db.HasStatus tx.id .failed ∨
        (executeOne stage calls tx output).1.db.HasStatus tx.id .inFlight ∨
        calls.delivered = false ∧
          (executeOne stage calls tx output).1.db.HasStatus tx.id .pending) := by
  have succeeds : Succeeds builder conway stage tx calls := ready.succeeds _ List.mem_cons_self
  obtain ⟨config, configured⟩ := ready.configured _ List.mem_cons_self
  obtain ⟨metx, decoded, validated⟩ := (ready.admitted _ List.mem_cons_self).decodes lawful
  have era : pallas.era metx = .conway := by
    by_cases signs : config.serverSigning = true
    · exact signable ⟨config, configured, signs⟩ metx decoded
    · exact validated config configured (by simpa using signs)
  obtain ⟨result, valid, examined⟩ := examine_isOk lawful network succeeds configured
    (fun signs => ready.adapter ⟨_, config, configured, signs⟩) decoded era
  exact executeOne_of_examined succeeds (ready.pending _ List.mem_cons_self) examined

/-- It panics otherwise. -/
theorem executeOne_of_not_signable (lawful : builder.Lawful)
    (ready : Ready builder conway stage ((tx, calls) :: rest) output)
    (unsignable : ¬ Signable pallas stage tx) :
    executeOne stage calls tx output = (output, .error (.panic .explicit)) := by
  simp only [Signable, not_forall] at unsignable
  obtain ⟨⟨config, configured, signs⟩, metx, decoded, era⟩ := unsignable
  have adapter := ready.adapter ⟨_, config, configured, signs⟩
  have examined := examine_of_other lawful (ready.succeeds _ List.mem_cons_self) configured signs
    adapter decoded era
  simp only [executeOne, examined]

/-- A unit whose transactions can all be signed is executed to its end. -/
theorem processed_of_signable {networkId : UInt8} (lawful : builder.Lawful)
    (network : pallas.networkId networkMagic.toUInt64 = some networkId)
    (ready : Ready builder conway stage entries output)
    (signable : ∀ entry ∈ entries, Signable pallas stage entry.1) :
    Processed stage entries output := by
  induction entries generalizing output with
  | nil => exact ⟨rfl, by simp⟩
  | cons entry rest ih =>
      obtain ⟨tx, calls⟩ := entry
      rw [List.forall_mem_cons] at signable
      obtain ⟨finished, status⟩ := executeOne_of_signable lawful network ready signable.1
      have later := ih ready.tail signable.2
      have apart : tx.id ∉ rest.map fun entry => entry.1.id := by
        have distinct := ready.distinct
        rw [List.map_cons, List.nodup_cons] at distinct
        exact distinct.1
      have step : execute stage ((tx, calls) :: rest) output =
          execute stage rest (executeOne stage calls tx output).1 := by
        simp only [execute]
        split
        · rename_i after iteration
          rw [iteration]
        · rename_i after abort iteration
          rw [iteration] at finished
          cases finished
      refine ⟨by rw [step]; exact later.finishes, ?_⟩
      rw [List.forall_mem_cons, step]
      refine ⟨?_, later.each⟩
      rw [hasStatus_execute apart, hasStatus_execute apart, hasStatus_execute apart]
      exact status

/-- A unit is executed to its end only if its transactions can all be signed. -/
theorem signable_of_processed (lawful : builder.Lawful)
    (ready : Ready builder conway stage entries output)
    (finishes : (execute stage entries output).2 = .ok ()) :
    ∀ entry ∈ entries, Signable pallas stage entry.1 := by
  induction entries generalizing output with
  | nil => simp
  | cons entry rest ih =>
      obtain ⟨tx, calls⟩ := entry
      rw [List.forall_mem_cons]
      simp only [execute] at finishes
      split at finishes
      · rename_i after iteration
        have here : Signable pallas stage tx := by
          by_contra unsignable
          rw [executeOne_of_not_signable lawful ready unsignable] at iteration
          cases iteration
        have tail := ready.tail
        rw [iteration] at tail
        exact ⟨here, ih tail finishes⟩
      · cases finishes

/-- When every call succeeds and nothing lacks in the configuration, a unit of accepted
transactions is ingested to its end exactly if all of its transactions which the server is to
sign are Conway transactions. -/
theorem processed_iff_conway {networkId : UInt8} (lawful : builder.Lawful)
    (network : pallas.networkId networkMagic.toUInt64 = some networkId)
    (ready : Ready builder conway stage entries output) :
    Processed stage entries output ↔ ∀ entry ∈ entries, ServerSigned stage entry.1 →
      ∀ metx, pallas.decode entry.1.raw = some metx → pallas.era metx = .conway :=
  ⟨fun processed => signable_of_processed lawful ready processed.finishes,
    processed_of_signable lawful network ready⟩

/-! ## One server-signing queue -/

/-- A stage with a queue whose transactions the server signs. -/
def signingStage : Stage := ⟨⟨[{ name := "signed", serverSigning := true }], by decide⟩, true⟩

/-- The record of a transaction of that queue, of the era Conway or Alonzo. -/
def signingTx (conway : Bool) : Transaction :=
  Submit.txStorage (eraPallas.hash (conway, [])) [if conway then 1 else 0] (some "signed") 0

/-- Calls which all succeed. -/
def signingCalls : Calls eraPallas where
  replies :=
    ⟨signer sampleBuilder sampleVault ⟨"boros", "mnemonic"⟩,
      u5cDataAdapterImpl (fun _ => ()) sampleServer, u5cDataAdapterImpl (fun _ => ()) sampleServer⟩
  delivered := true
  tip := some (100, List.replicate 32 0)
  stored := true

theorem signingUnit_ready (conway : Bool) :
    Ready sampleBuilder (fun _ => ()) signingStage [(signingTx conway, signingCalls)]
      ⟨pendingDb (signingTx conway), []⟩ where
  distinct := by simp
  pending := by
    rw [List.forall_mem_singleton]
    exact pendingDb_hasStatus _
  admitted := by
    rw [List.forall_mem_singleton]
    refine ⟨signingTx conway, ?_, rfl, .refl⟩
    refine ⟨sampleServer, sampleServer, 0, 0, ⟨[if conway then 1 else 0], some "signed", none⟩,
      eraPallas.hash (conway, []), ?_⟩
    cases conway <;> rfl
  succeeds := by
    rw [List.forall_mem_singleton]
    exact ⟨fun _ => ⟨_, _, (), rfl, rfl⟩, ⟨_, sampleServer_serves, rfl⟩,
      ⟨_, sampleServer_serves, rfl⟩, rfl, rfl⟩
  configured := by
    rw [List.forall_mem_singleton]
    exact ⟨_, rfl⟩
  adapter _ := rfl

theorem processed_iff_conway_signed :
    Processed signingStage [(signingTx true, signingCalls)] ⟨pendingDb (signingTx true), []⟩ ↔
      ∀ entry ∈ [(signingTx true, signingCalls)], ServerSigned signingStage entry.1 →
        ∀ metx, eraPallas.decode entry.1.raw = some metx → eraPallas.era metx = .conway :=
  processed_iff_conway sampleBuilder_lawful (show eraPallas.networkId networkMagic.toUInt64 =
    some 0 from rfl) (signingUnit_ready true)

/-- An accepted Alonzo transaction makes the execution panic. -/
theorem not_processed_of_alonzo :
    Ready sampleBuilder (fun _ => ()) signingStage [(signingTx false, signingCalls)]
        ⟨pendingDb (signingTx false), []⟩ ∧
      execute signingStage [(signingTx false, signingCalls)] ⟨pendingDb (signingTx false), []⟩ =
        (⟨pendingDb (signingTx false), []⟩, .error (.panic .explicit)) ∧
      ¬ Processed signingStage [(signingTx false, signingCalls)]
        ⟨pendingDb (signingTx false), []⟩ := by
  have panics : execute signingStage [(signingTx false, signingCalls)]
      ⟨pendingDb (signingTx false), []⟩ =
        (⟨pendingDb (signingTx false), []⟩, .error (.panic .explicit)) := rfl
  refine ⟨signingUnit_ready false, panics, fun processed => ?_⟩
  have finishes := processed.finishes
  rw [panics] at finishes
  cases finishes

end Boros.Pipeline.Ingest
