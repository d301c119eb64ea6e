import Boros.Pipeline.OracleFailures

/-!
# Transactions which spend pending outputs

In a chained queue a client builds its transaction on the one which the lock grant returned,
before that one is on the ledger. `validate_tx` looks for the inputs of a transaction on the
ledger only. `kept_iff_onLedger` says that a transaction which is valid after its pending
predecessors is kept exactly if it needs none of them.
-/

namespace Boros.Ledger

open Boros.Data Boros.Semantics Boros.Storage

variable {pallas : Pallas}

/-- The unspent outputs on the ledger, with their bytes. -/
abbrev UtxoSet := TxoRef → Option Bytes

/-- Every input of the transaction is an unspent output on the ledger. -/
def OnLedger (ledger : UtxoSet) (tx : pallas.MultiEraTx) : Prop :=
  ∀ ref ∈ inputRefs tx, (ledger ref).isSome

/-- `fetch_utxos` returns only unspent outputs on the ledger. -/
def AnswersFrom (ledger : UtxoSet) (adapter : U5cDataAdapter pallas) : Prop :=
  ∀ refs era utxos, adapter.fetchUtxos refs era = .ok utxos →
    ∀ utxo ∈ utxos, ledger utxo.1 = some utxo.2.cbor

/-- Phase 1 rejects a transaction with an input which is missing from the supplied outputs. -/
def RejectsMissing (pallas : Pallas) : Prop :=
  ∀ (tx : pallas.MultiEraTx) env (outputs : List (TxoRef × pallas.MultiEraOutput)),
    ∀ ref ∈ inputRefs tx, ref ∉ outputs.map Prod.fst →
      ∃ cause, pallas.phase1 tx env outputs = .error cause

/-- An output of a transaction which is stored in the queue as pending or in flight, where
`produces` gives the outputs of a transaction. -/
inductive PendingOutput (produces : pallas.MultiEraTx → List EraCbor) (db : Db) (queue : String) :
    TxoRef × EraCbor → Prop where
  | stored {id row tx index output} (found : db.row id = some row) (enqueued : row.queue = queue)
      (status : row.status = .pending ∨ row.status = .inFlight)
      (decoded : pallas.decode row.raw = some tx)
      (produced : (produces tx)[index]? = some output) :
      PendingOutput produces db queue ((pallas.hash tx, UInt32.ofNat index), output)

/-- These are the inputs of the transaction which are missing from the ledger, and all of them
are pending outputs. -/
structure Missing (produces : pallas.MultiEraTx → List EraCbor) (db : Db) (queue : String)
    (ledger : UtxoSet) (tx : pallas.MultiEraTx) (missing : List (TxoRef × EraCbor)) : Prop where
  inputs : ∀ utxo ∈ missing, utxo.1 ∈ inputRefs tx ∧ ledger utxo.1 = none ∧
    PendingOutput produces db queue utxo
  covers : ∀ ref ∈ inputRefs tx, ledger ref = none → ref ∈ missing.map Prod.fst

/-- Both phases accept the transaction on the fetched outputs together with these. -/
structure ValidWith (validation evaluation : U5cDataAdapter pallas) (tx : pallas.MultiEraTx)
    (missing : List (TxoRef × EraCbor)) : Prop where
  phase1 : ∃ env utxos outputs, HasEnvironment validation tx env ∧
    validation.fetchUtxos (inputRefs tx) (pallas.era tx) = .ok utxos ∧
    (utxos ++ missing).mapM (decodeUtxo pallas) = .ok outputs ∧
    pallas.phase1 tx env outputs = .ok ()
  phase2 : ∃ pparams utxos report, evaluation.fetchPparams (pallas.era tx) = .ok pparams ∧
    evaluation.fetchUtxos (inputRefs tx) (pallas.era tx) = .ok utxos ∧
    pallas.phase2 tx pparams (utxos ++ missing) = .ok report

/-- The transaction is valid, and what it lacks on the ledger are pending outputs. -/
def ValidAfter (produces : pallas.MultiEraTx → List EraCbor) (db : Db) (queue : String)
    (ledger : UtxoSet) (validation evaluation : U5cDataAdapter pallas) (tx : pallas.MultiEraTx) :
    Prop :=
  ∃ missing, Missing produces db queue ledger tx missing ∧
    ValidWith validation evaluation tx missing

variable {produces : pallas.MultiEraTx → List EraCbor} {db : Db} {queue : String}
  {ledger : UtxoSet} {validation evaluation : U5cDataAdapter pallas} {tx : pallas.MultiEraTx}
  {missing : List (TxoRef × EraCbor)}

/-- Decoding keeps the references. -/
theorem map_fst_of_decoded {utxos : List (TxoRef × EraCbor)}
    {outputs : List (TxoRef × pallas.MultiEraOutput)}
    (decoded : utxos.mapM (decodeUtxo pallas) = .ok outputs) :
    outputs.map Prod.fst = utxos.map Prod.fst := by
  refine Table.mapM_map_eq decoded Prod.fst Prod.fst ?_
  intro utxo output success
  simp only [decodeUtxo, except_bind_ok_iff, rejected_ok_iff] at success
  obtain ⟨value, _, same⟩ := success
  cases same
  rfl

/-- A transaction which lacks nothing on the ledger is found to be valid. -/
theorem isValid_of_onLedger (after : ValidAfter produces db queue ledger validation evaluation tx)
    (present : OnLedger ledger tx) : isValid validation evaluation tx = .ok true := by
  obtain ⟨missing, pendings, valid⟩ := after
  have nothing : missing = [] := by
    rw [List.eq_nil_iff_forall_not_mem]
    intro utxo member
    obtain ⟨input, absent, _⟩ := pendings.inputs utxo member
    have found := present _ input
    rw [absent] at found
    cases found
  subst nothing
  obtain ⟨env, utxos, outputs, hasEnv, fetchedUtxos, decoded, accepts⟩ := valid.phase1
  obtain ⟨pparams, utxos', report, parameters, fetchedUtxos', evaluates⟩ := valid.phase2
  rw [List.append_nil] at decoded evaluates
  exact isValid_true_iff.mpr ⟨⟨env, outputs, hasEnv, ⟨utxos, fetchedUtxos, decoded⟩, accepts⟩,
    report, pparams, utxos', parameters, fetchedUtxos', evaluates⟩

/-- A transaction which lacks anything there is found to be invalid. -/
theorem isValid_of_not_onLedger (rejects : RejectsMissing pallas)
    (answers : AnswersFrom ledger validation)
    (after : ValidAfter produces db queue ledger validation evaluation tx)
    (absent : ¬ OnLedger ledger tx) : isValid validation evaluation tx = .ok false := by
  obtain ⟨missing, _, valid⟩ := after
  obtain ⟨env, utxos, outputs, hasEnv, fetchedUtxos, decoded, _⟩ := valid.phase1
  simp only [OnLedger, not_forall] at absent
  obtain ⟨ref, input, unknown⟩ := absent
  rw [List.mapM_append, except_bind_ok_iff] at decoded
  obtain ⟨fetchedOutputs, decodedFetched, _⟩ := decoded
  have notFetched : ref ∉ fetchedOutputs.map Prod.fst := by
    rw [map_fst_of_decoded decodedFetched]
    intro member
    obtain ⟨utxo, fetched, rfl⟩ := List.mem_map.mp member
    rw [answers _ _ _ fetchedUtxos utxo fetched] at unknown
    exact unknown rfl
  obtain ⟨cause, rejected⟩ := rejects tx env fetchedOutputs ref input notFetched
  exact isValid_false_iff.mpr (.inl (.phase1
    ⟨env, fetchedOutputs, hasEnv, ⟨utxos, fetchedUtxos, decodedFetched⟩, rejected⟩))

end Boros.Ledger

namespace Boros.Server.Submit

open Boros.Data Boros.Semantics Boros.Storage Boros.Ledger Boros.Queue Boros.Queue.Chaining

variable {pallas : Pallas}

/-- Wherever the transaction stands in a message that is answered with hashes, its hash is
among them. -/
def Kept (queues : Configs) (answers : Answers pallas) (db : Db) (locks : Locks) (now : Nat)
    (item : TxRequest) (metx : pallas.MultiEraTx) : Prop :=
  ∀ (first second : List TxRequest) (all : Nat → Answers pallas) (hashes : List Hash32),
    all first.length = answers →
    (submitTx queues all now db locks (first ++ item :: second)).1 = .answered (.ok hashes) →
      pallas.hash metx ∈ hashes

variable {queues : Configs} {answers : Answers pallas} {db : Db} {locks : Locks} {now : Nat}
  {item : TxRequest} {metx : pallas.MultiEraTx}

/-- A transaction is kept exactly if it is not found to be invalid. -/
theorem kept_iff (decoded : pallas.decode item.raw = some metx)
    (validated : shouldValidate queues item.queue = true) :
    Kept queues answers db locks now item metx ↔
      isValid answers.validation answers.evaluation metx ≠ .ok false := by
  constructor
  · intro kept invalid
    have dropped : judge queues answers now 0 item = .drop :=
      (judge_eq_drop_iff decoded).mpr ⟨validated, invalid⟩
    exact List.not_mem_nil (kept [] [] (fun _ => answers) [] rfl (submitTx_of_drop db dropped))
  · intro valid first second all hashes same answered
    subst same
    rcases hash_mem_of_submitTx_ok answered decoded with dropped | member
    · exact absurd ((judge_eq_drop_iff decoded).mp dropped).2 valid
    · exact member

end Boros.Server.Submit

namespace Boros.Pipeline.Ingest

open Boros.Data Boros.Semantics Boros.Storage Boros.Ledger Boros.Queue Boros.Server

variable {pallas : Pallas}

/-- Whatever the other calls come to, the transaction is not marked as failed. -/
def Kept (stage : Stage) (replies : Replies pallas) (db : Db) (tx : Transaction) : Prop :=
  ∀ (calls : Calls pallas) (sent : List (String × Bytes)), calls.replies = replies →
    ¬ (executeOne stage calls tx ⟨db, sent⟩).1.db.HasStatus tx.id .failed

variable {stage : Stage} {replies : Replies pallas} {db : Db} {tx : Transaction}
  {metx : pallas.MultiEraTx} {config : Config}

/-- A pending transaction is kept exactly if it is not found to be invalid. -/
theorem kept_iff (pending : db.HasStatus tx.id .pending)
    (configured : stage.queues.get tx.queue = some config) (unsigned : config.serverSigning = false)
    (decoded : pallas.decode tx.raw = some metx) :
    Kept stage replies db tx ↔ isValid replies.validation replies.evaluation metx ≠ .ok false := by
  have signature : signed stage replies tx = .ok tx := by
    simp [signed, configured, unsigned]
  constructor
  · intro kept invalid
    exact kept ⟨replies, false, none, true⟩ [] rfl
      (hasStatus_failed_of_invalid pending rfl signature decoded invalid)
  · intro valid calls sent same failed
    subst same
    obtain ⟨other, asked, invalid⟩ := invalid_of_failed pending failed
    rw [← Asked.unique ⟨tx, signature, decoded⟩ asked] at invalid
    exact valid invalid

/-- In a queue whose transactions the server does not sign, a transaction which is valid after
its pending predecessors is left out by `submit_tx`, and marked as failed by `execute`, exactly
if one of its inputs is not on the ledger. -/
theorem kept_iff_onLedger {queues : Configs} {queue : String}
    (produces : pallas.MultiEraTx → List EraCbor) (rejects : RejectsMissing pallas)
    (configured : queues.get queue = some config) (unsigned : config.serverSigning = false) :
    (∀ (db : Db) (locks : Chaining.Locks) (now : Nat) (answers : Submit.Answers pallas)
      (raw : Bytes) (token : Option String) (metx : pallas.MultiEraTx) (ledger : UtxoSet),
      pallas.decode raw = some metx → AnswersFrom ledger answers.validation →
      ValidAfter produces db queue ledger answers.validation answers.evaluation metx →
        (Submit.Kept queues answers db locks now ⟨raw, some queue, token⟩ metx ↔
          OnLedger ledger metx)) ∧
    ∀ (adapter : Bool) (db : Db) (replies : Replies pallas) (tx : Transaction)
      (metx : pallas.MultiEraTx) (ledger : UtxoSet),
      tx.queue = queue → pallas.decode tx.raw = some metx → db.HasStatus tx.id .pending →
      AnswersFrom ledger replies.validation →
      ValidAfter produces db queue ledger replies.validation replies.evaluation metx →
        (Kept ⟨queues, adapter⟩ replies db tx ↔ OnLedger ledger metx) := by
  constructor
  · intro db locks now answers raw token metx ledger decoded fromLedger after
    have validated : Submit.shouldValidate queues (some queue) = true := by
      simp [Submit.shouldValidate, configured, unsigned]
    rw [Submit.kept_iff decoded validated]
    by_cases present : OnLedger ledger metx
    · simp [present, isValid_of_onLedger after present]
    · simp [present, isValid_of_not_onLedger rejects fromLedger after present]
  · intro adapter db replies tx metx ledger enqueued decoded pending fromLedger after
    subst enqueued
    have kept : Kept ⟨queues, adapter⟩ replies db tx ↔ _ :=
      kept_iff pending configured unsigned decoded
    rw [kept]
    by_cases present : OnLedger ledger metx
    · simp [present, isValid_of_onLedger after present]
    · simp [present, isValid_of_not_onLedger rejects fromLedger after present]

/-! ## A chain of one-byte transactions

The transaction of a byte spends the first output of the one before it. -/

/-- `requires`: nothing for the first transaction. -/
def chainRequires (byte : UInt8) : List (Hash32 × UInt64) :=
  if byte = 0 then [] else [(samplePallas.hash (byte - 1 : UInt8), 0)]

/-- A library for these transactions. -/
def chainPallas : Pallas where
  MultiEraTx := UInt8
  MultiEraOutput := Unit
  ProtocolParameters := Unit
  EvalReport := Unit
  decode
    | [byte] => some byte
    | _ => none
  hash := samplePallas.hash
  era _ := .conway
  requires := chainRequires
  decodeOutput _ := .ok ()
  networkId _ := some 0
  phase1 byte _ outputs :=
    if (chainRequires byte).all fun input =>
        (input.1, input.2.toUInt32) ∈ outputs.map Prod.fst then
      .ok ()
    else .error "InputNotInUTxO"
  phase2 _ _ _ := .ok ()

theorem chainPallas_rejectsMissing : RejectsMissing chainPallas := by
  intro byte env outputs ref input absent
  refine ⟨"InputNotInUTxO", if_neg ?_⟩
  intro all
  obtain ⟨required, member, rfl⟩ := List.mem_map.mp input
  exact absent (of_decide_eq_true (List.all_eq_true.mp all required member))

/-- A server which knows this ledger. -/
def ledgerAdapter (ledger : UtxoSet) : U5cDataAdapter chainPallas where
  fetchTip := .ok sampleTip
  fetchPparams _ := .ok ()
  fetchUtxos refs era :=
    .ok (refs.filterMap fun ref => (ledger ref).map fun cbor => (ref, ⟨era, cbor⟩))

theorem ledgerAdapter_answersFrom (ledger : UtxoSet) :
    AnswersFrom ledger (ledgerAdapter ledger) := by
  intro refs era utxos fetched utxo member
  cases fetched
  obtain ⟨ref, _, found⟩ := List.mem_filterMap.mp member
  obtain ⟨cbor, known, rfl⟩ := Option.map_eq_some_iff.mp found
  exact known

/-- Every transaction has one output. -/
def chainProduces (_ : UInt8) : List EraCbor := [⟨.conway, []⟩]

/-- The output of the first transaction. -/
def firstOutput : TxoRef := (samplePallas.hash (0 : UInt8), 0)

/-- The ledger before and after the first transaction. -/
def chainLedger (confirmed : Bool) : UtxoSet := fun ref =>
  if confirmed = true ∧ ref = firstOutput then some [] else none

/-- A transaction of the chain, as `submit_tx` stores it. -/
def chainTx (byte : UInt8) : Transaction :=
  Submit.txStorage (samplePallas.hash byte) [byte] (some "banana") byte.toNat

/-- The store with the first two. -/
def chainDb : Db :=
  ⟨⟨[.ofTransaction (chainTx 0), .ofTransaction (chainTx 1)], by decide⟩, [], none⟩

/-- The second transaction is valid after the first one, confirmed or pending. -/
theorem validAfter_first (confirmed : Bool) {db : Db}
    (found : db.row (chainTx 0).id = some (.ofTransaction (chainTx 0))) :
    @ValidAfter chainPallas chainProduces db "banana" (chainLedger confirmed)
      (ledgerAdapter (chainLedger confirmed)) (ledgerAdapter (chainLedger confirmed))
      (1 : UInt8) := by
  have hasEnv : HasEnvironment (ledgerAdapter (chainLedger confirmed)) (1 : UInt8)
      ⟨(), 2, 100, 0⟩ := .fetched rfl rfl rfl rfl
  cases confirmed with
  | true =>
      refine ⟨[], ⟨by simp, ?_⟩, ⟨_, _, [(firstOutput, ())], hasEnv, rfl, rfl, by decide⟩,
        (), _, (), rfl, rfl, rfl⟩
      intro ref input absent
      obtain rfl := List.mem_singleton.mp input
      cases absent
  | false =>
      refine ⟨[(firstOutput, ⟨.conway, []⟩)], ⟨?_, ?_⟩,
        ⟨_, _, [(firstOutput, ())], hasEnv, rfl, rfl, by decide⟩, (), _, (), rfl, rfl, rfl⟩
      · intro utxo member
        obtain rfl := List.mem_singleton.mp member
        have pending : @PendingOutput chainPallas chainProduces db "banana"
            (firstOutput, ⟨.conway, []⟩) :=
          @PendingOutput.stored chainPallas chainProduces db "banana" (chainTx 0).id
            (.ofTransaction (chainTx 0)) (0 : UInt8) 0 ⟨.conway, []⟩ found rfl (.inl rfl) rfl rfl
        exact ⟨List.mem_singleton_self _, rfl, pending⟩
      · intro ref input _
        obtain rfl := List.mem_singleton.mp input
        exact List.mem_singleton_self _

/-- The calls for a transaction, when the server knows this ledger. -/
def chainAnswers (confirmed : Bool) : Submit.Answers chainPallas :=
  ⟨ledgerAdapter (chainLedger confirmed), ledgerAdapter (chainLedger confirmed)⟩

/-- The same for the ingest stage, which signs nothing here. -/
def chainReplies (confirmed : Bool) : Replies chainPallas :=
  ⟨.ok, ledgerAdapter (chainLedger confirmed), ledgerAdapter (chainLedger confirmed)⟩

theorem onLedger_first : @OnLedger chainPallas (chainLedger true) (1 : UInt8) := by
  intro ref input
  obtain rfl := List.mem_singleton.mp input
  rfl

theorem chainDb_found : chainDb.row (chainTx 0).id = some (.ofTransaction (chainTx 0)) := rfl

/-- Once the first transaction is confirmed, the second one is kept. -/
theorem kept_iff_onLedger_confirmed :
    Submit.Kept Locking.sampleQueues (chainAnswers true) (pendingDb (chainTx 0)) .new 1
        ⟨[1], some "banana", some "aaaaaaaa"⟩ (1 : UInt8) ∧
      Kept ⟨Locking.sampleQueues, false⟩ (chainReplies true) chainDb (chainTx 1) := by
  have configured : Locking.sampleQueues.get "banana" =
      some { name := "banana", chained := true } := rfl
  have both := @kept_iff_onLedger chainPallas _ Locking.sampleQueues "banana" chainProduces
    chainPallas_rejectsMissing configured rfl
  refine ⟨?_, ?_⟩
  · exact (both.1 (pendingDb (chainTx 0)) .new 1 (chainAnswers true) [1] (some "aaaaaaaa")
      (1 : UInt8) (chainLedger true) rfl (ledgerAdapter_answersFrom _)
      (validAfter_first true rfl)).mpr onLedger_first
  · exact (both.2 false chainDb (chainReplies true) (chainTx 1) (1 : UInt8) (chainLedger true) rfl
      rfl ⟨_, rfl, rfl⟩ (ledgerAdapter_answersFrom _) (validAfter_first true rfl)).mpr
        onLedger_first

/-- The lock of the queue is granted to a client while the first transaction is pending. -/
theorem reaches_granted :
    ∃ (trace : List (Transition Locking.State (Locking.Label chainPallas)))
      (state : Locking.State),
      Run (Locking.Step Locking.sampleQueues) (.initial (pendingDb (chainTx 0)) 1) trace state ∧
        state.db = pendingDb (chainTx 0) ∧ state.locks.tokens "banana" = some "aaaaaaaa" := by
  let labels : List (Locking.Label chainPallas) :=
    [.lock 1 "banana", .worker "banana" (.receive "aaaaaaaa"), .worker "banana" .publish,
      .worker "banana" .latest, .worker "banana" .deliver]
  obtain ⟨state, followed, db, token⟩ : ∃ state, follow (Locking.State.exec Locking.sampleQueues)
      (.initial (pendingDb (chainTx 0)) 1) labels = some state ∧
        state.db = pendingDb (chainTx 0) ∧ state.locks.tokens "banana" = some "aaaaaaaa" :=
    ⟨_, rfl, rfl, rfl⟩
  obtain ⟨trace, run, _⟩ := Run.of_follow (Locking.step_of_exec Locking.sampleQueues) followed
  exact ⟨trace, state, run, db, token⟩

/-- While the first transaction is pending, a client which holds the lock builds the second one
on it; `submit_tx` leaves it out, and `execute` marks it as failed. -/
theorem not_kept_of_pending :
    (∃ (trace : List (Transition Locking.State (Locking.Label chainPallas)))
      (state : Locking.State),
      Run (Locking.Step Locking.sampleQueues) (.initial (pendingDb (chainTx 0)) 1) trace state ∧
        state.locks.tokens "banana" = some "aaaaaaaa" ∧
        @ValidAfter chainPallas chainProduces state.db "banana" (chainLedger false)
          (chainAnswers false).validation (chainAnswers false).evaluation (1 : UInt8) ∧
        (Submit.submitTx Locking.sampleQueues (fun _ => chainAnswers false) state.now state.db
          state.locks [⟨[1], some "banana", some "aaaaaaaa"⟩]).1 = .answered (.ok []) ∧
        ¬ Submit.Kept Locking.sampleQueues (chainAnswers false) state.db state.locks state.now
          ⟨[1], some "banana", some "aaaaaaaa"⟩ (1 : UInt8)) ∧
    @ValidAfter chainPallas chainProduces chainDb "banana" (chainLedger false)
      (chainReplies false).validation (chainReplies false).evaluation (1 : UInt8) ∧
    executeOne ⟨Locking.sampleQueues, false⟩ ⟨chainReplies false, true, some sampleTip, true⟩
        (chainTx 1) ⟨chainDb, []⟩ =
      (⟨chainDb.update { chainTx 1 with status := .failed }, []⟩, .ok ()) ∧
    ¬ Kept ⟨Locking.sampleQueues, false⟩ (chainReplies false) chainDb (chainTx 1) := by
  have decoded : chainPallas.decode [1] = some (1 : UInt8) := rfl
  have invalid : isValid (ledgerAdapter (chainLedger false)) (ledgerAdapter (chainLedger false))
      (1 : UInt8) = .ok false := by decide +kernel
  refine ⟨?_, validAfter_first false chainDb_found, ?_, ?_⟩
  · obtain ⟨trace, state, run, db, token⟩ := reaches_granted
    have judged : Submit.judge Locking.sampleQueues (chainAnswers false) state.now 0
        ⟨[1], some "banana", some "aaaaaaaa"⟩ = .drop :=
      (Submit.judge_eq_drop_iff decoded).mpr ⟨rfl, invalid⟩
    refine ⟨trace, state, run, token, ?_, Submit.submitTx_of_drop _ judged, ?_⟩
    · rw [db]
      exact validAfter_first false rfl
    · intro kept
      exact (Submit.kept_iff decoded rfl).mp kept invalid
  · have signature : signed ⟨Locking.sampleQueues, false⟩ (chainReplies false) (chainTx 1) =
        .ok (chainTx 1) := rfl
    let calls : Calls chainPallas := ⟨chainReplies false, true, some sampleTip, true⟩
    have executed : executeOne ⟨Locking.sampleQueues, false⟩ calls (chainTx 1) ⟨chainDb, []⟩ = _ :=
      executeOne_of_invalid signature decoded invalid
    rw [executed]
    rfl
  · intro kept
    have pending : chainDb.HasStatus (chainTx 1).id .pending :=
      ⟨.ofTransaction (chainTx 1), rfl, rfl⟩
    have configured : Locking.sampleQueues.get (chainTx 1).queue =
        some { name := "banana", chained := true } := rfl
    exact (kept_iff pending configured rfl decoded).mp kept invalid

end Boros.Pipeline.Ingest
