import Boros.Data.Table
import Boros.Ledger.Validation

/-!
# What makes a transaction invalid

`validate_tx` and `evaluate_tx` return one kind of error for three kinds of failure: a call to
the U5C server failed, an output which it returned does not decode, or pallas rejected the
transaction. Their callers do not look at the error. `isValid_false_iff` says that a transaction
counts as invalid in each of these cases, of which no two occur together.
-/

namespace Boros.Ledger

open Boros.Data Boros.Semantics

variable {pallas : Pallas}

/-- The tip and the protocol parameters were fetched, and make this environment. -/
inductive HasEnvironment (adapter : U5cDataAdapter pallas) (tx : pallas.MultiEraTx) :
    Environment pallas.ProtocolParameters → Prop where
  | fetched {slot hash pparams networkId} (tip : adapter.fetchTip = .ok (slot, hash))
      (length : hash.length = 32)
      (parameters : adapter.fetchPparams (pallas.era tx) = .ok pparams)
      (network : pallas.networkId networkMagic.toUInt64 = some networkId) :
      HasEnvironment adapter tx ⟨pparams, networkMagic, slot, networkId⟩

/-- The outputs which the transaction spends were fetched, and decode to these. -/
def HasOutputs (adapter : U5cDataAdapter pallas) (tx : pallas.MultiEraTx)
    (outputs : List (TxoRef × pallas.MultiEraOutput)) : Prop :=
  ∃ utxos, adapter.fetchUtxos (inputRefs tx) (pallas.era tx) = .ok utxos ∧
    utxos.mapM (decodeUtxo pallas) = .ok outputs

/-- Everything was fetched for phase 1, which comes to this result. -/
def Phase1 (adapter : U5cDataAdapter pallas) (tx : pallas.MultiEraTx)
    (result : Except String Unit) : Prop :=
  ∃ env outputs, HasEnvironment adapter tx env ∧ HasOutputs adapter tx outputs ∧
    pallas.phase1 tx env outputs = result

/-- Everything was fetched for phase 2, which comes to this result. -/
def Phase2 (adapter : U5cDataAdapter pallas) (tx : pallas.MultiEraTx)
    (result : Except String pallas.EvalReport) : Prop :=
  ∃ pparams utxos, adapter.fetchPparams (pallas.era tx) = .ok pparams ∧
    adapter.fetchUtxos (inputRefs tx) (pallas.era tx) = .ok utxos ∧
    pallas.phase2 tx pparams utxos = result

/-- One of the phases rejects the transaction, on what was fetched for it. -/
inductive Rejected (validation evaluation : U5cDataAdapter pallas) (tx : pallas.MultiEraTx) :
    Prop where
  | phase1 {cause} (rejects : Phase1 validation tx (.error cause))
  | phase2 {cause} (accepts : Phase1 validation tx (.ok ()))
      (rejects : Phase2 evaluation tx (.error cause))

/-- One of the fetches of `validate_tx` is made and fails. -/
inductive ValidationFetchFails (adapter : U5cDataAdapter pallas) (tx : pallas.MultiEraTx) :
    Prop where
  | tip {cause} (fails : adapter.fetchTip = .error (.error cause))
  | pparams {tip cause} (fetched : adapter.fetchTip = .ok tip) (length : tip.2.length = 32)
      (fails : adapter.fetchPparams (pallas.era tx) = .error (.error cause))
  | utxos {env cause} (fetched : HasEnvironment adapter tx env)
      (fails : adapter.fetchUtxos (inputRefs tx) (pallas.era tx) = .error (.error cause))

/-- One of the fetches of `evaluate_tx` is made and fails. -/
inductive EvaluationFetchFails (adapter : U5cDataAdapter pallas) (tx : pallas.MultiEraTx) :
    Prop where
  | pparams {cause} (fails : adapter.fetchPparams (pallas.era tx) = .error (.error cause))
  | utxos {pparams cause} (fetched : adapter.fetchPparams (pallas.era tx) = .ok pparams)
      (fails : adapter.fetchUtxos (inputRefs tx) (pallas.era tx) = .error (.error cause))

/-- One of the fetches made for a transaction fails. -/
inductive FetchFails (validation evaluation : U5cDataAdapter pallas) (tx : pallas.MultiEraTx) :
    Prop where
  | validation (fails : ValidationFetchFails validation tx)
  | evaluation (accepts : Phase1 validation tx (.ok ()))
      (fails : EvaluationFetchFails evaluation tx)

/-- One of the outputs fetched for phase 1 does not decode. -/
def OutputFails (adapter : U5cDataAdapter pallas) (tx : pallas.MultiEraTx) : Prop :=
  ∃ env utxos, HasEnvironment adapter tx env ∧
    adapter.fetchUtxos (inputRefs tx) (pallas.era tx) = .ok utxos ∧
    ∃ utxo ∈ utxos, ∃ cause, pallas.decodeOutput utxo.2 = .error cause

variable {validation evaluation adapter : U5cDataAdapter pallas} {tx : pallas.MultiEraTx}

theorem fetched_ok_iff {α : Type} {answer : Except (Abort String) α} {value : α} :
    fetched answer = .ok value ↔ answer = .ok value := by
  fun_cases fetched answer <;> simp

theorem fetched_error_iff {α : Type} {answer : Except (Abort String) α}
    {reason : ValidationError} :
    fetched answer = .error (.error reason) ↔
      ∃ cause, reason = .adapter cause ∧ answer = .error (.error cause) := by
  fun_cases fetched answer <;> simp [eq_comm]

theorem rejected_ok_iff {α : Type} {reason : String → ValidationError}
    {result : Except String α} {value : α} :
    rejected reason result = .ok value ↔ result = .ok value := by
  fun_cases rejected reason result <;> simp

theorem rejected_error_iff {α : Type} {reason : String → ValidationError}
    {result : Except String α} {error : ValidationError} :
    rejected reason result = .error (.error error) ↔
      ∃ cause, error = reason cause ∧ result = .error cause := by
  fun_cases rejected reason result <;> simp [eq_comm]

/-- The part of `validate_tx` up to its environment. -/
def environment (adapter : U5cDataAdapter pallas) (tx : pallas.MultiEraTx) :
    Except (Abort ValidationError) (Environment pallas.ProtocolParameters) := do
  let tip ← fetched adapter.fetchTip
  if tip.2.length ≠ 32 then throw (.panic .unwrap)
  let pparams ← fetched (adapter.fetchPparams (pallas.era tx))
  let networkId ← orPanic (unwrap (pallas.networkId networkMagic.toUInt64))
  return ⟨pparams, networkMagic, tip.1, networkId⟩

/-- The part of `validate_tx` which makes `pallas_utxos`. -/
def pallasUtxos (adapter : U5cDataAdapter pallas) (tx : pallas.MultiEraTx) :
    Except (Abort ValidationError) (List (TxoRef × pallas.MultiEraOutput)) := do
  let utxos ← fetched (adapter.fetchUtxos (inputRefs tx) (pallas.era tx))
  utxos.mapM (decodeUtxo pallas)

theorem validateTx_eq :
    validateTx adapter tx = (do
      let env ← environment adapter tx
      let outputs ← pallasUtxos adapter tx
      rejected .phase1 (pallas.phase1 tx env outputs)) := by
  simp only [validateTx, environment, pallasUtxos, bind_assoc]
  congr 1
  funext tip
  split
  · rfl
  · simp only [bind_assoc, pure_bind]

theorem environment_ok_iff {env : Environment pallas.ProtocolParameters} :
    environment adapter tx = .ok env ↔ HasEnvironment adapter tx env := by
  simp only [environment, except_bind_ok_iff, fetched_ok_iff]
  constructor
  · rintro ⟨tip, fetchedTip, rest⟩
    split at rest
    · cases rest
    · rename_i length
      simp only [except_bind_ok_iff, fetched_ok_iff, orPanic_ok_iff, unwrap_ok_iff] at rest
      obtain ⟨pparams, parameters, networkId, network, produced⟩ := rest
      cases produced
      exact .fetched fetchedTip (not_not.mp length) parameters network
  · rintro ⟨tip, length, parameters, network⟩
    refine ⟨_, tip, ?_⟩
    simp [length, parameters, network, fetched, orPanic, unwrap, bind, Except.bind, pure,
      Except.pure]

/-- Up to its environment, `validate_tx` can fail only at the tip and at the parameters. -/
theorem environment_error_iff {reason : ValidationError} :
    environment adapter tx = .error (.error reason) ↔
      ∃ cause, reason = .adapter cause ∧ (adapter.fetchTip = .error (.error cause) ∨
        ∃ tip, adapter.fetchTip = .ok tip ∧ tip.2.length = 32 ∧
          adapter.fetchPparams (pallas.era tx) = .error (.error cause)) := by
  simp only [environment, except_bind_error_iff, fetched_error_iff, fetched_ok_iff]
  constructor
  · rintro (⟨cause, same, fails⟩ | ⟨tip, fetchedTip, rest⟩)
    · exact ⟨cause, same, .inl fails⟩
    · split at rest
      · cases rest
      · rename_i length
        simp only [except_bind_error_iff, fetched_error_iff] at rest
        rcases rest with ⟨cause, same, fails⟩ | ⟨pparams, _, rest⟩
        · exact ⟨cause, same, .inr ⟨tip, fetchedTip, not_not.mp length, fails⟩⟩
        · cases network : pallas.networkId networkMagic.toUInt64 <;>
            simp [network, orPanic, unwrap, pure, Except.pure] at rest
  · rintro ⟨cause, same, fails | ⟨tip, fetchedTip, length, fails⟩⟩
    · exact .inl ⟨cause, same, fails⟩
    · refine .inr ⟨tip, fetchedTip, ?_⟩
      simp [length, fails, fetched, same, bind, Except.bind]

theorem pallasUtxos_ok_iff {outputs : List (TxoRef × pallas.MultiEraOutput)} :
    pallasUtxos adapter tx = .ok outputs ↔ HasOutputs adapter tx outputs := by
  simp only [pallasUtxos, except_bind_ok_iff, fetched_ok_iff, HasOutputs]

/-- Decoding the fetched outputs fails as one of them does. -/
theorem mapM_decodeUtxo_error {utxos : List (TxoRef × EraCbor)} {abort : Abort ValidationError}
    (failure : utxos.mapM (decodeUtxo pallas) = .error abort) :
    ∃ utxo ∈ utxos, ∃ cause, abort = .error (.output cause) ∧
      pallas.decodeOutput utxo.2 = .error cause := by
  obtain ⟨utxo, member, fails⟩ := Table.mapM_error failure
  refine ⟨utxo, member, ?_⟩
  cases decoded : pallas.decodeOutput utxo.2 with
  | error cause =>
      simp only [decodeUtxo, decoded, rejected, bind, Except.bind, Except.error.injEq] at fails
      exact ⟨cause, fails.symm, rfl⟩
  | ok output => simp [decodeUtxo, decoded, rejected, bind, Except.bind, pure, Except.pure] at fails

/-- An output which does not decode fails all of them. -/
theorem exists_error_of_mem {utxos : List (TxoRef × EraCbor)} {utxo : TxoRef × EraCbor}
    {cause : String} (member : utxo ∈ utxos) (fails : pallas.decodeOutput utxo.2 = .error cause) :
    ∃ first, utxos.mapM (decodeUtxo pallas) = .error (.error (.output first)) := by
  cases decoded : utxos.mapM (decodeUtxo pallas) with
  | error abort =>
      obtain ⟨_, _, first, rfl, _⟩ := mapM_decodeUtxo_error decoded
      exact ⟨first, rfl⟩
  | ok outputs =>
      obtain ⟨output, produced⟩ := Table.mapM_isOk_iff.mp ⟨outputs, decoded⟩ utxo member
      simp [decodeUtxo, fails, rejected, bind, Except.bind] at produced

theorem pallasUtxos_error_iff {reason : ValidationError} :
    pallasUtxos adapter tx = .error (.error reason) ↔
      (∃ cause, reason = .adapter cause ∧
        adapter.fetchUtxos (inputRefs tx) (pallas.era tx) = .error (.error cause)) ∨
      ∃ utxos cause, reason = .output cause ∧
        adapter.fetchUtxos (inputRefs tx) (pallas.era tx) = .ok utxos ∧
        utxos.mapM (decodeUtxo pallas) = .error (.error (.output cause)) := by
  simp only [pallasUtxos, except_bind_error_iff, fetched_error_iff, fetched_ok_iff]
  constructor
  · rintro (failed | ⟨utxos, fetchedUtxos, undecoded⟩)
    · exact .inl failed
    · obtain ⟨_, _, cause, same, _⟩ := mapM_decodeUtxo_error undecoded
      cases same
      exact .inr ⟨utxos, cause, rfl, fetchedUtxos, undecoded⟩
  · rintro (failed | ⟨utxos, cause, rfl, fetchedUtxos, undecoded⟩)
    · exact .inl failed
    · exact .inr ⟨utxos, fetchedUtxos, undecoded⟩

/-- `validate_tx` succeeds exactly when everything was fetched and phase 1 accepts it. -/
theorem validateTx_ok_iff : validateTx adapter tx = .ok () ↔ Phase1 adapter tx (.ok ()) := by
  simp only [validateTx_eq, except_bind_ok_iff, environment_ok_iff, pallasUtxos_ok_iff,
    rejected_ok_iff, Phase1]
  constructor
  · rintro ⟨env, hasEnv, outputs, hasOutputs, accepts⟩
    exact ⟨env, outputs, hasEnv, hasOutputs, accepts⟩
  · rintro ⟨env, outputs, hasEnv, hasOutputs, accepts⟩
    exact ⟨env, hasEnv, outputs, hasOutputs, accepts⟩

/-- `validate_tx` can fail at its environment, at the outputs, and in phase 1. -/
theorem validateTx_error_iff {reason : ValidationError} :
    validateTx adapter tx = .error (.error reason) ↔
      environment adapter tx = .error (.error reason) ∨
      (∃ env, HasEnvironment adapter tx env ∧
        pallasUtxos adapter tx = .error (.error reason)) ∨
      ∃ cause, reason = .phase1 cause ∧ Phase1 adapter tx (.error cause) := by
  simp only [validateTx_eq, except_bind_error_iff, environment_ok_iff, pallasUtxos_ok_iff,
    rejected_error_iff, Phase1]
  constructor
  · rintro (failed | ⟨env, hasEnv, failed | ⟨outputs, hasOutputs, cause, same, rejects⟩⟩)
    · exact .inl failed
    · exact .inr (.inl ⟨env, hasEnv, failed⟩)
    · exact .inr (.inr ⟨cause, same, env, outputs, hasEnv, hasOutputs, rejects⟩)
  · rintro (failed | ⟨env, hasEnv, failed⟩ |
      ⟨cause, same, env, outputs, hasEnv, hasOutputs, rejects⟩)
    · exact .inl failed
    · exact .inr ⟨env, hasEnv, .inl failed⟩
    · exact .inr ⟨env, hasEnv, .inr ⟨outputs, hasOutputs, cause, same, rejects⟩⟩

theorem validateTx_adapter_iff :
    (∃ cause, validateTx adapter tx = .error (.error (.adapter cause))) ↔
      ValidationFetchFails adapter tx := by
  simp only [validateTx_error_iff, environment_error_iff, pallasUtxos_error_iff]
  constructor
  · rintro ⟨_, ⟨_, _, fails | ⟨tip, fetchedTip, length, fails⟩⟩ |
      ⟨env, hasEnv, ⟨_, _, fails⟩ | ⟨_, _, same, _⟩⟩ | ⟨_, same, _⟩⟩
    · exact .tip fails
    · exact .pparams fetchedTip length fails
    · exact .utxos hasEnv fails
    · cases same
    · cases same
  · intro failed
    cases failed with
    | tip fails => exact ⟨_, .inl ⟨_, rfl, .inl fails⟩⟩
    | pparams fetchedTip length fails =>
        exact ⟨_, .inl ⟨_, rfl, .inr ⟨_, fetchedTip, length, fails⟩⟩⟩
    | @utxos env cause hasEnv fails =>
        exact ⟨cause, .inr (.inl ⟨env, hasEnv, .inl ⟨cause, rfl, fails⟩⟩)⟩

theorem validateTx_output_iff :
    (∃ cause, validateTx adapter tx = .error (.error (.output cause))) ↔
      OutputFails adapter tx := by
  simp only [validateTx_error_iff, environment_error_iff, pallasUtxos_error_iff]
  constructor
  · rintro ⟨_, ⟨_, same, _⟩ | ⟨env, hasEnv, ⟨_, same, _⟩ | ⟨utxos, _, _, fetchedUtxos, undecoded⟩⟩ |
      ⟨_, same, _⟩⟩
    · cases same
    · cases same
    · obtain ⟨utxo, member, cause, _, fails⟩ := mapM_decodeUtxo_error undecoded
      exact ⟨env, utxos, hasEnv, fetchedUtxos, utxo, member, cause, fails⟩
    · cases same
  · rintro ⟨env, utxos, hasEnv, fetchedUtxos, utxo, member, _, fails⟩
    obtain ⟨first, undecoded⟩ := exists_error_of_mem member fails
    exact ⟨first, .inr (.inl ⟨env, hasEnv, .inr ⟨utxos, first, rfl, fetchedUtxos, undecoded⟩⟩)⟩

theorem validateTx_phase1_iff {cause : String} :
    validateTx adapter tx = .error (.error (.phase1 cause)) ↔ Phase1 adapter tx (.error cause) := by
  simp only [validateTx_error_iff, environment_error_iff, pallasUtxos_error_iff]
  simp

/-- These are all the errors of `validate_tx`. -/
theorem validateTx_ne_phase2 {cause : String} :
    validateTx adapter tx ≠ .error (.error (.phase2 cause)) := by
  simp only [ne_eq, validateTx_error_iff, environment_error_iff, pallasUtxos_error_iff]
  simp

theorem evaluateTx_error_iff {reason : ValidationError} :
    evaluateTx adapter tx = .error (.error reason) ↔
      (∃ cause, reason = .adapter cause ∧
        (adapter.fetchPparams (pallas.era tx) = .error (.error cause) ∨
          ∃ pparams, adapter.fetchPparams (pallas.era tx) = .ok pparams ∧
            adapter.fetchUtxos (inputRefs tx) (pallas.era tx) = .error (.error cause))) ∨
      ∃ cause, reason = .phase2 cause ∧ Phase2 adapter tx (.error cause) := by
  simp only [evaluateTx, except_bind_error_iff, fetched_error_iff, fetched_ok_iff,
    rejected_error_iff, Phase2]
  constructor
  · rintro (⟨cause, same, fails⟩ | ⟨pparams, parameters, ⟨cause, same, fails⟩ |
      ⟨utxos, fetchedUtxos, cause, same, rejects⟩⟩)
    · exact .inl ⟨cause, same, .inl fails⟩
    · exact .inl ⟨cause, same, .inr ⟨pparams, parameters, fails⟩⟩
    · exact .inr ⟨cause, same, pparams, utxos, parameters, fetchedUtxos, rejects⟩
  · rintro (⟨cause, same, fails | ⟨pparams, parameters, fails⟩⟩ |
      ⟨cause, same, pparams, utxos, parameters, fetchedUtxos, rejects⟩)
    · exact .inl ⟨cause, same, fails⟩
    · exact .inr ⟨pparams, parameters, .inl ⟨cause, same, fails⟩⟩
    · exact .inr ⟨pparams, parameters, .inr ⟨utxos, fetchedUtxos, cause, same, rejects⟩⟩

theorem evaluateTx_adapter_iff :
    (∃ cause, evaluateTx adapter tx = .error (.error (.adapter cause))) ↔
      EvaluationFetchFails adapter tx := by
  simp only [evaluateTx_error_iff]
  constructor
  · rintro ⟨_, ⟨cause, _, fails | ⟨pparams, parameters, fails⟩⟩ | ⟨_, same, _⟩⟩
    · exact .pparams fails
    · exact .utxos parameters fails
    · cases same
  · intro failed
    cases failed with
    | @pparams cause fails => exact ⟨cause, .inl ⟨cause, rfl, .inl fails⟩⟩
    | @utxos pparams cause parameters fails =>
        exact ⟨cause, .inl ⟨cause, rfl, .inr ⟨pparams, parameters, fails⟩⟩⟩

theorem evaluateTx_phase2_iff {cause : String} :
    evaluateTx adapter tx = .error (.error (.phase2 cause)) ↔ Phase2 adapter tx (.error cause) := by
  simp [evaluateTx_error_iff]

/-- Once everything is fetched, neither function panics. -/
theorem validateTx_ne_panic {env : Environment pallas.ProtocolParameters}
    {utxos : List (TxoRef × EraCbor)} (hasEnv : HasEnvironment adapter tx env)
    (fetchedUtxos : adapter.fetchUtxos (inputRefs tx) (pallas.era tx) = .ok utxos)
    (fault : Fault) : validateTx adapter tx ≠ .error (.panic fault) := by
  rw [validateTx_eq, environment_ok_iff.mpr hasEnv, pallasUtxos, fetchedUtxos]
  intro panicked
  cases decoded : utxos.mapM (decodeUtxo pallas) with
  | error abort =>
      obtain ⟨_, _, cause, rfl, _⟩ := mapM_decodeUtxo_error decoded
      simp [decoded, fetched, bind, Except.bind] at panicked
  | ok outputs =>
      cases verdict : pallas.phase1 tx env outputs <;>
        simp [decoded, verdict, rejected, fetched, bind, Except.bind] at panicked

theorem evaluateTx_ne_panic {pparams : pallas.ProtocolParameters}
    {utxos : List (TxoRef × EraCbor)}
    (parameters : adapter.fetchPparams (pallas.era tx) = .ok pparams)
    (fetchedUtxos : adapter.fetchUtxos (inputRefs tx) (pallas.era tx) = .ok utxos)
    (fault : Fault) : evaluateTx adapter tx ≠ .error (.panic fault) := by
  intro panicked
  cases verdict : pallas.phase2 tx pparams utxos <;>
    simp [evaluateTx, parameters, fetchedUtxos, verdict, rejected, fetched, bind, Except.bind]
      at panicked

/-- A transaction counts as invalid when `validate_tx` returns an error, or `evaluate_tx` after
it accepted the transaction. -/
theorem isValid_false_iff_error :
    isValid validation evaluation tx = .ok false ↔
      (∃ reason, validateTx validation tx = .error (.error reason)) ∨
      validateTx validation tx = .ok () ∧
        ∃ reason, evaluateTx evaluation tx = .error (.error reason) := by
  unfold isValid
  split
  · rename_i failed
    simp [failed]
  · rename_i reason failed
    simp [failed]
  · rename_i accepted
    split <;> rename_i result <;> simp [accepted, result]

theorem evaluateTx_ok_iff {report : pallas.EvalReport} :
    evaluateTx adapter tx = .ok report ↔ Phase2 adapter tx (.ok report) := by
  simp only [evaluateTx, except_bind_ok_iff, fetched_ok_iff, rejected_ok_iff, Phase2]
  constructor
  · rintro ⟨pparams, parameters, utxos, fetchedUtxos, accepts⟩
    exact ⟨pparams, utxos, parameters, fetchedUtxos, accepts⟩
  · rintro ⟨pparams, utxos, parameters, fetchedUtxos, accepts⟩
    exact ⟨pparams, parameters, utxos, fetchedUtxos, accepts⟩

/-- A transaction counts as valid exactly when both phases accept it on what was fetched. -/
theorem isValid_true_iff :
    isValid validation evaluation tx = .ok true ↔
      Phase1 validation tx (.ok ()) ∧ ∃ report, Phase2 evaluation tx (.ok report) := by
  simp only [← validateTx_ok_iff, ← evaluateTx_ok_iff]
  unfold isValid
  split
  · rename_i failed
    simp [failed]
  · rename_i reason failed
    simp [failed]
  · rename_i accepted
    split <;> rename_i result <;> simp [accepted, result]

/-- What the two phases come to for a rejected transaction. -/
theorem Rejected.result (rejects : Rejected validation evaluation tx) :
    (∃ cause, validateTx validation tx = .error (.error (.phase1 cause))) ∨
      validateTx validation tx = .ok () ∧
        ∃ cause, evaluateTx evaluation tx = .error (.error (.phase2 cause)) := by
  cases rejects with
  | phase1 rejects => exact .inl ⟨_, validateTx_phase1_iff.mpr rejects⟩
  | phase2 accepts rejects =>
      exact .inr ⟨validateTx_ok_iff.mpr accepts, _, evaluateTx_phase2_iff.mpr rejects⟩

/-- The reasons for which a transaction counts as invalid. -/
theorem isValid_false_iff :
    isValid validation evaluation tx = .ok false ↔
      Rejected validation evaluation tx ∨ FetchFails validation evaluation tx ∨
        OutputFails validation tx := by
  rw [isValid_false_iff_error]
  constructor
  · rintro (⟨reason, failed⟩ | ⟨accepted, reason, failed⟩)
    · cases reason with
      | adapter cause => exact .inr (.inl (.validation (validateTx_adapter_iff.mp ⟨_, failed⟩)))
      | output cause => exact .inr (.inr (validateTx_output_iff.mp ⟨_, failed⟩))
      | phase1 cause => exact .inl (.phase1 (validateTx_phase1_iff.mp failed))
      | phase2 cause => exact absurd failed validateTx_ne_phase2
    · have accepts := validateTx_ok_iff.mp accepted
      rcases evaluateTx_error_iff.mp failed with ⟨cause, rfl, _⟩ | ⟨cause, rfl, rejects⟩
      · exact .inr (.inl (.evaluation accepts (evaluateTx_adapter_iff.mp ⟨_, failed⟩)))
      · exact .inl (.phase2 accepts rejects)
  · rintro (rejects | fails | fails)
    · rcases rejects.result with ⟨cause, rejected⟩ | ⟨accepted, cause, rejected⟩
      · exact .inl ⟨_, rejected⟩
      · exact .inr ⟨accepted, _, rejected⟩
    · cases fails with
      | validation fails =>
          obtain ⟨cause, failed⟩ := validateTx_adapter_iff.mpr fails
          exact .inl ⟨_, failed⟩
      | evaluation accepts fails =>
          obtain ⟨cause, failed⟩ := evaluateTx_adapter_iff.mpr fails
          exact .inr ⟨validateTx_ok_iff.mpr accepts, _, failed⟩
    · obtain ⟨cause, failed⟩ := validateTx_output_iff.mpr fails
      exact .inl ⟨_, failed⟩

/-- A transaction which is rejected was asked about on fetched data. -/
theorem Rejected.not_fetchFails (rejects : Rejected validation evaluation tx) :
    ¬ FetchFails validation evaluation tx := by
  intro fails
  cases fails with
  | validation fails =>
      obtain ⟨cause, failed⟩ := validateTx_adapter_iff.mpr fails
      rcases rejects.result with ⟨_, rejected⟩ | ⟨accepted, _⟩
      · cases failed.symm.trans rejected
      · cases failed.symm.trans accepted
  | evaluation accepts fails =>
      obtain ⟨cause, failed⟩ := evaluateTx_adapter_iff.mpr fails
      rcases rejects.result with ⟨_, rejected⟩ | ⟨_, _, rejected⟩
      · cases rejected.symm.trans (validateTx_ok_iff.mpr accepts)
      · cases failed.symm.trans rejected

theorem Rejected.not_outputFails (rejects : Rejected validation evaluation tx) :
    ¬ OutputFails validation tx := by
  intro fails
  obtain ⟨cause, failed⟩ := validateTx_output_iff.mpr fails
  rcases rejects.result with ⟨_, rejected⟩ | ⟨accepted, _⟩
  · cases failed.symm.trans rejected
  · cases failed.symm.trans accepted

/-- Every fetch made for a transaction succeeds, and the outputs fetched for phase 1 decode. -/
def Answered (validation evaluation : U5cDataAdapter pallas) (tx : pallas.MultiEraTx) : Prop :=
  ¬ FetchFails validation evaluation tx ∧ ¬ OutputFails validation tx

/-- If it is so, a transaction which counts as invalid was rejected; and only then. -/
theorem rejected_of_answered (answered : Answered validation evaluation tx)
    (invalid : isValid validation evaluation tx = .ok false) :
    Rejected validation evaluation tx := by
  rcases isValid_false_iff.mp invalid with rejects | fails | fails
  · exact rejects
  · exact absurd fails answered.1
  · exact absurd fails answered.2

theorem invalid_of_not_answered (unanswered : ¬ Answered validation evaluation tx) :
    isValid validation evaluation tx = .ok false ∧ ¬ Rejected validation evaluation tx := by
  by_cases fails : FetchFails validation evaluation tx
  · exact ⟨isValid_false_iff.mpr (.inr (.inl fails)), fun rejects => rejects.not_fetchFails fails⟩
  · have undecoded : OutputFails validation tx := by
      by_contra decoded
      exact unanswered ⟨fails, decoded⟩
    exact ⟨isValid_false_iff.mpr (.inr (.inr undecoded)),
      fun rejects => rejects.not_outputFails undecoded⟩

end Boros.Ledger
