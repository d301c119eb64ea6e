import Boros.Ledger.ProtocolParameters
import Boros.Ledger.Verdict

/-!
# The adapter of a U5C server

`U5cDataAdapterImpl` of `src/ledger/u5c/mod.rs`, given what the calls to the server come to. A
`tonic::Status` is its text. `fetchPparams_ok_iff` says for which eras and answers the protocol
parameters are returned: `map_multi_era_pparams` is implemented for one era only.
-/

namespace Boros.Ledger

open Boros.Data Boros.Semantics

/-- `BlockRef` of U5C. -/
structure BlockRef where
  index : UInt64
  hash : Bytes
deriving DecidableEq, Repr

/-- `TxoRef` of U5C. -/
structure UtxoRef where
  hash : Bytes
  index : UInt32
deriving DecidableEq, Repr

/-- `AnyUtxoData`. -/
structure AnyUtxoData where
  txoRef : Option UtxoRef
  nativeBytes : Bytes
deriving DecidableEq, Repr

/-- `AnyChainParams`, whose parameters can only be Cardano's. -/
structure AnyChainParams where
  params : Option PParams
deriving DecidableEq, Repr

/-- What the calls to a U5C server come to. -/
structure U5cServer where
  /-- `tip` of `read_tip`. -/
  readTip : Except String (Option BlockRef)
  /-- `items` of `read_utxos`. -/
  readUtxos : List UtxoRef → Except String (List AnyUtxoData)
  /-- `values` of `read_params`. -/
  readParams : Except String (Option AnyChainParams)

/-- `utxos.insert`. -/
def insertUtxo (utxos : List (TxoRef × EraCbor)) (txoref : TxoRef) (eraCbor : EraCbor) :
    List (TxoRef × EraCbor) :=
  utxos.filter (fun utxo => utxo.1 ≠ txoref) ++ [(txoref, eraCbor)]

/-- The loop of `fetch_utxos` over the items. -/
def collectUtxos (era : Era) (utxos : List (TxoRef × EraCbor)) :
    List AnyUtxoData → Except Fault (List (TxoRef × EraCbor))
  | [] => .ok utxos
  | anyUtxo :: rest => do
    let txoref ← unwrap anyUtxo.txoRef
    let hash ← Hash32.fromSlice txoref.hash
    collectUtxos era (insertUtxo utxos (hash, txoref.index) ⟨era, anyUtxo.nativeBytes⟩) rest

/-- `map_multi_era_pparams`; `conway` is `MultiEraProtocolParameters::Conway`. -/
def mapMultiEraPparams {α : Type} (conway : ConwayProtParams → α) (pparams : PParams) (era : Era) :
    Except Fault α :=
  match era with
  | .conway => do
    let conwayPparams ← mapConwayPparams pparams
    return conway conwayPparams
  | _ => .error .explicit

variable {pallas : Pallas}

/-- `U5cDataAdapterImpl`. -/
def u5cDataAdapterImpl (conway : ConwayProtParams → pallas.ProtocolParameters)
    (server : U5cServer) : U5cDataAdapter pallas where
  fetchTip := do
    match ← orFail server.readTip with
    | some blockRef => return (blockRef.index, blockRef.hash)
    | none => throw (.error "U5c none tip")
  fetchPparams era := do
    let values ← orFail server.readParams
    let pparams ← orPanic (unwrap (values.getD ⟨none⟩).params)
    orPanic (mapMultiEraPparams conway pparams era)
  fetchUtxos utxoRefs era := do
    let anyUtxos ← orFail (server.readUtxos (utxoRefs.map fun ref => ⟨ref.1.1, ref.2⟩))
    orPanic (collectUtxos era [] anyUtxos)

/-- Every call to the server succeeds, with an answer that lacks nothing. -/
structure U5cServer.Serves (server : U5cServer) : Prop where
  tip : ∃ blockRef, server.readTip = .ok (some blockRef) ∧ blockRef.hash.length = 32
  params : ∃ params, server.readParams = .ok (some ⟨some params⟩) ∧ params.Complete
  utxos : ∀ refs, ∃ items, server.readUtxos refs = .ok items ∧
    ∀ item ∈ items, ∃ ref, item.txoRef = some ref ∧ ref.hash.length = 32

variable {conway : ConwayProtParams → pallas.ProtocolParameters} {server : U5cServer} {era : Era}

/-- Items which lack nothing are all collected. -/
theorem collectUtxos_isOk {items : List AnyUtxoData} (era : Era) (utxos : List (TxoRef × EraCbor))
    (complete : ∀ item ∈ items, ∃ ref, item.txoRef = some ref ∧ ref.hash.length = 32) :
    ∃ collected, collectUtxos era utxos items = .ok collected := by
  induction items generalizing utxos with
  | nil => exact ⟨utxos, rfl⟩
  | cons item rest ih =>
      rw [List.forall_mem_cons] at complete
      obtain ⟨⟨ref, found, length⟩, others⟩ := complete
      obtain ⟨collected, success⟩ :=
        ih (insertUtxo utxos (⟨ref.hash, length⟩, ref.index) ⟨era, item.nativeBytes⟩) others
      refine ⟨collected, ?_⟩
      simp only [collectUtxos, found, unwrap, Hash32.fromSlice, dif_pos length, bind, Except.bind]
      exact success

/-- Parameters are mapped for Conway only. -/
theorem mapMultiEraPparams_isOk_iff {pparams : PParams} :
    (∃ mapped, mapMultiEraPparams conway pparams era = .ok mapped) ↔
      era = .conway ∧ pparams.Complete := by
  cases era with
  | conway =>
      simp only [mapMultiEraPparams, except_bind_isOk_iff, ← mapConwayPparams_isOk_iff]
      simp [pure, Except.pure]
  | _ => simp [mapMultiEraPparams]

/-- The protocol parameters of any other era are never returned. -/
theorem era_of_fetchPparams {pparams : pallas.ProtocolParameters}
    (success : (u5cDataAdapterImpl conway server).fetchPparams era = .ok pparams) :
    era = .conway := by
  simp only [u5cDataAdapterImpl, except_bind_ok_iff, orPanic_ok_iff] at success
  obtain ⟨values, _, params, _, mapped⟩ := success
  exact (mapMultiEraPparams_isOk_iff.mp ⟨_, mapped⟩).1

theorem U5cServer.Serves.fetchTip (serves : server.Serves)
    (conway : ConwayProtParams → pallas.ProtocolParameters) :
    ∃ slot hash, (u5cDataAdapterImpl conway server).fetchTip = .ok (slot, hash) ∧
      hash.length = 32 := by
  obtain ⟨blockRef, answered, length⟩ := serves.tip
  refine ⟨blockRef.index, blockRef.hash, ?_, length⟩
  simp only [u5cDataAdapterImpl, answered]
  rfl

theorem U5cServer.Serves.fetchPparams (serves : server.Serves)
    (conway : ConwayProtParams → pallas.ProtocolParameters) :
    ∃ pparams, (u5cDataAdapterImpl conway server).fetchPparams .conway = .ok pparams := by
  obtain ⟨params, answered, complete⟩ := serves.params
  obtain ⟨mapped, mapping⟩ := mapConwayPparams_isOk_iff.mpr complete
  refine ⟨conway mapped, ?_⟩
  simp [u5cDataAdapterImpl, answered, mapMultiEraPparams, mapping, orFail, orPanic, unwrap, bind,
    Except.bind, pure, Except.pure]

theorem U5cServer.Serves.fetchUtxos (serves : server.Serves)
    (conway : ConwayProtParams → pallas.ProtocolParameters) (refs : List TxoRef) (era : Era) :
    ∃ utxos, (u5cDataAdapterImpl conway server).fetchUtxos refs era = .ok utxos := by
  obtain ⟨items, answered, complete⟩ := serves.utxos (refs.map fun ref => ⟨ref.1.1, ref.2⟩)
  obtain ⟨collected, success⟩ := collectUtxos_isOk era [] complete
  refine ⟨collected, ?_⟩
  simp [u5cDataAdapterImpl, answered, success, orFail, orPanic, bind, Except.bind]

variable {metx : pallas.MultiEraTx} {validation evaluation : U5cServer}

/-- Only a Conway transaction is ever found to be valid. -/
theorem era_of_isValid
    (valid : isValid (u5cDataAdapterImpl conway validation) (u5cDataAdapterImpl conway evaluation)
      metx = .ok true) : pallas.era metx = .conway := by
  unfold isValid at valid
  split at valid
  · cases valid
  · cases valid
  · rename_i accepted
    obtain ⟨env, outputs, hasEnv, _⟩ := validateTx_ok_iff.mp accepted
    cases hasEnv with
    | fetched tip length parameters network => exact era_of_fetchPparams parameters

/-- With servers that answer, a Conway transaction is found to be valid or invalid. -/
theorem isValid_isOk {networkId : UInt8}
    (network : pallas.networkId networkMagic.toUInt64 = some networkId)
    (era : pallas.era metx = .conway) (served : validation.Serves) (served' : evaluation.Serves) :
    ∃ valid, isValid (u5cDataAdapterImpl conway validation) (u5cDataAdapterImpl conway evaluation)
      metx = .ok valid := by
  obtain ⟨slot, hash, tip, length⟩ := served.fetchTip conway
  obtain ⟨pparams, parameters⟩ := served.fetchPparams conway
  obtain ⟨pparams', parameters'⟩ := served'.fetchPparams conway
  rw [← era] at parameters parameters'
  obtain ⟨utxos, fetchedUtxos⟩ := served.fetchUtxos conway (inputRefs metx) (pallas.era metx)
  obtain ⟨utxos', fetchedUtxos'⟩ := served'.fetchUtxos conway (inputRefs metx) (pallas.era metx)
  have hasEnv : HasEnvironment (u5cDataAdapterImpl conway validation) metx _ :=
    .fetched tip length parameters network
  unfold isValid
  split
  · rename_i fault panicked
    exact absurd panicked (validateTx_ne_panic hasEnv fetchedUtxos fault)
  · exact ⟨false, rfl⟩
  · split
    · rename_i fault panicked
      exact absurd panicked (evaluateTx_ne_panic parameters' fetchedUtxos' fault)
    · exact ⟨false, rfl⟩
    · exact ⟨true, rfl⟩

/-! ## A small server -/

/-- Parameters which lack nothing. -/
def sampleParams : PParams where
  minFeeCoefficient := 44
  minFeeConstant := 155381
  maxBlockBodySize := 90112
  maxTxSize := 16384
  maxBlockHeaderSize := 1100
  stakeKeyDeposit := 2000000
  poolDeposit := 500000000
  desiredNumberOfPools := 500
  protocolVersion := some (9, 0)
  minPoolCost := 170000000
  coinsPerUtxoByte := 4310
  costModels := some ⟨none, none, none⟩
  prices := some ⟨some ⟨577, 10000⟩, some ⟨721, 10000000⟩⟩
  maxExecutionUnitsPerTransaction := some ⟨14000000, 10000000000⟩
  maxExecutionUnitsPerBlock := some ⟨62000000, 20000000000⟩
  maxValueSize := 5000
  collateralPercentage := 150
  maxCollateralInputs := 3
  monetaryExpansion := some ⟨3, 1000⟩
  treasuryExpansion := some ⟨1, 5⟩
  poolInfluence := some ⟨3, 10⟩
  poolVotingThresholds := some (List.replicate 5 ⟨51, 100⟩)
  drepVotingThresholds := some (List.replicate 10 ⟨67, 100⟩)
  minCommitteeSize := 7
  committeeTermLimit := 146
  governanceActionValidityPeriod := 6
  governanceActionDeposit := 100000000000
  drepDeposit := 500000000
  drepInactivityPeriod := 20
  minFeeScriptRefCostPerByte := some ⟨15, 1⟩

/-- A server which has nothing but these. -/
def sampleServer : U5cServer where
  readTip := .ok (some ⟨100, List.replicate 32 0⟩)
  readUtxos _ := .ok []
  readParams := .ok (some ⟨some sampleParams⟩)

theorem sampleParams_complete : sampleParams.Complete where
  poolInfluence := rfl
  monetaryExpansion := rfl
  treasuryExpansion := rfl
  prices := ⟨_, rfl, rfl, rfl⟩
  costModels := rfl
  maxExecutionUnitsPerTransaction := rfl
  maxExecutionUnitsPerBlock := rfl
  poolVotingThresholds := ⟨_, rfl, by decide⟩
  drepVotingThresholds := ⟨_, rfl, by decide⟩
  minFeeScriptRefCostPerByte := rfl
  protocolVersion := rfl

theorem sampleServer_serves : sampleServer.Serves where
  tip := ⟨_, rfl, by decide⟩
  params := ⟨sampleParams, rfl, sampleParams_complete⟩
  utxos _ := ⟨[], rfl, by simp⟩

end Boros.Ledger
