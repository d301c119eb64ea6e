import Boros.Semantics.Effect

/-!
# Protocol parameters of a U5C server

`map_conway_pparams` of `src/ledger/u5c/mod.rs`. Protobuf message fields are optional, and
lists have any length; the mapping unwraps the former and indexes the latter.
`mapConwayPparams_isOk_iff` says which messages it does not panic on.
-/

namespace Boros.Ledger

open Boros.Semantics

/-- `RationalNumber` of U5C. -/
structure RationalNumber where
  numerator : Int32
  denominator : UInt32
deriving DecidableEq, Repr

/-- `primitives::RationalNumber`. -/
structure Rational where
  numerator : UInt64
  denominator : UInt64
deriving DecidableEq, Repr

/-- The numerator is cast with its sign extended. -/
def RationalNumber.toRational (value : RationalNumber) : Rational :=
  ⟨value.numerator.toInt64.toUInt64, value.denominator.toUInt64⟩

/-- `ExUnits`, of U5C and of pallas. -/
structure ExUnits where
  memory : UInt64
  steps : UInt64
deriving DecidableEq, Repr

/-- `ExPrices` of U5C. -/
structure ExPrices where
  memory : Option RationalNumber
  steps : Option RationalNumber
deriving DecidableEq, Repr

/-- `ExUnitPrices`. -/
structure ExUnitPrices where
  memPrice : Rational
  stepPrice : Rational
deriving DecidableEq, Repr

/-- `CostModels` of U5C, each the values of its `CostModel`. -/
structure CostModels where
  plutusV1 : Option (List Int64)
  plutusV2 : Option (List Int64)
  plutusV3 : Option (List Int64)
deriving DecidableEq, Repr

/-- `PoolVotingThresholds`. -/
structure PoolVotingThresholds where
  motionNoConfidence : Rational
  committeeNormal : Rational
  committeeNoConfidence : Rational
  hardForkInitiation : Rational
  securityVotingThreshold : Rational
deriving DecidableEq, Repr

/-- `DRepVotingThresholds`. -/
structure DRepVotingThresholds where
  motionNoConfidence : Rational
  committeeNormal : Rational
  committeeNoConfidence : Rational
  updateConstitution : Rational
  hardForkInitiation : Rational
  ppNetworkGroup : Rational
  ppEconomicGroup : Rational
  ppTechnicalGroup : Rational
  ppGovernanceGroup : Rational
  treasuryWithdrawal : Rational
deriving DecidableEq, Repr

/-- `PParams` of U5C. -/
structure PParams where
  minFeeCoefficient : UInt64
  minFeeConstant : UInt64
  maxBlockBodySize : UInt64
  maxTxSize : UInt64
  maxBlockHeaderSize : UInt64
  stakeKeyDeposit : UInt64
  poolDeposit : UInt64
  desiredNumberOfPools : UInt64
  protocolVersion : Option (UInt32 × UInt32)
  minPoolCost : UInt64
  coinsPerUtxoByte : UInt64
  costModels : Option CostModels
  prices : Option ExPrices
  maxExecutionUnitsPerTransaction : Option ExUnits
  maxExecutionUnitsPerBlock : Option ExUnits
  maxValueSize : UInt64
  collateralPercentage : UInt64
  maxCollateralInputs : UInt64
  monetaryExpansion : Option RationalNumber
  treasuryExpansion : Option RationalNumber
  poolInfluence : Option RationalNumber
  poolVotingThresholds : Option (List RationalNumber)
  drepVotingThresholds : Option (List RationalNumber)
  minCommitteeSize : UInt32
  committeeTermLimit : UInt64
  governanceActionValidityPeriod : UInt64
  governanceActionDeposit : UInt64
  drepDeposit : UInt64
  drepInactivityPeriod : UInt64
  minFeeScriptRefCostPerByte : Option RationalNumber
deriving DecidableEq, Repr

/-- `ConwayProtParams`. -/
structure ConwayProtParams where
  systemStart : String
  epochLength : UInt64
  slotLength : UInt64
  minfeeA : UInt32
  minfeeB : UInt32
  maxBlockBodySize : UInt32
  maxTransactionSize : UInt32
  maxBlockHeaderSize : UInt32
  keyDeposit : UInt64
  poolDeposit : UInt64
  desiredNumberOfStakePools : UInt32
  protocolVersion : UInt64 × UInt64
  minPoolCost : UInt64
  adaPerUtxoByte : UInt64
  costModelsForScriptLanguages : CostModels
  executionCosts : ExUnitPrices
  maxTxExUnits : ExUnits
  maxBlockExUnits : ExUnits
  maxValueSize : UInt32
  collateralPercentage : UInt32
  maxCollateralInputs : UInt32
  expansionRate : Rational
  treasuryGrowthRate : Rational
  maximumEpoch : UInt64
  poolPledgeInfluence : Rational
  poolVotingThresholds : PoolVotingThresholds
  drepVotingThresholds : DRepVotingThresholds
  minCommitteeSize : UInt64
  committeeTermLimit : UInt64
  governanceActionValidityPeriod : UInt64
  governanceActionDeposit : UInt64
  drepDeposit : UInt64
  drepInactivityPeriod : UInt64
  minfeeRefscriptCostPerByte : Rational
deriving DecidableEq, Repr

/-- `thresholds[index]`, which panics past the end. -/
def threshold (thresholds : List RationalNumber) (index : Nat) : Except Fault Rational :=
  match thresholds[index]? with
  | some value => .ok value.toRational
  | none => .error .index

/-- The field `pool_voting_thresholds`. -/
def mapPoolVotingThresholds (thresholds : List RationalNumber) :
    Except Fault PoolVotingThresholds := do
  let motionNoConfidence ← threshold thresholds 0
  let committeeNormal ← threshold thresholds 1
  let committeeNoConfidence ← threshold thresholds 2
  let hardForkInitiation ← threshold thresholds 3
  let securityVotingThreshold ← threshold thresholds 4
  return ⟨motionNoConfidence, committeeNormal, committeeNoConfidence, hardForkInitiation,
    securityVotingThreshold⟩

/-- The field `drep_voting_thresholds`. -/
def mapDRepVotingThresholds (thresholds : List RationalNumber) :
    Except Fault DRepVotingThresholds := do
  let motionNoConfidence ← threshold thresholds 0
  let committeeNormal ← threshold thresholds 1
  let committeeNoConfidence ← threshold thresholds 2
  let updateConstitution ← threshold thresholds 3
  let hardForkInitiation ← threshold thresholds 4
  let ppNetworkGroup ← threshold thresholds 5
  let ppEconomicGroup ← threshold thresholds 6
  let ppTechnicalGroup ← threshold thresholds 7
  let ppGovernanceGroup ← threshold thresholds 8
  let treasuryWithdrawal ← threshold thresholds 9
  return ⟨motionNoConfidence, committeeNormal, committeeNoConfidence, updateConstitution,
    hardForkInitiation, ppNetworkGroup, ppEconomicGroup, ppTechnicalGroup, ppGovernanceGroup,
    treasuryWithdrawal⟩

/-- The field `execution_costs`. -/
def mapPrices (prices : ExPrices) : Except Fault ExUnitPrices := do
  let memory ← unwrap prices.memory
  let steps ← unwrap prices.steps
  return ⟨memory.toRational, steps.toRational⟩

/-- `map_conway_pparams`. -/
def mapConwayPparams (params : PParams) : Except Fault ConwayProtParams := do
  let poolInfluence ← unwrap params.poolInfluence
  let monetaryExpansion ← unwrap params.monetaryExpansion
  let treasuryExpansion ← unwrap params.treasuryExpansion
  let executionCosts ← unwrap params.prices
  let costModels ← unwrap params.costModels
  let maxExecutionUnitsPerTransaction ← unwrap params.maxExecutionUnitsPerTransaction
  let maxExecutionUnitsPerBlock ← unwrap params.maxExecutionUnitsPerBlock
  let poolVotingThresholds ← unwrap params.poolVotingThresholds
  let drepVotingThresholds ← unwrap params.drepVotingThresholds
  let minFeeScriptRefCostPerByte ← unwrap params.minFeeScriptRefCostPerByte
  let proto ← unwrap params.protocolVersion
  let executionCosts ← mapPrices executionCosts
  let poolVotingThresholds ← mapPoolVotingThresholds poolVotingThresholds
  let drepVotingThresholds ← mapDRepVotingThresholds drepVotingThresholds
  return {
    systemStart := "2022-10-25T00:00:00Z"
    epochLength := 86400
    slotLength := 1
    minfeeA := params.minFeeCoefficient.toUInt32
    minfeeB := params.minFeeConstant.toUInt32
    maxBlockBodySize := params.maxBlockBodySize.toUInt32
    maxTransactionSize := params.maxTxSize.toUInt32
    maxBlockHeaderSize := params.maxBlockHeaderSize.toUInt32
    keyDeposit := params.stakeKeyDeposit
    poolDeposit := params.poolDeposit
    desiredNumberOfStakePools := params.desiredNumberOfPools.toUInt32
    protocolVersion := (proto.1.toUInt64, proto.2.toUInt64)
    minPoolCost := params.minPoolCost
    adaPerUtxoByte := params.coinsPerUtxoByte
    costModelsForScriptLanguages :=
      { plutusV1 := some (costModels.plutusV1.getD [])
        plutusV2 := some (costModels.plutusV2.getD [])
        plutusV3 := some (costModels.plutusV3.getD []) }
    executionCosts
    maxTxExUnits := maxExecutionUnitsPerTransaction
    maxBlockExUnits := maxExecutionUnitsPerBlock
    maxValueSize := params.maxValueSize.toUInt32
    collateralPercentage := params.collateralPercentage.toUInt32
    maxCollateralInputs := params.maxCollateralInputs.toUInt32
    expansionRate := monetaryExpansion.toRational
    treasuryGrowthRate := treasuryExpansion.toRational
    maximumEpoch := 18
    poolPledgeInfluence := poolInfluence.toRational
    poolVotingThresholds
    drepVotingThresholds
    minCommitteeSize := params.minCommitteeSize.toUInt64
    committeeTermLimit := params.committeeTermLimit
    governanceActionValidityPeriod := params.governanceActionValidityPeriod
    governanceActionDeposit := params.governanceActionDeposit
    drepDeposit := params.drepDeposit
    drepInactivityPeriod := params.drepInactivityPeriod
    minfeeRefscriptCostPerByte := minFeeScriptRefCostPerByte.toRational }

/-- The message has every field which the mapping unwraps, and enough thresholds. -/
structure PParams.Complete (params : PParams) : Prop where
  poolInfluence : params.poolInfluence.isSome
  monetaryExpansion : params.monetaryExpansion.isSome
  treasuryExpansion : params.treasuryExpansion.isSome
  prices : ∃ prices, params.prices = some prices ∧ prices.memory.isSome ∧ prices.steps.isSome
  costModels : params.costModels.isSome
  maxExecutionUnitsPerTransaction : params.maxExecutionUnitsPerTransaction.isSome
  maxExecutionUnitsPerBlock : params.maxExecutionUnitsPerBlock.isSome
  poolVotingThresholds : ∃ thresholds, params.poolVotingThresholds = some thresholds ∧
    5 ≤ thresholds.length
  drepVotingThresholds : ∃ thresholds, params.drepVotingThresholds = some thresholds ∧
    10 ≤ thresholds.length
  minFeeScriptRefCostPerByte : params.minFeeScriptRefCostPerByte.isSome
  protocolVersion : params.protocolVersion.isSome

theorem threshold_isOk_iff {thresholds : List RationalNumber} {index : Nat} :
    (∃ value, threshold thresholds index = .ok value) ↔ index < thresholds.length := by
  unfold threshold
  split
  · rename_i value found
    obtain ⟨bound, _⟩ := List.getElem?_eq_some_iff.mp found
    simp [bound]
  · rename_i missing
    simp [Nat.not_lt.mpr (List.getElem?_eq_none_iff.mp missing)]

theorem mapPrices_isOk_iff {prices : ExPrices} :
    (∃ mapped, mapPrices prices = .ok mapped) ↔
      prices.memory.isSome = true ∧ prices.steps.isSome = true := by
  simp only [mapPrices, except_bind_isOk_iff]
  simp only [pure, Except.pure, Except.ok.injEq, exists_eq', and_true, exists_and_right,
    unwrap_ok_iff, ← Option.isSome_iff_exists]

theorem mapPoolVotingThresholds_isOk_iff {thresholds : List RationalNumber} :
    (∃ mapped, mapPoolVotingThresholds thresholds = .ok mapped) ↔ 5 ≤ thresholds.length := by
  simp only [mapPoolVotingThresholds, except_bind_isOk_iff]
  simp only [pure, Except.pure, Except.ok.injEq, exists_eq', and_true, exists_and_right,
    threshold_isOk_iff]
  omega

theorem mapDRepVotingThresholds_isOk_iff {thresholds : List RationalNumber} :
    (∃ mapped, mapDRepVotingThresholds thresholds = .ok mapped) ↔ 10 ≤ thresholds.length := by
  simp only [mapDRepVotingThresholds, except_bind_isOk_iff]
  simp only [pure, Except.pure, Except.ok.injEq, exists_eq', and_true, exists_and_right,
    threshold_isOk_iff]
  omega

/-- The mapping panics on every message which lacks something, and on no other. -/
theorem mapConwayPparams_isOk_iff {params : PParams} :
    (∃ mapped, mapConwayPparams params = .ok mapped) ↔ params.Complete := by
  simp only [mapConwayPparams, except_bind_isOk_iff]
  simp only [pure, Except.pure, Except.ok.injEq, exists_eq', and_true, exists_and_right,
    mapPrices_isOk_iff, mapPoolVotingThresholds_isOk_iff, mapDRepVotingThresholds_isOk_iff,
    unwrap_ok_iff, ← Option.isSome_iff_exists]
  constructor
  · rintro ⟨poolInfluence, monetaryExpansion, treasuryExpansion, prices, hasPrices, costModels,
      transaction, block, pool, hasPool, drep, hasDrep, minFee, protocolVersion, priced,
      poolLength, drepLength⟩
    exact {
      poolInfluence
      monetaryExpansion
      treasuryExpansion
      prices := ⟨prices, hasPrices, priced⟩
      costModels
      maxExecutionUnitsPerTransaction := transaction
      maxExecutionUnitsPerBlock := block
      poolVotingThresholds := ⟨pool, hasPool, poolLength⟩
      drepVotingThresholds := ⟨drep, hasDrep, drepLength⟩
      minFeeScriptRefCostPerByte := minFee
      protocolVersion }
  · intro complete
    obtain ⟨prices, hasPrices, priced⟩ := complete.prices
    obtain ⟨pool, hasPool, poolLength⟩ := complete.poolVotingThresholds
    obtain ⟨drep, hasDrep, drepLength⟩ := complete.drepVotingThresholds
    exact ⟨complete.poolInfluence, complete.monetaryExpansion, complete.treasuryExpansion, prices,
      hasPrices, complete.costModels, complete.maxExecutionUnitsPerTransaction,
      complete.maxExecutionUnitsPerBlock, pool, hasPool, drep, hasDrep,
      complete.minFeeScriptRefCostPerByte, complete.protocolVersion, priced, poolLength,
      drepLength⟩

end Boros.Ledger
