import Boros.Ledger.U5c

/-!
# Validation against the ledger

`src/validation/mod.rs`. What the code takes from the Cardano library pallas is
the parameter `Pallas`; what the calls to the U5C server come to is the
parameter `U5cDataAdapter`, one value for each time a function makes them.
-/

namespace Boros.Ledger

open Boros.Data Boros.Semantics

/-- `pallas::ledger::traverse::Era`. -/
inductive Era where
  | byron
  | shelley
  | allegra
  | mary
  | alonzo
  | babbage
  | conway
deriving DecidableEq, Repr

/-- A reference to a transaction output. -/
abbrev TxoRef := Hash32 × UInt32

/-- `EraCbor`: an encoded output and the era it is decoded for. -/
structure EraCbor where
  era : Era
  cbor : Bytes
deriving DecidableEq, Repr

/-- `Environment`. The account state, always the default one, is left out. -/
structure Environment (ProtocolParameters : Type) where
  protParams : ProtocolParameters
  protMagic : UInt32
  blockSlot : UInt64
  networkId : UInt8

/-- What is used of pallas. -/
structure Pallas where
  MultiEraTx : Type
  MultiEraOutput : Type
  /-- `MultiEraProtocolParameters`. -/
  ProtocolParameters : Type
  EvalReport : Type
  /-- `MultiEraTx::decode`. -/
  decode : Bytes → Option MultiEraTx
  hash : MultiEraTx → Hash32
  era : MultiEraTx → Era
  requires : MultiEraTx → List (Hash32 × UInt64)
  /-- `MultiEraOutput::try_from`. -/
  decodeOutput : EraCbor → Except String MultiEraOutput
  /-- The network id of `GenesisValues::from_magic`. -/
  networkId : UInt64 → Option UInt8
  /-- `phase1::validate_tx`. -/
  phase1 : MultiEraTx → Environment ProtocolParameters → List (TxoRef × MultiEraOutput) →
    Except String Unit
  /-- `phase2::evaluate_tx`. -/
  phase2 : MultiEraTx → ProtocolParameters → List (TxoRef × EraCbor) → Except String EvalReport

/-- `dyn U5cDataAdapter`: what each of its calls comes to. -/
structure U5cDataAdapter (pallas : Pallas) where
  fetchTip : Except (Abort String) Point
  fetchPparams : Era → Except (Abort String) pallas.ProtocolParameters
  fetchUtxos : List TxoRef → Era → Except (Abort String) (List (TxoRef × EraCbor))

/-- Why a transaction was not accepted; `anyhow::Error` keeps them apart by their
text only. -/
inductive ValidationError where
  | adapter (cause : String)
  | output (cause : String)
  | phase1 (cause : String)
  | phase2 (cause : String)
deriving DecidableEq, Repr

/-- `?` on a call of the adapter. -/
def fetched {α : Type} : Except (Abort String) α → Except (Abort ValidationError) α
  | .ok value => .ok value
  | .error (.error cause) => .error (.error (.adapter cause))
  | .error (.panic fault) => .error (.panic fault)

/-- `?` on an error of pallas. -/
def rejected {α : Type} (reason : String → ValidationError) :
    Except String α → Except (Abort ValidationError) α
  | .ok value => .ok value
  | .error cause => .error (.error (reason cause))

/-- The network which transactions are validated for. -/
def networkMagic : UInt32 := 2

variable {pallas : Pallas}

/-- `input_refs`. -/
def inputRefs (tx : pallas.MultiEraTx) : List TxoRef :=
  (pallas.requires tx).map fun input => (input.1, input.2.toUInt32)

/-- One entry of `pallas_utxos`. -/
def decodeUtxo (pallas : Pallas) (utxo : TxoRef × EraCbor) :
    Except (Abort ValidationError) (TxoRef × pallas.MultiEraOutput) := do
  let output ← rejected .output (pallas.decodeOutput utxo.2)
  return (utxo.1, output)

/-- `validate_tx`. -/
def validateTx (adapter : U5cDataAdapter pallas) (tx : pallas.MultiEraTx) :
    Except (Abort ValidationError) Unit := do
  let (blockSlot, blockHash) ← fetched adapter.fetchTip
  -- `try_into().unwrap()` panics on a tip hash of another length.
  if blockHash.length ≠ 32 then throw (.panic .unwrap)
  let era := pallas.era tx
  let pparams ← fetched (adapter.fetchPparams era)
  let networkId ← orPanic (unwrap (pallas.networkId networkMagic.toUInt64))
  let env : Environment pallas.ProtocolParameters := ⟨pparams, networkMagic, blockSlot, networkId⟩
  let utxos ← fetched (adapter.fetchUtxos (inputRefs tx) era)
  let pallasUtxos ← utxos.mapM (decodeUtxo pallas)
  rejected .phase1 (pallas.phase1 tx env pallasUtxos)

/-- `evaluate_tx`. -/
def evaluateTx (adapter : U5cDataAdapter pallas) (tx : pallas.MultiEraTx) :
    Except (Abort ValidationError) pallas.EvalReport := do
  let era := pallas.era tx
  let pparams ← fetched (adapter.fetchPparams era)
  let utxos ← fetched (adapter.fetchUtxos (inputRefs tx) era)
  rejected .phase2 (pallas.phase2 tx pparams utxos)

/-- Whether `validate_tx` and then `evaluate_tx` accept a transaction; each is
asked with the adapter's answers at its own time. -/
def isValid (validation evaluation : U5cDataAdapter pallas) (tx : pallas.MultiEraTx) :
    Except Fault Bool :=
  match validateTx validation tx with
  | .error (.panic fault) => .error fault
  | .error (.error _) => .ok false
  | .ok () =>
    match evaluateTx evaluation tx with
    | .error (.panic fault) => .error fault
    | .error (.error _) => .ok false
    | .ok _ => .ok true

/-! ## A small ledger

Its transactions are single bytes and all valid; the hash of one is its byte,
repeated. -/

/-- A library for transactions of one byte. -/
def samplePallas : Pallas where
  MultiEraTx := UInt8
  MultiEraOutput := Unit
  ProtocolParameters := Unit
  EvalReport := Unit
  decode
    | [byte] => some byte
    | _ => none
  hash byte := ⟨List.replicate 32 byte, by simp⟩
  era _ := .conway
  requires _ := []
  decodeOutput _ := .ok ()
  networkId _ := some 0
  phase1 _ _ _ := .ok ()
  phase2 _ _ _ := .ok ()

def sampleTip : Point := (100, List.replicate 32 0)

/-- A server which answers every call. -/
def sampleAdapter : U5cDataAdapter samplePallas where
  fetchTip := .ok sampleTip
  fetchPparams _ := .ok ()
  fetchUtxos _ _ := .ok []

end Boros.Ledger
