import Boros.Data.Record
import Boros.Server.Submit

/-!
# The messages of the submit service as JSON

`spec/gen/rust/src/boros.v1.submit.serde.rs`. A document is what `serde_json` hands on of it: an
object is the list of its entries as they come, with those which are repeated. The five messages
differ in their fields, and in what is left out of them.
-/

namespace Boros.Server.Messages

open Boros.Data Boros.Semantics

/-- A JSON document; the text of a number is not looked at. -/
inductive Json where
  | null
  | bool (value : Bool)
  | number (text : String)
  | string (value : String)
  | array (items : List Json)
  | object (entries : List (String × Json))

/-- Why a document is not a message. -/
inductive JsonError where
  /-- `serde::de::Error::unknown_field`, with `FIELDS`. -/
  | unknownField (field : String) (expected : List String)
  | duplicateField (field : String)
  /-- The document is no object, where the named struct was expected. -/
  | invalidType (expected : String)
  /-- The value of a field is of another type. -/
  | invalidValue
  /-- The text of some bytes does not decode. -/
  | base64
deriving DecidableEq, Repr

/-- `pbjson::private::base64`, and `BytesDeserialize`. -/
structure Base64 where
  encode : Bytes → String
  decode : String → Option Bytes
  decode_encode : ∀ bytes, decode (encode bytes) = some bytes

/-! ## Values -/

def readString : Json → Except JsonError String
  | .string value => .ok value
  | _ => .error .invalidValue

def readBytes (base64 : Base64) : Json → Except JsonError Bytes
  | .string value =>
    match base64.decode value with
    | some bytes => .ok bytes
    | none => .error .base64
  | _ => .error .invalidValue

def readVec {α : Type} (read : Json → Except JsonError α) : Json → Except JsonError (List α)
  | .array items => items.mapM read
  | _ => .error .invalidValue

/-- `Some(map_.next_value()?)`. -/
def readSome {α : Type} (read : Json → Except JsonError α) (json : Json) :
    Except JsonError (Option α) :=
  (read json).map some

/-- `map_.next_value()?` of an `Option`. -/
def readOption {α : Type} (read : Json → Except JsonError α) : Json → Except JsonError (Option α)
  | .null => .ok none
  | json => (read json).map some

/-- A value which is left out where it is empty. -/
def filled {α : Type} [DecidableEq α] (empty value : α) : Option α :=
  if value = empty then none else some value

/-! ## Messages -/

/-- How a message is written and read. -/
structure Format (Message : Type) where
  schema : Schema Json JsonError
  /-- The fields in the order in which they are written. -/
  fields : List schema.Field
  fieldName : schema.Field → String
  typeName : String
  write : Message → schema.Field → Option Json
  build : schema.Slots → Message

variable {Message : Type}

/-- `Serialize::serialize`. -/
def Format.serialize (format : Format Message) (message : Message) : Json :=
  .object (format.schema.write format.fields format.fieldName (format.write message))

/-- `Deserialize::deserialize`. -/
def Format.deserialize (format : Format Message) : Json → Except JsonError Message
  | .object entries => (format.schema.visit format.schema.empty entries).map format.build
  | _ => .error (.invalidType format.typeName)

structure SubmitTxRequest where
  tx : List TxRequest
deriving DecidableEq, Repr

structure SubmitTxResponse where
  ref : List Bytes
deriving DecidableEq, Repr

structure LockStateRequest where
  queue : String
deriving DecidableEq, Repr

structure LockStateResponse where
  lockToken : String
  cbor : Option Bytes
deriving DecidableEq, Repr

/-- The fields of `Tx`. -/
inductive TxField where
  | raw
  | queue
  | lockToken
deriving DecidableEq, Repr

def TxField.Value : TxField → Type
  | .raw => Bytes
  | .queue | .lockToken => String

/-- The fields of `LockStateResponse`. -/
inductive LockStateField where
  | lockToken
  | cbor
deriving DecidableEq, Repr

def LockStateField.Value : LockStateField → Type
  | .lockToken => String
  | .cbor => Bytes

variable (base64 : Base64)

/-- `Tx`. -/
def txFormat : Format TxRequest where
  schema :=
    { Field := TxField
      decEq := inferInstance
      Value := TxField.Value
      ofName := fun
        | "raw" => some .raw
        | "queue" => some .queue
        | "lockToken" | "lock_token" => some .lockToken
        | _ => none
      read := fun
        | .raw => readSome (readBytes base64)
        | .queue | .lockToken => readOption readString
      unknown := fun field =>
        .unknownField field ["raw", "queue", "lock_token", "lockToken"]
      duplicate := fun
        | .raw => .duplicateField "raw"
        | .queue => .duplicateField "queue"
        | .lockToken => .duplicateField "lockToken" }
  fields := [.raw, .queue, .lockToken]
  fieldName := fun
    | .raw => "raw"
    | .queue => "queue"
    | .lockToken => "lockToken"
  typeName := "struct boros.v1.submit.Tx"
  write tx := fun
    | .raw => (filled [] tx.raw).map fun raw => .string (base64.encode raw)
    | .queue => tx.queue.map .string
    | .lockToken => tx.lockToken.map .string
  build slots := ⟨(slots .raw).getD [], slots .queue, slots .lockToken⟩

/-- A message of one field, which is left out where it is empty. -/
def single {Value Message : Type} [DecidableEq Value] (name typeName : String) (empty : Value)
    (read : Json → Except JsonError Value) (write : Value → Json) (get : Message → Value)
    (make : Value → Message) : Format Message where
  schema :=
    { Field := Unit
      decEq := inferInstance
      Value := fun _ => Value
      ofName := fun field => if field = name then some () else none
      read := fun _ => readSome read
      unknown := fun field => .unknownField field [name]
      duplicate := fun _ => .duplicateField name }
  fields := [()]
  fieldName := fun _ => name
  typeName
  write message := fun _ => (filled empty (get message)).map write
  build slots := make ((slots ()).getD empty)

def submitTxRequestFormat : Format SubmitTxRequest :=
  single "tx" "struct boros.v1.submit.SubmitTxRequest" []
    (readVec (txFormat base64).deserialize)
    (fun tx => .array (tx.map (txFormat base64).serialize)) (·.tx) (⟨·⟩)

def submitTxResponseFormat : Format SubmitTxResponse :=
  single "ref" "struct boros.v1.submit.SubmitTxResponse" [] (readVec (readBytes base64))
    (fun ref => .array (ref.map fun hash => .string (base64.encode hash))) (·.ref) (⟨·⟩)

def lockStateRequestFormat : Format LockStateRequest :=
  single "queue" "struct boros.v1.submit.LockStateRequest" "" readString .string (·.queue) (⟨·⟩)

/-- `LockStateResponse`. -/
def lockStateResponseFormat : Format LockStateResponse where
  schema :=
    { Field := LockStateField
      decEq := inferInstance
      Value := LockStateField.Value
      ofName := fun
        | "lockToken" | "lock_token" => some .lockToken
        | "cbor" => some .cbor
        | _ => none
      read := fun
        | .lockToken => readSome readString
        | .cbor => readOption (readBytes base64)
      unknown := fun field => .unknownField field ["lock_token", "lockToken", "cbor"]
      duplicate := fun
        | .lockToken => .duplicateField "lockToken"
        | .cbor => .duplicateField "cbor" }
  fields := [.lockToken, .cbor]
  fieldName := fun
    | .lockToken => "lockToken"
    | .cbor => "cbor"
  typeName := "struct boros.v1.submit.LockStateResponse"
  write message := fun
    | .lockToken => (filled "" message.lockToken).map .string
    | .cbor => message.cbor.map fun bytes => .string (base64.encode bytes)
  build slots := ⟨(slots .lockToken).getD "", slots .cbor⟩

/-- The five messages. -/
inductive Kind where
  | tx
  | submitTxRequest
  | submitTxResponse
  | lockStateRequest
  | lockStateResponse
deriving DecidableEq, Repr

/-- The type of a message. -/
def Kind.Content : Kind → Type
  | .tx => TxRequest
  | .submitTxRequest => SubmitTxRequest
  | .submitTxResponse => SubmitTxResponse
  | .lockStateRequest => LockStateRequest
  | .lockStateResponse => LockStateResponse

def Kind.format : (kind : Kind) → Format kind.Content
  | .tx => txFormat base64
  | .submitTxRequest => submitTxRequestFormat base64
  | .submitTxResponse => submitTxResponseFormat base64
  | .lockStateRequest => lockStateRequestFormat
  | .lockStateResponse => lockStateResponseFormat base64

/-! ## What is accepted -/

theorem Format.deserialize_ok_iff {format : Format Message} {json : Json} {message : Message} :
    format.deserialize json = .ok message ↔ ∃ entries slots, json = .object entries ∧
      format.schema.visit format.schema.empty entries = .ok slots ∧
      format.build slots = message := by
  constructor
  · intro read
    cases json with
    | object entries =>
        cases visited : format.schema.visit format.schema.empty entries with
        | error cause =>
            rw [deserialize, visited] at read
            cases read
        | ok slots =>
            rw [deserialize, visited] at read
            exact ⟨entries, slots, rfl, visited, Except.ok.inj read⟩
    | _ => cases read
  · rintro ⟨entries, slots, rfl, visited, rfl⟩
    rw [deserialize, visited]
    rfl

/-- A document is a message if all its entries are those of fields, and each field is read from
its own entries, of which all but the last have no value. -/
theorem accepted_iff {base64 : Base64} {kind : Kind} {json : Json} {message : kind.Content} :
    (kind.format base64).deserialize json = .ok message ↔ ∃ entries slots,
      json = .object entries ∧ (kind.format base64).schema.Known entries ∧
      (∀ field, Schema.Fills ((kind.format base64).schema.read field)
        ((kind.format base64).schema.occurrences field entries) (slots field)) ∧
      (kind.format base64).build slots = message := by
  rw [Format.deserialize_ok_iff]
  constructor
  · rintro ⟨entries, slots, isObject, visited, built⟩
    obtain ⟨known, filled⟩ := Schema.visit_ok_iff.mp visited
    exact ⟨entries, slots, isObject, known, fun field => Schema.fill_ok_iff.mp (filled field),
      built⟩
  · rintro ⟨entries, slots, isObject, known, fills, built⟩
    refine ⟨entries, slots, isObject, Schema.visit_ok_iff.mpr ⟨known, fun field => ?_⟩, built⟩
    exact Schema.fill_ok_iff.mpr (fills field)

/-! ## Reading back -/

/-- What it takes for a message to be read as it was written. -/
structure Format.Lawful (format : Format Message) (slots : Message → format.schema.Slots) :
    Prop where
  named : ∀ field, format.schema.ofName (format.fieldName field) = some field
  distinct : format.fields.Nodup
  complete : ∀ field, field ∈ format.fields
  readsBack : ∀ message field, Schema.ReadsBack (format.schema.read field)
    (format.write message field) (slots message field)
  build_slots : ∀ message, format.build (slots message) = message

end Boros.Server.Messages
