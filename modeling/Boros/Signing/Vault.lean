import Boros.Ledger.Validation

/-!
# Signing with the server key

`src/signing/key/sign.rs` and `src/signing/hashicorp.rs`. What is used of pallas's transaction
builder, of the JSON library and of the key derivation is the parameter `TxBuilder`. A failing
builder is not an error of `sign` but a panic.
-/

namespace Boros.Signing

open Boros.Data Boros.Semantics Boros.Ledger

/-- `SigningError`. -/
inductive SigningError where
  | client (cause : String)
  | config (cause : String)
  | secretNotFound (cause : String)
  | deserialization (cause : String)
  | decoding (cause : String)
deriving DecidableEq, Repr

/-- `Display`. -/
def SigningError.display : SigningError → String
  | .client cause => "Vault client error: " ++ cause
  | .config cause => "Configuration error: " ++ cause
  | .secretNotFound cause => "Secret not found error: " ++ cause
  | .deserialization cause => "Deserialization error: " ++ cause
  | .decoding cause => "Decoding error: " ++ cause

/-- `BuiltTransaction`; its version, era and status are one field. -/
structure BuiltTransaction (Kind Signatures : Type) where
  kind : Kind
  txHash : Hash32
  txBytes : Bytes
  signatures : Option Signatures

/-- What is used of pallas's transaction builder, of bip39 and of serde_json. -/
structure TxBuilder (pallas : Pallas) where
  Kind : Type
  Signatures : Type
  SecretKey : Type
  Mnemonic : Type
  /-- `serde_json::Value`. -/
  Value : Type
  /-- `MultiEraTx::encode`. -/
  encode : pallas.MultiEraTx → Bytes
  /-- The text of the error of `MultiEraTx::decode`. -/
  decodeError : Bytes → String
  /-- `build_conway_raw` of an empty staging transaction. -/
  buildConwayRaw : Except String (BuiltTransaction Kind Signatures)
  /-- `BuiltTransaction::sign`. -/
  sign : BuiltTransaction Kind Signatures → SecretKey →
    Except String (BuiltTransaction Kind Signatures)
  /-- The secret key of `get_ed25519_keypair`. -/
  secretKey : Mnemonic → SecretKey
  /-- `serde_json::from_value`. -/
  fromValue : Value → Except String Mnemonic

/-- The fields of `signing::Config` which are used to sign. -/
structure Config where
  path : String
  key : String
deriving DecidableEq, Repr

variable {pallas : Pallas} (builder : TxBuilder pallas)

/-- `to_built_transaction`. -/
def toBuiltTransaction (tx : pallas.MultiEraTx) :
    Except Fault (BuiltTransaction builder.Kind builder.Signatures) :=
  match builder.buildConwayRaw with
  | .ok builtTx => .ok ⟨builtTx.kind, pallas.hash tx, builder.encode tx, none⟩
  | .error _ => .error .unwrap

/-- `sign_transaction`. -/
def signTransaction (builtTx : BuiltTransaction builder.Kind builder.Signatures)
    (mnemonic : builder.Mnemonic) :
    Except Fault (BuiltTransaction builder.Kind builder.Signatures) :=
  match builder.sign builtTx (builder.secretKey mnemonic) with
  | .ok tx => .ok tx
  | .error _ => .error .explicit

/-- `get_mnemonic`, where `read` is what `kv2::read` comes to: the values of the secret. -/
def getMnemonic (read : String → Except String (List (String × builder.Value))) (config : Config) :
    Except SigningError builder.Mnemonic :=
  match read config.path with
  | .error cause => .error (.client cause)
  | .ok values =>
    match values.lookup config.key with
    | none => .error (.secretNotFound ("Key " ++ config.key ++ " not found in secret"))
    | some value =>
      match builder.fromValue value with
      | .error cause => .error (.deserialization cause)
      | .ok mnemonic => .ok mnemonic

/-- `HashicorpVaultClient::sign`. -/
def sign (read : String → Except String (List (String × builder.Value))) (config : Config)
    (data : Bytes) : Except (Abort SigningError) Bytes := do
  let mnemonic ← orFail (getMnemonic builder read config)
  match pallas.decode data with
  | none =>
    throw (.error (.decoding ("Failed to decode transaction: " ++ builder.decodeError data)))
  | some metx =>
    let builtTx ← orPanic (toBuiltTransaction builder metx)
    let signedTx ← orPanic (signTransaction builder builtTx mnemonic)
    return signedTx.txBytes

/-- `sign`, once it has the mnemonic. -/
def signWith (mnemonic : builder.Mnemonic) (data : Bytes) : Except (Abort SigningError) Bytes :=
  match pallas.decode data with
  | none =>
    throw (.error (.decoding ("Failed to decode transaction: " ++ builder.decodeError data)))
  | some metx => do
    let builtTx ← orPanic (toBuiltTransaction builder metx)
    let signedTx ← orPanic (signTransaction builder builtTx mnemonic)
    return signedTx.txBytes

/-- The same with the error as text. -/
def signer (read : String → Except String (List (String × builder.Value))) (config : Config)
    (data : Bytes) : Except (Abort String) Bytes :=
  match sign builder read config data with
  | .ok raw => .ok raw
  | .error (.error cause) => .error (.error cause.display)
  | .error (.panic fault) => .error (.panic fault)

/-- What the code relies on: a Conway transaction can be signed, and stays one; and no other
transaction can be signed. -/
structure TxBuilder.Lawful : Prop where
  builds : ∃ builtTx, builder.buildConwayRaw = .ok builtTx
  signs : ∀ metx builtTx key, pallas.era metx = .conway →
    toBuiltTransaction builder metx = .ok builtTx →
      ∃ signedTx signed, builder.sign builtTx key = .ok signedTx ∧
        pallas.decode signedTx.txBytes = some signed ∧ pallas.era signed = .conway
  refuses : ∀ metx builtTx key, pallas.era metx ≠ .conway →
    toBuiltTransaction builder metx = .ok builtTx → ∃ cause, builder.sign builtTx key = .error cause

variable {builder} {read : String → Except String (List (String × builder.Value))}
  {config : Config} {mnemonic : builder.Mnemonic} {data : Bytes} {metx : pallas.MultiEraTx}

/-- What is signed depends on the mnemonic and the bytes only. -/
theorem sign_eq :
    sign builder read config data = (do
      let mnemonic ← orFail (getMnemonic builder read config)
      signWith builder mnemonic data) := rfl

/-- Bytes are signed only with a mnemonic from the vault. -/
theorem signer_ok {raw : Bytes} (success : signer builder read config data = .ok raw) :
    ∃ mnemonic, getMnemonic builder read config = .ok mnemonic ∧
      signWith builder mnemonic data = .ok raw := by
  unfold signer at success
  split at success
  · rename_i raw' signed
    cases success
    rw [sign_eq, except_bind_ok_iff] at signed
    obtain ⟨mnemonic, found, rest⟩ := signed
    exact ⟨mnemonic, orFail_ok_iff.mp found, rest⟩
  · cases success
  · cases success

/-- Every transaction is staged. -/
theorem toBuiltTransaction_isOk (lawful : builder.Lawful) (metx : pallas.MultiEraTx) :
    ∃ builtTx, toBuiltTransaction builder metx = .ok builtTx := by
  obtain ⟨staged, builds⟩ := lawful.builds
  exact ⟨⟨staged.kind, pallas.hash metx, builder.encode metx, none⟩,
    by simp only [toBuiltTransaction, builds]⟩

/-- A signed Conway transaction is one again. -/
theorem signer_of_conway (lawful : builder.Lawful)
    (found : getMnemonic builder read config = .ok mnemonic)
    (decoded : pallas.decode data = some metx) (era : pallas.era metx = .conway) :
    ∃ raw signed, signer builder read config data = .ok raw ∧ pallas.decode raw = some signed ∧
      pallas.era signed = .conway := by
  obtain ⟨builtTx, built⟩ := toBuiltTransaction_isOk lawful metx
  obtain ⟨signedTx, signed, success, redecoded, again⟩ :=
    lawful.signs metx builtTx (builder.secretKey mnemonic) era built
  refine ⟨signedTx.txBytes, signed, ?_, redecoded, again⟩
  simp [signer, sign, found, decoded, built, signTransaction, success, orFail, orPanic, bind,
    Except.bind, pure, Except.pure]

/-- Any other transaction makes it panic. -/
theorem signer_of_other (lawful : builder.Lawful)
    (found : getMnemonic builder read config = .ok mnemonic)
    (decoded : pallas.decode data = some metx) (era : pallas.era metx ≠ .conway) :
    signer builder read config data = .error (.panic .explicit) := by
  obtain ⟨builtTx, built⟩ := toBuiltTransaction_isOk lawful metx
  obtain ⟨cause, refused⟩ := lawful.refuses metx builtTx (builder.secretKey mnemonic) era built
  simp [signer, sign, found, decoded, built, signTransaction, refused, orFail, orPanic, bind,
    Except.bind]

/-- Whatever is signed is a Conway transaction, before and after. -/
theorem conway_of_signer {raw : Bytes} (lawful : builder.Lawful)
    (success : signer builder read config data = .ok raw) :
    ∃ signed, pallas.decode raw = some signed ∧ pallas.era signed = .conway := by
  cases found : getMnemonic builder read config with
  | error cause => simp [signer, sign, found, orFail, bind, Except.bind] at success
  | ok mnemonic =>
      cases decoded : pallas.decode data with
      | none =>
          simp [signer, sign, found, decoded, orFail, bind, Except.bind, throw, throwThe,
            MonadExceptOf.throw] at success
      | some metx =>
          by_cases era : pallas.era metx = .conway
          · obtain ⟨raw', signed, same, redecoded, again⟩ :=
              signer_of_conway lawful found decoded era
            rw [same] at success
            cases success
            exact ⟨signed, redecoded, again⟩
          · rw [signer_of_other lawful found decoded era] at success
            cases success

/-! ## Witnesses -/

/-- What the code relies on: a transaction has a list of vkey witnesses, and signing it appends
one with the public key. -/
structure TxBuilder.Witnesses (builder : TxBuilder pallas) where
  PublicKey : Type
  decEq : DecidableEq PublicKey
  publicKey : builder.SecretKey → PublicKey
  /-- The keys of the vkey witnesses, in their order. -/
  vkeys : pallas.MultiEraTx → List PublicKey
  appends : ∀ metx builtTx key signedTx, toBuiltTransaction builder metx = .ok builtTx →
    builder.sign builtTx key = .ok signedTx → ∃ signed,
      pallas.decode signedTx.txBytes = some signed ∧ vkeys signed = vkeys metx ++ [publicKey key]

instance (witnesses : builder.Witnesses) : DecidableEq witnesses.PublicKey := witnesses.decEq

/-- How many witnesses of the server key a transaction has. -/
def TxBuilder.Witnesses.ofServer (witnesses : builder.Witnesses) (mnemonic : builder.Mnemonic)
    (raw : Bytes) : Nat :=
  match pallas.decode raw with
  | some metx => (witnesses.vkeys metx).count (witnesses.publicKey (builder.secretKey mnemonic))
  | none => 0

/-- Signing adds one witness of the server key. -/
theorem TxBuilder.Witnesses.ofServer_signWith (witnesses : builder.Witnesses) {raw : Bytes}
    (success : signWith builder mnemonic data = .ok raw) :
    witnesses.ofServer mnemonic raw = witnesses.ofServer mnemonic data + 1 := by
  unfold signWith at success
  split at success
  · cases success
  · rename_i metx decoded
    simp only [except_bind_ok_iff, orPanic_ok_iff] at success
    obtain ⟨builtTx, built, signedTx, signs, produced⟩ := success
    cases produced
    unfold signTransaction at signs
    split at signs
    · rename_i tx signed
      cases signs
      obtain ⟨result, redecoded, keys⟩ := witnesses.appends metx builtTx _ _ built signed
      rw [ofServer, ofServer, redecoded, decoded]
      simp only [keys, List.count_append, List.count_singleton_self]
    · cases signs

/-! ## The hash -/

/-- What the code relies on: a transaction's hash is that of its body, and signing it leaves the
body as it is. -/
def TxBuilder.KeepsHash (builder : TxBuilder pallas) : Prop :=
  ∀ metx builtTx key signedTx, toBuiltTransaction builder metx = .ok builtTx →
    builder.sign builtTx key = .ok signedTx → ∃ signed,
      pallas.decode signedTx.txBytes = some signed ∧ pallas.hash signed = pallas.hash metx

/-- What is signed has the hash of what was to be signed. -/
theorem TxBuilder.KeepsHash.signWith (keepsHash : builder.KeepsHash) {raw : Bytes}
    (success : signWith builder mnemonic data = .ok raw) (decoded : pallas.decode data = some metx) :
    ∃ signed, pallas.decode raw = some signed ∧ pallas.hash signed = pallas.hash metx := by
  simp only [Signing.signWith, decoded, except_bind_ok_iff, orPanic_ok_iff] at success
  obtain ⟨builtTx, built, signedTx, signs, produced⟩ := success
  cases produced
  unfold signTransaction at signs
  split at signs
  · rename_i tx signed
    cases signs
    exact keepsHash metx builtTx _ _ built signed
  · cases signs

/-! ## A small builder

Its transactions are of two eras, the first byte, and carry the keys which witness them. -/

/-- A library for transactions of the eras Alonzo and Conway. -/
def eraPallas : Pallas where
  MultiEraTx := Bool × List UInt8
  MultiEraOutput := Unit
  ProtocolParameters := Unit
  EvalReport := Unit
  decode
    | 0 :: witnesses => some (false, witnesses)
    | 1 :: witnesses => some (true, witnesses)
    | _ => none
  hash tx := ⟨List.replicate 32 (if tx.1 then 1 else 0), by simp⟩
  era tx := if tx.1 then .conway else .alonzo
  requires _ := []
  decodeOutput _ := .ok ()
  networkId _ := some 0
  phase1 _ _ _ := .ok ()
  phase2 _ _ _ := .ok ()

/-- It signs with the key 7, which every mnemonic gives. -/
def sampleBuilder : TxBuilder eraPallas where
  Kind := Unit
  Signatures := Unit
  SecretKey := UInt8
  Mnemonic := Unit
  Value := Unit
  encode tx := (if tx.1 then 1 else 0) :: tx.2
  decodeError _ := ""
  buildConwayRaw := .ok ⟨(), ⟨List.replicate 32 0, by simp⟩, [], none⟩
  sign builtTx key :=
    match builtTx.txBytes with
    | 1 :: witnesses => .ok { builtTx with txBytes := 1 :: (witnesses ++ [key]) }
    | _ => .error "CorruptedTxBytes"
  secretKey _ := 7
  fromValue _ := .ok ()

/-- A vault with the mnemonic under the configured key. -/
def sampleVault : String → Except String (List (String × Unit)) := fun _ => .ok [("mnemonic", ())]

theorem sampleBuilder_lawful : sampleBuilder.Lawful where
  builds := ⟨_, rfl⟩
  signs := by
    rintro ⟨conway, witnesses⟩ builtTx (key : UInt8) era built
    cases conway with
    | false => cases era
    | true =>
        cases built
        exact ⟨_, (true, witnesses ++ [key]), rfl, rfl, rfl⟩
  refuses := by
    rintro ⟨conway, witnesses⟩ builtTx key era built
    cases conway with
    | false =>
        cases built
        exact ⟨_, rfl⟩
    | true => exact absurd rfl era

theorem sampleBuilder_keepsHash : sampleBuilder.KeepsHash := by
  rintro ⟨conway, witnesses⟩ builtTx (key : UInt8) signedTx built signs
  cases built
  cases conway with
  | false => cases signs
  | true =>
      cases signs
      exact ⟨(true, witnesses ++ [key]), rfl, rfl⟩

/-- The witnesses of its transactions. -/
def sampleWitnesses : sampleBuilder.Witnesses where
  PublicKey := UInt8
  decEq := inferInstance
  publicKey := id
  vkeys tx := tx.2
  appends := by
    rintro ⟨conway, witnesses⟩ builtTx (key : UInt8) signedTx built signs
    cases built
    cases conway with
    | false => cases signs
    | true =>
        cases signs
        exact ⟨(true, witnesses ++ [key]), rfl, rfl⟩

end Boros.Signing
