import Boros.Semantics.Effect

/-!
# Byte strings, hexadecimal text and 32-byte hashes
-/

namespace Boros.Data

open Boros.Semantics

/-- `Vec<u8>`. -/
abbrev Bytes := List UInt8

/-- One lower-case hexadecimal digit. -/
def hexDigit (digit : Nat) : Char :=
  if digit < 10 then Char.ofNat (48 + digit) else Char.ofNat (87 + digit)

/-- `hex::encode`: two lower-case digits a byte, high nibble first. -/
def hexEncode (bytes : Bytes) : String :=
  String.ofList (bytes.flatMap fun byte =>
    [hexDigit (byte.toNat / 16), hexDigit (byte.toNat % 16)])

example : hexEncode [0, 26, 255] = "001aff" := by decide

/-- `pallas::crypto::hash::Hash<32>`. -/
abbrev Hash32 := { bytes : Bytes // bytes.length = 32 }

/-- `Hash::<32>::from(&[u8])`: a slice of any other length panics. -/
def Hash32.fromSlice (slice : Bytes) : Except Fault Hash32 :=
  if exact : slice.length = 32 then .ok ⟨slice, exact⟩ else .error .index

@[simp]
theorem Hash32.fromSlice_val (hash : Hash32) : Hash32.fromSlice hash.1 = .ok hash := by
  simp [Hash32.fromSlice, hash.2]

/-- `Hash<32>`'s `Display`. -/
def Hash32.display (hash : Hash32) : String := hexEncode hash.1

end Boros.Data
