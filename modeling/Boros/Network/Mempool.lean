import Boros.Ledger.Validation

/-!
# The mempool of a peer

`src/network/mempool.rs`: the transactions which were announced to a peer, oldest
first, of which at most `cap` are kept.
-/

namespace Boros.Network

open Boros.Data Boros.Semantics Boros.Ledger

/-- `CAP`. -/
def cap : Nat := 100

/-- `mempool::Tx`. -/
structure Tx where
  hash : Hash32
  era : UInt16
  bytes : Bytes
  confirmed : Bool
deriving DecidableEq

/-- `TxStage`. -/
inductive TxStage where
  | inflight
  | acknowledged
deriving DecidableEq, Repr

/-- `mempool::Event`. -/
structure Event where
  newStage : TxStage
  tx : Tx
deriving DecidableEq

/-- `Mempool`: the in-flight transactions, and the events sent to `updates` so far. -/
structure Mempool where
  inflight : List Tx
  updates : List Event
deriving DecidableEq

/-- `u16::from(Era)`. -/
def eraCode : Era → UInt16
  | .byron => 1
  | .shelley => 2
  | .allegra => 3
  | .mary => 4
  | .alonzo => 5
  | .babbage => 6
  | .conway => 7

namespace Mempool

/-- `Mempool::new`. -/
def new : Mempool := ⟨[], []⟩

/-- `notify`. -/
def notify (mempool : Mempool) (newStage : TxStage) (tx : Tx) : Mempool :=
  { mempool with updates := mempool.updates ++ [⟨newStage, tx⟩] }

/-- `receive`: at `cap` transactions the oldest one is dropped for the new one. -/
def receive (mempool : Mempool) (tx : Tx) : Mempool :=
  let inflight := if cap ≤ mempool.inflight.length then mempool.inflight.drop 1
    else mempool.inflight
  { mempool with inflight := inflight ++ [tx] }.notify .inflight tx

/-- `acknowledge`: draining more transactions than there are panics. -/
def acknowledge (mempool : Mempool) (count : Nat) : Except Fault Mempool :=
  if count ≤ mempool.inflight.length then
    .ok ((mempool.inflight.take count).foldl (fun mempool tx => mempool.notify .acknowledged tx)
      { mempool with inflight := mempool.inflight.drop count })
  else .error .index

/-- `find_inflight`: the oldest transaction in flight of that hash. -/
def findInflight (mempool : Mempool) (hash : Hash32) : Option Tx :=
  mempool.inflight.find? fun tx => tx.hash = hash

variable (pallas : Pallas)

/-- The record made of a transaction's bytes, if they decode. -/
def txOfRaw (cbor : Bytes) : Option Tx :=
  (pallas.decode cbor).map fun tx => ⟨pallas.hash tx, eraCode (pallas.era tx) - 1, cbor, false⟩

/-- `receive_raw`, `none` where it returns an error. -/
def receiveRaw (mempool : Mempool) (cbor : Bytes) : Option (Mempool × Tx) :=
  (txOfRaw pallas cbor).map fun tx => (mempool.receive tx, tx)

/-- `receive_raw` on each payload, keeping the transactions it returns. -/
def receiveAll (mempool : Mempool) : List Bytes → Mempool × List Tx
  | [] => (mempool, [])
  | cbor :: rest =>
    match mempool.receiveRaw pallas cbor with
    | some (next, tx) =>
      let (final, txs) := next.receiveAll rest
      (final, tx :: txs)
    | none => mempool.receiveAll rest

variable {pallas} {mempool after : Mempool}

@[simp]
theorem notify_inflight (newStage : TxStage) (tx : Tx) :
    (mempool.notify newStage tx).inflight = mempool.inflight := rfl

/-- Below `cap` nothing is dropped. -/
theorem receive_inflight_of_lt (tx : Tx) (room : mempool.inflight.length < cap) :
    (mempool.receive tx).inflight = mempool.inflight ++ [tx] := by
  simp [receive, Nat.not_le_of_lt room]

theorem notify_foldl (txs : List Tx) :
    txs.foldl (fun mempool tx => mempool.notify .acknowledged tx) mempool =
      ⟨mempool.inflight, mempool.updates ++ txs.map (Event.mk .acknowledged)⟩ := by
  induction txs generalizing mempool with
  | nil => simp
  | cons tx rest ih =>
      rw [List.foldl_cons, ih]
      simp [notify]

/-- Acknowledging removes a prefix of the transactions in flight, and notifies of each. -/
theorem acknowledge_ok_iff {count : Nat} :
    mempool.acknowledge count = .ok after ↔ count ≤ mempool.inflight.length ∧
      after = ⟨mempool.inflight.drop count,
        mempool.updates ++ (mempool.inflight.take count).map (Event.mk .acknowledged)⟩ := by
  unfold acknowledge
  rw [notify_foldl]
  split
  · rename_i enough
    simp [enough, eq_comm]
  · rename_i short
    simp [short]

/-- The transactions which are kept are those whose bytes decode. -/
theorem receiveAll_txs (raws : List Bytes) :
    (mempool.receiveAll pallas raws).2 = raws.filterMap (txOfRaw pallas) := by
  induction raws generalizing mempool with
  | nil => rfl
  | cons cbor rest ih =>
      cases decoded : txOfRaw pallas cbor with
      | some tx => simp [receiveAll, receiveRaw, decoded, ih]
      | none => simp [receiveAll, receiveRaw, decoded, ih]

/-- Up to `cap` transactions, the new ones follow those in flight. -/
theorem receiveAll_inflight (raws : List Bytes)
    (room : mempool.inflight.length + (raws.filterMap (txOfRaw pallas)).length ≤ cap) :
    (mempool.receiveAll pallas raws).1.inflight =
      mempool.inflight ++ raws.filterMap (txOfRaw pallas) := by
  induction raws generalizing mempool with
  | nil => simp [receiveAll]
  | cons cbor rest ih =>
      cases decoded : txOfRaw pallas cbor with
      | some tx =>
          simp only [List.filterMap_cons, decoded, List.length_cons] at room
          have received : (mempool.receive tx).inflight = mempool.inflight ++ [tx] :=
            receive_inflight_of_lt tx (by omega)
          have later : (mempool.receive tx).inflight.length +
              (rest.filterMap (txOfRaw pallas)).length ≤ cap := by
            rw [received, List.length_append, List.length_singleton]
            omega
          simp [receiveAll, receiveRaw, decoded, ih later, received]
      | none =>
          simp only [List.filterMap_cons, decoded] at room
          simp [receiveAll, receiveRaw, decoded, ih room]

end Mempool

end Boros.Network
