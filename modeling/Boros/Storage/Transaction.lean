import Boros.Data.Bytes
import Boros.Queue.Config

/-!
# Stored transactions

`src/storage/mod.rs`. The timestamp `updated_at`, which every write sets and no
function reads, is left out.
-/

namespace Boros.Storage

open Boros.Data Boros.Queue

/-- `TransactionStatus`. -/
inductive TransactionStatus where
  | pending
  | validated
  | inFlight
  | confirmed
  | failed
deriving DecidableEq, Repr

/-- `Display`: the text stored in the `status` column. -/
def TransactionStatus.display : TransactionStatus → String
  | .pending => "pending"
  | .validated => "validated"
  | .inFlight => "inflight"
  | .confirmed => "confirmed"
  | .failed => "failed"

/-- `FromStr`; `none` is the error "transaction status not supported". -/
def TransactionStatus.fromStr (text : String) : Option TransactionStatus :=
  if text = "pending" then some .pending
  else if text = "validated" then some .validated
  else if text = "inflight" then some .inFlight
  else if text = "confirmed" then some .confirmed
  else if text = "failed" then some .failed
  else none

/-- Every status is read back from the text it was stored as, so that a column
which only ever holds displayed statuses can be modelled by the status itself. -/
@[simp]
theorem TransactionStatus.fromStr_display (status : TransactionStatus) :
    fromStr status.display = some status := by
  cases status <;> decide

/-- Distinct statuses are stored as distinct texts. -/
theorem TransactionStatus.display_injective : Function.Injective display := by
  intro left right same
  have parsed : fromStr left.display = fromStr right.display := congrArg fromStr same
  simpa using parsed

/-- `Transaction`. -/
structure Transaction where
  id : String
  raw : Bytes
  status : TransactionStatus
  queue : String
  slot : Option UInt64
  dependencies : Option (List String)
  createdAt : Nat
deriving DecidableEq, Repr

/-- `Transaction::new`, at the time `now`. -/
def Transaction.new (id : String) (raw : Bytes) (now : Nat) : Transaction where
  id := id
  raw := raw
  status := .pending
  queue := defaultQueue
  slot := none
  dependencies := none
  createdAt := now

/-- `TransactionState`: how many transactions of a queue have some status. -/
structure TransactionState where
  queue : String
  count : Nat
deriving DecidableEq, Repr

/-- `Cursor`. -/
structure Cursor where
  slot : UInt64
  hash : Bytes
deriving DecidableEq, Repr

end Boros.Storage
