import Boros.Ledger.Validation
import Boros.Queue.Chaining
import Boros.Storage.Rows

/-!
# The submit service

`src/server/submit.rs`. `Request` is one call of `submit_tx`, cut at its awaits:
between two transactions of the message, before the token map is read, before the
store is written and before each unlock signal. The calls to the U5C server touch
nothing that another call sees and are part of the step before.
-/

namespace Boros.Server

open Boros.Data Boros.Semantics Boros.Storage Boros.Ledger Boros.Queue Boros.Queue.Chaining

/-- `tonic::Code`, of which the service uses these. -/
inductive Code where
  | failedPrecondition
  | permissionDenied
  | internal
deriving DecidableEq, Repr

/-- `tonic::Status`. -/
structure Status where
  code : Code
  message : String
deriving DecidableEq, Repr

/-- One transaction of a `SubmitTxRequest`. -/
structure TxRequest where
  raw : Bytes
  queue : Option String
  lockToken : Option String
deriving DecidableEq, Repr

namespace Submit

/-- `should_validate`: not for a queue whose transactions the server signs, where
a queue which is not configured counts as the default one. -/
def shouldValidate (queues : Configs) (queue : Option String) : Bool :=
  match queue.bind fun name => (queues.get name).or (queues.get defaultQueue) with
  | some config => !config.serverSigning
  | none => true

/-- `tx_storage`: the record made of one accepted transaction. -/
def txStorage (hash : Hash32) (raw : Bytes) (queue : Option String) (now : Nat) : Transaction :=
  match queue with
  | some queue => { Transaction.new hash.display raw now with queue := queue }
  | none => Transaction.new hash.display raw now

/-- A record which `submit_tx` may store: it was made of bytes that decode. -/
def Accepted (pallas : Pallas) (tx : Transaction) : Prop :=
  ∃ metx raw queue now, pallas.decode raw = some metx ∧
    tx = txStorage (pallas.hash metx) raw queue now

variable {pallas : Pallas} {tx : Transaction}

theorem txStorage_id (hash : Hash32) (raw : Bytes) (queue : Option String) (now : Nat) :
    (txStorage hash raw queue now).id = hash.display := by
  cases queue <;> rfl

/-- A stored transaction starts out pending, without a slot. -/
theorem Accepted.pending (accepted : Accepted pallas tx) : tx.status = .pending := by
  obtain ⟨_, _, queue, _, _, rfl⟩ := accepted
  cases queue <;> rfl

/-! ## One call of `submit_tx` -/

/-- Where a call is. -/
inductive Phase where
  /-- About to handle the rest of the message, from the given index on. -/
  | examining (index : Nat) (remaining : List TxRequest)
  /-- About to read the token map for a transaction of a chained queue. -/
  | checking (tx : Transaction) (hash : Hash32) (queue token : String) (index : Nat)
    (remaining : List TxRequest)
  /-- About to store the transactions. -/
  | creating
  /-- About to send an unlock signal to each of these queues. -/
  | unlocking (queues : List String)
  | answered (response : Except Status (List Hash32))
  | panicked (fault : Fault)
deriving DecidableEq

/-- A call with its local variables: `txs`, `hashes` and `chained_queues`, the last
with the token each of its queues was checked for. -/
structure Request where
  txs : List Transaction
  hashes : List Hash32
  passed : List (String × String)
  phase : Phase
deriving DecidableEq

/-- A call which has just come in. -/
def Request.new (message : List TxRequest) : Request := ⟨[], [], [], .examining 0 message⟩

/-- The call returns an error. -/
def Request.fail (request : Request) (code : Code) (message : String) : Request :=
  { request with phase := .answered (.error ⟨code, message⟩) }

/-- A transaction was accepted. -/
def Request.push (request : Request) (tx : Transaction) (hash : Hash32) (index : Nat)
    (remaining : List TxRequest) : Request :=
  { request with
    txs := request.txs ++ [tx]
    hashes := request.hashes ++ [hash]
    phase := .examining index remaining }

/-- One iteration of the loop, up to the token check; and the end of the loop. -/
def Request.examine (pallas : Pallas) (queues : Configs)
    (validation evaluation : U5cDataAdapter pallas) (now : Nat) (request : Request)
    (index : Nat) : List TxRequest → Request
  | [] => { request with phase := .creating }
  | item :: remaining =>
    match pallas.decode item.raw with
    | none => request.fail .failedPrecondition ("invalid tx at index " ++ toString index)
    | some metx =>
      let valid := if shouldValidate queues item.queue then isValid validation evaluation metx
        else .ok true
      match valid with
      | .error fault => { request with phase := .panicked fault }
      | .ok false => { request with phase := .examining (index + 1) remaining }
      | .ok true =>
        let hash := pallas.hash metx
        let tx := txStorage hash item.raw item.queue now
        match item.queue with
        | none => request.push tx hash (index + 1) remaining
        | some queue =>
          if isChainedQueue queues queue then
            let token := item.lockToken.getD ""
            { request with phase := .checking tx hash queue token (index + 1) remaining }
          else request.push tx hash (index + 1) remaining

/-- The token check of a transaction. -/
def Request.check (locks : Locks) (request : Request) (tx : Transaction) (hash : Hash32)
    (queue token : String) (index : Nat) (remaining : List TxRequest) : Request :=
  if locks.isValidToken queue token then
    { request.push tx hash index remaining with passed := request.passed ++ [(queue, token)] }
  else request.fail .permissionDenied "invalid lock token"

/-- The transactions were stored: every chained queue among theirs is unlocked, as
often as it occurs. -/
def Request.created (request : Request) : Request :=
  { request with phase := .unlocking (request.passed.map Prod.fst) }

/-- The call has not stored its transactions yet, and may still do so. -/
def Phase.beforeCreate : Phase → Bool
  | .examining _ _ | .checking _ _ _ _ _ _ | .creating => true
  | _ => false

/-- The queue and the token which the call is about to check. -/
def Phase.checked : Phase → Option (String × String)
  | .checking _ _ queue token _ _ => some (queue, token)
  | _ => none

section Steps

variable {queues : Configs} {validation evaluation : U5cDataAdapter pallas} {now : Nat}
  {request : Request} {index : Nat} {locks : Locks} {hash : Hash32} {queue token : String}

/-- An iteration of the loop checks no token. -/
@[simp]
theorem Request.examine_passed (remaining : List TxRequest) :
    (request.examine pallas queues validation evaluation now index remaining).passed =
      request.passed := by
  fun_cases Request.examine pallas queues validation evaluation now request index remaining <;> rfl

/-- No unlock signal is sent before the transactions are stored. -/
theorem Request.examine_phase_ne_unlocking (remaining : List TxRequest) (signals : List String) :
    (request.examine pallas queues validation evaluation now index remaining).phase ≠
      .unlocking signals := by
  fun_cases Request.examine pallas queues validation evaluation now request index remaining <;>
    simp [Request.fail, Request.push]

/-- After a token check the call goes on with the token passed, or was refused. -/
theorem Request.check_cases (remaining : List TxRequest) :
    locks.tokens queue = some token ∧
        (request.check locks tx hash queue token index remaining).passed =
          request.passed ++ [(queue, token)] ∧
        (request.check locks tx hash queue token index remaining).phase =
          .examining index remaining ∨
      locks.tokens queue ≠ some token ∧
        request.check locks tx hash queue token index remaining =
          request.fail .permissionDenied "invalid lock token" := by
  unfold Request.check
  by_cases valid : locks.isValidToken queue token = true
  · rw [if_pos valid]
    exact .inl ⟨Locks.isValidToken_iff.mp valid, rfl, rfl⟩
  · rw [if_neg valid]
    exact .inr ⟨fun current => valid (Locks.isValidToken_iff.mpr current), rfl⟩

end Steps

end Submit

end Boros.Server
