import Boros.Ledger.Validation
import Boros.Queue.Priority
import Boros.Semantics.Transition

/-!
# The ingest stage

`src/pipeline/ingest.rs`, cut at its awaits. `Worker` names the call which is
about to be made, with everything computed since the previous one. The calls of
one transaction before its broadcast (the vault and the U5C server) touch nothing
that another stage sees, so they are one step, `examine`.
-/

namespace Boros.Pipeline

open Boros.Data Boros.Semantics Boros.Storage Boros.Ledger Boros.Queue

/-- `pipeline::CAP`. -/
def cap : UInt16 := 50

namespace Ingest

/-- What the stage is configured with: the queues, which it shares with
`Priority`, and whether there is a signing adapter. -/
structure Stage where
  queues : Configs
  signingAdapter : Bool

/-- What the calls made for one transaction before its broadcast come to. -/
structure Replies (pallas : Pallas) where
  sign : Bytes → Except (Abort String) Bytes
  validation : U5cDataAdapter pallas
  evaluation : U5cDataAdapter pallas

variable {pallas : Pallas}

/-- The transaction, signed with the server key if its queue asks for it. -/
def signed (stage : Stage) (replies : Replies pallas) (tx : Transaction) :
    Except (Abort WorkerError) Transaction :=
  match stage.queues.get tx.queue with
  | none => .error (.error .retry)
  | some config =>
    if config.serverSigning then
      if stage.signingAdapter then
        match replies.sign tx.raw with
        | .ok raw => .ok { tx with raw := raw }
        | .error (.error _) => .error (.error .retry)
        | .error (.panic fault) => .error (.panic fault)
      else .error (.error .retry)
    else .ok tx

/-- One iteration of the loop of `execute` up to the broadcast: the transaction,
and whether it is broadcast or stored as failed. -/
def examine (stage : Stage) (replies : Replies pallas) (tx : Transaction) :
    Except (Abort WorkerError) (Transaction × Bool) := do
  let tx ← signed stage replies tx
  match pallas.decode tx.raw with
  | none => throw (.error .recv)
  | some metx =>
    let valid ← orPanic (isValid replies.validation replies.evaluation metx)
    return if valid then (tx, true) else ({ tx with status := .failed }, false)

variable {stage : Stage} {replies : Replies pallas} {tx result : Transaction} {valid : Bool}

/-- Signing changes nothing but the bytes. -/
theorem signed_ok (success : signed stage replies tx = .ok result) :
    ∃ raw, result = { tx with raw := raw } := by
  unfold signed at success
  split at success
  · cases success
  · split at success
    · split at success
      · split at success
        · cases success
          exact ⟨_, rfl⟩
        · cases success
        · cases success
      · cases success
    · cases success
      exact ⟨tx.raw, rfl⟩

/-- A transaction is examined to the end if it is signed, decodes and is found to be valid or
invalid. -/
theorem examine_ok_iff :
    examine stage replies tx = .ok (result, valid) ↔
      ∃ clone metx, signed stage replies tx = .ok clone ∧ pallas.decode clone.raw = some metx ∧
        isValid replies.validation replies.evaluation metx = .ok valid ∧
        result = if valid then clone else { clone with status := .failed } := by
  simp only [examine, except_bind_ok_iff]
  constructor
  · rintro ⟨clone, signature, rest⟩
    split at rest
    · cases rest
    · rename_i metx decoded
      simp only [except_bind_ok_iff, orPanic_ok_iff] at rest
      obtain ⟨accepted, verdict, produced⟩ := rest
      cases accepted <;> cases produced <;> exact ⟨_, metx, signature, decoded, verdict, rfl⟩
  · rintro ⟨clone, metx, signature, decoded, verdict, rfl⟩
    refine ⟨clone, signature, ?_⟩
    cases valid <;> simp [decoded, verdict, orPanic, bind, Except.bind, pure, Except.pure]

/-- Examining a transaction may sign it, and marks it as failed exactly when it is
not to be broadcast. -/
theorem examine_ok (success : examine stage replies tx = .ok (result, valid)) :
    ∃ raw, result = { tx with raw := raw, status := if valid then tx.status else .failed } := by
  obtain ⟨clone, metx, signature, _, _, rfl⟩ := examine_ok_iff.mp success
  obtain ⟨raw, rfl⟩ := signed_ok signature
  cases valid <;> exact ⟨raw, rfl⟩

/-- The call `execute` is about to make for the transaction in hand. -/
inductive Await where
  /-- The calls up to the broadcast. -/
  | examine
  /-- `output.send`. -/
  | send
  /-- `fetch_tip`. -/
  | fetchTip
  /-- `storage.update`, of a failed or of an in-flight transaction. -/
  | update
deriving DecidableEq, Repr

/-- The ingest stage between two of its steps. -/
inductive Worker where
  | schedule
  /-- In `Priority::next`, between its two storage calls. -/
  | selecting (limits : List (String × UInt16))
  /-- In `execute`, with the clone of the current transaction and those after it. -/
  | awaiting (unit : List Transaction) (tx : Transaction) (rest : List Transaction)
    (await : Await)
  /-- `execute` returned `WorkerError::Retry`; the unit is still in hand. -/
  | retrying (unit : List Transaction)
  /-- `execute` returned another error. -/
  | stopped (cause : WorkerError)
  | panicked (fault : Fault)
deriving DecidableEq, Repr

/-- The next iteration of the loop of `execute`, or its end. -/
def proceed (unit : List Transaction) : List Transaction → Worker
  | [] => .schedule
  | tx :: rest => .awaiting unit tx rest .examine

/-- `current_cap`: the capacity left by the messages queued on the output port. -/
def currentCap (profile : Profile) (queuedLen : Nat) : Except Fault UInt16 :=
  u16Sub profile cap (UInt16.ofNat queuedLen)

/-- `schedule` up to the second storage call: the capacity, and the limits for it.
An idle schedule is called again. -/
def schedule (profile : Profile) (stage : Stage)
    (quotaOrder : Priority.HashOrder (String × UInt16)) (db : Db) (queuedLen : Nat) : Worker :=
  match currentCap profile queuedLen with
  | .error fault => .panicked fault
  | .ok currentCap =>
    if currentCap = 0 then .schedule
    else
      let state := db.state .pending
      if state.isEmpty then .schedule
      else match Priority.limits profile stage.queues quotaOrder state currentCap with
        | .error fault => .panicked fault
        | .ok limits => .selecting limits

/-- The rest of `schedule`; a failing storage call makes gasket schedule again. -/
def afterSelect : Except DbError (List Transaction) → Worker
  | .ok transactions => proceed transactions transactions
  | .error _ => .schedule

/-- The transaction in hand was examined. -/
def afterExamine (unit rest : List Transaction) :
    Except (Abort WorkerError) (Transaction × Bool) → Worker
  | .ok (tx, true) => .awaiting unit tx rest .send
  | .ok (tx, false) => .awaiting unit tx rest .update
  | .error (.error .retry) => .retrying unit
  | .error (.error cause) => .stopped cause
  | .error (.panic fault) => .panicked fault

/-- After its examination a transaction is in hand for another call, unless the execution
has ended. -/
theorem afterExamine_cases (unit rest : List Transaction)
    (examined : Except (Abort WorkerError) (Transaction × Bool)) :
    (∃ tx await, await ≠ .examine ∧
        afterExamine unit rest examined = .awaiting unit tx rest await) ∨
      afterExamine unit rest examined = .retrying unit ∨
      (∃ cause, afterExamine unit rest examined = .stopped cause) ∨
      ∃ fault, afterExamine unit rest examined = .panicked fault := by
  fun_cases afterExamine unit rest examined with
  | case1 tx => exact .inl ⟨tx, .send, by simp, rfl⟩
  | case2 tx => exact .inl ⟨tx, .update, by simp, rfl⟩
  | case3 => exact .inr (.inl rfl)
  | case4 cause => exact .inr (.inr (.inl ⟨cause, rfl⟩))
  | case5 fault => exact .inr (.inr (.inr ⟨fault, rfl⟩))

/-- A transaction which was examined is in hand to be broadcast or to be stored as failed, unless
the execution has ended. -/
theorem afterExamine_examine (unit rest : List Transaction) :
    (∃ raw, afterExamine unit rest (examine stage replies tx) =
        .awaiting unit { tx with raw := raw } rest .send) ∨
      (∃ raw, afterExamine unit rest (examine stage replies tx) =
        .awaiting unit { tx with raw := raw, status := .failed } rest .update) ∨
      afterExamine unit rest (examine stage replies tx) = .retrying unit ∨
      (∃ cause, afterExamine unit rest (examine stage replies tx) = .stopped cause) ∨
      ∃ fault, afterExamine unit rest (examine stage replies tx) = .panicked fault := by
  cases examined : examine stage replies tx with
  | ok outcome =>
      obtain ⟨result, valid⟩ := outcome
      obtain ⟨raw, rfl⟩ := examine_ok examined
      cases valid with
      | true => exact .inl ⟨raw, rfl⟩
      | false => exact .inr (.inl ⟨raw, rfl⟩)
  | error abort =>
      cases abort with
      | panic fault => exact .inr (.inr (.inr (.inr ⟨fault, rfl⟩)))
      | error cause =>
          cases cause with
          | retry => exact .inr (.inr (.inl rfl))
          | _ => exact .inr (.inr (.inr (.inl ⟨_, rfl⟩)))

/-- `schedule` idles, panics or has the limits of a fresh batch. -/
theorem schedule_cases (profile : Profile) (stage : Stage)
    (quotaOrder : Priority.HashOrder (String × UInt16)) (db : Db) (queuedLen : Nat) :
    schedule profile stage quotaOrder db queuedLen = .schedule ∨
      (∃ fault, schedule profile stage quotaOrder db queuedLen = .panicked fault) ∨
      ∃ currentCap limits, Priority.limits profile stage.queues quotaOrder (db.state .pending)
          currentCap = .ok limits ∧
        schedule profile stage quotaOrder db queuedLen = .selecting limits := by
  fun_cases schedule profile stage quotaOrder db queuedLen with
  | case1 fault => exact .inr (.inl ⟨fault, rfl⟩)
  | case2 | case3 => exact .inl rfl
  | case4 currentCap _ _ _ _ fault => exact .inr (.inl ⟨fault, rfl⟩)
  | case5 currentCap _ _ _ _ limits computed =>
      exact .inr (.inr ⟨currentCap, limits, computed, rfl⟩)

/-- What happens to the ingest stage next. -/
inductive Label (pallas : Pallas) where
  /-- `schedule` runs with this many messages queued on the output port. -/
  | schedule (queuedLen : Nat) (quotaOrder : Priority.HashOrder (String × UInt16))
  /-- `storage.next` is called with the limits in hand. -/
  | select (limitOrder : Priority.HashOrder (String × UInt16))
  | examine (replies : Replies pallas)
  /-- `output.send`, which fails when no receiver is connected. -/
  | send (delivered : Bool)
  /-- `fetch_tip` returns this point. -/
  | fetchTip (tip : Point)
  /-- The storage call in hand is made. -/
  | update
  /-- The call in hand fails and changes nothing. -/
  | fail
  /-- gasket runs `execute` again with the unit in hand. -/
  | rerun
  /-- gasket bootstraps the stopped stage again. -/
  | restart

/-- What the ingest stage works on: the store, the transactions sent on the
output port with their bytes, oldest first, and the worker. -/
structure State where
  db : Db
  sent : List (String × Bytes)
  worker : Worker
deriving DecidableEq

/-- One step of the ingest stage. -/
inductive Step (profile : Profile) (stage : Stage) :
    State → Label pallas → State → Prop where
  | schedule {db sent worker} (queuedLen : Nat)
      (quotaOrder : Priority.HashOrder (String × UInt16))
      (scheduled : Ingest.schedule profile stage quotaOrder db queuedLen = worker) :
      Step profile stage ⟨db, sent, .schedule⟩ (.schedule queuedLen quotaOrder)
        ⟨db, sent, worker⟩
  | select {db sent limits worker} (limitOrder : Priority.HashOrder (String × UInt16))
      (selected : afterSelect (db.next .pending (limitOrder.order limits)) = worker) :
      Step profile stage ⟨db, sent, .selecting limits⟩ (.select limitOrder) ⟨db, sent, worker⟩
  | selectFail {db sent limits} :
      Step profile stage ⟨db, sent, .selecting limits⟩ .fail ⟨db, sent, .schedule⟩
  | examine {db sent unit tx rest worker} (replies : Replies pallas)
      (examined : afterExamine unit rest (Ingest.examine stage replies tx) = worker) :
      Step profile stage ⟨db, sent, .awaiting unit tx rest .examine⟩ (.examine replies)
        ⟨db, sent, worker⟩
  | send {db sent unit tx rest} :
      Step profile stage ⟨db, sent, .awaiting unit tx rest .send⟩ (.send true)
        ⟨db, sent ++ [(tx.id, tx.raw)], .awaiting unit tx rest .fetchTip⟩
  | sendFail {db sent unit tx rest} :
      Step profile stage ⟨db, sent, .awaiting unit tx rest .send⟩ (.send false)
        ⟨db, sent, proceed unit rest⟩
  | fetchTip {db sent unit tx rest} (tip : Point) :
      Step profile stage ⟨db, sent, .awaiting unit tx rest .fetchTip⟩ (.fetchTip tip)
        ⟨db, sent, .awaiting unit { tx with status := .inFlight, slot := some tip.1 } rest .update⟩
  | fetchTipFail {db sent unit tx rest} :
      Step profile stage ⟨db, sent, .awaiting unit tx rest .fetchTip⟩ .fail
        ⟨db, sent, .retrying unit⟩
  | update {db sent unit tx rest} :
      Step profile stage ⟨db, sent, .awaiting unit tx rest .update⟩ .update
        ⟨db.update tx, sent, proceed unit rest⟩
  | updateFail {db sent unit tx rest} :
      Step profile stage ⟨db, sent, .awaiting unit tx rest .update⟩ .fail
        ⟨db, sent, .retrying unit⟩
  | rerun {db sent unit} :
      Step profile stage ⟨db, sent, .retrying unit⟩ .rerun ⟨db, sent, proceed unit unit⟩
  | restart {db sent cause} :
      Step profile stage ⟨db, sent, .stopped cause⟩ .restart ⟨db, sent, .schedule⟩

end Ingest

end Boros.Pipeline
