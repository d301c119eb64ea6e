import Boros.Queue.Channels
import Boros.Ledger.Verdict
import Boros.Server.Sequential

/-!
# A submission is stored as a whole or not at all

`submit_tx` fails on bytes which do not decode, on a wrong token and when the records cannot
be stored, and then has written nothing; after the records are stored it can only fail on an
unlock signal, which `Channels.unlock_ok` excludes while the workers are alive. The call is
taken with whatever it finds at each of its awaits, so that it may be interleaved with
anything. `submitTxAmid_atomic` says what it leaves in the store.
-/

namespace Boros.Server.Submit

open Boros.Data Boros.Semantics Boros.Storage Boros.Ledger Boros.Queue Boros.Queue.Chaining

/-- The loop over `chained_queues`: the first failing `unlock` ends it. -/
def unlockAll (channels : Channels) (alive : String → Bool) (locks : Locks) :
    List String → Except UnlockError Unit × Locks
  | [] => (.ok (), locks)
  | queue :: rest =>
    match channels.unlock alive queue with
    | .ok () =>
      unlockAll channels alive (locks.setUnlocks queue (locks.unlocks queue + 1)) rest
    | .error cause => (.error cause, locks)

variable {pallas : Pallas}

/-- What a call finds when it stores its records: the workers which have not ended, whether the
storage can be reached, the store and the locks. -/
structure Surroundings where
  alive : String → Bool
  reachable : Bool
  db : Db
  locks : Locks

/-- The rest of the call with all its exits, once the message is handled. -/
def Request.finishAmid (channels : Channels) (found : Surroundings) (request : Request) :
    Phase × Db × Locks :=
  match request.phase with
  | .creating =>
    if found.reachable then
      match found.db.create request.txs with
      | .ok next =>
        match unlockAll channels found.alive found.locks (request.passed.map Prod.fst) with
        | (.ok (), locks) => (.answered (.ok request.hashes), next, locks)
        | (.error _, locks) => (.answered (.error ⟨.internal, "internal error"⟩), next, locks)
      | .error _ => (.answered (.error ⟨.internal, "internal error"⟩), found.db, found.locks)
    else (.answered (.error ⟨.internal, "internal error"⟩), found.db, found.locks)
  | phase => (phase, found.db, found.locks)

/-- `submit_tx`, with what it finds while it handles each transaction, and when it stores the
records: how the call ends, and the store and the locks after it. -/
def submitTxAmid (queues : Configs) (moments : Nat → Moment pallas) (found : Surroundings)
    (message : List TxRequest) : Phase × Db × Locks :=
  ((Request.new message).handleAmid queues moments 0 message).finishAmid (.new queues) found

variable {queues : Configs} {moments : Nat → Moment pallas} {found : Surroundings} {db next : Db}
  {locks : Locks} {message : List TxRequest} {request : Request} {index : Nat} {item : TxRequest}

/-! ## No error after the records are stored -/

theorem unlockAll_ok {alive : String → Bool} {signals : List String}
    (chained : ∀ queue ∈ signals, isChainedQueue queues queue)
    (working : ∀ queue, isChainedQueue queues queue → alive queue) :
    unlockAll (.new queues) alive locks signals = (.ok (), signal locks signals) := by
  induction signals generalizing locks with
  | nil => rfl
  | cons queue rest ih =>
      rw [List.forall_mem_cons] at chained
      simp only [unlockAll, Channels.unlock_ok chained.1 (working queue chained.1),
        ih chained.2]
      rfl

/-- A token is checked for a chained queue only. -/
theorem judge_check {answers : Answers pallas} {now : Nat} {tx : Transaction} {hash : Hash32}
    {queue token : String}
    (judged : judge queues answers now index item = .check tx hash queue token) :
    isChainedQueue queues queue := by
  unfold judge at judged
  split at judged
  · cases judged
  · simp only at judged
    split at judged
    · cases judged
    · cases judged
    · split at judged
      · cases judged
      · split at judged
        · rename_i chained
          cases judged
          exact chained
        · cases judged

/-- An iteration passes the check of a chained queue, or none. -/
theorem Request.handleOne_chained {answers : Answers pallas} {now : Nat}
    (chained : ∀ entry ∈ request.passed, isChainedQueue queues entry.1) :
    ∀ entry ∈ (request.handleOne queues locks answers now index (item :: message)).passed,
      isChainedQueue queues entry.1 := by
  rw [handleOne_cons]
  cases judged : judge queues answers now index item with
  | fail code text => exact chained
  | panic fault => exact chained
  | drop => exact chained
  | accept tx hash => exact chained
  | check tx hash queue token =>
      simp only [apply, checkNext, check]
      split
      · rw [List.forall_mem_append]
        refine ⟨chained, ?_⟩
        intro entry member
        rw [List.mem_singleton.mp member]
        exact judge_check judged
      · exact chained

/-- The queues for which the call holds a token are chained. -/
theorem Request.handleAmid_chained
    (chained : ∀ entry ∈ request.passed, isChainedQueue queues entry.1) :
    ∀ entry ∈ (request.handleAmid queues moments index message).passed,
      isChainedQueue queues entry.1 := by
  induction message generalizing request index with
  | nil => exact chained
  | cons item remaining ih =>
      have one := @handleOne_chained _ queues (moments index).locks remaining request index item
        (moments index).answers (moments index).now chained
      rw [handleAmid]
      split
      · exact ih one
      · exact one

/-- The call ends as it does with unlock signals which cannot fail. -/
theorem Request.finishAmid_eq
    (chained : ∀ entry ∈ request.passed, isChainedQueue queues entry.1)
    (working : ∀ queue, isChainedQueue queues queue → found.alive queue)
    (reachable : found.reachable) :
    request.finishAmid (.new queues) found = request.finish found.db found.locks := by
  have signals : ∀ queue ∈ request.passed.map Prod.fst, isChainedQueue queues queue := by
    intro queue member
    obtain ⟨entry, passed, rfl⟩ := List.mem_map.mp member
    exact chained entry passed
  unfold finishAmid finish
  cases request.phase with
  | creating =>
      cases found.db.create request.txs <;>
        simp only [unlockAll_ok signals working, reachable, if_true]
  | _ => rfl

/-- Without interruption, and while the workers are alive, this is the call that was run. -/
theorem submitTxAmid_eq {answers : Nat → Answers pallas} {now : Nat}
    (working : ∀ queue, isChainedQueue queues queue → found.alive queue)
    (reachable : found.reachable) :
    submitTxAmid queues (fun index => ⟨answers index, now, found.locks⟩) found message =
      submitTx queues answers now found.db found.locks message := by
  rw [submitTxAmid, submitTx, Request.handle_eq,
    Request.finishAmid_eq (Request.handleAmid_chained (by simp [Request.new])) working reachable]

/-! ## What is stored -/

/-- The transaction of a request was to be validated, and validation or evaluation failed. -/
def Fails (queues : Configs) (answers : Answers pallas) (item : TxRequest) : Prop :=
  shouldValidate queues item.queue ∧ ∃ metx, pallas.decode item.raw = some metx ∧
    ((∃ reason, validateTx answers.validation metx = .error (.error reason)) ∨
      validateTx answers.validation metx = .ok () ∧
        ∃ reason, evaluateTx answers.evaluation metx = .error (.error reason))

/-- The row of a new pending record. -/
def pendingRow (now : Nat) (item : TxRequest) (hash : Hash32) : TxRow where
  id := hash.display
  raw := item.raw
  status := .pending
  slot := none
  queue := item.queue.getD defaultQueue
  createdAt := now

/-- The response `hashes` and the store `next` are those of the transactions `kept` of the
message, which carry their indices. -/
structure Submitted (queues : Configs) (moments : Nat → Moment pallas) (message : List TxRequest)
    (db next : Db) (hashes : List Hash32) (kept : List (TxRequest × Nat)) : Prop where
  order : kept.Sublist message.zipIdx
  omitted : ∀ entry ∈ message.zipIdx,
    entry ∉ kept ↔ Fails queues (moments entry.2).answers entry.1
  refs : List.Forall₂ (fun entry hash =>
    ∃ metx, pallas.decode entry.1.raw = some metx ∧ hash = pallas.hash metx) kept hashes
  rows : next.tx.rows = db.tx.rows ++
    List.zipWith (fun entry hash => pendingRow (moments entry.2).now entry.1 hash) kept hashes
  fresh : ∀ hash ∈ hashes, db.row hash.display = none
  untouched : ∀ id row, db.row id = some row → next.row id = some row

/-- A transaction is left out exactly if it fails. -/
theorem judge_drop_iff {answers : Answers pallas} {now : Nat} :
    judge queues answers now index item = .drop ↔ Fails queues answers item := by
  cases decoded : pallas.decode item.raw with
  | none => simp [judge, Fails, decoded]
  | some metx =>
      simp only [judge, Fails, decoded, Option.some.injEq, exists_eq_left',
        ← isValid_false_iff_error]
      by_cases validates : shouldValidate queues item.queue = true
      · rw [if_pos validates]
        split
        · rename_i fault panicked
          simp [panicked]
        · rename_i invalid
          simp [validates, invalid]
        · rename_i valid
          simp only [valid, validates, true_and]
          split
          · simp
          · split <;> simp
      · rw [if_neg validates]
        simp only [validates, Bool.false_eq_true, false_and, iff_false]
        split
        · simp
        · split <;> simp

/-- What is kept of a list goes with what it is mapped to. -/
theorem forall₂_filterMap {α β : Type} (f : α → Option β) (entries : List α) :
    List.Forall₂ (fun entry value => f entry = some value)
      (entries.filter fun entry => (f entry).isSome) (entries.filterMap f) := by
  induction entries with
  | nil => exact .nil
  | cons entry rest ih =>
      cases found : f entry with
      | none => simpa [found] using ih
      | some value =>
          have both : List.Forall₂ (fun entry value => f entry = some value) (entry :: _)
              (value :: _) := .cons found ih
          simpa [found] using both

theorem zipWith_of_forall₂ {α β γ δ : Type} {combine : α → γ → δ} {part : β → γ} {whole : β → δ}
    {left : List α} {right : List β}
    (matched : List.Forall₂ (fun entry value => combine entry (part value) = whole value) left
      right) :
    List.zipWith combine left (right.map part) = right.map whole := by
  induction matched with
  | nil => rfl
  | cons first _ ih => rw [List.map_cons, List.zipWith_cons_cons, first, ih, List.map_cons]

/-- The row of an accepted transaction. -/
theorem ofTransaction_accepted {answers : Answers pallas} {now : Nat} {tx : Transaction}
    {hash : Hash32} (accepted : (judge queues answers now index item).accepted = some (tx, hash)) :
    TxRow.ofTransaction tx = pendingRow now item hash := by
  obtain ⟨_, _, _, _, rfl⟩ := accepted_judge accepted
  cases queue : item.queue <;> simp [txStorage, TxRow.ofTransaction, pendingRow, Transaction.new,
    queue]

/-- Once the message is handled and the records are stored, the response and the store are those
of the transactions which were not left out. -/
theorem submitted_of_creating
    (creating : ((Request.new message).handleAmid queues moments 0 message).phase = .creating)
    (created : db.create ((Request.new message).handleAmid queues moments 0 message).txs =
      .ok next) :
    Submitted queues moments message db next
      ((Request.new message).handleAmid queues moments 0 message).hashes
      (message.zipIdx.filter fun entry => (judgeAt queues moments entry).accepted.isSome) := by
  obtain ⟨txs, hashes, judged⟩ := Request.handleAmid_creating creating
  rw [Request.new, List.nil_append, ← Request.new] at txs hashes
  have pairs := forall₂_filterMap (fun entry => (judgeAt queues moments entry).accepted)
    message.zipIdx
  have split : ∀ {γ : Type} (part : Transaction × Hash32 → γ),
      message.zipIdx.filterMap (fun entry => (judgeAt queues moments entry).accepted.map part) =
        (message.zipIdx.filterMap fun entry => (judgeAt queues moments entry).accepted).map part :=
    fun part => List.map_filterMap.symm
  have ids : ∀ pair ∈ message.zipIdx.filterMap fun entry =>
      (judgeAt queues moments entry).accepted, pair.1.id = pair.2.display := by
    intro pair member
    obtain ⟨entry, _, found⟩ := List.mem_filterMap.mp member
    obtain ⟨_, _, _, _, record⟩ := accepted_judge found
    rw [record, txStorage_id]
  rw [txs, split] at created
  rw [hashes, split]
  generalize (message.zipIdx.filterMap fun entry => (judgeAt queues moments entry).accepted) =
    accepted at pairs created ids
  have effect := Db.create_ok created
  refine ⟨List.filter_sublist, ?_, ?_, ?_, ?_, fun id row found => effect.row_kept found⟩
  · intro entry member
    have dropped : judgeAt queues moments entry = .drop ↔
        Fails queues (moments entry.2).answers entry.1 := judge_drop_iff
    rw [← dropped, List.mem_filter]
    rcases judged entry member with left | kept
    · simp [left, Verdict.accepted]
    · refine iff_of_false (fun absent => absent ⟨member, kept⟩) fun left => ?_
      rw [left] at kept
      cases kept
  · refine List.forall₂_map_right_iff.mpr (pairs.imp fun entry pair found => ?_)
    obtain ⟨metx, decoded, _, same, _⟩ := accepted_judge found
    exact ⟨metx, decoded, same⟩
  · rw [Db.create_rows created, List.map_map]
    refine congrArg _ (zipWith_of_forall₂ (pairs.imp fun entry pair found => ?_)).symm
    exact (ofTransaction_accepted found).symm
  · intro hash member
    obtain ⟨pair, pairMem, rfl⟩ := List.mem_map.mp member
    rw [← ids pair pairMem]
    exact effect.fresh pair.1 (List.mem_map_of_mem pairMem)

/-- A submission is stored as a whole or not at all: while the workers of the chained queues are
alive, a call which returns an error leaves the store as it was, and one which returns references
has appended the records of the transactions which did not fail. -/
theorem submitTxAmid_atomic (queues : Configs) (moments : Nat → Moment pallas)
    (found : Surroundings) (message : List TxRequest)
    (working : ∀ queue, isChainedQueue queues queue → found.alive queue) :
    (∀ status, (submitTxAmid queues moments found message).1 = .answered (.error status) →
      (submitTxAmid queues moments found message).2.1 = found.db) ∧
    ∀ hashes, (submitTxAmid queues moments found message).1 = .answered (.ok hashes) →
      ∃ kept, Submitted queues moments message found.db
        (submitTxAmid queues moments found message).2.1 hashes kept := by
  have ended := Request.handleAmid_cases queues moments (.new message) 0 message
  have chained : ∀ entry ∈ ((Request.new message).handleAmid queues moments 0 message).passed,
      isChainedQueue queues entry.1 := Request.handleAmid_chained (by simp [Request.new])
  cases reachable : found.reachable with
  | false =>
      unfold submitTxAmid Request.finishAmid
      rcases ended with creating | ⟨failure, failed⟩ | ⟨fault, panicked⟩
      · rw [creating]
        simp [reachable]
      · rw [failed]
        exact ⟨fun _ _ => rfl, by simp⟩
      · rw [panicked]
        simp
  | true =>
      rw [submitTxAmid, Request.finishAmid_eq chained working reachable, Request.finish]
      rcases ended with creating | ⟨failure, failed⟩ | ⟨fault, panicked⟩
      · rw [creating]
        cases created :
          found.db.create ((Request.new message).handleAmid queues moments 0 message).txs with
        | error cause => exact ⟨fun _ _ => rfl, by simp⟩
        | ok next =>
            refine ⟨by simp, fun hashes answered => ?_⟩
            simp only [Phase.answered.injEq, Except.ok.injEq] at answered
            subst answered
            exact ⟨_, submitted_of_creating creating created⟩
      · rw [failed]
        exact ⟨fun _ _ => rfl, by simp⟩
      · rw [panicked]
        simp

/-- A call which finds the lock of the chained queue taken under its token. -/
def sampleMoment : Moment samplePallas :=
  ⟨⟨sampleAdapter, sampleAdapter⟩, 1, Locks.new.setToken "banana" (some "aaaaaaaa")⟩

/-- The worker of the chained queue is alive, and nothing is stored yet. -/
def sampleSurroundings : Surroundings :=
  ⟨fun queue => queue = "banana", true, .empty, sampleMoment.locks⟩

/-- A transaction of the chained queue is submitted, and its record stored. -/
theorem submitTxAmid_atomic_sample :
    ∃ kept, Submitted Locking.sampleQueues (fun _ => sampleMoment)
      [Locking.sampleRequest 1 "aaaaaaaa"] .empty
      (submitTxAmid Locking.sampleQueues (fun _ => sampleMoment) sampleSurroundings
        [Locking.sampleRequest 1 "aaaaaaaa"]).2.1
      [samplePallas.hash (1 : UInt8)] kept := by
  have answered : (submitTxAmid Locking.sampleQueues (fun _ => sampleMoment) sampleSurroundings
      [Locking.sampleRequest 1 "aaaaaaaa"]).1 = .answered (.ok [samplePallas.hash (1 : UInt8)]) :=
    rfl
  refine (submitTxAmid_atomic _ _ _ _ ?_).2 _ answered
  intro queue chained
  rw [← mem_chained_iff] at chained
  simpa [sampleSurroundings] using List.mem_singleton.mp chained

end Boros.Server.Submit
