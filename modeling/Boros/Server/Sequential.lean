import Boros.Server.Locking

/-!
# One submission without interruption

`submit_tx` of `src/server/submit.rs` as one sequential computation over the store and the
locks, given what the calls made for each transaction come to. `reaches_submitTx` says that
it is a run of the calls, the locks and the store in which nothing else takes a step.
-/

namespace Boros.Server.Submit

open Boros.Data Boros.Semantics Boros.Storage Boros.Ledger Boros.Queue Boros.Queue.Chaining

/-- What the calls made for one transaction of a message come to, each if it is made. -/
structure Answers (pallas : Pallas) where
  validation : U5cDataAdapter pallas
  evaluation : U5cDataAdapter pallas

variable {pallas : Pallas}

/-- The token check, if the call is about to make one. -/
def Request.checkNext (locks : Locks) (request : Request) : Request :=
  match request.phase with
  | .checking tx hash queue token index remaining =>
    request.check locks tx hash queue token index remaining
  | _ => request

/-- One iteration of the loop. -/
def Request.handleOne (queues : Configs) (locks : Locks) (answers : Answers pallas) (now : Nat)
    (request : Request) (index : Nat) (message : List TxRequest) : Request :=
  (request.examine pallas queues answers.validation answers.evaluation now index message).checkNext
    locks

/-- The loop over the message, from the given index on. -/
def Request.handle (queues : Configs) (locks : Locks) (answers : Nat → Answers pallas) (now : Nat)
    (request : Request) (index : Nat) : List TxRequest → Request
  | [] => request.handleOne queues locks (answers index) now index []
  | item :: remaining =>
    let handled := request.handleOne queues locks (answers index) now index (item :: remaining)
    match handled.phase with
    | .examining _ _ => handled.handle queues locks answers now (index + 1) remaining
    | _ => handled

/-- What a call finds while it handles one transaction of its message. -/
structure Moment (pallas : Pallas) where
  answers : Answers pallas
  now : Nat
  locks : Locks

/-- The loop over the message, where the clock and the locks may change as it goes on. -/
def Request.handleAmid (queues : Configs) (moments : Nat → Moment pallas) (request : Request)
    (index : Nat) : List TxRequest → Request
  | [] => request.handleOne queues (moments index).locks (moments index).answers
      (moments index).now index []
  | item :: remaining =>
    let handled := request.handleOne queues (moments index).locks (moments index).answers
      (moments index).now index (item :: remaining)
    match handled.phase with
    | .examining _ _ => handled.handleAmid queues moments (index + 1) remaining
    | _ => handled

/-- The unlock signals are sent. -/
def signal (locks : Locks) (queues : List String) : Locks :=
  queues.foldl (fun locks queue => locks.setUnlocks queue (locks.unlocks queue + 1)) locks

/-- The rest of the call, once the message is handled. -/
def Request.finish (request : Request) (db : Db) (locks : Locks) : Phase × Db × Locks :=
  match request.phase with
  | .creating =>
    match db.create request.txs with
    | .ok next =>
      (.answered (.ok request.hashes), next, signal locks (request.passed.map Prod.fst))
    | .error _ => (.answered (.error ⟨.internal, "internal error"⟩), db, locks)
  | phase => (phase, db, locks)

/-- `submit_tx`: how the call ends, and the store and the locks after it. -/
def submitTx (queues : Configs) (answers : Nat → Answers pallas) (now : Nat) (db : Db)
    (locks : Locks) (message : List TxRequest) : Phase × Db × Locks :=
  ((Request.new message).handle queues locks answers now 0 message).finish db locks

variable {queues : Configs} {locks : Locks} {now : Nat} {request : Request} {index : Nat}

/-- What becomes of one transaction of a message before any token is checked. -/
inductive Verdict where
  /-- The call returns an error. -/
  | fail (code : Code) (message : String)
  | panic (fault : Fault)
  /-- The transaction is left out of the response. -/
  | drop
  | accept (tx : Transaction) (hash : Hash32)
  /-- The transaction is accepted if this is the token of the queue. -/
  | check (tx : Transaction) (hash : Hash32) (queue token : String)

/-- The body of the loop, up to the token check. -/
def judge (queues : Configs) (answers : Answers pallas) (now index : Nat) (item : TxRequest) :
    Verdict :=
  match pallas.decode item.raw with
  | none => .fail .failedPrecondition ("invalid tx at index " ++ toString index)
  | some metx =>
    let valid := if shouldValidate queues item.queue then
        isValid answers.validation answers.evaluation metx
      else .ok true
    match valid with
    | .error fault => .panic fault
    | .ok false => .drop
    | .ok true =>
      let hash := pallas.hash metx
      let tx := txStorage hash item.raw item.queue now
      match item.queue with
      | none => .accept tx hash
      | some queue =>
        if isChainedQueue queues queue then .check tx hash queue (item.lockToken.getD "")
        else .accept tx hash

/-- The call goes on with the rest of the message as the verdict says. -/
def Request.apply (request : Request) (index : Nat) (remaining : List TxRequest) :
    Verdict → Request
  | .fail code message => request.fail code message
  | .panic fault => { request with phase := .panicked fault }
  | .drop => { request with phase := .examining index remaining }
  | .accept tx hash => request.push tx hash index remaining
  | .check tx hash queue token =>
    { request with phase := .checking tx hash queue token index remaining }

variable {queues : Configs} {locks : Locks} {now : Nat} {request : Request} {index : Nat}
  {answers : Answers pallas} {item : TxRequest} {message remaining : List TxRequest}

/-- An iteration of the loop judges one transaction. -/
theorem Request.examine_cons :
    request.examine pallas queues answers.validation answers.evaluation now index
        (item :: message) =
      request.apply (index + 1) message (judge queues answers now index item) := by
  cases decoded : pallas.decode item.raw with
  | none => simp only [Request.examine, judge, decoded, Request.apply]
  | some metx =>
      simp only [Request.examine, judge, decoded]
      generalize (if shouldValidate queues item.queue = true then
        isValid answers.validation answers.evaluation metx else .ok true) = valid
      cases valid with
      | error fault => rfl
      | ok accepted =>
          cases accepted with
          | false => rfl
          | true =>
              cases item.queue with
              | none => rfl
              | some queue =>
                  by_cases chained : isChainedQueue queues queue = true
                  · simp only [if_pos chained, Request.apply]
                  · simp only [if_neg chained, Request.apply]

theorem Request.handleOne_cons :
    request.handleOne queues locks answers now index (item :: message) =
      (request.apply (index + 1) message
        (judge queues answers now index item)).checkNext locks := by
  rw [handleOne, examine_cons]

/-- After an iteration the call goes on with the rest of the message, or not at all. -/
theorem Request.handleOne_examining {next : Nat}
    (continues : (request.handleOne queues locks answers now index (item :: message)).phase =
      .examining next remaining) : next = index + 1 ∧ remaining = message := by
  rw [handleOne_cons] at continues
  generalize judge queues answers now index item = verdict at continues
  cases verdict with
  | fail code text => cases continues
  | panic fault => cases continues
  | drop =>
      cases continues
      exact ⟨rfl, rfl⟩
  | accept tx hash =>
      cases continues
      exact ⟨rfl, rfl⟩
  | check tx hash queue token =>
      simp only [Request.apply, Request.checkNext, Request.check] at continues
      split at continues
      · cases continues
        exact ⟨rfl, rfl⟩
      · cases continues

/-- The record and the hash of a transaction which is not left out. -/
def Verdict.accepted : Verdict → Option (Transaction × Hash32)
  | .accept tx hash | .check tx hash _ _ => some (tx, hash)
  | _ => none

/-- A transaction which is not left out decodes, and is valid if it was to be validated. -/
theorem accepted_judge {tx : Transaction} {hash : Hash32}
    (accepted : (judge queues answers now index item).accepted = some (tx, hash)) :
    ∃ metx, pallas.decode item.raw = some metx ∧
      (shouldValidate queues item.queue = true →
        isValid answers.validation answers.evaluation metx = .ok true) ∧
      hash = pallas.hash metx ∧ tx = txStorage hash item.raw item.queue now := by
  cases decoded : pallas.decode item.raw with
  | none =>
      simp only [judge, decoded] at accepted
      cases accepted
  | some metx =>
      simp only [judge, decoded] at accepted
      cases verdict : (if shouldValidate queues item.queue = true then
        isValid answers.validation answers.evaluation metx else .ok true) with
      | error fault =>
          rw [verdict] at accepted
          cases accepted
      | ok valid =>
          rw [verdict] at accepted
          cases valid with
          | false => cases accepted
          | true =>
              have validated : shouldValidate queues item.queue = true →
                  isValid answers.validation answers.evaluation metx = .ok true := by
                intro validates
                rw [if_pos validates] at verdict
                exact verdict
              refine ⟨metx, rfl, validated, ?_⟩
              cases queue : item.queue with
              | none =>
                  simp only [queue, Verdict.accepted, Option.some.injEq, Prod.mk.injEq] at accepted
                  exact ⟨accepted.2.symm, by rw [← accepted.1, accepted.2]⟩
              | some name =>
                  simp only [queue] at accepted
                  split at accepted <;>
                  · simp only [Verdict.accepted, Option.some.injEq, Prod.mk.injEq] at accepted
                    exact ⟨accepted.2.symm, by rw [← accepted.1, accepted.2]⟩

/-- What an iteration adds to the records and to the response. -/
structure Request.Judged (request : Request) (verdict : Verdict) (handled : Request) : Prop where
  txs : handled.txs = request.txs ++ (verdict.accepted.map Prod.fst).toList
  hashes : handled.hashes = request.hashes ++ (verdict.accepted.map Prod.snd).toList
  judged : verdict = .drop ∨ verdict.accepted.isSome

/-- An iteration leaves its transaction out, or adds it to the records and to the response, or
is the last one. -/
theorem Request.handleOne_cases (answers : Answers pallas) :
    (request.handleOne queues locks answers now index (item :: message)).phase =
        .examining (index + 1) message ∧
      request.Judged (judge queues answers now index item)
        (request.handleOne queues locks answers now index (item :: message)) ∨
    (∃ status, (request.handleOne queues locks answers now index (item :: message)).phase =
      .answered (.error status)) ∨
    ∃ fault, (request.handleOne queues locks answers now index (item :: message)).phase =
      .panicked fault := by
  rw [handleOne_cons]
  generalize judge queues answers now index item = verdict
  cases verdict with
  | fail code text => exact .inr (.inl ⟨_, rfl⟩)
  | panic fault => exact .inr (.inr ⟨fault, rfl⟩)
  | drop => exact .inl ⟨rfl, (List.append_nil _).symm, (List.append_nil _).symm, .inl rfl⟩
  | accept tx hash => exact .inl ⟨rfl, rfl, rfl, .inr rfl⟩
  | check tx hash queue token =>
      simp only [Request.apply, Request.checkNext, Request.check]
      split
      · exact .inl ⟨rfl, rfl, rfl, .inr rfl⟩
      · exact .inr (.inl ⟨_, rfl⟩)

variable {moments : Nat → Moment pallas}

/-- The loop goes on after an iteration which is not the last one. -/
theorem Request.handleAmid_cons_of_examining {next : Nat} {rest : List TxRequest}
    (continues : (request.handleOne queues (moments index).locks (moments index).answers
      (moments index).now index (item :: message)).phase = .examining next rest) :
    request.handleAmid queues moments index (item :: message) =
      (request.handleOne queues (moments index).locks (moments index).answers (moments index).now
        index (item :: message)).handleAmid queues moments (index + 1) message := by
  rw [handleAmid, continues]

theorem Request.handleAmid_cons_of_ended
    (ended : ∀ next rest, (request.handleOne queues (moments index).locks (moments index).answers
      (moments index).now index (item :: message)).phase ≠ .examining next rest) :
    request.handleAmid queues moments index (item :: message) =
      request.handleOne queues (moments index).locks (moments index).answers (moments index).now
        index (item :: message) := by
  rw [handleAmid]
  split
  · rename_i continues
    exact absurd continues (ended _ _)
  · rfl

/-- The loop ends where the transactions are to be stored, or the call has failed. -/
theorem Request.handleAmid_cases (queues : Configs) (moments : Nat → Moment pallas)
    (request : Request) (index : Nat) (message : List TxRequest) :
    (request.handleAmid queues moments index message).phase = .creating ∨
      (∃ status, (request.handleAmid queues moments index message).phase =
        .answered (.error status)) ∨
      ∃ fault, (request.handleAmid queues moments index message).phase = .panicked fault := by
  induction message generalizing request index with
  | nil => exact .inl rfl
  | cons item remaining ih =>
      rcases handleOne_cases (moments index).answers with
        ⟨continues, _⟩ | ⟨status, failed⟩ | ⟨fault, panicked⟩
      · rw [handleAmid_cons_of_examining continues]
        exact ih _ _
      · rw [handleAmid_cons_of_ended (by simp [failed])]
        exact .inr (.inl ⟨status, failed⟩)
      · rw [handleAmid_cons_of_ended (by simp [panicked])]
        exact .inr (.inr ⟨fault, panicked⟩)

/-- If the transactions are to be stored, the loop goes on after its first iteration. -/
theorem Request.handleAmid_creating_cons
    (creating : (request.handleAmid queues moments index (item :: message)).phase = .creating) :
    request.Judged (judge queues (moments index).answers (moments index).now index item)
        (request.handleOne queues (moments index).locks (moments index).answers
          (moments index).now index (item :: message)) ∧
      request.handleAmid queues moments index (item :: message) =
        (request.handleOne queues (moments index).locks (moments index).answers
          (moments index).now index (item :: message)).handleAmid queues moments (index + 1)
            message := by
  rcases handleOne_cases (moments index).answers with
    ⟨continues, judged⟩ | ⟨status, failed⟩ | ⟨fault, panicked⟩
  · exact ⟨judged, handleAmid_cons_of_examining continues⟩
  · rw [handleAmid_cons_of_ended (by simp [failed]), failed] at creating
    cases creating
  · rw [handleAmid_cons_of_ended (by simp [panicked]), panicked] at creating
    cases creating

/-- The verdict on a transaction, which stands at an index of the message. -/
def judgeAt (queues : Configs) (moments : Nat → Moment pallas) (entry : TxRequest × Nat) :
    Verdict :=
  judge queues (moments entry.2).answers (moments entry.2).now entry.2 entry.1

/-- If the transactions are to be stored, the records and the response are those of the
transactions which were not left out, in the order of the message. -/
theorem Request.handleAmid_creating
    (creating : (request.handleAmid queues moments index message).phase = .creating) :
    (request.handleAmid queues moments index message).txs = request.txs ++
        (message.zipIdx index).filterMap
          (fun entry => (judgeAt queues moments entry).accepted.map Prod.fst) ∧
      (request.handleAmid queues moments index message).hashes = request.hashes ++
        (message.zipIdx index).filterMap
          (fun entry => (judgeAt queues moments entry).accepted.map Prod.snd) ∧
      ∀ entry ∈ message.zipIdx index,
        judgeAt queues moments entry = .drop ∨ (judgeAt queues moments entry).accepted.isSome := by
  induction message generalizing request index with
  | nil => simp [handleAmid, handleOne, examine, checkNext]
  | cons item remaining ih =>
      obtain ⟨judged, later⟩ := handleAmid_creating_cons creating
      rw [later] at creating ⊢
      obtain ⟨txs, hashes, all⟩ := ih creating
      rw [txs, hashes, judged.txs, judged.hashes, List.zipIdx_cons, List.forall_mem_cons]
      refine ⟨?_, ?_, judged.judged, all⟩
      · cases accepted : (judge queues (moments index).answers (moments index).now index
          item).accepted <;> simp [judgeAt, accepted]
      · cases accepted : (judge queues (moments index).answers (moments index).now index
          item).accepted <;> simp [judgeAt, accepted]

/-- A call which nothing interrupts finds the same clock and the same locks all along. -/
theorem Request.handle_eq {answers : Nat → Answers pallas} :
    request.handle queues locks answers now index message =
      request.handleAmid queues (fun index => ⟨answers index, now, locks⟩) index message := by
  induction message generalizing request index with
  | nil => rfl
  | cons item remaining ih =>
      simp only [handle, handleAmid]
      split
      · exact ih
      · rfl

theorem Request.handle_cases (queues : Configs) (locks : Locks) (answers : Nat → Answers pallas)
    (now : Nat) (request : Request) (index : Nat) (message : List TxRequest) :
    (request.handle queues locks answers now index message).phase = .creating ∨
      (∃ status, (request.handle queues locks answers now index message).phase =
        .answered (.error status)) ∨
      ∃ fault, (request.handle queues locks answers now index message).phase = .panicked fault := by
  rw [handle_eq]
  exact handleAmid_cases _ _ _ _ _

/-- The verdicts on a message, the first of which has the given index. -/
def verdicts (queues : Configs) (answers : Nat → Answers pallas) (now index : Nat) :
    List TxRequest → List Verdict
  | [] => []
  | item :: rest =>
    judge queues (answers index) now index item :: verdicts queues answers now (index + 1) rest

theorem verdicts_eq (queues : Configs) (locks : Locks) (answers : Nat → Answers pallas)
    (now index : Nat) (message : List TxRequest) :
    verdicts queues answers now index message = (message.zipIdx index).map
      (judgeAt queues fun index => ⟨answers index, now, locks⟩) := by
  induction message generalizing index with
  | nil => rfl
  | cons item rest ih =>
      rw [verdicts, ih, List.zipIdx_cons, List.map_cons]
      rfl

theorem Request.handle_creating {answers : Nat → Answers pallas}
    (creating : (request.handle queues locks answers now index message).phase = .creating) :
    (request.handle queues locks answers now index message).txs = request.txs ++
        (verdicts queues answers now index message).filterMap
          (fun verdict => verdict.accepted.map Prod.fst) ∧
      (request.handle queues locks answers now index message).hashes = request.hashes ++
        (verdicts queues answers now index message).filterMap
          (fun verdict => verdict.accepted.map Prod.snd) ∧
      ∀ verdict ∈ verdicts queues answers now index message,
        verdict = .drop ∨ verdict.accepted.isSome := by
  rw [handle_eq] at creating ⊢
  obtain ⟨txs, hashes, all⟩ := handleAmid_creating creating
  rw [txs, hashes, verdicts_eq queues locks, List.filterMap_map, List.filterMap_map]
  exact ⟨rfl, rfl, List.forall_mem_map.mpr all⟩

/-- The verdict on a transaction of a message stands among those on the message. -/
theorem judge_mem_verdicts (queues : Configs) (answers : Nat → Answers pallas) (now index : Nat)
    (first second : List TxRequest) (item : TxRequest) :
    judge queues (answers (index + first.length)) now (index + first.length) item ∈
      verdicts queues answers now index (first ++ item :: second) := by
  induction first generalizing index with
  | nil => exact List.mem_cons_self
  | cons head tail ih =>
      rw [List.length_cons, Nat.add_comm tail.length 1, ← Nat.add_assoc]
      exact List.mem_cons_of_mem _ (ih (index + 1))

/-- A verdict on a message is that on one of its transactions. -/
theorem exists_judge_of_mem {answers : Nat → Answers pallas} {verdict : Verdict}
    (member : verdict ∈ verdicts queues answers now index message) :
    ∃ place item, verdict = judge queues (answers place) now place item := by
  induction message generalizing index with
  | nil => cases member
  | cons item rest ih =>
      rcases List.mem_cons.mp member with rfl | later
      · exact ⟨index, item, rfl⟩
      · exact ih later

/-- A call which answers with hashes has come to store its transactions. -/
theorem creating_of_submitTx_ok {answers : Nat → Answers pallas} {db : Db} {hashes : List Hash32}
    (answered : (submitTx queues answers now db locks message).1 = .answered (.ok hashes)) :
    ((Request.new message).handle queues locks answers now 0 message).phase = .creating ∧
      ((Request.new message).handle queues locks answers now 0 message).hashes = hashes := by
  unfold submitTx at answered
  rcases Request.handle_cases queues locks answers now (.new message) 0 message with
    creating | ⟨status, failed⟩ | ⟨fault, panicked⟩
  · refine ⟨creating, ?_⟩
    unfold Request.finish at answered
    rw [creating] at answered
    simp only at answered
    split at answered
    · simpa using answered
    · cases answered
  · rw [Request.finish, failed] at answered
    cases answered
  · rw [Request.finish, panicked] at answered
    cases answered

/-- If a call answers with hashes, each transaction of the message was left out or has its
hash among them. -/
theorem judge_of_submitTx_ok {answers : Nat → Answers pallas} {db : Db} {hashes : List Hash32}
    {first second : List TxRequest}
    (answered : (submitTx queues answers now db locks (first ++ item :: second)).1 =
      .answered (.ok hashes)) :
    judge queues (answers first.length) now first.length item = .drop ∨
      ∃ tx, ∃ hash ∈ hashes,
        (judge queues (answers first.length) now first.length item).accepted = some (tx, hash) := by
  obtain ⟨creating, same⟩ := creating_of_submitTx_ok answered
  obtain ⟨_, response, all⟩ := Request.handle_creating creating
  have member := judge_mem_verdicts queues answers now 0 first second item
  rw [Nat.zero_add] at member
  rcases all _ member with dropped | accepted
  · exact .inl dropped
  · obtain ⟨⟨tx, hash⟩, accepted⟩ := Option.isSome_iff_exists.mp accepted
    refine .inr ⟨tx, hash, ?_, accepted⟩
    rw [← same, response]
    exact List.mem_append_right _ (List.mem_filterMap.mpr ⟨_, member, by rw [accepted]; rfl⟩)

/-- A call passes no more token checks than it has transactions. -/
theorem Request.handle_passed (queues : Configs) (locks : Locks) (answers : Nat → Answers pallas)
    (now : Nat) (request : Request) (index : Nat) (message : List TxRequest) :
    (request.handle queues locks answers now index message).passed.length ≤
      request.passed.length + message.length := by
  induction message generalizing request index with
  | nil => exact Nat.le_refl _
  | cons item remaining ih =>
      have one : (request.handleOne queues locks (answers index) now index
          (item :: remaining)).passed.length ≤ request.passed.length + 1 := by
        rw [handleOne_cons]
        generalize judge queues (answers index) now index item = verdict
        cases verdict with
        | check tx hash queue token =>
            simp only [Request.apply, Request.checkNext, Request.check]
            split
            · exact List.length_append.le
            · exact Nat.le_succ _
        | fail | panic | drop | accept => exact Nat.le_succ _
      rw [List.length_cons]
      simp only [handle]
      split
      · have rest := ih (request.handleOne queues locks (answers index) now index
          (item :: remaining)) (index + 1)
        omega
      · omega

/-- How a call with one transaction ends. -/
theorem submitTx_single (queues : Configs) (answers : Nat → Answers pallas) (now : Nat) (db : Db)
    (locks : Locks) (item : TxRequest) :
    submitTx queues answers now db locks [item] =
      match judge queues (answers 0) now 0 item with
      | .fail code text => (.answered (.error ⟨code, text⟩), db, locks)
      | .panic fault => (.panicked fault, db, locks)
      | .drop => Request.finish ⟨[], [], [], .creating⟩ db locks
      | .accept tx hash => Request.finish ⟨[tx], [hash], [], .creating⟩ db locks
      | .check tx hash queue token =>
        if locks.isValidToken queue token then
          Request.finish ⟨[tx], [hash], [(queue, token)], .creating⟩ db locks
        else (.answered (.error ⟨.permissionDenied, "invalid lock token"⟩), db, locks) := by
  simp only [submitTx, Request.handle, Request.handleOne_cons]
  generalize judge queues (answers 0) now 0 item = verdict
  cases verdict with
  | fail | panic | drop | accept => rfl
  | check tx hash queue token =>
      by_cases valid : locks.isValidToken queue token = true
      · simp only [Request.apply, Request.checkNext, Request.check, if_pos valid]
        rfl
      · simp only [Request.apply, Request.checkNext, Request.check, if_neg valid]
        rfl

/-- A transaction which is left out of a message of its own leaves an empty response. -/
theorem submitTx_of_drop {answers : Nat → Answers pallas} (db : Db)
    (dropped : judge queues (answers 0) now 0 item = .drop) :
    (submitTx queues answers now db locks [item]).1 = .answered (.ok []) := by
  rw [submitTx_single, dropped]
  rfl

/-- If a call answers with hashes, each transaction of the message was left out or has the hash
it decodes to among them. -/
theorem hash_mem_of_submitTx_ok {answers : Nat → Answers pallas} {db : Db} {hashes : List Hash32}
    {first second : List TxRequest} {metx : pallas.MultiEraTx}
    (answered : (submitTx queues answers now db locks (first ++ item :: second)).1 =
      .answered (.ok hashes))
    (decoded : pallas.decode item.raw = some metx) :
    judge queues (answers first.length) now first.length item = .drop ∨
      pallas.hash metx ∈ hashes := by
  rcases judge_of_submitTx_ok answered with dropped | ⟨tx, hash, member, accepted⟩
  · exact .inl dropped
  · obtain ⟨other, decodedOther, _, rfl, _⟩ := accepted_judge accepted
    rw [decoded] at decodedOther
    cases decodedOther
    exact .inr member

end Boros.Server.Submit

namespace Boros.Server.Locking

open Boros.Data Boros.Semantics Boros.Storage Boros.Ledger Boros.Queue Boros.Queue.Chaining
open Boros.Server.Submit

variable {pallas : Pallas} {queues : Configs} {state : State} {id : Nat} {request : Request}

theorem State.setRequest_self (state : State) (id : Nat) (request : Request) :
    (state.setRequest id request).requests id = some request :=
  Function.update_self _ _ _

@[simp]
theorem State.setRequest_setRequest (state : State) (id : Nat) (first second : Request) :
    (state.setRequest id first).setRequest id second = state.setRequest id second := by
  simp [State.setRequest]

/-- One iteration is a run. -/
theorem reaches_handleOne (answers : Answers pallas) {index : Nat} {message : List TxRequest}
    (found : state.requests id = some request) (phase : request.phase = .examining index message) :
    Reaches (Step queues : State → Label pallas → State → Prop) (fun _ _ => True) state
      (state.setRequest id
        (request.handleOne queues state.locks answers state.now index message)) := by
  refine .cons (.examine answers.validation answers.evaluation found phase) trivial ?_
  unfold Request.handleOne
  generalize request.examine pallas queues answers.validation answers.evaluation state.now index
    message = examined
  unfold Request.checkNext
  split
  · rename_i tx hash queue token next rest checking
    have step : Step queues (state.setRequest id examined) (.check id : Label pallas)
        ((state.setRequest id examined).setRequest id
          (examined.check state.locks tx hash queue token next rest)) :=
      .check (State.setRequest_self state id examined) checking
    rw [State.setRequest_setRequest] at step
    exact .cons step trivial (.refl _ _)
  · exact .refl _ _

/-- The loop is a run. -/
theorem reaches_handle (queues : Configs) (answers : Nat → Answers pallas) {index : Nat}
    {message : List TxRequest} (found : state.requests id = some request)
    (phase : request.phase = .examining index message) :
    Reaches (Step queues : State → Label pallas → State → Prop) (fun _ _ => True) state
      (state.setRequest id
        (request.handle queues state.locks answers state.now index message)) := by
  induction message generalizing state request index with
  | nil => exact reaches_handleOne (answers index) found phase
  | cons item remaining ih =>
      have one : Reaches (Step queues : State → Label pallas → State → Prop) (fun _ _ => True)
          state _ := reaches_handleOne (answers index) found phase
      simp only [Request.handle]
      split
      · rename_i next rest continues
        obtain ⟨rfl, rfl⟩ := Request.handleOne_examining continues
        have later := ih (State.setRequest_self state id _) continues
        rw [State.setRequest_setRequest] at later
        exact one.trans later
      · exact one

/-- The call goes on by itself: it sends a signal, or answers. -/
def Ending (id : Nat) (_ : State) (label : Label pallas) : Prop :=
  label = .unlock id ∨ label = .answer id

/-- The unlock signals and the answer are a run, if the channels have room. -/
theorem reaches_answer (signals : List String) (found : state.requests id = some request)
    (phase : request.phase = .unlocking signals)
    (room : ∀ queue, state.locks.unlocks queue + signals.count queue ≤ unlockCapacity) :
    ∃ final : State, Reaches (Step queues : State → Label pallas → State → Prop)
        (Ending id) state final ∧
      final.requests id = some { request with phase := .answered (.ok request.hashes) } ∧
      final.db = state.db ∧ final.locks = signal state.locks signals := by
  induction signals generalizing state request with
  | nil =>
      exact ⟨_, .cons (.answer found phase) (.inr rfl) (.refl _ _), State.setRequest_self _ _ _,
        rfl, rfl⟩
  | cons queue rest ih =>
      have here := room queue
      rw [List.count_cons_self] at here
      let sent := (state.setRequest id { request with phase := .unlocking rest }).setLocks
        (state.locks.setUnlocks queue (state.locks.unlocks queue + 1))
      have step : Step queues state (.unlock id : Label pallas) sent :=
        .unlock found phase (by omega)
      have sentRequest : sent.requests id = some { request with phase := .unlocking rest } :=
        State.setRequest_self _ _ _
      obtain ⟨final, run, answered, db, locks⟩ := ih sentRequest rfl fun other => by
        have bound := room other
        by_cases same : other = queue
        · subst same
          simp only [sent, State.setLocks_locks, Locks.setUnlocks_unlocks, Function.update_self]
          omega
        · rw [List.count_cons_of_ne (Ne.symm same)] at bound
          simpa [sent, same] using bound
      exact ⟨final, .cons step (.inl rfl) run, answered, db, locks⟩

/-- The end of a call is a run, if the channels have room. -/
theorem reaches_finish (found : state.requests id = some request)
    (room : ∀ queue, state.locks.unlocks queue + request.passed.length ≤ unlockCapacity) :
    ∃ (final : State) (answered : Request),
      Reaches (Step queues : State → Label pallas → State → Prop) (fun _ _ => True) state final ∧
        final.requests id = some answered ∧
        (answered.phase, final.db, final.locks) = request.finish state.db state.locks := by
  unfold Request.finish
  split
  · rename_i creating
    split
    · rename_i next created
      let stored : State :=
        { state.setRequest id request.created with
          db := next
          accepted := state.accepted ++ request.passed.map fun entry => (id, entry) }
      have create : Step queues state (.create id : Label pallas) stored :=
        .create found creating created
      have storedRequest : stored.requests id = some request.created :=
        State.setRequest_self state id _
      have roomLeft : ∀ queue, stored.locks.unlocks queue +
          (request.passed.map Prod.fst).count queue ≤ unlockCapacity := by
        intro queue
        have enough := room queue
        have fewer := List.count_le_length (a := queue) (l := request.passed.map Prod.fst)
        rw [List.length_map] at fewer
        change state.locks.unlocks queue + _ ≤ unlockCapacity
        omega
      obtain ⟨final, run, answered, db, locks⟩ := reaches_answer _ storedRequest rfl roomLeft
      have free : Reaches (Step queues : State → Label pallas → State → Prop) (fun _ _ => True)
          stored final := run.mono fun _ _ _ => trivial
      refine ⟨final, _, .cons create trivial free, answered, ?_⟩
      rw [db, locks]
      rfl
    · have createFail : Step queues state (.createFail id : Label pallas)
          (state.setRequest id (request.fail .internal "internal error")) :=
        .createFail found creating
      exact ⟨_, _, .cons createFail trivial (.refl _ _), State.setRequest_self _ _ _, rfl⟩
  · exact ⟨state, request, .refl _ _, found, rfl⟩

/-- Without interruption, and with room for its unlock signals, a call of `submit_tx` ends
as the sequential computation does, and leaves the same store and locks. -/
theorem reaches_submitTx (answers : Nat → Answers pallas) (message : List TxRequest)
    (free : state.requests id = none)
    (room : ∀ queue, state.locks.unlocks queue + message.length ≤ unlockCapacity) :
    ∃ (final : State) (answered : Request),
      Reaches (Step queues : State → Label pallas → State → Prop) (fun _ _ => True) state final ∧
        final.requests id = some answered ∧
        (answered.phase, final.db, final.locks) =
          submitTx queues answers state.now state.db state.locks message := by
  have submit : Step queues state (.submit id message : Label pallas)
      (state.setRequest id (.new message)) := .submit id message free
  let handled := (Request.new message).handle queues state.locks answers state.now 0 message
  have loop : Reaches (Step queues : State → Label pallas → State → Prop) (fun _ _ => True)
      (state.setRequest id (.new message)) (state.setRequest id handled) := by
    have run := reaches_handle queues answers (State.setRequest_self state id (.new message)) rfl
    rw [State.setRequest_setRequest] at run
    exact run
  have roomLeft : ∀ queue, (state.setRequest id handled).locks.unlocks queue +
      handled.passed.length ≤ unlockCapacity := by
    intro queue
    have bound := room queue
    have fewer : handled.passed.length ≤ 0 + message.length :=
      Request.handle_passed queues state.locks answers state.now (.new message) 0 message
    change state.locks.unlocks queue + handled.passed.length ≤ unlockCapacity
    omega
  obtain ⟨final, answered, rest, found, ends⟩ :=
    reaches_finish (State.setRequest_self state id handled) roomLeft
  exact ⟨final, answered, .cons submit trivial (loop.trans rest), found, ends⟩

end Boros.Server.Locking
