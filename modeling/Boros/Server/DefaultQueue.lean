import Boros.Server.Sequential

/-!
# Submissions without a queue

A transaction without a queue is stored in the default one, but it is validated, and its
lock token is not checked, whatever the default queue's configuration says.
`omissionNeutral_iff` says for which configurations leaving the queue out comes to the same
as naming the default queue.
-/

namespace Boros.Server.Submit

open Boros.Data Boros.Semantics Boros.Storage Boros.Ledger Boros.Queue Boros.Queue.Chaining

/-- The same transaction, where the default queue may be named if no queue was. -/
inductive Named : TxRequest → TxRequest → Prop where
  | same (item : TxRequest) : Named item item
  | default (raw : Bytes) (lockToken : Option String) :
      Named ⟨raw, none, lockToken⟩ ⟨raw, some defaultQueue, lockToken⟩

/-- In every reachable state, a call ends in the same way and leaves the same store and the
same locks when the default queue is named where the queue was left out. -/
def OmissionNeutral (pallas : Pallas) (queues : Configs) : Prop :=
  ∀ (db : Db) (now : Nat) (trace : List (Transition Locking.State (Locking.Label pallas)))
    (state : Locking.State), Run (Locking.Step queues) (.initial db now) trace state →
    ∀ (answers : Nat → Answers pallas) (message named : List TxRequest),
      List.Forall₂ Named message named →
        submitTx queues answers state.now state.db state.locks message =
          submitTx queues answers state.now state.db state.locks named

/-- Some bytes decode to a transaction which validation can accept. -/
def Accepting (pallas : Pallas) : Prop :=
  ∃ (raw : Bytes) (metx : pallas.MultiEraTx) (answers : Answers pallas),
    pallas.decode raw = some metx ∧ isValid answers.validation answers.evaluation metx = .ok true

variable {pallas : Pallas} {queues : Configs} {config : Config} {now index : Nat}
  {answers : Answers pallas} {item other : TxRequest} {message named : List TxRequest}

/-! ## A plain default queue -/

/-- The same verdict on both, if the default queue is neither chained nor server-signed. -/
theorem judge_named (configured : queues.get defaultQueue = some config)
    (chained : config.chained = false) (signing : config.serverSigning = false)
    (same : Named item other) :
    judge queues answers now index other = judge queues answers now index item := by
  cases same with
  | same => rfl
  | default raw lockToken =>
      have validated : shouldValidate queues (some defaultQueue) = shouldValidate queues none := by
        simp [shouldValidate, configured, signing]
      have unchained : isChainedQueue queues defaultQueue = false := by
        simp [isChainedQueue, configured, chained]
      simp only [judge, validated, unchained]
      rfl

/-- Messages on which all verdicts are the same are handled in the same way. -/
theorem handle_named (locks : Locks) (now : Nat) (answers : Nat → Answers pallas)
    (verdicts : ∀ index item other, Named item other →
      judge queues (answers index) now index other = judge queues (answers index) now index item)
    (same : List.Forall₂ Named message named) (txs : List Transaction) (hashes : List Hash32)
    (passed : List (String × String)) (phase phase' : Phase) (index : Nat) :
    Request.handle queues locks answers now ⟨txs, hashes, passed, phase⟩ index message =
      Request.handle queues locks answers now ⟨txs, hashes, passed, phase'⟩ index named := by
  induction same generalizing txs hashes passed phase phase' index with
  | nil => rfl
  | @cons item other remaining rest same _ ih =>
      simp only [Request.handle, Request.handleOne_cons, verdicts index item other same]
      generalize judge queues (answers index) now index item = verdict
      cases verdict with
      | fail | panic => rfl
      | drop => exact ih _ _ _ _ _ _
      | accept tx hash => exact ih _ _ _ _ _ _
      | check tx hash queue token =>
          by_cases valid : locks.isValidToken queue token = true
          · simp only [Request.apply, Request.checkNext, Request.check, if_pos valid]
            exact ih _ _ _ _ _ _
          · simp only [Request.apply, Request.checkNext, Request.check, if_neg valid]
            rfl

/-! ## Any other default queue -/

/-- A call whose loop has ended is answered with its hashes, or fails with an internal
error. -/
theorem finish_creating (txs : List Transaction) (hashes : List Hash32)
    (passed : List (String × String)) (db : Db) (locks : Locks) :
    (Request.finish ⟨txs, hashes, passed, .creating⟩ db locks).1 = .answered (.ok hashes) ∨
      (Request.finish ⟨txs, hashes, passed, .creating⟩ db locks).1 =
        .answered (.error ⟨.internal, "internal error"⟩) := by
  cases created : db.create txs with
  | ok next => exact .inl (by simp only [Request.finish, created])
  | error cause => exact .inr (by simp only [Request.finish, created])

/-- Without a lock, a transaction is refused when it names a chained default queue, and
is accepted when it names none. -/
theorem not_omissionNeutral_of_chained (accepting : Accepting pallas)
    (configured : queues.get defaultQueue = some config) (chained : config.chained = true) :
    ¬ OmissionNeutral pallas queues := by
  obtain ⟨raw, metx, answers, decoded, valid⟩ := accepting
  intro neutral
  have same := congrArg Prod.fst (neutral Db.empty 0 [] _ .nil (fun _ => answers)
    [⟨raw, none, none⟩] [⟨raw, some defaultQueue, none⟩] (.cons (.default raw none) .nil))
  have unnamed : judge queues answers 0 0 ⟨raw, none, none⟩ =
      .accept (txStorage (pallas.hash metx) raw none 0) (pallas.hash metx) := by
    simp [judge, decoded, shouldValidate, valid]
  have isNamed : judge queues answers 0 0 ⟨raw, some defaultQueue, none⟩ =
      .check (txStorage (pallas.hash metx) raw (some defaultQueue) 0) (pallas.hash metx)
        defaultQueue "" := by
    simp [judge, decoded, valid, isChainedQueue, configured, chained]
  have unlocked : ¬ Locks.new.isValidToken defaultQueue "" = true := by
    simp [Locks.isValidToken, Locks.new]
  simp only [submitTx_single, Locking.State.initial] at same
  rw [unnamed, isNamed] at same
  simp only [if_neg unlocked] at same
  rcases finish_creating [txStorage (pallas.hash metx) raw none 0] [pallas.hash metx] []
    Db.empty Locks.new with ended | ended <;>
  · rw [ended] at same
    simp at same

/-- When validation cannot reach the server, a transaction is left out when it names no
queue, and is accepted when it names a default queue whose transactions the server signs. -/
theorem not_omissionNeutral_of_serverSigning (accepting : Accepting pallas)
    (configured : queues.get defaultQueue = some config) (chained : config.chained = false)
    (signing : config.serverSigning = true) : ¬ OmissionNeutral pallas queues := by
  obtain ⟨raw, metx, ⟨validation, evaluation⟩, decoded, _⟩ := accepting
  let answers : Answers pallas := ⟨{ validation with fetchTip := .error (.error "") }, evaluation⟩
  intro neutral
  have same := congrArg Prod.fst (neutral Db.empty 0 [] _ .nil (fun _ => answers)
    [⟨raw, none, none⟩] [⟨raw, some defaultQueue, none⟩] (.cons (.default raw none) .nil))
  have unnamed : judge queues answers 0 0 ⟨raw, none, none⟩ = .drop := by
    simp [judge, decoded, shouldValidate, answers, isValid, validateTx, fetched, bind, Except.bind]
  have isNamed : judge queues answers 0 0 ⟨raw, some defaultQueue, none⟩ =
      .accept (txStorage (pallas.hash metx) raw (some defaultQueue) 0) (pallas.hash metx) := by
    simp [judge, decoded, shouldValidate, isChainedQueue, configured, chained, signing]
  simp only [Locking.State.initial] at same
  rw [submitTx_of_drop Db.empty unnamed, submitTx_single, isNamed] at same
  rcases finish_creating [txStorage (pallas.hash metx) raw (some defaultQueue) 0]
    [pallas.hash metx] [] Db.empty Locks.new with ended | ended <;>
  · rw [ended] at same
    simp at same

/-- Leaving the queue out comes to the same as naming the default queue exactly for the
configurations in which the default queue is neither chained nor server-signed. -/
theorem omissionNeutral_iff (accepting : Accepting pallas)
    (configured : queues.get defaultQueue = some config) :
    OmissionNeutral pallas queues ↔ config.chained = false ∧ config.serverSigning = false := by
  constructor
  · intro neutral
    have chained : config.chained = false := by
      by_contra chained
      exact not_omissionNeutral_of_chained accepting configured (by simpa using chained) neutral
    refine ⟨chained, ?_⟩
    by_contra signing
    exact not_omissionNeutral_of_serverSigning accepting configured chained
      (by simpa using signing) neutral
  · rintro ⟨chained, signing⟩ db now trace state _ answers message named same
    have handled := handle_named state.locks state.now answers
      (fun index item other => judge_named configured chained signing) same [] [] []
      (.examining 0 message) (.examining 0 named) 0
    simp only [submitTx, Request.new, handled]

/-! ## The small ledger -/

theorem samplePallas_accepting : Accepting samplePallas :=
  ⟨[1], (1 : UInt8), ⟨sampleAdapter, sampleAdapter⟩, rfl, rfl⟩

/-- The default queue alone, chained or not. -/
def sampleDefault (chained : Bool) : Configs := ⟨[{ chained := chained }], by simp⟩

theorem omissionNeutral_iff_plain : OmissionNeutral samplePallas (sampleDefault false) :=
  (omissionNeutral_iff samplePallas_accepting (show (sampleDefault false).get defaultQueue =
    some { chained := false } from rfl)).mpr ⟨rfl, rfl⟩

/-- With a chained default queue, a transaction enters it without a lock token when it does
not name the queue. -/
theorem not_omissionNeutral_chained :
    (submitTx (sampleDefault true) (fun _ => ⟨sampleAdapter, sampleAdapter⟩) 0 Db.empty .new
        [⟨[1], none, none⟩]).1 = .answered (.ok [samplePallas.hash (1 : UInt8)]) ∧
      (submitTx (sampleDefault true) (fun _ => ⟨sampleAdapter, sampleAdapter⟩) 0 Db.empty .new
        [⟨[1], some defaultQueue, none⟩]).1 =
          .answered (.error ⟨.permissionDenied, "invalid lock token"⟩) ∧
      ¬ OmissionNeutral samplePallas (sampleDefault true) :=
  ⟨by decide +kernel, by decide +kernel, not_omissionNeutral_of_chained samplePallas_accepting
    (show (sampleDefault true).get defaultQueue = some { chained := true } from rfl) rfl⟩

end Boros.Server.Submit
