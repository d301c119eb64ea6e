import Boros.Node.Acknowledgement
import Boros.Pipeline.SigningOnce

/-!
# Whose bytes the node sends

Nothing is stored, held or broadcast but what clients submitted and the vault signed:
`authentic_of_run` traces every copy back to an item of a message. As a signature keeps the
hash of a transaction, a record's id is the hash of its bytes wherever they are
(`identified_of_run`).
-/

namespace Boros.Node

open Boros.Data Boros.Semantics Boros.Storage Boros.Ledger Boros.Queue Boros.Server Boros.Pipeline
open Boros.Server.Submit Boros.Signing

variable {pallas : Pallas} {setup : Setup} {state next start final : State}
  {label : Label pallas} {trace : List (Transition State (Label pallas))} {now : Nat}

/-- The bytes of a queue's transaction: those which were submitted, after any number of
signatures where the server signs, and as they are elsewhere. -/
def SignedFrom (queues : Configs) (signs : Bytes → Bytes → Prop) (queue : String)
    (submitted raw : Bytes) : Prop :=
  if ServerSigns queues queue then Relation.ReflTransGen signs submitted raw else raw = submitted

/-- The entry and the bytes come from an item of some call's message. -/
def Authentic (queues : Configs) (signs : Bytes → Bytes → Prop)
    (trace : List (Transition State (Label pallas))) : Claim := fun entry raw =>
  ∃ id item metx, Offered trace id item ∧ pallas.decode item.raw = some metx ∧
    (pallas.hash metx).display = entry.id ∧ Locking.queueOf item = entry.queue ∧
      SignedFrom queues signs entry.queue item.raw raw

/-- Whatever the vault answers is a signature. -/
def SignsBy (signs : Bytes → Bytes → Prop) (_ : State) : Label pallas → Prop
  | .fanout (.ingest (.examine replies)) =>
    ∀ raw signed, replies.sign raw = .ok signed → signs raw signed
  | _ => True

/-- What was made of an offered item is authentic. -/
theorem authentic_of_made {queues : Configs} {signs : Bytes → Bytes → Prop} {tx : Transaction}
    {hash : Hash32} {id : Nat} {item : TxRequest} (offered : Offered trace id item)
    (made : Locking.MadeOf pallas item tx hash) :
    Authentic queues signs trace tx.entry tx.raw := by
  have key : tx.id = hash.display := made.id
  have asked : tx.queue = Locking.queueOf item := made.queue
  have raw : tx.raw = item.raw := made.raw
  obtain ⟨metx, _, decoded, rfl, _⟩ := made
  refine ⟨id, item, metx, offered, decoded, key.symm, asked.symm, ?_⟩
  rw [raw, SignedFrom]
  split
  · exact .refl
  · rfl

/-- A signature of authentic bytes is authentic. -/
theorem Authentic.signed {queues : Configs} {signs : Bytes → Bytes → Prop} {entry : Entry}
    {raw signed : Bytes} (authentic : Authentic queues signs trace entry raw)
    (asked : ServerSigns queues entry.queue) (signature : signs raw signed) :
    Authentic queues signs trace entry signed := by
  obtain ⟨id, item, metx, offered, decoded, key, queue, origin⟩ := authentic
  refine ⟨id, item, metx, offered, decoded, key, queue, ?_⟩
  rw [SignedFrom, if_pos asked] at origin ⊢
  exact origin.tail signature

/-- What is seen of a run in the pipeline is authentic where it is new. -/
theorem admits_authentic {signs : Bytes → Bytes → Prop}
    (run : Run (@Step pallas setup) (State.initial now) trace final)
    (vault : Guarded (SignsBy signs) trace) :
    ∀ seen ∈ trace.filterMap seenInPipeline,
      (Authentic setup.ingest.queues signs trace).Admits setup.ingest.queues seen.label := by
  intro seen member
  obtain ⟨⟨before, label, after⟩, transitionMem, visible⟩ := List.mem_filterMap.mp member
  obtain ⟨action, inPipeline, rfl⟩ := Option.map_eq_some_iff.mp visible
  have signed := vault _ transitionMem
  have calls : Locking.CallsFrom pallas (Offered trace) before.server :=
    (callsFrom_of_mem run).2 _ transitionMem
  cases label with
  | restart =>
      cases inPipeline
      trivial
  | monitor label =>
      cases inPipeline
      trivial
  | fanout label =>
      cases label with
      | ingest label =>
          cases inPipeline
          cases label with
          | examine replies =>
              intro entry raw result asked authentic signature
              exact authentic.signed asked (signed raw result signature)
          | _ => trivial
      | _ => cases inPipeline
  | server label =>
      cases label with
      | create id =>
          obtain ⟨request, found, rfl⟩ := Option.map_eq_some_iff.mp inPipeline
          intro tx txMem
          obtain ⟨hash, _, item, offered, made⟩ :=
            Locking.exists_of_forall₂ (calls id request found).made txMem
          exact authentic_of_made offered made
      | _ => cases inPipeline

/-- A claim which what is new in a run admits is true of all copies. -/
theorem carries_of_admits {claim : Claim}
    (run : Run (@Step pallas setup) (State.initial now) trace final)
    (admits : ∀ seen ∈ trace.filterMap seenInPipeline,
      claim.Admits setup.ingest.queues seen.label) : Carries claim final.pipeline :=
  carries_of_run ((pipelineSimulation setup).run run (callsFrom_initial _ now) fun _ _ => trivial)
    admits

/-- Authenticity: in every run, with any interleaving of calls, stages, peers and crashes, each
copy of a record's bytes which is stored, held by a stage or was ever broadcast comes from a
transaction which a client submitted, for the queue which the record is in; it is that very
transaction where the server does not sign, and elsewhere the vault signed it. -/
theorem authentic_of_run {signs : Bytes → Bytes → Prop}
    (run : Run (@Step pallas setup) (State.initial now) trace final)
    (vault : Guarded (SignsBy signs) trace) :
    Carries (Authentic setup.ingest.queues signs trace) final.pipeline :=
  carries_of_admits run (admits_authentic run vault)

/-! ## A small node with a server-signing queue -/

/-- A transaction without witnesses is submitted to the server-signing queue and broadcast. -/
def signingLife : List (Label eraPallas) :=
  [.server (.submit 0 [⟨[1], some "signed", none⟩]),
    .server (.examine 0 signingReplies.validation signingReplies.evaluation),
    .server (.examine 0 signingReplies.validation signingReplies.evaluation), .server (.create 0),
    .fanout (.subscribe "relay"), .fanout (.ingest (.schedule 0 (.inserted _))),
    .fanout (.ingest (.select (.inserted _))), .fanout (.ingest (.examine signingReplies)),
    .fanout (.ingest (.send true))]

/-- Its run, in which the vault answers. -/
theorem signingLife_run :
    ∃ (trace : List (Transition State (Label eraPallas))) (final : State),
      Run (Step signingSetup) (State.initial 0) trace final ∧
        trace.map Transition.label = signingLife ∧
        final.sent = [((signingSample false).id, [1, 7])] := by
  have sent : (follow (State.exec signingSetup) (State.initial 0) signingLife).map State.sent =
      some [((signingSample false).id, [1, 7])] := by
    decide +kernel
  obtain ⟨final, followed, sent⟩ := Option.map_eq_some_iff.mp sent
  obtain ⟨trace, run, labels⟩ := Run.of_follow (step_of_exec signingSetup) followed
  exact ⟨trace, final, run, labels, sent⟩

/-- The signed bytes which were sent are traced back to those which were submitted. -/
theorem authentic_of_run_sample :
    ∃ (trace : List (Transition State (Label eraPallas))) (final : State),
      Run (Step signingSetup) (State.initial 0) trace final ∧
        final.sent = [((signingSample false).id, [1, 7])] ∧
        Carries (Authentic signingSetup.ingest.queues
          (fun raw signed => signingReplies.sign raw = .ok signed) trace) final.pipeline := by
  obtain ⟨trace, final, run, labels, sent⟩ := signingLife_run
  refine ⟨trace, final, run, sent, authentic_of_run run fun transition member => ?_⟩
  have known := label_mem labels member
  simp only [signingLife, List.mem_cons, List.not_mem_nil, or_false] at known
  rcases known with same | same | same | same | same | same | same | same | same <;> rw [same]
  case inr.inr.inr.inr.inr.inr.inr.inl => exact fun _ _ signed => signed
  all_goals trivial

/-! ## The hash of the bytes -/

/-- The bytes decode to a transaction whose hash is the id. -/
def Identified (pallas : Pallas) : Claim := fun entry raw =>
  ∃ metx, pallas.decode raw = some metx ∧ (pallas.hash metx).display = entry.id

/-- Bytes are signed by the vault, whatever mnemonic it answers with. -/
def UsesVault (builder : TxBuilder pallas) (_ : State) : Label pallas → Prop
  | .fanout (.ingest (.examine replies)) =>
    ∃ read config, replies.sign = signer builder read config
  | _ => True

/-- One signature of the vault. -/
def VaultSigns (builder : TxBuilder pallas) (raw signed : Bytes) : Prop :=
  ∃ mnemonic, signWith builder mnemonic raw = .ok signed

/-- Signatures keep the hash. -/
theorem hash_of_signed {builder : TxBuilder pallas} (keepsHash : builder.KeepsHash)
    {submitted raw : Bytes} {metx : pallas.MultiEraTx}
    (decoded : pallas.decode submitted = some metx)
    (signed : Relation.ReflTransGen (VaultSigns builder) submitted raw) :
    ∃ result, pallas.decode raw = some result ∧ pallas.hash result = pallas.hash metx := by
  induction signed with
  | refl => exact ⟨metx, decoded, rfl⟩
  | tail _ step ih =>
      obtain ⟨middle, decodedMiddle, same⟩ := ih
      obtain ⟨mnemonic, success⟩ := step
      obtain ⟨result, decodedResult, again⟩ := keepsHash.signWith success decodedMiddle
      exact ⟨result, decodedResult, again.trans same⟩

/-- Authentic bytes are those of a transaction whose hash is the id. -/
theorem Authentic.identified {builder : TxBuilder pallas} (keepsHash : builder.KeepsHash)
    {queues : Configs} {entry : Entry} {raw : Bytes}
    (authentic : Authentic queues (VaultSigns builder) trace entry raw) :
    Identified pallas entry raw := by
  obtain ⟨id, item, metx, _, decoded, key, _, origin⟩ := authentic
  unfold SignedFrom at origin
  split at origin
  · obtain ⟨result, decodedResult, same⟩ := hash_of_signed keepsHash decoded origin
    exact ⟨result, decodedResult, same ▸ key⟩
  · exact ⟨metx, origin ▸ decoded, key⟩

/-- What the vault answers is one of its signatures. -/
theorem signsBy_of_usesVault {builder : TxBuilder pallas}
    (vault : Guarded (UsesVault builder) trace) : Guarded (SignsBy (VaultSigns builder)) trace := by
  refine vault.mono fun state label uses => ?_
  cases label with
  | fanout label =>
      cases label with
      | ingest label =>
          cases label with
          | examine replies =>
              obtain ⟨read, config, same⟩ := uses
              intro raw signed signature
              rw [same] at signature
              obtain ⟨mnemonic, _, success⟩ := signer_ok signature
              exact ⟨mnemonic, success⟩
          | _ => trivial
      | _ => trivial
  | _ => trivial

/-- Identity: in every run in which bytes are signed by the vault only, every copy of a record's
bytes, stored, held or broadcast, is that of a transaction whose hash is the record's id. -/
theorem identified_of_run {builder : TxBuilder pallas} (keepsHash : builder.KeepsHash)
    (run : Run (@Step pallas setup) (State.initial now) trace final)
    (vault : Guarded (UsesVault builder) trace) :
    Carries (Identified pallas) final.pipeline :=
  (carries_of_admits run (admits_authentic run (signsBy_of_usesVault vault))).mono
    fun _ _ authentic => authentic.identified keepsHash

/-- It is the vault which signs the transaction. -/
theorem signingLife_vault {trace : List (Transition State (Label eraPallas))}
    (labels : trace.map Transition.label = signingLife) :
    Guarded (UsesVault sampleBuilder) trace := by
  intro transition member
  have known := label_mem labels member
  simp only [signingLife, List.mem_cons, List.not_mem_nil, or_false] at known
  rcases known with same | same | same | same | same | same | same | same | same <;> rw [same]
  case inr.inr.inr.inr.inr.inr.inr.inl => exact ⟨_, _, rfl⟩
  all_goals trivial

/-- The signed bytes which were sent have the hash of those which were submitted. -/
theorem identified_of_run_sample :
    ∃ (trace : List (Transition State (Label eraPallas))) (final : State),
      Run (Step signingSetup) (State.initial 0) trace final ∧
        final.sent = [((signingSample false).id, [1, 7])] ∧
        Carries (Identified eraPallas) final.pipeline := by
  obtain ⟨trace, final, run, labels, sent⟩ := signingLife_run
  exact ⟨trace, final, run, sent,
    identified_of_run sampleBuilder_keepsHash run (signingLife_vault labels)⟩

end Boros.Node
