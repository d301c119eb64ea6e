import Boros.Network.Transcript
import Boros.Node.Authenticity

/-!
# What the network gets to see

A peer's request loop takes its messages out of the channel on which the ingest stage sends.
`announced_of_run` follows an id from a server which was announced it, or a body which it was
served, through the peer's mempool, the channel, the store and the vault to the call in which
a client submitted the transaction.
-/

namespace Boros.Node

open Boros.Data Boros.Semantics Boros.Storage Boros.Ledger Boros.Queue Boros.Server Boros.Pipeline
open Boros.Signing Boros.Network

variable {pallas : Pallas} {setup : Setup} {final : State}
  {trace : List (Transition State (Label pallas))} {now : Nat} {builder : TxBuilder pallas}
  {port : List Arrival} {loop : Network.State}
  {requests : List (Transition Network.State Network.Label)}

/-- The transaction is a record's: its hash is the record's id, and its bytes were submitted for
that record, and signed by the vault where the record's queue asks for it. -/
def Vouched (queues : Configs) (builder : TxBuilder pallas) (db : Db)
    (trace : List (Transition State (Label pallas))) (tx : Network.Tx) : Prop :=
  ∃ entry ∈ db.log, tx.hash.display = entry.id ∧
    Authentic queues (VaultSigns builder) trace entry tx.bytes

/-- What comes out of the port was sent on the output port. -/
def Hears (state : State) (port : List Arrival) : Prop :=
  ∀ payload ∈ payloads port, ∃ id, (id, payload) ∈ state.sent

/-- What a peer has taken out of its port is vouched for. -/
theorem vouched_of_transcript (keepsHash : builder.KeepsHash)
    (carries : Carries (Authentic setup.ingest.queues (VaultSigns builder) trace) final.pipeline)
    (hears : Hears final port) (transcript : Transcript pallas port loop) {tx : Network.Tx}
    (member : tx ∈ loop.transactions pallas) :
    Vouched setup.ingest.queues builder final.db trace tx := by
  obtain ⟨payload, received, made⟩ := List.mem_filterMap.mp member
  obtain ⟨taken, port_eq, sublist⟩ := transcript.received
  have heard : payload ∈ payloads port := by
    rw [port_eq]
    exact List.mem_append_left _ (sublist.subset received)
  obtain ⟨id, sent⟩ := hears payload heard
  obtain ⟨entry, logged, _, authentic⟩ := carries.sent _ sent
  obtain ⟨metx, decoded, display⟩ := authentic.identified keepsHash
  obtain ⟨same, decodedHere, rfl⟩ := Option.map_eq_some_iff.mp made
  rw [decoded] at decodedHere
  obtain rfl := Option.some.inj decodedHere
  exact ⟨entry, logged, display, authentic⟩

/-- No injection: whatever the node does, and whatever the server asks for, every id that a peer
announces and every body that it serves is that of a record which a client submitted, signed by
nobody but the vault. -/
theorem announced_of_run (keepsHash : builder.KeepsHash)
    (run : Run (@Step pallas setup) (State.initial now) trace final)
    (vault : Guarded (UsesVault builder) trace) (hears : Hears final port) {start : Nat}
    (serves : Run (Network.Step pallas) (Network.State.initial start port) requests loop) :
    (∀ id ∈ loop.announced, ∃ tx : Network.Tx, tx.id = id ∧
        Vouched setup.ingest.queues builder final.db trace tx) ∧
      ∀ request ∈ requests, ∀ bodies, request.label.reply = .txs bodies → ∀ body ∈ bodies,
        ∃ tx : Network.Tx, (tx.era, tx.bytes) = body ∧ tx.id ∈ request.before.announced ∧
          Vouched setup.ingest.queues builder final.db trace tx := by
  have carries := carries_of_admits run (admits_authentic run (signsBy_of_usesVault vault))
  obtain ⟨transcript, during⟩ := transcripts_of_run serves
  constructor
  · intro id announced
    rw [transcript.announced] at announced
    obtain ⟨tx, member, rfl⟩ := List.mem_map.mp announced
    exact ⟨tx, rfl, vouched_of_transcript keepsHash carries hears transcript member⟩
  · intro request member bodies replied body served
    obtain ⟨ids, txs, _, rfl, _, unacknowledged⟩ :=
      (serves.step_of_mem member).served (during request member) bodies replied
    obtain ⟨tx, txMem, rfl⟩ := List.mem_map.mp served
    have taken := List.mem_of_mem_drop (unacknowledged tx txMem)
    refine ⟨tx, rfl, ?_, ?_⟩
    · rw [(during request member).announced]
      exact List.mem_map_of_mem taken
    · exact vouched_of_transcript keepsHash carries hears (during request member) taken

/-- The id of the signed transaction is announced. -/
theorem announced_of_run_sample :
    ∃ (trace : List (Transition State (Label eraPallas))) (final : State)
      (loop : Network.State) (id : EraTxId),
      Run (Step signingSetup) (State.initial 0) trace final ∧ loop.announced = [id] ∧
        ∃ tx : Network.Tx, tx.id = id ∧
          Vouched signingSetup.ingest.queues sampleBuilder final.db trace tx := by
  obtain ⟨trace, final, run, labels, sent⟩ := signingLife_run
  have hears : Hears final [⟨0, .message [1, 7]⟩] := by
    intro payload member
    obtain rfl : payload = [1, 7] := by simpa [payloads, Delivery.payload?] using member
    exact ⟨_, by rw [sent]; exact List.mem_singleton_self _⟩
  have answered : ((Network.State.initial 0 [⟨0, .message [1, 7]⟩]).handle eraPallas
      (.txIds 0 1)).toOption.map (fun result => result.1.announced.length) = some 1 := by
    decide +kernel
  obtain ⟨loop, reply, step, announced⟩ := step_of_view answered
  obtain ⟨id, single⟩ := List.length_eq_one_iff.mp announced
  obtain ⟨announcements, _⟩ :=
    announced_of_run sampleBuilder_keepsHash run (signingLife_vault labels) hears (.cons step .nil)
  refine ⟨trace, final, loop, id, run, single, announcements id ?_⟩
  rw [single]
  exact List.mem_singleton_self _

end Boros.Node
