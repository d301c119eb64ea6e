import Boros.Data.Table
import Boros.Network.MessageLoss
import Boros.Network.Outstanding

/-!
# What a peer tells the server

The request loop against any server, which may acknowledge and ask for whatever it likes.
`transcript_of_run` says that the ids which the peer announces are those of the transactions
that it took out of its port, in order; that its mempool has the last of them, and notified of
each once when it came and at most once when it was acknowledged; and that it serves no other
transaction than one of these which is not acknowledged.
-/

namespace Boros.Network

open Boros.Data Boros.Semantics Boros.Ledger

namespace Mempool

/-- The transactions of which the mempool has notified at a stage. -/
def notified (mempool : Mempool) (stage : TxStage) : List Tx :=
  (mempool.updates.filter fun event => event.newStage = stage).map Event.tx

/-- The mempool has received these transactions so far, has dropped or acknowledged the first
and has the others in flight. -/
structure Records (txs : List Tx) (mempool : Mempool) : Prop where
  suffix : mempool.inflight <:+ txs
  bounded : mempool.inflight.length ≤ cap
  entered : mempool.notified .inflight = txs
  left : (mempool.notified .acknowledged ++ mempool.inflight).Sublist txs

variable {pallas : Pallas} {mempool after : Mempool} {txs : List Tx}

theorem records_new : Records [] new := ⟨List.suffix_refl _, Nat.zero_le _, rfl, .slnil⟩

theorem receive_acknowledged (tx : Tx) :
    (mempool.receive tx).notified .acknowledged = mempool.notified .acknowledged := by
  simp [notified, Mempool.receive, notify]

/-- Receiving acknowledges nothing. -/
theorem receiveAll_acknowledged (raws : List Bytes) :
    (mempool.receiveAll pallas raws).1.notified .acknowledged =
      mempool.notified .acknowledged := by
  induction raws generalizing mempool with
  | nil => rfl
  | cons cbor rest ih =>
      cases decoded : txOfRaw pallas cbor with
      | none => simpa [Mempool.receiveAll, receiveRaw, decoded] using ih
      | some tx =>
          simpa [Mempool.receiveAll, receiveRaw, decoded, receive_acknowledged] using
            @ih (mempool.receive tx)

/-- Receiving at `cap` drops the oldest transaction, and notifies of the new one. -/
theorem Records.receive (records : Records txs mempool) (tx : Tx) :
    Records (txs ++ [tx]) (mempool.receive tx) := by
  obtain ⟨kept, inflight, suffix, short⟩ : ∃ kept, (mempool.receive tx).inflight = kept ++ [tx] ∧
      kept <:+ mempool.inflight ∧ kept.length < cap := by
    by_cases full : cap ≤ mempool.inflight.length
    · refine ⟨mempool.inflight.drop 1, ?_, List.drop_suffix 1 _, ?_⟩
      · simp [Mempool.receive, full]
      · have bounded := records.bounded
        rw [List.length_drop]
        unfold cap at bounded full ⊢
        omega
    · exact ⟨mempool.inflight, receive_inflight_of_lt tx (Nat.lt_of_not_le full),
        List.suffix_refl _, Nat.lt_of_not_le full⟩
  refine ⟨?_, ?_, ?_, ?_⟩
  · rw [inflight]
    obtain ⟨dropped, before⟩ := suffix.trans records.suffix
    exact ⟨dropped, by rw [← List.append_assoc, before]⟩
  · rw [inflight, List.length_append, List.length_singleton]
    exact short
  · have entered := records.entered
    simp only [notified, Mempool.receive, notify, List.filter_append, List.map_append] at entered ⊢
    rw [entered]
    rfl
  · rw [receive_acknowledged, inflight, ← List.append_assoc]
    refine List.Sublist.append (List.Sublist.trans ?_ records.left) (List.Sublist.refl _)
    exact (List.Sublist.refl _).append suffix.sublist

/-- Payloads which do not decode are not recorded. -/
theorem Records.receiveAll (records : Records txs mempool) (raws : List Bytes) :
    Records (txs ++ raws.filterMap (txOfRaw pallas)) (mempool.receiveAll pallas raws).1 := by
  induction raws generalizing mempool txs with
  | nil =>
      rw [List.filterMap_nil, List.append_nil]
      exact records
  | cons cbor rest ih =>
      cases decoded : txOfRaw pallas cbor with
      | none =>
          rw [List.filterMap_cons_none decoded]
          simpa [Mempool.receiveAll, receiveRaw, decoded] using ih records
      | some tx =>
          rw [List.filterMap_cons_some decoded, List.append_cons]
          simpa [Mempool.receiveAll, receiveRaw, decoded] using ih (records.receive tx)

theorem notified_events (stage other : TxStage) (txs : List Tx) :
    ((txs.map (Event.mk stage)).filter fun event => event.newStage = other).map Event.tx =
      if stage = other then txs else [] := by
  by_cases same : stage = other <;> simp [List.filter_map, Function.comp_def, same]

/-- Acknowledging takes the oldest transactions out of the mempool, and notifies of them. -/
theorem Records.acknowledge {count : Nat} (records : Records txs mempool)
    (acknowledged : mempool.acknowledge count = .ok after) : Records txs after ∧
      (after.notified .acknowledged).length =
        (mempool.notified .acknowledged).length + count := by
  obtain ⟨within, rfl⟩ := acknowledge_ok_iff.mp acknowledged
  have left : notified ⟨mempool.inflight.drop count, mempool.updates ++
      (mempool.inflight.take count).map (Event.mk .acknowledged)⟩ .acknowledged =
        mempool.notified .acknowledged ++ mempool.inflight.take count := by
    rw [notified, List.filter_append, List.map_append, notified_events]
    rfl
  refine ⟨⟨?_, ?_, ?_, ?_⟩, ?_⟩
  · exact (List.drop_suffix count _).trans records.suffix
  · have bounded := records.bounded
    rw [List.length_drop]
    omega
  · rw [notified, List.filter_append, List.map_append, notified_events]
    exact (List.append_nil _).trans records.entered
  · rw [left, List.append_assoc, List.take_append_drop]
    exact records.left
  · rw [left, List.length_append, List.length_take]
    omega

end Mempool

variable {pallas : Pallas} {state next start final : State} {label : Label}
  {trace : List (Transition State Label)} {port : List Arrival} {now : Nat}

/-- The transactions which the peer has taken out of its port and decoded. -/
def State.transactions (pallas : Pallas) (state : State) : List Tx :=
  state.received.filterMap (Mempool.txOfRaw pallas)

/-- What the server was told of what came out of the port. -/
structure Transcript (pallas : Pallas) (port : List Arrival) (state : State) : Prop where
  received : ∃ taken, payloads port = taken ++ payloads state.port ∧ state.received.Sublist taken
  announced : state.announced = (state.transactions pallas).map Tx.id
  mempool : state.mempool.Records (state.transactions pallas)
  acknowledged : (state.mempool.notified .acknowledged).length = state.acknowledged

/-- Bodies are served for the ids of a request, in its order, and each is that of a transaction
which was announced and is not acknowledged, under the hash asked for. -/
def Served (pallas : Pallas) (transition : Transition State Label) : Prop :=
  ∀ bodies, transition.label.reply = .txs bodies →
    ∃ (ids : List EraTxId) (txs : List Tx), transition.label.request = .txs ids ∧
      bodies = txs.map (fun tx => (tx.era, tx.bytes)) ∧
      (txs.map fun tx => tx.hash.1).Sublist (ids.map Prod.snd) ∧
      ∀ tx ∈ txs, tx ∈ (transition.before.transactions pallas).drop
        transition.before.acknowledged

/-! ## One request -/

/-- The transactions in flight are among those which are not acknowledged. -/
theorem Transcript.inflight (transcript : Transcript pallas port state) :
    state.mempool.inflight <:+ (state.transactions pallas).drop state.acknowledged := by
  have lengths := transcript.mempool.left.length_le
  rw [List.length_append, transcript.acknowledged] at lengths
  refine List.suffix_of_suffix_length_le transcript.mempool.suffix (List.drop_suffix _ _) ?_
  rw [List.length_drop]
  omega

/-- A request for ids keeps the transcript. -/
theorem Transcript.handleTxIds {ack : UInt16} {reply : Reply}
    {gathered : Except Stop (Nat × List Bytes × List Arrival)}
    (transcript : Transcript pallas port state)
    (took : ∀ later raws rest, gathered = .ok (later, raws, rest) →
      ∃ dropped, payloads state.port = raws ++ dropped ++ payloads rest)
    (handled : state.handleTxIds pallas ack gathered = .ok (next, reply)) :
    Transcript pallas port next := by
  obtain ⟨mempool, later, raws, rest, acknowledged, gathered, rfl, rfl⟩ := handleTxIds_ok handled
  obtain ⟨dropped, took⟩ := took later raws rest gathered
  obtain ⟨taken, before, sublist⟩ := transcript.received
  obtain ⟨records, counted⟩ := transcript.mempool.acknowledge acknowledged
  have transactions : (state.received ++ raws).filterMap (Mempool.txOfRaw pallas) =
      state.transactions pallas ++ raws.filterMap (Mempool.txOfRaw pallas) :=
    List.filterMap_append
  refine ⟨⟨taken ++ (raws ++ dropped), ?_, ?_⟩, ?_, ?_, ?_⟩
  · simp only [before, took, List.append_assoc]
  · exact sublist.append (List.sublist_append_left _ _)
  · rw [State.transactions, transactions, List.map_append, ← transcript.announced,
      propagateTxs_announces]
  · rw [State.transactions, transactions]
    exact records.receiveAll raws
  · rw [Mempool.receiveAll_acknowledged, counted, transcript.acknowledged]

/-- Every request keeps the transcript. -/
theorem Step.transcript (step : Step pallas state label next)
    (transcript : Transcript pallas port state) : Transcript pallas port next := by
  obtain ⟨wait, request, reply⟩ := label
  change (state.advance wait).handle pallas request = .ok (next, reply) at step
  have later : Transcript pallas port (state.advance wait) :=
    ⟨transcript.received, transcript.announced, transcript.mempool, transcript.acknowledged⟩
  cases request with
  | txIds ack req =>
      refine later.handleTxIds (fun _ raws _ gathered => ⟨[], ?_⟩) step
      rw [List.append_nil]
      exact gather_ok gathered
  | txIdsNonBlocking ack req =>
      exact later.handleTxIds (fun _ _ _ gathered => ⟨_, gatherNonBlocking_ok gathered⟩) step
  | txs ids =>
      obtain ⟨rfl, _⟩ := handle_txs_ok step
      exact later

/-- The hashes which are made of the ids asked for are theirs, in order. -/
theorem hashes_of_ids {ids : List EraTxId} {hashes : List Hash32}
    (made : ids.map (fun id => Hash32.fromSlice id.2) = hashes.map .ok) :
    hashes.map (·.1) = ids.map Prod.snd := by
  induction ids generalizing hashes with
  | nil =>
      obtain rfl := List.map_eq_nil_iff.mp made.symm
      rfl
  | cons id rest ih =>
      obtain ⟨hash, later, rfl, first, others⟩ := List.map_eq_cons_iff.mp made.symm
      have same : hash.1 = id.2 := by
        simp only [Hash32.fromSlice] at first
        split at first
        · exact congrArg Subtype.val (Except.ok.inj first)
        · cases first
      rw [List.map_cons, List.map_cons, same, ih others.symm]

/-- What is found for some hashes is in their order. -/
theorem findInflight_sublist (mempool : Mempool) (hashes : List Hash32) :
    ((hashes.filterMap mempool.findInflight).map Tx.hash).Sublist hashes := by
  induction hashes with
  | nil => exact .slnil
  | cons hash rest ih =>
      cases found : mempool.findInflight hash with
      | none =>
          rw [List.filterMap_cons_none found]
          exact ih.cons hash
      | some tx =>
          have same : tx.hash = hash := by simpa using List.find?_some found
          rw [List.filterMap_cons_some found, List.map_cons, same]
          exact ih.cons_cons hash

/-- The bodies of a reply are those of transactions in flight. -/
theorem Step.served (step : Step pallas state label next)
    (transcript : Transcript pallas port state) : Served pallas ⟨state, label, next⟩ := by
  obtain ⟨wait, request, reply⟩ := label
  change (state.advance wait).handle pallas request = .ok (next, reply) at step
  rintro bodies rfl
  cases request with
  | txIds ack req =>
      obtain ⟨_, _, _, _, _, _, replied, _⟩ := handleTxIds_ok step
      cases replied
  | txIdsNonBlocking ack req =>
      obtain ⟨_, _, _, _, _, _, replied, _⟩ := handleTxIds_ok step
      cases replied
  | txs ids =>
      simp only [State.handle] at step
      split at step
      · cases step
      · rename_i hashes made
        obtain ⟨rfl, replied⟩ := Prod.mk.inj (Except.ok.inj step)
        refine ⟨ids, hashes.filterMap state.mempool.findInflight, rfl,
          (Reply.txs.inj replied).symm, ?_, ?_⟩
        · rw [← hashes_of_ids (Table.mapM_ok made)]
          simpa [Function.comp_def] using (findInflight_sublist state.mempool hashes).map (·.1)
        · intro tx member
          obtain ⟨hash, _, found⟩ := List.mem_filterMap.mp member
          exact transcript.inflight.subset (List.mem_of_find?_eq_some found)

/-- The transcript is right at the end of a run, and was at each of its requests. -/
theorem transcripts_of_run (run : Run (Step pallas) (State.initial now port) trace final) :
    Transcript pallas port final ∧
      ∀ transition ∈ trace, Transcript pallas port transition.before := by
  have preserved : Preserved (Step pallas) (fun _ _ => True) (Transcript pallas port) :=
    fun _ _ _ transcript _ step => Step.transcript step transcript
  have initial : Transcript pallas port (State.initial now port) :=
    ⟨⟨[], rfl, .slnil⟩, rfl, Mempool.records_new, rfl⟩
  refine ⟨run.invariant preserved initial fun _ _ => trivial, fun transition member => ?_⟩
  exact (run.invariant_of_mem preserved initial (fun _ _ => trivial) member).1

end Boros.Network
