import Boros.Network.MessageLoss

/-!
# Replies to blocking requests

A blocking request for ids must not be answered with none. `collect_transactions` returns
what it has once nothing was received for half a second, or, if it has nothing, waits for the
next delivery without a timeout. That delivery may be the error of a lagging port, which its
caller replaces by no transactions at all. `blockingReply_iff_promptLags` says that this is
the only way to an empty reply.
-/

namespace Boros.Network

open Boros.Data Boros.Semantics Boros.Ledger

/-- After nothing but lag errors, each within the timeout, a lag error comes in when the timeout
has elapsed. -/
def LagsInSilence (now : Nat) (port : List Arrival) : Prop :=
  ∃ lags time rest, reception now port = lags ++ (time, .lagged) :: rest ∧
    (∀ received ∈ lags, received.2 = .lagged) ∧
    (lags.map Prod.fst).getLastD now + receiveTimeout < time

variable {now later remaining : Nat} {txs raws : List Bytes} {port rest : List Arrival}
  {arrival : Arrival} {arrivals : List Arrival} {payload : Bytes}

@[simp]
theorem not_lagsInSilence_nil (now : Nat) : ¬ LagsInSilence now [] := by
  rintro ⟨lags, time, rest, split, _⟩
  simp [reception] at split

theorem not_lagsInSilence_message (delivery : arrival.delivery = .message payload) :
    ¬ LagsInSilence now (arrival :: arrivals) := by
  rintro ⟨lags, time, rest, split, lagged, _⟩
  rw [reception, delivery] at split
  rcases List.cons_eq_append_iff.mp split with ⟨rfl, first⟩ | ⟨others, rfl, _⟩
  · cases first
  · cases lagged _ List.mem_cons_self

/-- A lag error comes in silence itself, or the silence is still to come. -/
theorem lagsInSilence_lagged (delivery : arrival.delivery = .lagged) :
    LagsInSilence now (arrival :: arrivals) ↔
      now + receiveTimeout < max now arrival.time ∨
        LagsInSilence (max now arrival.time) arrivals := by
  simp only [LagsInSilence, reception, delivery]
  constructor
  · rintro ⟨lags, time, rest, split, lagged, silent⟩
    rcases List.cons_eq_append_iff.mp split with ⟨rfl, first⟩ | ⟨others, rfl, within⟩
    · cases first
      exact .inl silent
    · rw [List.forall_mem_cons] at lagged
      rw [List.map_cons, List.getLastD_cons] at silent
      exact .inr ⟨others, time, rest, within, lagged.2, silent⟩
  · rintro (silent | ⟨lags, time, rest, split, lagged, silent⟩)
    · exact ⟨[], _, _, rfl, by simp, silent⟩
    · refine ⟨(max now arrival.time, .lagged) :: lags, time, rest, ?_, ?_, ?_⟩
      · rw [split]
        rfl
      · rw [List.forall_mem_cons]
        exact ⟨rfl, lagged⟩
      · rw [List.map_cons, List.getLastD_cons]
        exact silent

/-! ## What a call without a deadline collects -/

/-- A call ends with an error only if it has nothing. -/
theorem collectTransactions_ne_failed (filled : txs ≠ []) :
    collectTransactions none now remaining txs port ≠ .failed later rest := by
  induction port generalizing now remaining txs with
  | nil =>
      unfold collectTransactions
      split_ifs <;> simp_all
  | cons arrival arrivals ih =>
      have kept : txs.isEmpty = false := by simpa using filled
      simp only [collectTransactions, elapsedBefore, Option.any_none, kept, Bool.false_eq_true,
        if_false]
      split_ifs
      · simp
      · cases arrival.delivery with
        | message payload => exact ih (by simp)
        | lagged => exact ih filled
      · simp

/-- A call which has nothing ends with an error exactly if the port lags in silence. -/
theorem collectTransactions_failed_iff (asked : 0 < remaining) :
    (∃ later rest, collectTransactions none now remaining [] port = .failed later rest) ↔
      LagsInSilence now port := by
  induction port generalizing now with
  | nil =>
      refine iff_of_false ?_ (not_lagsInSilence_nil now)
      rintro ⟨later, rest, failed⟩
      unfold collectTransactions at failed
      split_ifs at failed
  | cons arrival arrivals ih =>
      have open_ : remaining ≠ 0 := Nat.pos_iff_ne_zero.mp asked
      simp only [collectTransactions, elapsedBefore, Option.any_none, if_neg open_,
        Bool.false_eq_true, if_false, List.isEmpty_nil, if_true]
      cases delivery : arrival.delivery with
      | message payload =>
          refine iff_of_false ?_ (not_lagsInSilence_message delivery)
          rintro ⟨later, rest, failed⟩
          split_ifs at failed
          exact collectTransactions_ne_failed (by simp) failed
      | lagged =>
          rw [lagsInSilence_lagged delivery]
          split_ifs with soon
          · simp only [ih, Nat.not_lt_of_le soon, false_or]
          · simp [Nat.lt_of_not_le soon]

/-- A call returns something if it has or is asked for something, and not more than that. -/
theorem collectTransactions_returned (asked : 0 < txs.length + remaining)
    (returned : collectTransactions none now remaining txs port = .returned later raws rest) :
    0 < raws.length ∧ raws.length ≤ txs.length + remaining := by
  induction port generalizing now remaining txs with
  | nil =>
      simp only [collectTransactions, elapsedBefore, Option.any_none, Bool.false_eq_true,
        if_false, Option.isSome_none, List.isEmpty_iff] at returned
      split_ifs at returned with done empty
      · cases returned
        omega
      · cases returned
        have filled : 0 < raws.length := List.length_pos_iff.mpr empty
        omega
  | cons arrival arrivals ih =>
      simp only [collectTransactions, elapsedBefore, Option.any_none, Bool.false_eq_true,
        if_false, List.isEmpty_iff] at returned
      split_ifs at returned with done soon empty
      · cases returned
        omega
      · cases delivery : arrival.delivery with
        | message payload =>
            rw [delivery] at returned
            have length : (txs ++ [payload]).length + (remaining - 1) = txs.length + remaining := by
              rw [List.length_append, List.length_singleton]
              omega
            rw [← length] at asked ⊢
            exact ih asked returned
        | lagged =>
            rw [delivery] at returned
            exact ih asked returned
      · subst empty
        cases delivery : arrival.delivery with
        | message payload =>
            rw [delivery] at returned
            cases returned
            simp only [List.length_nil, Nat.zero_add] at asked ⊢
            exact ⟨Nat.one_pos, asked⟩
        | lagged =>
            rw [delivery] at returned
            cases returned
      · cases returned
        have filled : 0 < raws.length := List.length_pos_iff.mpr empty
        omega

/-- A blocking request has nothing if the port lags in silence, and otherwise something. -/
theorem gather_ok_length {req : Nat} (asked : 0 < req)
    (gathered : gather now req port = .ok (later, raws, rest)) :
    LagsInSilence now port ∧ raws = [] ∨
      ¬ LagsInSilence now port ∧ 0 < raws.length ∧ raws.length ≤ req := by
  rw [← collectTransactions_failed_iff asked]
  unfold gather at gathered
  split at gathered
  · rename_i returned
    cases gathered
    have bounds := collectTransactions_returned (by simpa using asked) returned
    rw [List.length_nil, Nat.zero_add] at bounds
    refine .inr ⟨?_, bounds⟩
    rintro ⟨_, _, failed⟩
    rw [returned] at failed
    cases failed
  · rename_i failed
    cases gathered
    exact .inl ⟨⟨_, _, failed⟩, rfl⟩
  · cases gathered
  · cases gathered

/-! ## Replies -/

/-- The reply to a blocking request announces the messages received for it, in their order, at
least one and at most as many as were asked for; each of them was put in the mempool. -/
def RepliesWith (pallas : Pallas) (state next : State) (ack req : UInt16) (reply : Reply) : Prop :=
  ∃ raws txs mempool, next.received = state.received ++ raws ∧
    payloads state.port = raws ++ payloads next.port ∧
    raws.map (Mempool.txOfRaw pallas) = txs.map some ∧
    state.mempool.acknowledge ack.toNat = .ok mempool ∧
    next.mempool = txs.foldl Mempool.receive mempool ∧
    reply = propagateTxs txs ∧ 1 ≤ txs.length ∧ txs.length ≤ req.toNat

/-- A blocking request for ids gets its reply. -/
def BlockingReply (pallas : Pallas) (transition : Transition State Label) : Prop :=
  ∀ ack req, transition.label.request = .txIds ack req → 1 ≤ req.toNat →
    RepliesWith pallas transition.before transition.after ack req transition.label.reply

/-- The messages which were received for the request decode. -/
def Decodes (pallas : Pallas) (transition : Transition State Label) : Prop :=
  ∀ raws, transition.after.received = transition.before.received ++ raws →
    ∀ raw ∈ raws, (Mempool.txOfRaw pallas raw).isSome

/-- The port does not lag in silence while a blocking request waits for its first message. -/
def PromptLags (state : State) (label : Label) : Prop :=
  ∀ ack req, label.request = .txIds ack req → 1 ≤ req.toNat →
    ¬ LagsInSilence (state.now + label.wait) state.port

variable {pallas : Pallas} {state next : State} {label : Label} {mempool : Mempool}

/-- Messages which decode are all put in the mempool. -/
theorem receiveAll_of_decodes {txs : List Tx}
    (decoded : raws.map (Mempool.txOfRaw pallas) = txs.map some) :
    mempool.receiveAll pallas raws = (txs.foldl Mempool.receive mempool, txs) := by
  induction raws generalizing mempool txs with
  | nil =>
      obtain rfl : txs = [] := by simpa using decoded.symm
      rfl
  | cons raw rest ih =>
      cases txs with
      | nil => cases decoded
      | cons tx others =>
          obtain ⟨first, later⟩ := List.cons.inj decoded
          simp only [Mempool.receiveAll, Mempool.receiveRaw, first, Option.map_some, ih later,
            List.foldl_cons]

/-- Where every value is there, none is left out. -/
theorem map_eq_filterMap_of_isSome (decodes : ∀ raw ∈ raws, (Mempool.txOfRaw pallas raw).isSome) :
    raws.map (Mempool.txOfRaw pallas) = (raws.filterMap (Mempool.txOfRaw pallas)).map some := by
  induction raws with
  | nil => rfl
  | cons raw rest ih =>
      rw [List.forall_mem_cons] at decodes
      obtain ⟨tx, made⟩ := Option.isSome_iff_exists.mp decodes.1
      simp [made, ih decodes.2]

/-- A blocking request is answered with at least one id exactly if the port does not lag in
silence. -/
theorem Step.blockingReply_iff (step : Step pallas state label next)
    (decodes : Decodes pallas ⟨state, label, next⟩) :
    BlockingReply pallas ⟨state, label, next⟩ ↔ PromptLags state label := by
  obtain ⟨wait, request, reply⟩ := label
  change (state.advance wait).handle pallas request = .ok (next, reply) at step
  refine forall₄_congr fun ack req blocking asked => ?_
  simp only at blocking
  subst blocking
  obtain ⟨mempool, now, raws, port, acknowledged, gathered, rfl, rfl⟩ := handleTxIds_ok step
  have decoded : raws.map (Mempool.txOfRaw pallas) =
      (raws.filterMap (Mempool.txOfRaw pallas)).map some :=
    map_eq_filterMap_of_isSome (decodes raws rfl)
  have length := congrArg List.length decoded
  rw [List.length_map, List.length_map] at length
  rcases gather_ok_length asked gathered with ⟨silent, rfl⟩ | ⟨prompt, filled, bounded⟩
  · refine iff_of_false ?_ (not_not_intro silent)
    rintro ⟨handed, txs, _, received, _, made, _, _, _, filled, _⟩
    obtain rfl := List.append_cancel_left received
    have empty := congrArg List.length made
    rw [List.length_map, List.length_map, List.length_nil] at empty
    omega
  · refine iff_of_true ?_ prompt
    refine ⟨raws, _, mempool, rfl, gather_ok gathered, decoded, acknowledged, ?_, rfl, ?_, ?_⟩
    · rw [receiveAll_of_decodes decoded]
    · omega
    · omega

/-- In every run in which every message that is received decodes, every blocking request is
answered with at least one id exactly if the port never lags in silence. -/
theorem blockingReply_iff_promptLags {start final : State}
    {trace : List (Transition State Label)} (run : Run (Step pallas) start trace final)
    (decodes : ∀ transition ∈ trace, Decodes pallas transition) :
    (∀ transition ∈ trace, BlockingReply pallas transition) ↔ Guarded PromptLags trace := by
  constructor
  · intro replies transition member
    exact ((run.step_of_mem member).blockingReply_iff (decodes transition member)).mp
      (replies transition member)
  · intro prompt transition member
    exact (Step.blockingReply_iff (run.step_of_mem member) (decodes transition member)).mpr
      (prompt transition member)

/-- A request for two ids gets both. -/
theorem blockingReply_iff_promptLags_sample :
    ∃ (final : State) (trace : List (Transition State Label)),
      Run (Step samplePallas) (State.initial 0 samplePort) trace final ∧ trace ≠ [] ∧
        ∀ transition ∈ trace, BlockingReply samplePallas transition := by
  have answered : ((State.initial 0 samplePort).handle samplePallas (.txIds 0 2)).toOption.map
      (fun result => result.1.received) = some [[1], [2]] := by
    decide +kernel
  obtain ⟨final, reply, step, received⟩ := step_of_view answered
  have run := Run.cons step .nil
  refine ⟨final, _, run, by simp, (blockingReply_iff_promptLags run ?_).mpr ?_⟩
  · intro transition member raws handed
    rw [List.mem_singleton.mp member] at handed
    obtain rfl : [[1], [2]] = raws := received.symm.trans handed
    decide
  · rw [guarded_cons]
    refine ⟨fun _ _ _ _ => ?_, guarded_nil _⟩
    exact not_lagsInSilence_message rfl

/-- The port lags after six hundred milliseconds of silence. -/
def laggingPort : List Arrival := [⟨600, .lagged⟩, ⟨700, .message [1]⟩]

/-- A blocking request for one id is answered with none, although a message is on its way. -/
theorem not_blockingReply_of_lag :
    ∃ (final : State) (trace : List (Transition State Label)),
      Run (Step samplePallas) (State.initial 0 laggingPort) trace final ∧
        (∀ transition ∈ trace, Decodes samplePallas transition) ∧
        (∃ transition ∈ trace, transition.label.request = .txIds 0 1 ∧
          transition.label.reply = .txIds []) ∧
        ¬ ∀ transition ∈ trace, BlockingReply samplePallas transition := by
  have step : Step samplePallas (State.initial 0 laggingPort) ⟨0, .txIds 0 1, .txIds []⟩
      ⟨600, .new, [⟨700, .message [1]⟩], [], [], 0⟩ := rfl
  refine ⟨_, _, .cons step .nil, ?_, ⟨_, List.mem_cons_self, rfl, rfl⟩, fun replies => ?_⟩
  · intro transition member raws handed raw within
    rw [List.mem_singleton.mp member] at handed
    obtain rfl : [] = raws := handed
    cases within
  · obtain ⟨raws, txs, _, _, _, _, _, _, reply, filled, _⟩ :=
      replies _ List.mem_cons_self 0 1 rfl (by decide)
    have none : [] = txs.map fun tx => (tx.id, UInt32.ofNat tx.bytes.length) :=
      Reply.txIds.inj reply
    rw [List.map_eq_nil_iff.mp none.symm] at filled
    cases filled

end Boros.Network
