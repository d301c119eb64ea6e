import Boros.Server.Locking
import Boros.Storage.Log

/-!
# What a call makes of its message

A call of `submit_tx` keeps two lists, the records to store and the hashes to answer, and
drops the items of its message one after the other. `Request.From` says that the two lists
belong together and were made of items of the message, in every interleaving; `Stored` that
from its `create` on the records are in the store.
-/

namespace Boros.Server.Locking

open Boros.Data Boros.Semantics Boros.Storage Boros.Ledger Boros.Queue Boros.Queue.Chaining
open Boros.Server.Submit

/-- What is in the first of two lists which belong together has a partner in the second. -/
theorem exists_of_forall₂ {α β : Type*} {R : α → β → Prop} {left : List α} {right : List β}
    (related : List.Forall₂ R left right) {value : α} (member : value ∈ left) :
    ∃ partner ∈ right, R value partner := by
  induction related with
  | nil => cases member
  | @cons first second left right head tail ih =>
      rcases List.mem_cons.mp member with rfl | later
      · exact ⟨second, List.mem_cons_self, head⟩
      · obtain ⟨partner, partnerMem, holds⟩ := ih later
        exact ⟨partner, List.mem_cons_of_mem _ partnerMem, holds⟩

/-- `submit_tx` makes this record and this hash of an item. -/
def MadeOf (pallas : Pallas) (item : TxRequest) (tx : Transaction) (hash : Hash32) : Prop :=
  ∃ metx now, pallas.decode item.raw = some metx ∧ hash = pallas.hash metx ∧
    tx = txStorage hash item.raw item.queue now

/-- The queue of the record made of an item. -/
def queueOf (item : TxRequest) : String := item.queue.getD defaultQueue

variable {pallas : Pallas} {item : TxRequest} {tx : Transaction} {hash : Hash32}

theorem MadeOf.id (made : MadeOf pallas item tx hash) : tx.id = hash.display := by
  obtain ⟨_, _, _, _, rfl⟩ := made
  exact txStorage_id _ _ _ _

theorem MadeOf.queue (made : MadeOf pallas item tx hash) : tx.queue = queueOf item := by
  obtain ⟨_, _, _, _, rfl⟩ := made
  cases named : item.queue <;> simp [txStorage, queueOf, named, Transaction.new]

theorem MadeOf.raw (made : MadeOf pallas item tx hash) : tx.raw = item.raw := by
  obtain ⟨_, _, _, _, rfl⟩ := made
  cases item.queue <;> rfl

theorem MadeOf.accepted (made : MadeOf pallas item tx hash) : Accepted pallas tx := by
  obtain ⟨metx, now, decoded, rfl, rfl⟩ := made
  exact ⟨metx, item.raw, item.queue, now, decoded, rfl⟩

/-- The record and the hash were made of an item of a kind. -/
def MadeFrom (pallas : Pallas) (items : TxRequest → Prop) (tx : Transaction) (hash : Hash32) :
    Prop :=
  ∃ item, items item ∧ MadeOf pallas item tx hash

/-- What a call has in hand where it is: items of a kind, and what was made of them. -/
def PhaseFrom (pallas : Pallas) (items : TxRequest → Prop) (hashes : List Hash32) :
    Phase → Prop
  | .examining _ remaining => ∀ item ∈ remaining, items item
  | .checking tx hash _ _ _ remaining =>
    MadeFrom pallas items tx hash ∧ ∀ item ∈ remaining, items item
  | .answered (.ok answer) => answer = hashes
  | _ => True

/-- A call's records and hashes were made of items of a kind, one of each. -/
structure Request.From (pallas : Pallas) (items : TxRequest → Prop) (request : Request) :
    Prop where
  made : List.Forall₂ (MadeFrom pallas items) request.txs request.hashes
  phase : PhaseFrom pallas items request.hashes request.phase

/-- The records and the hashes of every call were made of items of its own kind. -/
def CallsFrom (pallas : Pallas) (items : Nat → TxRequest → Prop) (state : State) : Prop :=
  ∀ id request, state.requests id = some request → Request.From pallas (items id) request

section Step

variable {items : TxRequest → Prop} {request : Request} {index : Nat} {locks : Locks}
  {remaining : List TxRequest} {queue token : String}

theorem Request.from_new {message : List TxRequest} (members : ∀ item ∈ message, items item) :
    Request.From pallas items (.new message) :=
  ⟨.nil, members⟩

/-- An accepted item extends both lists. -/
theorem Request.From.push (made : List.Forall₂ (MadeFrom pallas items) request.txs request.hashes)
    (fresh : MadeFrom pallas items tx hash) (rest : ∀ item ∈ remaining, items item) :
    Request.From pallas items (request.push tx hash index remaining) :=
  ⟨List.rel_append made (.cons fresh .nil), rest⟩

theorem Request.From.examine {queues : Configs} {validation evaluation : U5cDataAdapter pallas}
    {now : Nat} (made : List.Forall₂ (MadeFrom pallas items) request.txs request.hashes)
    (members : ∀ item ∈ remaining, items item) :
    Request.From pallas items
      (request.examine pallas queues validation evaluation now index remaining) := by
  -- What was made so far is the same in all cases but those which push.
  fun_cases Request.examine pallas queues validation evaluation now request index remaining with
  | case1 => exact ⟨made, trivial⟩
  | case2 | case3 => exact ⟨made, trivial⟩
  | case4 => exact ⟨made, (List.forall_mem_cons.mp members).2⟩
  | case5 item rest metx decoded _ _ hash =>
      obtain ⟨head, tail⟩ := List.forall_mem_cons.mp members
      exact .push made ⟨item, head, metx, now, decoded, rfl, rfl⟩ tail
  | case6 item rest metx decoded =>
      obtain ⟨head, tail⟩ := List.forall_mem_cons.mp members
      exact ⟨made, ⟨item, head, metx, now, decoded, rfl, rfl⟩, tail⟩
  | case7 item rest metx decoded =>
      obtain ⟨head, tail⟩ := List.forall_mem_cons.mp members
      exact .push made ⟨item, head, metx, now, decoded, rfl, rfl⟩ tail

theorem Request.From.check (made : List.Forall₂ (MadeFrom pallas items) request.txs request.hashes)
    (fresh : MadeFrom pallas items tx hash) (rest : ∀ item ∈ remaining, items item) :
    Request.From pallas items (request.check locks tx hash queue token index remaining) := by
  unfold Request.check
  split
  · exact ⟨List.rel_append made (.cons fresh .nil), rest⟩
  · exact ⟨made, trivial⟩

end Step

variable {items : Nat → TxRequest → Prop} {queues : Configs} {state next : State}
  {label : Label pallas}

theorem CallsFrom.setRequest {id : Nat} (calls : CallsFrom pallas items state)
    (request : Request) (changed : Request.From pallas (items id) request) :
    CallsFrom pallas items (state.setRequest id request) := by
  intro other after found
  rcases State.setRequest_found found with same | ⟨rfl, rfl⟩
  · exact calls other after same
  · exact changed

/-- Every step keeps what the calls were made of. -/
theorem Step.callsFrom (step : Step queues state label next)
    (submitted : ∀ id message, label = .submit id message → ∀ item ∈ message, items id item)
    (calls : CallsFrom pallas items state) : CallsFrom pallas items next := by
  cases step with
  | tick | store | lock | worker => exact calls
  | submit id message => exact calls.setRequest _ (Request.from_new (submitted id message rfl))
  | @examine id request index remaining validation evaluation found phase =>
      have before := calls id request found
      have members := before.phase
      rw [phase] at members
      exact calls.setRequest _ (.examine before.made members)
  | @check id request tx hash queue token index remaining found phase =>
      have before := calls id request found
      have held := before.phase
      rw [phase] at held
      exact calls.setRequest _ (.check before.made held.1 held.2)
  | @create id request db found phase created =>
      exact calls.setRequest request.created ⟨(calls id request found).made, trivial⟩
  | @createFail id request found phase =>
      exact calls.setRequest _ ⟨(calls id request found).made, trivial⟩
  | @unlock id request queue rest found phase room =>
      exact calls.setRequest { request with phase := .unlocking rest }
        ⟨(calls id request found).made, trivial⟩
  | @answer id request found phase =>
      exact calls.setRequest _ ⟨(calls id request found).made, rfl⟩

/-- The records of a call which creates them were accepted. -/
theorem CallsFrom.accepted {id : Nat} {request : Request} (calls : CallsFrom pallas items state)
    (found : state.requests id = some request) : ∀ tx ∈ request.txs, Accepted pallas tx := by
  intro tx member
  obtain ⟨hash, _, item, _, made⟩ := exists_of_forall₂ (calls id request found).made member
  exact made.accepted

/-! ## Records of chained queues -/

/-- A record of a chained queue, but for the default one, was made under a token of the queue. -/
structure Request.Tokened (queues : Configs) (request : Request) : Prop where
  txs : ∀ tx ∈ request.txs, isChainedQueue queues tx.queue → tx.queue ≠ defaultQueue →
    ∃ token, (tx.queue, token) ∈ request.passed
  phase : ∀ tx hash queue token index remaining,
    request.phase = .checking tx hash queue token index remaining → tx.queue = queue

/-- Every call has passed the checks for its records. -/
def CallsTokened (queues : Configs) (state : State) : Prop :=
  ∀ id request, state.requests id = some request → Request.Tokened queues request

section Tokened

variable {queues : Configs} {request : Request} {index : Nat} {remaining : List TxRequest}

/-- A call which checks no token right now. -/
theorem Request.Tokened.of_txs
    (txs : ∀ tx ∈ request.txs, isChainedQueue queues tx.queue → tx.queue ≠ defaultQueue →
      ∃ token, (tx.queue, token) ∈ request.passed)
    (unchecked : request.phase.checked = none) : Request.Tokened queues request := by
  refine ⟨txs, fun tx hash queue token index remaining phase => ?_⟩
  rw [phase] at unchecked
  cases unchecked

/-- A record of a queue which needs no token, or whose token was passed. -/
theorem Request.Tokened.push {passed : List (String × String)}
    (tokened : Request.Tokened queues request)
    (kept : request.passed ⊆ passed) (fresh : isChainedQueue queues tx.queue →
      tx.queue ≠ defaultQueue → ∃ token, (tx.queue, token) ∈ passed) :
    Request.Tokened queues { request.push tx hash index remaining with passed := passed } := by
  refine .of_txs (fun other member chained named => ?_) rfl
  rcases List.mem_append.mp member with earlier | new
  · obtain ⟨token, there⟩ := tokened.txs other earlier chained named
    exact ⟨token, kept there⟩
  · rw [List.mem_singleton.mp new] at chained named ⊢
    exact fresh chained named

theorem Request.Tokened.examine {validation evaluation : U5cDataAdapter pallas} {now : Nat}
    (tokened : Request.Tokened queues request) : Request.Tokened queues
      (request.examine pallas queues validation evaluation now index remaining) := by
  fun_cases Request.examine pallas queues validation evaluation now request index remaining with
  | case1 | case2 | case3 | case4 => exact .of_txs tokened.txs rfl
  | case5 item rest metx decoded _ _ hash tx unnamed =>
      refine tokened.push (List.Subset.refl _) fun _ named => absurd ?_ named
      simp [tx, txStorage, unnamed, Transaction.new]
  | case6 item rest metx decoded _ _ hash tx queue named chained =>
      refine ⟨tokened.txs, ?_⟩
      rintro _ _ _ _ _ _ ⟨⟩
      simp [tx, txStorage, named]
  | case7 item rest metx decoded _ _ hash tx queue named plain =>
      refine tokened.push (List.Subset.refl _) fun chained _ => absurd chained ?_
      simpa [tx, txStorage, named] using plain

theorem Request.Tokened.check {locks : Locks} {queue token : String}
    (tokened : Request.Tokened queues request) (same : tx.queue = queue) :
    Request.Tokened queues (request.check locks tx hash queue token index remaining) := by
  unfold Request.check
  split
  · refine tokened.push (List.subset_append_left _ _) fun _ _ => ⟨token, ?_⟩
    rw [same]
    exact List.mem_append_right _ List.mem_cons_self
  · exact .of_txs tokened.txs rfl

variable {state next : State} {label : Label pallas}

theorem CallsTokened.setRequest {id : Nat} (calls : CallsTokened queues state)
    (request : Request) (changed : Request.Tokened queues request) :
    CallsTokened queues (state.setRequest id request) := by
  intro other after found
  rcases State.setRequest_found found with same | ⟨rfl, rfl⟩
  · exact calls other after same
  · exact changed

/-- Every step keeps the checks which the records needed. -/
theorem Step.callsTokened (step : Step queues state label next)
    (calls : CallsTokened queues state) : CallsTokened queues next := by
  cases step with
  | tick | store | lock | worker => exact calls
  | submit id message => exact calls.setRequest _ (.of_txs (by simp [Request.new]) rfl)
  | @examine id request _ _ _ _ found phase =>
      exact calls.setRequest _ (calls id request found).examine
  | @check id request _ _ _ _ _ _ found phase =>
      have before := calls id request found
      exact calls.setRequest _ (before.check (before.phase _ _ _ _ _ _ phase))
  | @create id request db found phase created =>
      exact calls.setRequest request.created (.of_txs (calls id request found).txs rfl)
  | @createFail id request found phase =>
      exact calls.setRequest _ (.of_txs (calls id request found).txs rfl)
  | @unlock id request queue rest found phase room =>
      exact calls.setRequest { request with phase := .unlocking rest }
        (.of_txs (calls id request found).txs rfl)
  | @answer id request found phase =>
      exact calls.setRequest _ (.of_txs (calls id request found).txs rfl)

end Tokened

/-! ## From the creation on -/

/-- The records which a step of the server creates. -/
def created (state : State) : Label pallas → List Transaction
  | .create id => (state.requests id).elim [] Request.txs
  | _ => []

/-- A step of the server, the writes of other stages apart, appends what it creates to the log
of the store. -/
theorem Step.log (step : Step queues state label next) (own : ∀ db, label ≠ .store db) :
    next.db.log = state.db.log ++ (created state label).map Transaction.entry := by
  cases step with
  | store db => exact absurd rfl (own db)
  | @create id request db found phase success =>
      simp only [created, found, Option.elim_some]
      exact Db.log_create success
  | _ => exact (List.append_nil _).symm

/-- The call has stored its records. -/
def HasStored : Phase → Bool
  | .unlocking _ | .answered (.ok _) => true
  | _ => false

/-- What the calls have stored is in the log. -/
def Stored (state : State) : Prop :=
  ∀ id request, state.requests id = some request → HasStored request.phase →
    ∀ tx ∈ request.txs, tx.entry ∈ state.db.log

/-- What is in the log stays there. -/
theorem Stored.mono (stored : Stored state) (same : next.requests = state.requests)
    (grown : state.db.log ⊆ next.db.log) : Stored next := by
  intro id request found done tx member
  rw [same] at found
  exact grown (stored id request found done tx member)

theorem Stored.setRequest {id : Nat} (stored : Stored state) (request : Request)
    (changed : HasStored request.phase → ∀ tx ∈ request.txs, tx.entry ∈ state.db.log) :
    Stored (state.setRequest id request) := by
  intro other after found done tx member
  rcases State.setRequest_found found with same | ⟨_, rfl⟩
  · exact stored other after same done tx member
  · exact changed done tx member

/-- Every step of the server, the writes of other stages apart, keeps what the calls have
stored. -/
theorem Step.stored (step : Step queues state label next) (own : ∀ db, label ≠ .store db)
    (stored : Stored state) : Stored next := by
  cases step with
  | tick | lock | worker => exact stored
  | store db => exact absurd rfl (own db)
  | submit => exact stored.setRequest _ fun done => Bool.noConfusion done
  | createFail => exact stored.setRequest _ fun done => Bool.noConfusion done
  | @examine id request index remaining validation evaluation found phase =>
      refine stored.setRequest _ fun done => ?_
      have examining : HasStored (request.examine pallas queues validation evaluation state.now
          index remaining).phase = false := by
        fun_cases Request.examine pallas queues validation evaluation state.now request index
          remaining <;> rfl
      rw [examining] at done
      exact Bool.noConfusion done
  | @check id request tx hash queue token index remaining found phase =>
      refine stored.setRequest _ fun done => ?_
      rcases Request.check_cases remaining with ⟨_, _, examining⟩ | ⟨_, refused⟩
      · rw [examining] at done
        exact Bool.noConfusion done
      · rw [refused] at done
        exact Bool.noConfusion done
  | @create id request db found phase success =>
      have log := Db.log_create success
      have earlier : Stored { state with db := db } :=
        stored.mono rfl (log ▸ List.subset_append_left _ _)
      refine earlier.setRequest request.created fun _ tx member => ?_
      change tx.entry ∈ db.log
      rw [log]
      exact List.mem_append_right _ (List.mem_map_of_mem member)
  | @unlock id request queue rest found phase room =>
      refine stored.setRequest { request with phase := .unlocking rest }
        fun _ => stored id request found ?_
      rw [phase]
      rfl
  | @answer id request found phase =>
      refine stored.setRequest _ fun _ => stored id request found ?_
      rw [phase]
      rfl

end Boros.Server.Locking
