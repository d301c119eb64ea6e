import Boros.Queue.Chaining

/-!
# The channels of the chained queues

`TxChaining::new` spawns a worker for each chained queue and keeps the senders of its two
channels in two maps, `tx_lock` and `tx_unlock`. `is_chained_queue` looks into the first map
and `unlock` sends through the second. `unlock_ok` says that a queue which is in the one is
in the other.
-/

namespace Boros.Queue.Chaining

open Boros.Data

/-- The keys of `tx_lock` and of `tx_unlock`. -/
structure Channels where
  txLock : List String
  txUnlock : List String
deriving DecidableEq, Repr

/-- The end of the loop body of `TxChaining::new`: both senders are stored. -/
def Channels.add (channels : Channels) (queue : String) : Channels :=
  ⟨channels.txLock.insert queue, channels.txUnlock.insert queue⟩

/-- `TxChaining::new`. -/
def Channels.new (queues : Configs) : Channels :=
  ((queues.select Config.chained).map Config.name).foldl .add ⟨[], []⟩

/-- `TxChaining::is_chained_queue`, on the map itself. -/
def Channels.isChainedQueue (channels : Channels) (queue : String) : Bool :=
  channels.txLock.contains queue

/-- Why `TxChaining::unlock` fails. -/
inductive UnlockError where
  /-- "invalid queue". -/
  | invalidQueue
  /-- The worker of the queue has dropped its receiver. -/
  | closed
deriving DecidableEq, Repr

/-- `TxChaining::unlock`, where some workers may have ended. -/
def Channels.unlock (channels : Channels) (alive : String → Bool) (queue : String) :
    Except UnlockError Unit :=
  if channels.txUnlock.contains queue then
    if alive queue then .ok () else .error .closed
  else .error .invalidQueue

variable {queues : Configs} {queue : String}

theorem Channels.mem_foldl_add (names : List String) (channels : Channels) :
    (queue ∈ (names.foldl .add channels).txLock ↔ queue ∈ channels.txLock ∨ queue ∈ names) ∧
      (queue ∈ (names.foldl .add channels).txUnlock ↔
        queue ∈ channels.txUnlock ∨ queue ∈ names) := by
  induction names generalizing channels with
  | nil => simp
  | cons name rest ih =>
      rw [List.foldl_cons, (ih _).1, (ih _).2]
      simp only [Channels.add, List.mem_insert_iff, List.mem_cons]
      tauto

theorem mem_chained_iff : queue ∈ (queues.select Config.chained).map Config.name ↔
    isChainedQueue queues queue := by
  simp only [List.mem_map, Table.mem_select_iff, isChainedQueue, Option.any_eq_true]
  constructor
  · rintro ⟨config, ⟨found, chained⟩, rfl⟩
    exact ⟨config, found, chained⟩
  · rintro ⟨config, found, chained⟩
    obtain rfl := Table.key_of_lookup found
    exact ⟨config, ⟨found, chained⟩, rfl⟩

/-- The queues of the map are the chained ones. -/
theorem Channels.isChainedQueue_new :
    (Channels.new queues).isChainedQueue queue = Chaining.isChainedQueue queues queue := by
  rw [Bool.eq_iff_iff, isChainedQueue, List.contains_iff_mem, new, (mem_foldl_add _ _).1,
    mem_chained_iff]
  simp

/-- A chained queue can be unlocked as long as its worker is alive. -/
theorem Channels.unlock_ok {alive : String → Bool} (chained : Chaining.isChainedQueue queues queue)
    (working : alive queue) : (Channels.new queues).unlock alive queue = .ok () := by
  have present : queue ∈ (Channels.new queues).txUnlock :=
    (mem_foldl_add _ _).2.mpr (.inr (mem_chained_iff.mpr chained))
  rw [unlock, if_pos (List.contains_iff_mem.mpr present), if_pos working]

end Boros.Queue.Chaining
