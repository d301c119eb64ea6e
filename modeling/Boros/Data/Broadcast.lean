import Mathlib.Data.List.Basic

/-!
# Bounded broadcast channels

The sender of a channel counts the messages it has sent, and each receiver those it
is past. The channel keeps the last `ring` messages only, so a receiver that lags
further behind skips to the oldest message which is kept. A channel is as full as the
backlog of its slowest receiver.
-/

namespace Boros.Data.Broadcast

/-- The messages kept for a receiver which is past `seen` of those sent. -/
def backlog (ring sent seen : Nat) : Nat := min ring (sent - seen)

/-- The number of messages which some receiver is not past. -/
def queuedLen (ring sent : Nat) (seen : List Nat) : Nat :=
  (seen.map (backlog ring sent)).foldr max 0

/-- Where a receiver is after its next receive: past one more message, or past those
which are not kept any more. -/
def receive (ring sent seen : Nat) : Nat :=
  if ring < sent - seen then sent - ring else seen + 1

variable {ring sent bound : Nat} {before after : List Nat}

/-- A channel is full up to a bound if every receiver's backlog is within it. -/
theorem queuedLen_le_iff {seen : List Nat} :
    queuedLen ring sent seen ≤ bound ↔ ∀ position ∈ seen, backlog ring sent position ≤ bound := by
  induction seen with
  | nil => simp [queuedLen]
  | cons position rest ih =>
      rw [List.forall_mem_cons, ← ih]
      exact Nat.max_le

/-- No receiver's backlog exceeds the length of the channel. -/
theorem backlog_le_queuedLen {seen : List Nat} {position : Nat} (member : position ∈ seen) :
    backlog ring sent position ≤ queuedLen ring sent seen :=
  queuedLen_le_iff.mp (Nat.le_refl _) position member

/-- A channel of some size is empty exactly when every receiver is past all messages. -/
theorem queuedLen_eq_zero_iff {seen : List Nat} (positive : 0 < ring) :
    queuedLen ring sent seen = 0 ↔ ∀ position ∈ seen, sent ≤ position := by
  rw [← Nat.le_zero, queuedLen_le_iff]
  refine forall₂_congr fun position _ => ?_
  unfold backlog
  omega

/-- Sending fills a channel by at most the messages sent. -/
theorem queuedLen_add_le (ring sent count : Nat) (seen : List Nat) :
    queuedLen ring (sent + count) seen ≤ queuedLen ring sent seen + count := by
  apply queuedLen_le_iff.mpr
  intro position member
  have bound : backlog ring sent position ≤ queuedLen ring sent seen := backlog_le_queuedLen member
  unfold backlog at bound ⊢
  omega

/-- A channel does not fill while every receiver goes forward, or starts at its end. -/
theorem queuedLen_le_of_forward
    (forward : ∀ position ∈ after, sent ≤ position ∨ ∃ old ∈ before, old ≤ position) :
    queuedLen ring sent after ≤ queuedLen ring sent before := by
  apply queuedLen_le_iff.mpr
  intro position member
  rcases forward position member with atEnd | ⟨old, oldMem, passed⟩
  · have none : sent - position = 0 := Nat.sub_eq_zero_of_le atEnd
    simp [backlog, none]
  · have bound : backlog ring sent old ≤ queuedLen ring sent before :=
      backlog_le_queuedLen oldMem
    unfold backlog at bound ⊢
    omega

/-- Receiving goes forward. -/
theorem le_receive (ring sent seen : Nat) : seen ≤ receive ring sent seen := by
  unfold receive
  split <;> omega

/-- A receiver does not come past the end of the channel. -/
theorem receive_le {seen : Nat} (behind : seen < sent) : receive ring sent seen ≤ sent := by
  unfold receive
  split <;> omega

/-! ## What a receiver gets -/

section Messages

variable {Message : Type*} {messages : List Message} {seen : Nat}

/-- The message which the next receive returns, unless it returns that the receiver lagged. -/
def received (ring : Nat) (messages : List Message) (seen : Nat) : Option Message :=
  if ring < messages.length - seen then none else messages[seen]?

/-- The messages which the next receive skips. -/
def skipped (ring : Nat) (messages : List Message) (seen : Nat) : List Message :=
  if ring < messages.length - seen then
    (messages.drop seen).take (messages.length - ring - seen)
  else []

/-- What a receiver has not seen is what it skips, what it gets, and what is left. -/
theorem drop_eq_of_receive (ring : Nat) (behind : seen < messages.length) :
    messages.drop seen = skipped ring messages seen ++ (received ring messages seen).toList ++
      messages.drop (receive ring messages.length seen) := by
  unfold skipped received receive
  split
  · rename_i lags
    have past : seen + (messages.length - ring - seen) = messages.length - ring := by omega
    conv_lhs => rw [← List.take_append_drop (messages.length - ring - seen) (messages.drop seen)]
    rw [List.drop_drop, past, Option.toList_none, List.append_nil]
  · rw [List.getElem?_eq_getElem behind, List.drop_eq_getElem_cons behind]
    rfl

/-- Nothing is skipped up to the size of the channel. -/
theorem skipped_eq_nil_iff : skipped ring messages seen = [] ↔ messages.length - seen ≤ ring := by
  unfold skipped
  split
  · rename_i lags
    rw [← List.length_eq_zero_iff, List.length_take, List.length_drop]
    omega
  · rename_i near
    exact iff_of_true rfl (Nat.le_of_not_lt near)

end Messages

end Boros.Data.Broadcast
