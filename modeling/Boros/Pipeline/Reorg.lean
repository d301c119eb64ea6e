import Boros.Pipeline.Monitor

/-!
# Confirmed records across chain reorganisations

A follow-tip history applies blocks at the end of a chain and undoes them from
its end. Each action goes through `streamEvent` and the resulting event through
`Monitor.execute`. An undone block reaches the monitor as a rollback *to* that
block's own slot, and a rollback only takes back what lies strictly above its
slot, so a record which the undone block itself confirmed stays confirmed.
`confirmedSound_iff_undoCovered` says that this is the only way in which a
history can leave a confirmed record without a block.
-/

namespace Boros.Pipeline.Reorg

open Boros.Data Boros.Semantics Boros.Storage Boros.Ledger Boros.Queue

/-- A block of a follow-tip history. -/
structure ChainBlock where
  slot : UInt64
  hash : Bytes
  body : Option (List Tx)
deriving DecidableEq, Repr

/-- The block as the U5C server sends it. -/
def ChainBlock.toBlock (block : ChainBlock) : Block := ⟨some ⟨block.slot, block.hash⟩, block.body⟩

/-- The id is the hex hash of a transaction in the block. -/
def ChainBlock.contains (block : ChainBlock) (id : String) : Bool :=
  Monitor.containsTx (block.body.getD []) id

/-- One action of a follow-tip history. -/
inductive ChainAction where
  | apply (block : ChainBlock)
  | undo (block : ChainBlock)
deriving DecidableEq, Repr

/-- The response which carries an action. -/
def ChainAction.response : ChainAction → Action
  | .apply block => .apply (some block.toBlock)
  | .undo block => .undo (some block.toBlock)

/-- The store and the blocks applied and not undone, the tip last. -/
structure ChainState where
  db : Db
  applied : List ChainBlock
deriving DecidableEq

/-- The monitor handles what the stream yields for a response without error; an
action that yields nothing leaves the store alone. -/
def Handles (profile : Profile) (config : Monitor.Config) (action : ChainAction)
    (db next : Db) : Prop :=
  ∃ event, streamEvent (some action.response) = .ok event ∧
    match event with
    | some event => (Monitor.execute profile config event).exec db = (.ok (), next)
    | none => next = db

/-- One action of a valid chain history: slots increase along the applied chain,
and only its tip is undone. -/
inductive Step (profile : Profile) (config : Monitor.Config) :
    ChainState → ChainAction → ChainState → Prop where
  | apply {db next applied block}
      (increasing : ∀ tip ∈ applied.getLast?, tip.slot < block.slot)
      (handled : Handles profile config (.apply block) db next) :
      Step profile config ⟨db, applied⟩ (.apply block) ⟨next, applied ++ [block]⟩
  | undo {db next applied rest block} (tip : applied = rest ++ [block])
      (handled : Handles profile config (.undo block) db next) :
      Step profile config ⟨db, applied⟩ (.undo block) ⟨next, rest⟩

/-- Every confirmed record belongs to a block that is still applied. -/
def ConfirmedSound (state : ChainState) : Prop :=
  ∀ id row, state.db.row id = some row → row.status = .confirmed →
    ∃ block ∈ state.applied, block.contains id

/-- When a block is undone, every confirmed record of that block which is not
recorded above the block's slot also belongs to a block that stays applied. -/
def UndoCovered (state : ChainState) : ChainAction → Prop
  | .apply _ => True
  | .undo block => ∀ id row, state.db.row id = some row → row.status = .confirmed →
      block.contains id → ¬ Monitor.recordedAbove row.slot block.slot →
        ∃ other ∈ state.applied.dropLast, other.contains id

variable {profile : Profile} {config : Monitor.Config} {state next : ChainState}
  {block : ChainBlock} {id : String} {row : TxRow}

/-- The event of an undone block is a rollback to that block's own slot. -/
theorem handles_undo_iff {db db' : Db} :
    Handles profile config (.undo block) db db' ↔
      (Monitor.execute profile config (.rollback (block.slot, block.hash))).exec db =
        (.ok (), db') := by
  simp [Handles, ChainAction.response, streamEvent, ChainBlock.toBlock, unwrap, bind, Except.bind,
    pure, Except.pure]

/-- The event of an applied block is a roll-forward with its transactions; a
block without a body yields no event. -/
theorem handles_apply_iff {db db' : Db} :
    Handles profile config (.apply block) db db' ↔
      match block.body with
      | some txs => (Monitor.execute profile config
          (.rollForward (block.slot, block.hash) txs)).exec db = (.ok (), db')
      | none => db' = db := by
  cases body : block.body <;>
    simp [Handles, ChainAction.response, streamEvent, ChainBlock.toBlock, unwrap, bind,
      Except.bind, pure, Except.pure, body]

/-- No action creates or removes a row. -/
theorem row_of_handles {action : ChainAction} {db db' : Db} {after : TxRow}
    (handled : Handles profile config action db db') (found : db'.row id = some after) :
    ∃ row, db.row id = some row := by
  obtain ⟨event, _, effect⟩ := handled
  cases event with
  | none =>
      rw [← effect]
      exact ⟨after, found⟩
  | some event =>
      rw [← Option.isSome_iff_exists, ← Monitor.row_execute_isSome id effect, found]
      rfl

/-- A record is confirmed after a block was applied only if it was before, or if
the block contains it. -/
theorem confirmed_of_apply {db db' : Db} {after : TxRow}
    (handled : Handles profile config (.apply block) db db')
    (found : db'.row id = some after) (status : after.status = .confirmed) :
    (∃ row, db.row id = some row ∧ row.status = .confirmed) ∨ block.contains id := by
  obtain ⟨row, before⟩ := row_of_handles handled found
  rw [handles_apply_iff] at handled
  cases body : block.body with
  | none =>
      rw [body] at handled
      subst handled
      exact .inl ⟨after, found, status⟩
  | some txs =>
      rw [body] at handled
      rcases Monitor.row_rollForward handled before with
        ⟨_, contained, _⟩ | ⟨_, _, pending⟩ | ⟨_, unchanged⟩
      · exact .inr (by simpa [ChainBlock.contains, body] using contained)
      · rw [pending] at found
        cases found
        cases status
      · rw [unchanged] at found
        cases found
        exact .inl ⟨_, before, status⟩

/-- A record is confirmed after a block was undone exactly when it was before,
and not recorded above the block's slot. -/
theorem confirmed_of_undo_iff {db db' : Db}
    (handled : Handles profile config (.undo block) db db') :
    (∃ after, db'.row id = some after ∧ after.status = .confirmed) ↔
      ∃ row, db.row id = some row ∧ row.status = .confirmed ∧
        ¬ Monitor.recordedAbove row.slot block.slot := by
  constructor
  · rintro ⟨after, found, status⟩
    obtain ⟨row, before⟩ := row_of_handles handled found
    rw [handles_undo_iff] at handled
    rcases Monitor.row_rollback handled before with
      ⟨_, _, inFlight⟩ | ⟨kept, other, present, same⟩
    · rw [inFlight] at found
      cases found
      cases status
    · rw [present] at found
      cases found
      rw [status] at same
      exact ⟨_, before, same.symm, kept same.symm⟩
  · rintro ⟨row, before, status, below⟩
    rw [handles_undo_iff] at handled
    rcases Monitor.row_rollback handled before with
      ⟨_, above, _⟩ | ⟨_, after, present, same⟩
    · exact absurd above below
    · exact ⟨after, present, same.trans status⟩

/-- Applying a block keeps every confirmed record in an applied block. -/
theorem confirmedSound_apply {db db' : Db} {applied : List ChainBlock}
    (sound : ConfirmedSound ⟨db, applied⟩)
    (handled : Handles profile config (.apply block) db db') :
    ConfirmedSound ⟨db', applied ++ [block]⟩ := by
  intro id after found status
  rcases confirmed_of_apply handled found status with ⟨row, before, confirmed⟩ | contained
  · obtain ⟨other, member, contained⟩ := sound id row before confirmed
    exact ⟨other, List.mem_append_left _ member, contained⟩
  · exact ⟨block, by simp, contained⟩

/-- Undoing the tip keeps every confirmed record in an applied block exactly when
the undone block is covered. -/
theorem confirmedSound_undo_iff {db db' : Db} {applied : List ChainBlock}
    (sound : ConfirmedSound ⟨db, applied ++ [block]⟩)
    (handled : Handles profile config (.undo block) db db') :
    ConfirmedSound ⟨db', applied⟩ ↔ UndoCovered ⟨db, applied ++ [block]⟩ (.undo block) := by
  simp only [UndoCovered, List.dropLast_concat]
  constructor
  · intro soundAfter id row found status _ below
    obtain ⟨after, present, confirmed⟩ :=
      (confirmed_of_undo_iff handled).mpr ⟨row, found, status, below⟩
    exact soundAfter id after present confirmed
  · intro covered id after present confirmed
    obtain ⟨row, found, status, below⟩ :=
      (confirmed_of_undo_iff handled).mp ⟨after, present, confirmed⟩
    obtain ⟨other, member, contained⟩ := sound id row found status
    rcases List.mem_append.mp member with stays | undone
    · exact ⟨other, stays, contained⟩
    · rw [List.mem_singleton] at undone
      subst undone
      exact covered id row found status contained below

/-- Along a chain history which starts without confirmed records, every confirmed
record belongs to an applied block after every action exactly when every undone
block is covered. -/
theorem confirmedSound_iff_undoCovered {db : Db}
    {trace : List (Transition ChainState ChainAction)}
    (run : Run (Step profile config) ⟨db, []⟩ trace next)
    (unconfirmed : ∀ id row, db.row id = some row → row.status ≠ .confirmed) :
    (∀ transition ∈ trace, ConfirmedSound transition.after) ↔ Guarded UndoCovered trace := by
  have initial : ConfirmedSound ⟨db, []⟩ := by
    intro id row found status
    exact absurd status (unconfirmed id row found)
  clear unconfirmed
  generalize (⟨db, []⟩ : ChainState) = start at run initial
  induction run with
  | nil => simp
  | @cons start label middle trace final transition rest ih =>
      rw [List.forall_mem_cons, guarded_cons]
      have here : ConfirmedSound middle ↔ UndoCovered start label := by
        cases transition with
        | apply increasing handled =>
            exact iff_of_true (confirmedSound_apply initial handled) trivial
        | undo tip handled =>
            subst tip
            exact confirmedSound_undo_iff initial handled
      constructor
      · rintro ⟨soundHere, soundLater⟩
        exact ⟨here.mp soundHere, (ih soundHere).mp soundLater⟩
      · rintro ⟨coveredHere, coveredLater⟩
        have soundHere := here.mpr coveredHere
        exact ⟨soundHere, (ih soundHere).mpr coveredLater⟩

/-! ## A history of one record

A block with one transaction is applied. Undoing a later, empty block is
covered; undoing the block itself is not. -/

/-- The hash of the transaction. -/
def sampleHash : Bytes := List.replicate 32 0xab

def sampleBlock : ChainBlock := ⟨10, List.replicate 32 1, some [⟨sampleHash⟩]⟩

def emptyBlock : ChainBlock := ⟨12, List.replicate 32 2, some []⟩

/-- The store with the one record. -/
def sampleDb (status : TransactionStatus) (slot : Int64) (cursor : Option CursorRow) : Db :=
  ⟨⟨[⟨hexEncode sampleHash, [], status, some slot, defaultQueue, 0⟩], by simp⟩, [], cursor⟩

/-- The store once the block has confirmed the record. -/
def confirmedDb (block : ChainBlock) : Db :=
  sampleDb .confirmed 10 (some ⟨asI64 block.slot, block.hash⟩)

theorem sampleDb_unconfirmed (id : String) (row : TxRow)
    (found : (sampleDb .inFlight 5 none).row id = some row) : row.status ≠ .confirmed := by
  have member := (Table.lookup_eq_some_iff.mp found).1
  obtain rfl := List.mem_singleton.mp member
  simp

theorem apply_sampleBlock : Step .debug ⟨1000⟩ ⟨sampleDb .inFlight 5 none, []⟩
    (.apply sampleBlock) ⟨confirmedDb sampleBlock, [sampleBlock]⟩ :=
  .apply (by simp) (handles_apply_iff.mpr rfl)

theorem apply_emptyBlock : Step .debug ⟨1000⟩ ⟨confirmedDb sampleBlock, [sampleBlock]⟩
    (.apply emptyBlock) ⟨confirmedDb emptyBlock, [sampleBlock, emptyBlock]⟩ :=
  .apply (by decide) (handles_apply_iff.mpr rfl)

/-- The transition which undoes the empty block again. -/
def undoEmptyBlock : Transition ChainState ChainAction :=
  ⟨⟨confirmedDb emptyBlock, [sampleBlock, emptyBlock]⟩, .undo emptyBlock,
    ⟨confirmedDb emptyBlock, [sampleBlock]⟩⟩

/-- The record is still in an applied block when the empty block is undone. -/
theorem confirmedSound_iff_undoCovered_emptyBlock : ConfirmedSound undoEmptyBlock.after := by
  have run : Run (Step .debug ⟨1000⟩) ⟨sampleDb .inFlight 5 none, []⟩
      [⟨⟨sampleDb .inFlight 5 none, []⟩, .apply sampleBlock,
          ⟨confirmedDb sampleBlock, [sampleBlock]⟩⟩,
        ⟨⟨confirmedDb sampleBlock, [sampleBlock]⟩, .apply emptyBlock,
          ⟨confirmedDb emptyBlock, [sampleBlock, emptyBlock]⟩⟩, undoEmptyBlock]
      undoEmptyBlock.after :=
    .cons apply_sampleBlock (.cons apply_emptyBlock
      (.cons (.undo rfl (handles_undo_iff.mpr rfl)) .nil))
  refine (confirmedSound_iff_undoCovered run sampleDb_unconfirmed).mpr ?_ undoEmptyBlock (by simp)
  simp only [guarded_cons, guarded_nil, UndoCovered, undoEmptyBlock, true_and, and_true]
  intro id row _ _ contained
  cases contained

/-- Undoing the block leaves its record confirmed, with no block applied. -/
theorem not_confirmedSound_of_undo :
    (∀ id row, (sampleDb .inFlight 5 none).row id = some row → row.status ≠ .confirmed) ∧
      Run (Step .debug ⟨1000⟩) ⟨sampleDb .inFlight 5 none, []⟩
        [⟨⟨sampleDb .inFlight 5 none, []⟩, .apply sampleBlock,
            ⟨confirmedDb sampleBlock, [sampleBlock]⟩⟩,
          ⟨⟨confirmedDb sampleBlock, [sampleBlock]⟩, .undo sampleBlock,
            ⟨confirmedDb sampleBlock, []⟩⟩]
        ⟨confirmedDb sampleBlock, []⟩ ∧
      ¬ ConfirmedSound ⟨confirmedDb sampleBlock, []⟩ := by
  refine ⟨sampleDb_unconfirmed, .cons apply_sampleBlock
    (.cons (.undo rfl (handles_undo_iff.mpr rfl)) .nil), ?_⟩
  intro sound
  obtain ⟨block, applied, _⟩ := sound (hexEncode sampleHash) _ rfl rfl
  cases applied

end Boros.Pipeline.Reorg
