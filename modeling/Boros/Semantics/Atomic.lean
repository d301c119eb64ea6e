import Boros.Semantics.Effect

/-!
# Statements in a transaction

A connection to a store keeps what is committed apart from the work of a transaction in
progress. Each statement changes the work alone; a commit makes it the store, and a
transaction which is given up before leaves the store as it was. `inTransaction_eq` says
that the statements take effect all together or not at all.
-/

namespace Boros.Semantics

variable {σ ε : Type}

/-- A store with the transaction in progress on it, if any. -/
structure Connection (σ : Type) where
  committed : σ
  working : Option σ

namespace Connection

/-- `BEGIN`. -/
def begin : Effect (Connection σ) ε Unit :=
  ExceptT.mk fun connection => (.ok (), ⟨connection.committed, some connection.committed⟩)

/-- A statement, over the work of the transaction. A failing statement changes nothing. -/
def statement (update : σ → Except ε σ) : Effect (Connection σ) ε Unit :=
  ExceptT.mk fun connection =>
    match update (connection.working.getD connection.committed) with
    | .ok next => (.ok (), ⟨connection.committed, some next⟩)
    | .error cause => (.error (.error cause), connection)

/-- `COMMIT`. -/
def commit : Effect (Connection σ) ε Unit :=
  ExceptT.mk fun connection =>
    (.ok (), ⟨connection.working.getD connection.committed, none⟩)

/-- `ROLLBACK`: what happens when the handle of a transaction is dropped. -/
def rollback (connection : Connection σ) : Connection σ := ⟨connection.committed, none⟩

end Connection

/-- Statements one after the other; the first failure ends them. -/
def statements : List (σ → Except ε σ) → Effect (Connection σ) ε Unit
  | [] => pure ()
  | update :: rest => do
    Connection.statement update
    statements rest

/-- Statements in a transaction. When it returns, by an error too, its handle is dropped. -/
def inTransaction (updates : List (σ → Except ε σ)) (store : σ) :
    Except (Abort ε) Unit × σ :=
  let body : Effect (Connection σ) ε Unit := do
    Connection.begin
    statements updates
    Connection.commit
  let (result, connection) := body.exec ⟨store, none⟩
  (result, connection.rollback.committed)

/-- The statements change the work alone, one after the other up to the first failure. -/
theorem statements_exec (updates : List (σ → Except ε σ)) (store work : σ) :
    ∃ left, (statements updates).exec ⟨store, some work⟩ =
      match updates.foldlM (fun state update => update state) work with
      | .ok next => (.ok (), ⟨store, some next⟩)
      | .error cause => (.error (.error cause), ⟨store, some left⟩) := by
  induction updates generalizing work with
  | nil => exact ⟨work, rfl⟩
  | cons update rest ih =>
      cases outcome : update work with
      | ok next =>
          obtain ⟨left, later⟩ := ih next
          have first : (Connection.statement update).exec ⟨store, some work⟩ =
              (.ok (), ⟨store, some next⟩) := by
            simp only [Effect.exec, Connection.statement, ExceptT.run_mk, StateT.run,
              Option.getD_some, outcome]
          refine ⟨left, ?_⟩
          rw [statements, Effect.exec_bind, first, List.foldlM_cons, outcome]
          exact later
      | error cause =>
          have first : (Connection.statement update).exec ⟨store, some work⟩ =
              (.error (.error cause), ⟨store, some work⟩) := by
            simp only [Effect.exec, Connection.statement, ExceptT.run_mk, StateT.run,
              Option.getD_some, outcome]
          refine ⟨work, ?_⟩
          rw [statements, Effect.exec_bind, first, List.foldlM_cons, outcome]
          rfl

/-- Either all statements take effect, or the store is left as it was. -/
theorem inTransaction_eq (updates : List (σ → Except ε σ)) (store : σ) :
    inTransaction updates store =
      match updates.foldlM (fun state update => update state) store with
      | .ok next => (.ok (), next)
      | .error cause => (.error (.error cause), store) := by
  obtain ⟨left, ran⟩ := statements_exec updates store store
  have begun : (Connection.begin : Effect (Connection σ) ε Unit).exec ⟨store, none⟩ =
      (.ok (), ⟨store, some store⟩) := rfl
  simp only [inTransaction, Effect.exec_bind, begun, ran]
  cases updates.foldlM (fun state update => update state) store with
  | ok next => rfl
  | error cause => rfl

end Boros.Semantics
