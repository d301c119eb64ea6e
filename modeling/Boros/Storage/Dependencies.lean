import Mathlib.Logic.Relation
import Boros.Semantics.Atomic
import Boros.Semantics.Transition
import Boros.Storage.Rows

/-!
# Dependencies between transactions

Table `tx_dependence` under the calls which write to the store. Rows are appended to `tx`,
and a dependence needs both of its transactions stored: so every dependence goes from a row
to one at or before its place. What is left of a cycle is a transaction which requires
itself, since `create` stores its row before its dependences.
-/

namespace Boros.Storage

open Boros.Data Boros.Semantics Boros.Queue

variable {db next : Db} {tx : Transaction} {txs : List Transaction} {id : String}

/-- The ids which a transaction requires. -/
def Transaction.requires (tx : Transaction) : List String := tx.dependencies.getD []

/-- The ids of the stored rows, in the order of their insertion. -/
def Db.ids (db : Db) : List String := db.tx.rows.map TxRow.id

/-- One transaction depends on another. -/
def Db.DependsOn (db : Db) (dependentId requiredId : String) : Prop :=
  (dependentId, requiredId) ∈ db.txDependence

/-! ## `create` as a transaction -/

/-- The statements which `create` executes. -/
def createStatements (txs : List Transaction) : List (Db → Except DbError Db) :=
  txs.flatMap fun tx => (fun db => db.insertTx tx) ::
    tx.requires.map fun requiredId db => db.insertDependence tx.id requiredId

theorem Db.createOne_eq (db : Db) (tx : Transaction) :
    db.createOne tx = db.insertTx tx >>= fun db =>
      tx.requires.foldlM (Db.insertDependence tx.id) db := by
  unfold createOne Transaction.requires
  cases tx.dependencies with
  | none => rfl
  | some dependencies => rfl

/-- Without the transaction around them these are the statements of `Db.create`. -/
theorem Db.create_eq_foldlM (db : Db) (txs : List Transaction) :
    db.create txs = (createStatements txs).foldlM (fun db update => update db) db := by
  induction txs generalizing db with
  | nil => rfl
  | cons tx rest ih =>
      have first : db.createOne tx = ((fun db => Db.insertTx db tx) :: tx.requires.map
          fun requiredId db => Db.insertDependence tx.id db requiredId).foldlM
            (fun db update => update db) db := by
        simp only [createOne_eq, List.foldlM_cons, List.foldlM_map]
      have later : ∀ middle : Db, middle.create rest =
          (createStatements rest).foldlM (fun db update => update db) middle := ih
      rw [createStatements, List.flatMap_cons, List.foldlM_append, ← first]
      exact congrArg (db.createOne tx >>= ·) (funext later)

/-- A call which writes to the store. -/
inductive Call where
  | create (txs : List Transaction)
  | updateBatch (txs : List Transaction)
  | setCursor (cursor : Cursor)
deriving DecidableEq

/-- What a call returns, and the store it leaves. -/
def Db.perform (db : Db) : Call → Except (Abort DbError) Unit × Db
  | .create txs => inTransaction (createStatements txs) db
  | .updateBatch txs => (.ok (), db.updateBatch txs)
  | .setCursor cursor => (.ok (), db.setCursor cursor)

/-- One call. -/
def CallStep (db : Db) (call : Call) (next : Db) : Prop := next = (db.perform call).2

theorem Db.perform_create (db : Db) (txs : List Transaction) :
    db.perform (.create txs) =
      match db.create txs with
      | .ok next => (.ok (), next)
      | .error cause => (.error (.error cause), db) := by
  rw [perform, inTransaction_eq, create_eq_foldlM]
  cases (createStatements txs).foldlM (fun db update => update db) db <;> rfl

/-! ## What is asked of the store -/

/-- No transaction depends on itself, also not through others, and dependences are between
stored transactions. -/
structure DependenciesSound (db : Db) : Prop where
  acyclic : ∀ id, ¬ Relation.TransGen db.DependsOn id id
  stored : ∀ dependentId requiredId, db.DependsOn dependentId requiredId →
    (db.row dependentId).isSome ∧ (db.row requiredId).isSome

/-- After a call the dependences are sound, and if it failed both tables are as before. -/
structure CallSound (transition : Transition Db Call) : Prop where
  sound : DependenciesSound transition.after
  unchanged : ∀ abort, (transition.before.perform transition.label).1 = .error abort →
    transition.after.tx = transition.before.tx ∧
      transition.after.txDependence = transition.before.txDependence

/-- Transactions which can be stored after those with these ids: each id is new, and each requires
different transactions which are stored before it, or itself. -/
def Storable (ids : List String) : List Transaction → Prop
  | [] => True
  | tx :: rest => tx.id ∉ ids ∧ tx.requires.Nodup ∧
      (∀ requiredId ∈ tx.requires, requiredId ∈ ids ∨ requiredId = tx.id) ∧
      Storable (ids ++ [tx.id]) rest

/-! ## One statement -/

theorem Db.row_isSome_iff (db : Db) (id : String) : (db.row id).isSome ↔ id ∈ db.ids := by
  rw [row, Table.lookup, List.find?_isSome, ids, List.mem_map]
  simp

/-- A row can be inserted exactly when its id is new. -/
theorem Db.insertTx_isOk_iff : (∃ next, db.insertTx tx = .ok next) ↔ tx.id ∉ db.ids := by
  unfold insertTx
  cases inserted : db.tx.insert? (.ofTransaction tx) with
  | some table =>
      have free := (Table.insert?_eq_some inserted).1
      refine iff_of_true ⟨_, rfl⟩ fun member => ?_
      have taken := (db.row_isSome_iff tx.id).mpr member
      rw [show db.row tx.id = none from free] at taken
      cases taken
  | none =>
      obtain ⟨taken, found⟩ := Table.insert?_eq_none_iff.mp inserted
      refine iff_of_false (by simp) fun fresh => fresh ?_
      rw [← row_isSome_iff, show db.row tx.id = some taken from found]
      rfl

/-- It comes after the others. -/
theorem Db.insertTx_ids (success : db.insertTx tx = .ok next) :
    next.ids = db.ids ++ [tx.id] ∧ next.txDependence = db.txDependence := by
  unfold insertTx at success
  split at success
  · rename_i table inserted
    cases success
    refine ⟨?_, rfl⟩
    rw [ids, Table.rows_insert? inserted, List.map_append]
    rfl
  · cases success

/-- When a dependence of a stored transaction can be inserted, and to what effect. -/
theorem Db.insertDependence_ok_iff {dependentId requiredId : String}
    (stored : dependentId ∈ db.ids) :
    db.insertDependence dependentId requiredId = .ok next ↔
      (¬ db.DependsOn dependentId requiredId ∧ requiredId ∈ db.ids) ∧
      next = { db with txDependence := db.txDependence ++ [(dependentId, requiredId)] } := by
  have present : (db.row dependentId).isSome := (db.row_isSome_iff _).mpr stored
  by_cases taken : (dependentId, requiredId) ∈ db.txDependence
  · have failure : db.insertDependence dependentId requiredId = .error .unique := if_pos taken
    rw [failure]
    exact iff_of_false (by simp) fun fresh => fresh.1.1 taken
  · rw [insertDependence, if_neg taken, present, Bool.true_and]
    by_cases known : (db.row requiredId).isSome
    · rw [if_pos known, Except.ok.injEq]
      have member := (db.row_isSome_iff requiredId).mp known
      exact ⟨fun same => ⟨⟨taken, member⟩, same.symm⟩, fun effect => effect.2.symm⟩
    · rw [if_neg known]
      exact iff_of_false (by simp) fun effect => known ((db.row_isSome_iff _).mpr effect.1.2)

/-- When the dependences of a stored transaction can be inserted, and to what effect. -/
theorem Db.insertDependences_ok_iff {dependentId : String} {required : List String}
    (stored : dependentId ∈ db.ids) :
    required.foldlM (Db.insertDependence dependentId) db = .ok next ↔
      (required.Nodup ∧ ∀ requiredId ∈ required,
        ¬ db.DependsOn dependentId requiredId ∧ requiredId ∈ db.ids) ∧
      next = { db with
        txDependence := db.txDependence ++ required.map fun id => (dependentId, id) } := by
  induction required generalizing db with
  | nil =>
      simp only [List.foldlM_nil, pure, Except.pure, Except.ok.injEq]
      constructor
      · rintro rfl
        simp
      · rintro ⟨_, rfl⟩
        simp
  | cons requiredId rest ih =>
      let middle : Db :=
        { db with txDependence := db.txDependence ++ [(dependentId, requiredId)] }
      have later := ih (show dependentId ∈ middle.ids from stored)
      have depends : ∀ other, middle.DependsOn dependentId other ↔
          db.DependsOn dependentId other ∨ other = requiredId := by
        intro other
        simp [middle, DependsOn]
      rw [List.foldlM_cons, except_bind_ok_iff]
      constructor
      · rintro ⟨_, inserted, rest⟩
        obtain ⟨fresh, rfl⟩ := (insertDependence_ok_iff stored).mp inserted
        obtain ⟨⟨distinct, each⟩, rfl⟩ := later.mp rest
        refine ⟨⟨List.nodup_cons.mpr ⟨fun member => ?_, distinct⟩, ?_⟩, ?_⟩
        · exact (each requiredId member).1 ((depends requiredId).mpr (.inr rfl))
        · rw [List.forall_mem_cons]
          refine ⟨fresh, fun other member => ⟨fun present => ?_, (each other member).2⟩⟩
          exact (each other member).1 ((depends other).mpr (.inl present))
        · simp [middle]
      · rintro ⟨⟨distinct, each⟩, rfl⟩
        rw [List.nodup_cons] at distinct
        rw [List.forall_mem_cons] at each
        refine ⟨middle, (insertDependence_ok_iff stored).mpr ⟨each.1, rfl⟩,
          later.mpr ⟨⟨distinct.2, fun other member => ⟨?_, (each.2 other member).2⟩⟩, ?_⟩⟩
        · rw [depends]
          rintro (present | rfl)
          · exact (each.2 other member).1 present
          · exact distinct.1 member
        · simp [middle]

/-! ## `create` -/

/-- Every dependence is of a stored transaction. -/
def Db.Owned (db : Db) : Prop :=
  ∀ dependentId requiredId, db.DependsOn dependentId requiredId → dependentId ∈ db.ids

/-- What an iteration of `create` leaves. -/
structure CreatedOne (db next : Db) (tx : Transaction) : Prop where
  ids : next.ids = db.ids ++ [tx.id]
  dependences : next.txDependence = db.txDependence ++ tx.requires.map fun id => (tx.id, id)

/-- When an iteration of `create` succeeds. Right after its row nothing depends on the
transaction, and it is itself stored. -/
theorem Db.createOne_isOk_iff (owned : db.Owned) :
    (∃ next, db.createOne tx = .ok next) ↔ tx.id ∉ db.ids ∧ tx.requires.Nodup ∧
      ∀ requiredId ∈ tx.requires, requiredId ∈ db.ids ∨ requiredId = tx.id := by
  rw [createOne_eq, except_bind_isOk_iff]
  constructor
  · rintro ⟨middle, inserted, next, dependences⟩
    obtain ⟨rows, _⟩ := insertTx_ids inserted
    have stored : tx.id ∈ middle.ids := by simp [rows]
    obtain ⟨⟨distinct, each⟩, _⟩ := (insertDependences_ok_iff stored).mp dependences
    refine ⟨insertTx_isOk_iff.mp ⟨middle, inserted⟩, distinct, fun requiredId member => ?_⟩
    simpa [rows] using (each requiredId member).2
  · rintro ⟨fresh, distinct, each⟩
    obtain ⟨middle, inserted⟩ := insertTx_isOk_iff.mpr fresh
    obtain ⟨rows, same⟩ := insertTx_ids inserted
    have stored : tx.id ∈ middle.ids := by simp [rows]
    refine ⟨middle, inserted, _, (insertDependences_ok_iff stored).mpr ⟨⟨distinct, ?_⟩, rfl⟩⟩
    intro requiredId member
    refine ⟨fun present => fresh (owned tx.id requiredId ?_), by simpa [rows] using each _ member⟩
    rwa [DependsOn, same] at present

theorem Db.createOne_effect (success : db.createOne tx = .ok next) : CreatedOne db next tx := by
  rw [createOne_eq, except_bind_ok_iff] at success
  obtain ⟨middle, inserted, dependences⟩ := success
  obtain ⟨rows, same⟩ := insertTx_ids inserted
  have stored : tx.id ∈ middle.ids := by simp [rows]
  obtain ⟨_, rfl⟩ := (insertDependences_ok_iff stored).mp dependences
  exact ⟨rows, by rw [same]⟩

theorem CreatedOne.owned (created : CreatedOne db next tx) (owned : db.Owned) : next.Owned := by
  intro dependentId requiredId depends
  rw [Db.DependsOn, created.dependences, List.mem_append] at depends
  rw [created.ids, List.mem_append]
  rcases depends with before | added
  · exact .inl (owned dependentId requiredId before)
  · obtain ⟨_, _, same⟩ := List.mem_map.mp added
    cases same
    exact .inr List.mem_cons_self

theorem Db.create_cons (db : Db) (tx : Transaction) (rest : List Transaction) :
    db.create (tx :: rest) = db.createOne tx >>= fun middle => middle.create rest := by
  rw [create, List.foldlM_cons]
  rfl

/-- When `create` succeeds. -/
theorem Db.create_isOk_iff (owned : db.Owned) :
    (∃ next, db.create txs = .ok next) ↔ Storable db.ids txs := by
  induction txs generalizing db with
  | nil => exact iff_of_true ⟨db, rfl⟩ trivial
  | cons tx rest ih =>
      rw [create_cons, except_bind_isOk_iff, Storable]
      constructor
      · rintro ⟨middle, first, later⟩
        have effect := createOne_effect first
        obtain ⟨fresh, distinct, each⟩ := (createOne_isOk_iff owned).mp ⟨middle, first⟩
        rw [ih (effect.owned owned), effect.ids] at later
        exact ⟨fresh, distinct, each, later⟩
      · rintro ⟨fresh, distinct, each, later⟩
        obtain ⟨middle, first⟩ := (createOne_isOk_iff owned).mpr ⟨fresh, distinct, each⟩
        have effect := createOne_effect first
        rw [← effect.ids, ← ih (effect.owned owned)] at later
        exact ⟨middle, first, later⟩

/-- The dependences which `create` adds. -/
theorem Db.create_dependences (success : db.create txs = .ok next) :
    next.txDependence = db.txDependence ++
      txs.flatMap fun tx => tx.requires.map fun id => (tx.id, id) := by
  induction txs generalizing db with
  | nil =>
      cases success
      simp
  | cons tx rest ih =>
      rw [create_cons, except_bind_ok_iff] at success
      obtain ⟨middle, first, later⟩ := success
      rw [ih later, (createOne_effect first).dependences, List.flatMap_cons, List.append_assoc]

/-! ## The order of insertion -/

/-- Every dependence goes from a stored transaction to one which was not stored later. -/
def Db.Layered (db : Db) : Prop :=
  ∀ dependentId requiredId, db.DependsOn dependentId requiredId →
    dependentId ∈ db.ids ∧ requiredId ∈ db.ids ∧
      db.ids.idxOf requiredId ≤ db.ids.idxOf dependentId

theorem Db.Layered.owned (layered : db.Layered) : db.Owned :=
  fun dependentId requiredId depends => (layered dependentId requiredId depends).1

/-- An iteration of `create` adds dependences from the last row alone. -/
theorem CreatedOne.layered (created : CreatedOne db next tx) (fresh : tx.id ∉ db.ids)
    (known : ∀ requiredId ∈ tx.requires, requiredId ∈ db.ids ∨ requiredId = tx.id)
    (layered : db.Layered) : next.Layered := by
  intro dependentId requiredId depends
  rw [Db.DependsOn, created.dependences, List.mem_append] at depends
  rw [created.ids]
  rcases depends with before | added
  · obtain ⟨dependentMem, requiredMem, ordered⟩ := layered dependentId requiredId before
    refine ⟨List.mem_append_left _ dependentMem, List.mem_append_left _ requiredMem, ?_⟩
    rwa [List.idxOf_append_of_mem requiredMem, List.idxOf_append_of_mem dependentMem]
  · obtain ⟨_, member, same⟩ := List.mem_map.mp added
    cases same
    have last : (db.ids ++ [tx.id]).idxOf tx.id = db.ids.length := by
      rw [List.idxOf_append_of_notMem fresh]
      simp
    refine ⟨by simp, by simpa using known requiredId member, ?_⟩
    rw [last]
    rcases known requiredId member with stored | rfl
    · rw [List.idxOf_append_of_mem stored]
      exact (List.idxOf_lt_length_of_mem stored).le
    · exact last.le

theorem Db.create_layered (success : db.create txs = .ok next) (layered : db.Layered) :
    next.Layered := by
  induction txs generalizing db with
  | nil =>
      cases success
      exact layered
  | cons tx rest ih =>
      rw [create_cons, except_bind_ok_iff] at success
      obtain ⟨middle, first, later⟩ := success
      obtain ⟨fresh, _, known⟩ := (createOne_isOk_iff layered.owned).mp ⟨middle, first⟩
      exact ih later ((createOne_effect first).layered fresh known layered)

/-- In a layered store the only cycles are transactions which require themselves. -/
theorem Db.Layered.sound (layered : db.Layered) (irreflexive : ∀ id, ¬ db.DependsOn id id) :
    DependenciesSound db := by
  have earlier : ∀ dependentId requiredId, db.DependsOn dependentId requiredId →
      db.ids.idxOf requiredId < db.ids.idxOf dependentId := by
    intro dependentId requiredId depends
    obtain ⟨dependentMem, requiredMem, ordered⟩ := layered dependentId requiredId depends
    refine Nat.lt_of_le_of_ne ordered fun same => ?_
    rw [List.idxOf_inj requiredMem] at same
    exact irreflexive dependentId (same ▸ depends)
  constructor
  · intro id cycle
    have descends : ∀ target, Relation.TransGen db.DependsOn id target →
        db.ids.idxOf target < db.ids.idxOf id := by
      intro target path
      induction path with
      | single depends => exact earlier _ _ depends
      | tail _ depends ih => exact (earlier _ _ depends).trans ih
    exact absurd (descends id cycle) (Nat.lt_irrefl _)
  · intro dependentId requiredId depends
    obtain ⟨dependentMem, requiredMem, _⟩ := layered dependentId requiredId depends
    exact ⟨(db.row_isSome_iff _).mpr dependentMem, (db.row_isSome_iff _).mpr requiredMem⟩

/-! ## Runs -/

@[simp]
theorem Db.ids_updateBatch (db : Db) (txs : List Transaction) :
    (db.updateBatch txs).ids = db.ids := by
  induction txs generalizing db with
  | nil => rfl
  | cons tx rest ih =>
      have one : (db.update tx).ids = db.ids := by
        simp only [ids, update, Table.modify, List.map_map]
        refine List.map_congr_left fun row _ => ?_
        simp only [Function.comp_apply]
        split <;> rfl
      rw [updateBatch_cons, ih, one]

/-- The store after a call is layered, and has dependences on themselves of transactions which
had them or which the call stores. -/
theorem Db.perform_layered (layered : db.Layered) (call : Call) :
    (db.perform call).2.Layered ∧ ∀ id, (db.perform call).2.DependsOn id id →
      db.DependsOn id id ∨ ∃ txs, call = .create txs ∧ Storable db.ids txs ∧
        ∃ tx ∈ txs, tx.id = id ∧ id ∈ tx.requires := by
  cases call with
  | create txs =>
      rw [perform_create]
      cases success : db.create txs with
      | error cause => exact ⟨layered, fun id depends => .inl depends⟩
      | ok next =>
          refine ⟨create_layered success layered, fun id depends => ?_⟩
          rw [DependsOn, create_dependences success, List.mem_append] at depends
          rcases depends with before | added
          · exact .inl before
          · obtain ⟨tx, member, pair⟩ := List.mem_flatMap.mp added
            obtain ⟨_, required, same⟩ := List.mem_map.mp pair
            cases same
            exact .inr ⟨txs, rfl, (create_isOk_iff layered.owned).mp ⟨next, success⟩,
              tx, member, rfl, required⟩
  | updateBatch txs =>
      have layeredAfter : (db.updateBatch txs).Layered := by
        intro dependentId requiredId depends
        rw [DependsOn, txDependence_updateBatch] at depends
        rw [ids_updateBatch]
        exact layered dependentId requiredId depends
      refine ⟨layeredAfter, fun id depends => .inl ?_⟩
      rwa [DependsOn, perform, txDependence_updateBatch] at depends
  | setCursor cursor => exact ⟨layered, fun id depends => .inl depends⟩

/-- No call which can be stored has a transaction which requires itself. -/
def NoSelfRequired (db : Db) (call : Call) : Prop :=
  ∀ txs, call = .create txs → Storable db.ids txs → ∀ tx ∈ txs, tx.id ∉ tx.requires

theorem layered_preserved : Preserved CallStep (fun _ _ => True) Db.Layered := by
  rintro db call _ layered _ rfl
  exact (db.perform_layered layered call).1

theorem irreflexive_preserved : Preserved CallStep NoSelfRequired
    fun db => db.Layered ∧ ∀ id, ¬ db.DependsOn id id := by
  rintro db call _ ⟨layered, irreflexive⟩ allowed rfl
  obtain ⟨layeredAfter, selves⟩ := db.perform_layered layered call
  refine ⟨layeredAfter, fun id depends => ?_⟩
  rcases selves id depends with before | ⟨txs, called, storable, tx, member, rfl, required⟩
  · exact irreflexive id before
  · exact allowed txs called storable tx member required

theorem Db.layered_empty : Db.empty.Layered ∧ ∀ id, ¬ Db.empty.DependsOn id id := by
  constructor
  · intro dependentId requiredId depends
    cases depends
  · intro id depends
    cases depends

/-- A call which fails leaves both tables as they were. -/
theorem Db.perform_unchanged {call : Call} {abort : Abort DbError}
    (failure : (db.perform call).1 = .error abort) : (db.perform call).2 = db := by
  cases call with
  | create txs =>
      rw [perform_create] at failure ⊢
      cases success : db.create txs with
      | error cause => rfl
      | ok next =>
          rw [success] at failure
          cases failure
  | updateBatch txs => cases failure
  | setCursor cursor => cases failure

/-- Whatever is called in whatever order, the dependences are sound in every state exactly when
no transaction which is stored requires itself. -/
theorem callsSound_iff {trace : List (Transition Db Call)} {final : Db}
    (run : Run CallStep .empty trace final) :
    (∀ transition ∈ trace, CallSound transition) ↔ Guarded NoSelfRequired trace := by
  constructor
  · intro sound transition member txs called storable tx txMem required
    have layered := (run.invariant_of_mem layered_preserved Db.layered_empty.1
      (fun _ _ => trivial) member).1
    have step : transition.after = (transition.before.perform transition.label).2 :=
      run.step_of_mem member
    obtain ⟨next, success⟩ := (Db.create_isOk_iff layered.owned).mpr storable
    rw [called, Db.perform_create, success] at step
    have depends : next.DependsOn tx.id tx.id := by
      rw [Db.DependsOn, Db.create_dependences success]
      refine List.mem_append_right _ (List.mem_flatMap.mpr ⟨tx, txMem, ?_⟩)
      exact List.mem_map.mpr ⟨tx.id, required, rfl⟩
    rw [← show transition.after = next from step] at depends
    exact (sound transition member).sound.acyclic tx.id (.single depends)
  · intro guarded transition member
    obtain ⟨layered, irreflexive⟩ := (run.invariant_of_mem irreflexive_preserved
      Db.layered_empty guarded member).2
    refine ⟨layered.sound irreflexive, fun abort failure => ?_⟩
    have step : transition.after = (transition.before.perform transition.label).2 :=
      run.step_of_mem member
    rw [step, Db.perform_unchanged failure]
    exact ⟨rfl, rfl⟩

/-! A transaction after the one it requires, and one which requires itself. -/

def dependentTxs : List Transaction :=
  [⟨"hex1", [], .pending, "default", none, none, 1⟩,
    ⟨"hex2", [], .pending, "default", none, some ["hex1"], 2⟩]

def selfRequiring : Transaction := ⟨"hex1", [], .pending, "default", none, some ["hex1"], 1⟩

/-- The call on the empty store. -/
def firstCall (txs : List Transaction) : Transition Db Call :=
  ⟨.empty, .create txs, (Db.empty.perform (.create txs)).2⟩

theorem callsSound_iff_sample :
    Run CallStep .empty [firstCall dependentTxs] (firstCall dependentTxs).after ∧
      ∀ transition ∈ [firstCall dependentTxs], CallSound transition := by
  have run : Run CallStep .empty [firstCall dependentTxs] (firstCall dependentTxs).after :=
    .cons rfl .nil
  refine ⟨run, (callsSound_iff run).mpr fun transition member txs called _ => ?_⟩
  obtain rfl := List.mem_singleton.mp member
  cases called
  decide

/-- Its row is stored before its dependence is checked, so it is stored. -/
theorem not_callsSound_of_self :
    Run CallStep .empty [firstCall [selfRequiring]] (firstCall [selfRequiring]).after ∧
      (Db.empty.perform (.create [selfRequiring])).1 = .ok () ∧
      ¬ CallSound (firstCall [selfRequiring]) := by
  refine ⟨.cons rfl .nil, by decide +kernel, fun callSound => ?_⟩
  have depends : (firstCall [selfRequiring]).after.DependsOn "hex1" "hex1" := by
    unfold Db.DependsOn
    decide +kernel
  exact callSound.sound.acyclic "hex1" (.single depends)

end Boros.Storage
