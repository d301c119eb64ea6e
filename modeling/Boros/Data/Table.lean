import Mathlib.Data.List.Basic
import Mathlib.Data.List.Nodup
import Mathlib.Data.List.Perm.Subperm

/-!
# Keyed tables

A table is a list of rows with pairwise distinct keys; the list order is the
order in which a scan meets the rows. `Table.lookup` is the table seen as a
finite map, and each operation below is characterised by what it does to that
map, so that proofs about a table need not look at the row list again.
-/

namespace Boros.Data

universe u v

/-- Rows with pairwise distinct keys. -/
structure Table (Row : Type u) (Key : Type v) (key : Row → Key) where
  rows : List Row
  distinct : (rows.map key).Nodup

namespace Table

variable {Row : Type u} {Key : Type v} {key : Row → Key}

@[ext]
theorem ext {left right : Table Row Key key} (rows : left.rows = right.rows) : left = right := by
  cases left
  cases right
  cases rows
  rfl

instance [DecidableEq Row] : DecidableEq (Table Row Key key) := fun left right =>
  decidable_of_iff (left.rows = right.rows) ⟨ext, fun equal => congrArg rows equal⟩

/-- The table without rows. -/
def empty : Table Row Key key := ⟨[], List.nodup_nil⟩

/-- Two rows of a table with the same key are the same row. -/
theorem row_unique (table : Table Row Key key) {first second : Row}
    (firstMem : first ∈ table.rows) (secondMem : second ∈ table.rows)
    (same : key first = key second) : first = second :=
  List.inj_on_of_nodup_map table.distinct firstMem secondMem same

variable [DecidableEq Key]

/-- The row stored under a key. -/
def lookup (table : Table Row Key key) (wanted : Key) : Option Row :=
  table.rows.find? fun row => key row = wanted

theorem lookup_eq_some_iff {table : Table Row Key key} {wanted : Key} {row : Row} :
    table.lookup wanted = some row ↔ row ∈ table.rows ∧ key row = wanted := by
  constructor
  · intro found
    exact ⟨List.mem_of_find?_eq_some found, by simpa using List.find?_some found⟩
  · rintro ⟨member, rfl⟩
    cases found : table.lookup (key row) with
    | none =>
        have absent := List.find?_eq_none.mp found row member
        simp at absent
    | some other =>
        have same : key other = key row := by simpa using List.find?_some found
        rw [table.row_unique (List.mem_of_find?_eq_some found) member same]

/-- A row found under a key carries that key. -/
theorem key_of_lookup {table : Table Row Key key} {wanted : Key} {row : Row}
    (found : table.lookup wanted = some row) : key row = wanted :=
  (lookup_eq_some_iff.mp found).2

theorem lookup_of_mem {table : Table Row Key key} {row : Row} (member : row ∈ table.rows) :
    table.lookup (key row) = some row :=
  lookup_eq_some_iff.mpr ⟨member, rfl⟩

@[simp]
theorem lookup_empty (wanted : Key) : (empty : Table Row Key key).lookup wanted = none := rfl

/-- Add a row at the end; a key that is taken is refused. -/
def insert? (table : Table Row Key key) (row : Row) : Option (Table Row Key key) :=
  if fresh : key row ∈ table.rows.map key then none
  else some ⟨table.rows ++ [row], by
    rw [List.map_append, List.map_singleton]
    refine List.nodup_append.mpr ⟨table.distinct, by simp, ?_⟩
    intro taken member single isNew same
    rw [List.mem_singleton.mp isNew] at same
    exact fresh (same ▸ member)⟩

/-- An insertion keeps every row and adds exactly the new one, whose key was free. -/
theorem insert?_eq_some {table next : Table Row Key key} {row : Row}
    (inserted : table.insert? row = some next) :
    table.lookup (key row) = none ∧ ∀ wanted, next.lookup wanted =
      if key row = wanted then some row else table.lookup wanted := by
  unfold insert? at inserted
  split at inserted
  · cases inserted
  · rename_i fresh
    cases inserted
    have absent : table.lookup (key row) = none := by
      refine List.find?_eq_none.mpr fun other member => ?_
      intro same
      exact fresh (List.mem_map.mpr ⟨other, member, by simpa using same⟩)
    refine ⟨absent, fun wanted => ?_⟩
    simp only [lookup, List.find?_append, List.find?_singleton]
    by_cases same : key row = wanted
    · subst same
      have absentHere : table.rows.find? (fun other => key other = key row) = none := absent
      simp [absentHere]
    · simp [same]

/-- An insertion is refused exactly when the key is taken. -/
theorem insert?_eq_none_iff {table : Table Row Key key} {row : Row} :
    table.insert? row = none ↔ ∃ taken, table.lookup (key row) = some taken := by
  unfold insert?
  split
  · rename_i member
    obtain ⟨taken, takenMem, same⟩ := List.mem_map.mp member
    exact iff_of_true rfl ⟨taken, lookup_eq_some_iff.mpr ⟨takenMem, same⟩⟩
  · rename_i fresh
    refine iff_of_false (by simp) ?_
    rintro ⟨taken, found⟩
    obtain ⟨takenMem, same⟩ := lookup_eq_some_iff.mp found
    exact absurd (List.mem_map.mpr ⟨taken, takenMem, same⟩) fresh

/-- Rewrite the row under a key by a function which keeps keys. -/
def modify (table : Table Row Key key) (wanted : Key) (change : Row → Row)
    (keeps : ∀ row, key (change row) = key row) : Table Row Key key :=
  ⟨table.rows.map fun row => if key row = wanted then change row else row, by
    have sameKeys : (table.rows.map fun row => if key row = wanted then change row else row).map
        key = table.rows.map key := by
      rw [List.map_map]
      refine List.map_congr_left fun row _ => ?_
      simp only [Function.comp_apply]
      split
      · exact keeps row
      · rfl
    rw [sameKeys]
    exact table.distinct⟩

@[simp]
theorem lookup_modify (table : Table Row Key key) (wanted other : Key) (change : Row → Row)
    (keeps : ∀ row, key (change row) = key row) :
    (table.modify wanted change keeps).lookup other =
      if other = wanted then (table.lookup other).map change else table.lookup other := by
  simp only [lookup, modify, List.find?_map]
  have samePredicate : ((fun row => decide (key row = other)) ∘
      fun row => if key row = wanted then change row else row) =
        fun row => decide (key row = other) := by
    funext row
    simp only [Function.comp_apply]
    split
    · rw [keeps]
    · rfl
  rw [samePredicate]
  cases found : table.rows.find? fun row => decide (key row = other) with
  | none => simp
  | some row =>
      have same : key row = other := by simpa using List.find?_some found
      by_cases equal : other = wanted <;> simp [same, equal]

/-- An insertion adds its row at the end. -/
theorem rows_insert? {table next : Table Row Key key} {row : Row}
    (inserted : table.insert? row = some next) : next.rows = table.rows ++ [row] := by
  unfold insert? at inserted
  split at inserted
  · cases inserted
  · cases inserted
    rfl

/-- An insertion adds its row and no other. -/
theorem mem_insert? {table next : Table Row Key key} {row other : Row}
    (inserted : table.insert? row = some next) :
    other ∈ next.rows ↔ other ∈ table.rows ∨ other = row := by
  rw [rows_insert? inserted, List.mem_append, List.mem_singleton]

/-- A row after a modification was there before, or is the changed one. -/
theorem mem_modify_cases {table : Table Row Key key} {wanted : Key} {change : Row → Row}
    {row : Row} (keeps : ∀ row, key (change row) = key row)
    (member : row ∈ (table.modify wanted change keeps).rows) :
    row ∈ table.rows ∨ ∃ old, table.lookup wanted = some old ∧ row = change old := by
  obtain ⟨old, oldMem, changed⟩ := List.mem_map.mp member
  split at changed
  · rename_i same
    exact .inr ⟨old, lookup_eq_some_iff.mpr ⟨oldMem, same⟩, changed.symm⟩
  · exact .inl (changed ▸ oldMem)

omit [DecidableEq Key] in
/-- If the key of each row with a property was the key of one with another property, there are
no more of them. -/
theorem countP_le_of_keys {before after : Table Row Key key} {was is : Row → Bool}
    (keys : ∀ row ∈ after.rows, is row → ∃ old ∈ before.rows, key old = key row ∧ was old) :
    after.rows.countP is ≤ before.rows.countP was := by
  have distinct : ((after.rows.filter is).map key).Nodup :=
    after.distinct.sublist (List.filter_sublist.map key)
  have subset : (after.rows.filter is).map key ⊆ (before.rows.filter was).map key := by
    intro wanted member
    obtain ⟨row, rowMem, rfl⟩ := List.mem_map.mp member
    obtain ⟨inTable, holds⟩ := List.mem_filter.mp rowMem
    obtain ⟨old, oldMem, same, held⟩ := keys row inTable holds
    exact List.mem_map.mpr ⟨old, List.mem_filter.mpr ⟨oldMem, held⟩, same⟩
  have lengths := (distinct.subperm subset).length_le
  rwa [List.length_map, List.length_map, ← List.countP_eq_length_filter,
    ← List.countP_eq_length_filter] at lengths

/-- A modification which does not change a property of any row does not change how many rows
have it. -/
theorem countP_modify {table : Table Row Key key} {wanted : Key} {change : Row → Row}
    {property : Row → Bool} (keeps : ∀ row, key (change row) = key row)
    (same : ∀ row, property (change row) = property row) :
    (table.modify wanted change keeps).rows.countP property = table.rows.countP property := by
  rw [modify, List.countP_map]
  refine List.countP_congr fun row _ => ?_
  simp only [Function.comp_apply]
  split
  · rw [same]
  · rfl

/-- A modification under a key which is not there changes nothing. -/
theorem modify_of_absent {table : Table Row Key key} {wanted : Key} {change : Row → Row}
    (keeps : ∀ row, key (change row) = key row) (absent : table.lookup wanted = none) :
    table.modify wanted change keeps = table := by
  refine ext ?_
  calc (table.modify wanted change keeps).rows
      = table.rows.map id := List.map_congr_left fun row member => by
        rw [if_neg fun same => ?_, id]
        have found := lookup_of_mem member
        rw [same, absent] at found
        cases found
    _ = table.rows := List.map_id _

/-- A modification puts the changed row in the place of the old one. -/
theorem rows_modify {table : Table Row Key key} {wanted : Key} {change : Row → Row} {old : Row}
    (keeps : ∀ row, key (change row) = key row) (found : table.lookup wanted = some old) :
    ∃ before after, table.rows = before ++ old :: after ∧
      (table.modify wanted change keeps).rows = before ++ change old :: after := by
  obtain ⟨member, same⟩ := lookup_eq_some_iff.mp found
  obtain ⟨before, after, rows⟩ := List.append_of_mem member
  have distinct := table.distinct
  rw [rows, List.map_append, List.map_cons, List.nodup_middle, List.nodup_cons,
    List.mem_append] at distinct
  have others : ∀ part : List Row, key old ∉ part.map key →
      part.map (fun row => if key row = wanted then change row else row) = part := by
    intro part absent
    calc part.map (fun row => if key row = wanted then change row else row)
        = part.map id := List.map_congr_left fun other member => by
          rw [if_neg fun also => absent ?_, id]
          rw [same, ← also]
          exact List.mem_map_of_mem member
      _ = part := List.map_id part
  refine ⟨before, after, rows, ?_⟩
  simp only [modify]
  rw [rows, List.map_append, List.map_cons, if_pos same,
    others before fun absent => distinct.1 (.inl absent),
    others after fun absent => distinct.1 (.inr absent)]

/-- How many rows have a property after a modification, by the row it changes. -/
theorem countP_modify_of_lookup {table : Table Row Key key} {wanted : Key} {change : Row → Row}
    {old : Row} (property : Row → Bool) (keeps : ∀ row, key (change row) = key row)
    (found : table.lookup wanted = some old) :
    (table.modify wanted change keeps).rows.countP property + (if property old then 1 else 0) =
      table.rows.countP property + if property (change old) then 1 else 0 := by
  obtain ⟨before, after, rows, changed⟩ := rows_modify keeps found
  rw [rows, changed]
  simp only [List.countP_append, List.countP_cons]
  omega

/-- A modification gives a property to at most one row more. -/
theorem countP_modify_le (table : Table Row Key key) (wanted : Key) (change : Row → Row)
    (property : Row → Bool) (keeps : ∀ row, key (change row) = key row) :
    (table.modify wanted change keeps).rows.countP property ≤
      table.rows.countP property + 1 := by
  cases found : table.lookup wanted with
  | none =>
      rw [modify_of_absent keeps found]
      exact Nat.le_succ _
  | some old =>
      have count := countP_modify_of_lookup property keeps found
      split at count <;> split at count <;> omega

/-- Remove the row under a key. -/
def remove (table : Table Row Key key) (wanted : Key) : Table Row Key key :=
  ⟨table.rows.filter fun row => key row ≠ wanted,
    table.distinct.sublist (List.filter_sublist.map key)⟩

theorem mem_of_mem_remove {table : Table Row Key key} {wanted : Key} {row : Row}
    (member : row ∈ (table.remove wanted).rows) : row ∈ table.rows :=
  List.mem_of_mem_filter member

/-- A removal leaves the rows under other keys. -/
theorem lookup_remove_of_ne {table : Table Row Key key} {wanted other : Key}
    (apart : other ≠ wanted) : (table.remove wanted).lookup other = table.lookup other := by
  simp only [lookup, remove, List.find?_filter]
  congr 1
  funext row
  by_cases same : key row = other
  · simp [same, apart]
  · simp [same]

/-- The rows a scan selects, in scan order. -/
def select (table : Table Row Key key) (predicate : Row → Bool) : List Row :=
  table.rows.filter predicate

theorem mem_select_iff {table : Table Row Key key} {predicate : Row → Bool} {row : Row} :
    row ∈ table.select predicate ↔ table.lookup (key row) = some row ∧ predicate row := by
  simp [select, lookup_eq_some_iff]

omit [DecidableEq Key] in
/-- A scan meets every key at most once. -/
theorem select_distinct (table : Table Row Key key) (predicate : Row → Bool) :
    ((table.select predicate).map key).Nodup :=
  table.distinct.sublist ((List.filter_sublist).map key)

/-- Select rows and decode each of them; one row that does not decode fails the
whole scan. -/
def fetch {ε α : Type} (table : Table Row Key key) (predicate : Row → Bool)
    (decode : Row → Except ε α) : Except ε (List α) :=
  (table.select predicate).mapM decode

/-- Decoding a list element by element succeeds only if every element decodes. -/
theorem mapM_ok {ε α β : Type*} {decode : α → Except ε β} {items : List α} {decoded : List β}
    (success : items.mapM decode = .ok decoded) : items.map decode = decoded.map .ok := by
  induction items generalizing decoded with
  | nil =>
      cases success
      rfl
  | cons item rest ih =>
      rw [List.mapM_cons] at success
      cases head : decode item with
      | error cause => simp [head, bind, Except.bind] at success
      | ok value =>
          cases tail : rest.mapM decode with
          | error cause => simp [head, tail, bind, Except.bind] at success
          | ok values =>
              simp only [head, tail, bind, Except.bind, pure, Except.pure, Except.ok.injEq]
                at success
              subst success
              simp [head, ih tail]

/-- Decoding a list succeeds if every element decodes. -/
theorem mapM_eq_ok {ε α β : Type*} {decode : α → Except ε β} {value : α → β} {items : List α}
    (decoded : ∀ item ∈ items, decode item = .ok (value item)) :
    items.mapM decode = .ok (items.map value) := by
  induction items with
  | nil => rfl
  | cons item rest ih =>
      rw [List.forall_mem_cons] at decoded
      rw [List.mapM_cons, decoded.1, ih decoded.2]
      rfl

/-- Decoding a list succeeds exactly if every element decodes. -/
theorem mapM_isOk_iff {ε α β : Type*} {decode : α → Except ε β} {items : List α} :
    (∃ decoded, items.mapM decode = .ok decoded) ↔
      ∀ item ∈ items, ∃ value, decode item = .ok value := by
  constructor
  · rintro ⟨decoded, success⟩ item member
    have produced : decode item ∈ decoded.map Except.ok := by
      rw [← mapM_ok success]
      exact List.mem_map_of_mem member
    obtain ⟨value, _, same⟩ := List.mem_map.mp produced
    exact ⟨value, same.symm⟩
  · intro all
    induction items with
    | nil => exact ⟨[], rfl⟩
    | cons item rest ih =>
        rw [List.forall_mem_cons] at all
        obtain ⟨⟨value, head⟩, others⟩ := all
        obtain ⟨values, tail⟩ := ih others
        refine ⟨value :: values, ?_⟩
        rw [List.mapM_cons, head, tail]
        rfl

/-- Decoding a list fails as one of its elements does. -/
theorem mapM_error {ε α β : Type*} {decode : α → Except ε β} {items : List α} {cause : ε}
    (failure : items.mapM decode = .error cause) : ∃ item ∈ items, decode item = .error cause := by
  induction items with
  | nil => cases failure
  | cons item rest ih =>
      rw [List.mapM_cons] at failure
      cases head : decode item with
      | error first =>
          simp only [head, bind, Except.bind, Except.error.injEq] at failure
          exact ⟨item, List.mem_cons_self, by rw [head, failure]⟩
      | ok value =>
          cases tail : rest.mapM decode with
          | error later =>
              simp only [head, tail, bind, Except.bind, Except.error.injEq] at failure
              obtain ⟨other, member, fails⟩ := ih (by rw [tail, failure])
              exact ⟨other, List.mem_cons_of_mem _ member, fails⟩
          | ok values => simp [head, tail, bind, Except.bind, pure, Except.pure] at failure

/-- A key that decoding keeps is kept along the whole list. -/
theorem mapM_map_eq {ε α β κ : Type*} {decode : α → Except ε β} {items : List α}
    {decoded : List β} (success : items.mapM decode = .ok decoded) (before : α → κ)
    (after : β → κ) (keeps : ∀ item value, decode item = .ok value → after value = before item) :
    decoded.map after = items.map before := by
  have pairs := mapM_ok success
  clear success
  induction items generalizing decoded with
  | nil => simp_all
  | cons item rest ih =>
      cases decoded with
      | nil => simp at pairs
      | cons value values =>
          simp only [List.map_cons, List.cons.injEq] at pairs
          simp [keeps _ _ pairs.1, ih pairs.2]

section Fetch

variable {ε α : Type} {table : Table Row Key key} {predicate : Row → Bool}
  {decode : Row → Except ε α} {values : List α}

/-- Each fetched value was decoded from a selected row. -/
theorem fetch_sound (success : table.fetch predicate decode = .ok values) {value : α}
    (member : value ∈ values) :
    ∃ row, table.lookup (key row) = some row ∧ predicate row ∧ decode row = .ok value := by
  have decodedMem : Except.ok value ∈ (table.select predicate).map decode := by
    rw [mapM_ok success]
    exact List.mem_map_of_mem member
  obtain ⟨row, rowMem, decoded⟩ := List.mem_map.mp decodedMem
  obtain ⟨found, selected⟩ := mem_select_iff.mp rowMem
  exact ⟨row, found, selected, decoded⟩

/-- Each selected row was decoded and fetched. -/
theorem fetch_complete (success : table.fetch predicate decode = .ok values) {wanted : Key}
    {row : Row} (found : table.lookup wanted = some row) (selected : predicate row) :
    ∃ value ∈ values, decode row = .ok value := by
  have rowMem : row ∈ table.select predicate :=
    mem_select_iff.mpr ⟨by rw [key_of_lookup found]; exact found, selected⟩
  have decodedMem : decode row ∈ values.map Except.ok := by
    rw [← mapM_ok success]
    exact List.mem_map_of_mem rowMem
  obtain ⟨value, member, decoded⟩ := List.mem_map.mp decodedMem
  exact ⟨value, member, decoded.symm⟩

/-- A scan succeeds if every selected row decodes. -/
theorem fetch_isOk (decodes : ∀ wanted row, table.lookup wanted = some row → predicate row →
    ∃ value, decode row = .ok value) : ∃ values, table.fetch predicate decode = .ok values := by
  rw [fetch, mapM_isOk_iff]
  intro row member
  obtain ⟨found, selected⟩ := mem_select_iff.mp member
  exact decodes _ row found selected

omit [DecidableEq Key] in
/-- Values decoded from distinct rows stay apart, if decoding keeps the key. -/
theorem fetch_distinct (success : table.fetch predicate decode = .ok values)
    (valueKey : α → Key)
    (sameKey : ∀ row value, decode row = .ok value → valueKey value = key row) :
    (values.map valueKey).Nodup := by
  rw [mapM_map_eq success key valueKey sameKey]
  exact table.select_distinct predicate

end Fetch

end Table

end Boros.Data
