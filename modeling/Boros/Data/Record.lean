import Mathlib.Data.List.Basic
import Mathlib.Logic.Function.Basic

/-!
# Records of named fields

A document with named fields is read into a record one entry after the other. Each field has a
slot of its own, which is filled once; an entry which has nothing to fill it with leaves it free.
`Schema.visit_ok_iff` says that every field is read from its own entries alone, so that the order
of different fields does not matter.
-/

namespace Boros.Data

/-- How the fields of a record are named and read. -/
structure Schema (Document Error : Type) where
  Field : Type
  decEq : DecidableEq Field
  Value : Field → Type
  /-- The field of a name. -/
  ofName : String → Option Field
  /-- The value of an entry, if it has one. -/
  read : (field : Field) → Document → Except Error (Option (Value field))
  unknown : String → Error
  duplicate : Field → Error

namespace Schema

variable {Document Error : Type} (schema : Schema Document Error)

instance : DecidableEq schema.Field := schema.decEq

/-- What was read of each field so far. -/
abbrev Slots : Type := (field : schema.Field) → Option (schema.Value field)

/-- Nothing was read yet. -/
def empty : schema.Slots := fun _ => none

/-- Read the entries of a document. -/
def visit (slots : schema.Slots) : List (String × Document) → Except Error schema.Slots
  | [] => .ok slots
  | (name, document) :: rest =>
    match schema.ofName name with
    | none => .error (schema.unknown name)
    | some field =>
      if (slots field).isSome then .error (schema.duplicate field)
      else
        match schema.read field document with
        | .error cause => .error cause
        | .ok value => visit (Function.update slots field value) rest

/-- Read the entries of one field. -/
def fill (field : schema.Field) (slot : Option (schema.Value field)) :
    List Document → Except Error (Option (schema.Value field))
  | [] => .ok slot
  | document :: rest =>
    if slot.isSome then .error (schema.duplicate field)
    else
      match schema.read field document with
      | .error cause => .error cause
      | .ok value => fill field value rest

/-- The entries of one field. -/
def occurrences (field : schema.Field) (entries : List (String × Document)) : List Document :=
  entries.filterMap fun entry => if schema.ofName entry.1 = some field then some entry.2 else none

/-- Every entry is that of a field. -/
def Known (entries : List (String × Document)) : Prop :=
  ∀ entry ∈ entries, (schema.ofName entry.1).isSome

variable {schema} {slots final : schema.Slots} {field : schema.Field}
  {entries others : List (String × Document)} {name : String} {document : Document}

theorem occurrences_cons_self (named : schema.ofName name = some field) :
    schema.occurrences field ((name, document) :: entries) =
      document :: schema.occurrences field entries := by
  rw [occurrences, List.filterMap_cons, if_pos named]
  rfl

theorem occurrences_cons_of_ne {other : schema.Field} (named : schema.ofName name = some other)
    (apart : field ≠ other) : schema.occurrences field ((name, document) :: entries) =
      schema.occurrences field entries := by
  have unnamed : schema.ofName name ≠ some field := by
    rw [named]
    exact fun same => apart (Option.some.inj same).symm
  rw [occurrences, List.filterMap_cons, if_neg unnamed]
  rfl

theorem known_cons : schema.Known ((name, document) :: entries) ↔
    (schema.ofName name).isSome ∧ schema.Known entries := by
  simp [Known]

/-- The first entry of a field fills its slot. -/
theorem fill_cons_ok_iff {slot result : Option (schema.Value field)} {documents : List Document} :
    schema.fill field slot (document :: documents) = .ok result ↔ slot = none ∧
      ∃ value, schema.read field document = .ok value ∧
        schema.fill field value documents = .ok result := by
  cases slot with
  | some value => simp [fill]
  | none =>
      cases read : schema.read field document with
      | error cause => simp [fill, read]
      | ok value => simp [fill, read]

/-- The entries which give a field its value: all but the last have none. -/
def Fills {Value : Type} (read : Document → Except Error (Option Value))
    (documents : List Document) : Option Value → Prop
  | none => ∀ document ∈ documents, read document = .ok none
  | some value => ∃ blanks last, documents = blanks ++ [last] ∧
      (∀ document ∈ blanks, read document = .ok none) ∧ read last = .ok (some value)

/-- Nothing is read after a slot is filled. -/
theorem fill_some_ok_iff {value : schema.Value field} {documents : List Document}
    {result : Option (schema.Value field)} :
    schema.fill field (some value) documents = .ok result ↔
      documents = [] ∧ some value = result := by
  cases documents <;> simp [fill]

theorem fill_ok_iff {documents : List Document} {result : Option (schema.Value field)} :
    schema.fill field none documents = .ok result ↔
      Fills (schema.read field) documents result := by
  induction documents with
  | nil => cases result <;> simp [fill, Fills]
  | cons document rest ih =>
      rw [fill_cons_ok_iff]
      constructor
      · rintro ⟨_, first, read, filled⟩
        cases first with
        | none =>
            have fills := ih.mp filled
            cases result with
            | none => exact List.forall_mem_cons.mpr ⟨read, fills⟩
            | some value =>
                obtain ⟨blanks, last, rfl, blank, lastRead⟩ := fills
                exact ⟨document :: blanks, last, rfl, List.forall_mem_cons.mpr ⟨read, blank⟩,
                  lastRead⟩
        | some value =>
            obtain ⟨rfl, rfl⟩ := fill_some_ok_iff.mp filled
            exact ⟨[], document, rfl, nofun, read⟩
      · intro fills
        refine ⟨rfl, ?_⟩
        cases result with
        | none =>
            obtain ⟨read, blank⟩ := List.forall_mem_cons.mp fills
            exact ⟨none, read, ih.mpr blank⟩
        | some value =>
            obtain ⟨blanks, last, split, blank, lastRead⟩ := fills
            cases blanks with
            | nil =>
                obtain ⟨rfl, rfl⟩ := List.cons.inj split
                exact ⟨some value, lastRead, fill_some_ok_iff.mpr ⟨rfl, rfl⟩⟩
            | cons head blanks =>
                obtain ⟨rfl, rfl⟩ := List.cons.inj split
                obtain ⟨read, blank⟩ := List.forall_mem_cons.mp blank
                exact ⟨none, read, ih.mpr ⟨blanks, last, rfl, blank, lastRead⟩⟩

/-- An entry is that of a field whose slot is free. -/
theorem visit_cons_ok_iff : schema.visit slots ((name, document) :: entries) = .ok final ↔
    ∃ field value, schema.ofName name = some field ∧ slots field = none ∧
      schema.read field document = .ok value ∧
      schema.visit (Function.update slots field value) entries = .ok final := by
  cases named : schema.ofName name with
  | none => simp [visit, named]
  | some field =>
      cases free : slots field with
      | some value => simp [visit, named, free]
      | none =>
          cases read : schema.read field document with
          | error cause => simp [visit, named, free, read]
          | ok value => simp [visit, named, free, read]

/-- A document is accepted if its entries are those of fields, and each field is accepted by
itself. -/
theorem visit_ok_iff : schema.visit slots entries = .ok final ↔ schema.Known entries ∧
    ∀ field, schema.fill field (slots field) (schema.occurrences field entries) =
      .ok (final field) := by
  induction entries generalizing slots with
  | nil =>
      simp only [visit, occurrences, List.filterMap_nil, fill, Except.ok.injEq, Known,
        List.not_mem_nil, false_implies, implies_true, true_and]
      exact funext_iff
  | cons entry rest ih =>
      obtain ⟨name, document⟩ := entry
      rw [visit_cons_ok_iff, known_cons]
      constructor
      · rintro ⟨field, value, named, free, read, visited⟩
        obtain ⟨known, filled⟩ := ih.mp visited
        refine ⟨⟨by simp [named], known⟩, fun other => ?_⟩
        have there := filled other
        by_cases same : other = field
        · subst same
          rw [Function.update_self] at there
          rw [occurrences_cons_self named, fill_cons_ok_iff]
          exact ⟨free, value, read, there⟩
        · rw [Function.update_of_ne same] at there
          rw [occurrences_cons_of_ne named same]
          exact there
      · rintro ⟨⟨isField, known⟩, filled⟩
        obtain ⟨field, named⟩ := Option.isSome_iff_exists.mp isField
        have here := filled field
        rw [occurrences_cons_self named, fill_cons_ok_iff] at here
        obtain ⟨free, value, read, rest⟩ := here
        refine ⟨field, value, named, free, read, ih.mpr ⟨known, fun other => ?_⟩⟩
        by_cases same : other = field
        · subst same
          rw [Function.update_self]
          exact rest
        · have there := filled other
          rw [occurrences_cons_of_ne named same] at there
          rw [Function.update_of_ne same]
          exact there

/-! ## Writing -/

/-- The entries of the fields which are written, under a name of each. -/
def write (fields : List schema.Field) (nameOf : schema.Field → String)
    (written : schema.Field → Option Document) : List (String × Document) :=
  fields.filterMap fun field => (written field).map fun document => (nameOf field, document)

variable {fields rest : List schema.Field} {head : schema.Field} {nameOf : schema.Field → String}
  {written : schema.Field → Option Document}

/-- What is written of a field is read back. -/
def ReadsBack {Value : Type} (read : Document → Except Error (Option Value))
    (written : Option Document) (slot : Option Value) : Prop :=
  match written with
  | none => slot = none
  | some document => read document = .ok slot

end Schema

end Boros.Data
