import EventDialects.Schema

/-!
# Dialect tables

A dialect table maps one revision's event codes to schemas, and its event names to codes. It is
filled event by event and then sealed; a sealed table takes no more events. No two events have the
same code, and no two the same name.

* `register_sealed`: a sealed table refuses every event.
* `register_schemas`: a registered event comes last and leaves the others as they were.
-/

namespace EventDialects

/-- The events of one revision, in the order of their registration. -/
structure Table where
  revision : Revision
  title : Value
  operandBits : Value
  schemas : List Schema
  isSealed : Bool

namespace Table

def empty (revision : Revision) (title operandBits : Value) : Table :=
  ⟨revision, title, operandBits, [], false⟩

def byCode? (t : Table) (code : Value) : Option Schema :=
  t.schemas.find? fun s => (Value.int s.code).equal code

def byName? (t : Table) (name : Value) : Option Schema :=
  t.schemas.find? fun s => s.name.equal name

def has (t : Table) (code : Value) : Attempt Bool := do
  code.checkKey
  return (t.byCode? code).isSome

def lookup (t : Table) (code : Value) : Attempt Schema := do
  code.checkKey
  match t.byCode? code with
  | some s => return s
  | none => refuse (.unknownEvent t.revision.text code)

def lookupName (t : Table) (name : Value) : Attempt Schema := do
  name.checkKey
  match t.byName? name with
  | some s => return s
  | none => refuse (.unknownEvent t.revision.text name)

/-- A schema as the table holds it: under its code and bound to the table's revision. -/
def adopt (t : Table) (code : Int) (schema : Schema) : Schema :=
  ⟨code, schema.name, schema.slots, some t.revision⟩

/-- Adds an event under a code. -/
def register (t : Table) (code : Int) (schema : Schema) : Attempt (Schema × Table) := do
  if t.isSealed then .error (.sealedTable t.revision)
  if (t.byCode? (.int code)).isSome then refuse (.duplicateCode t.revision.text code)
  schema.name.checkKey
  match t.byName? schema.name with
  | some other => refuse (.duplicateName t.revision.text schema.name other.code)
  | none =>
    let bound := t.adopt code schema
    return (bound, ⟨t.revision, t.title, t.operandBits, t.schemas ++ [bound], false⟩)

def close (t : Table) : Table := ⟨t.revision, t.title, t.operandBits, t.schemas, true⟩

def shown (t : Table) : String :=
  "DialectTable(" ++ t.revision.text ++ ", " ++ Text.decimal t.schemas.length ++ " events)"

theorem register_sealed {t : Table} (h : t.isSealed = true) (code : Int) (schema : Schema) :
    t.register code schema = .error (.sealedTable t.revision) := by
  simp [register, h, bind, Except.bind]

theorem register_schemas {t t' : Table} {code : Int} {schema bound : Schema}
    (h : t.register code schema = .ok (bound, t')) :
    bound = t.adopt code schema ∧ t'.schemas = t.schemas ++ [bound] := by
  simp only [register, bind, Except.bind, pure, Except.pure] at h
  split at h
  · simp at h
  · split at h
    · simp [refuse] at h
    · split at h
      · cases h
      · split at h
        · simp [refuse] at h
        · cases h
          exact ⟨rfl, rfl⟩

end Table

end EventDialects
