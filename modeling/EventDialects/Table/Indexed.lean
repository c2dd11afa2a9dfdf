import EventDialects.Table
import EventDialects.Update
import EventDialects.Value.Key

/-!
# Tables with dictionaries

A table as it is kept: one dictionary of the events by their codes, and one of the codes by their
names. Registering an event enters it in both, in the one after the other, and finding it by its name
goes through both. Nothing but the registering keeps them in step.
-/

namespace EventDialects.Table

/-- The events of one revision by their codes, and the codes by the events' names. -/
structure Indexed where
  revision : Revision
  title : Value
  operandBits : Value
  schemas : Entries Schema
  codes : Entries Int
  isSealed : Bool

namespace Indexed

def empty (revision : Revision) (title operandBits : Value) : Indexed :=
  ⟨revision, title, operandBits, [], [], false⟩

/-- The event as it is entered: under its code and bound to the table's revision. -/
def adopt (x : Indexed) (code : Int) (schema : Schema) : Schema :=
  ⟨code, schema.name, schema.slots, some x.revision⟩

/-- Refuses an event if the table is sealed or holds its code or its name. -/
def check (x : Indexed) (code : Int) (name : Value) : Attempt Unit := do
  if x.isSealed then .error (.sealedTable x.revision)
  if (x.schemas.lookup? (.int code)).isSome then refuse (.duplicateCode x.revision.text code)
  name.checkKey
  match x.codes.lookup? name with
  | some other => refuse (.duplicateName x.revision.text name other)
  | none => return ()

/-- Adds an event under a code: after the checks it is entered under the code, and the code under its
name. -/
def register (code : Int) (schema : Schema) : Update Indexed Schema := do
  let x ← get
  x.check code schema.name
  let bound := x.adopt code schema
  modify fun x => { x with schemas := x.schemas.insert (.int code) bound }
  modify fun x => { x with codes := x.codes.insert schema.name code }
  return bound

def close : Update Indexed Unit := modify fun x => { x with isSealed := true }

def lookup (x : Indexed) (code : Value) : Attempt Schema := do
  code.checkKey
  match x.schemas.lookup? code with
  | some s => return s
  | none => refuse (.unknownEvent x.revision.text code)

/-- The event with a name: the one with the code that the name has. -/
def lookupName (x : Indexed) (name : Value) : Attempt Schema := do
  name.checkKey
  match x.codes.lookup? name with
  | none => refuse (.unknownEvent x.revision.text name)
  | some code => match x.schemas.lookup? (.int code) with
    | some s => return s
    | none => misused (.noEntry code)

/-- The events in the order in which they were entered. -/
def events (x : Indexed) : List Schema := x.schemas.map (·.2)

end Indexed

end EventDialects.Table
