import EventDialects.Codec.Encode
import EventDialects.Registry

/-!
# Resolution and migration

A resolver finds schemas in a registry by code or by name; an unpublished revision and an event that
a published one lacks are different refusals. `encodeFor` migrates a record to another revision:
the event is found there by its name, and its arguments are matched to that schema's slots by name,
whatever their order.

* `resolve_unknown`: an unpublished revision is refused whatever the code.
-/

namespace EventDialects.Registry

def resolve (g : Registry) (revision code : Value) : Attempt Schema := do
  (← g.get revision).lookup code

def resolveName (g : Registry) (revision name : Value) : Attempt Schema := do
  (← g.get revision).lookupName name

def decode (g : Registry) (revision code operands : Value) : Attempt Record := do
  (← g.resolve revision code).decode operands

def argumentsOf (record : Record) : List Value → Attempt (List Value)
  | [] => .ok []
  | name :: names => do
    let v ← record.argument name
    let vs ← argumentsOf record names
    return v :: vs

/-- A record with the slots of a schema, its arguments matched to them by name. A record with other
slot names is refused. -/
def reorder (schema : Schema) (record : Record) : Attempt Record := do
  let actual ← Value.sort record.slotNames
  let expected ← Value.sort schema.slotNames
  if !Value.equalAll actual expected then schema.mismatch record
  let arguments ← argumentsOf record schema.slotNames
  return ⟨record.revision, record.code, record.event, schema.slotNames, arguments⟩

/-- Encodes a record for a revision, finding its event there by name. -/
def encodeFor (g : Registry) (revision : Value) (record : Record) : Attempt (List Int) := do
  let schema ← g.resolveName revision record.event
  schema.encode (← reorder schema record)

theorem resolve_unknown {g : Registry} {revision : Value} {r : Revision}
    (hr : Revision.read revision = .ok r) (h : g.find? r = none) (code : Value) :
    g.resolve revision code = refuse (.unknownRevision r.text) := by
  simp [resolve, get, hr, h, refuse, bind, Except.bind]

end EventDialects.Registry
