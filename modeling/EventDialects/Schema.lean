import EventDialects.Slot

/-!
# Event schemas

An event schema names an event and lists its slots in the order of the operands.
-/

namespace EventDialects

/-- The name and the slots of one event code of a revision. -/
structure Schema where
  code : Int
  name : Value
  slots : List Slot
  revision : Option Revision

namespace Schema

def span (s : Schema) : Nat := s.slots.foldr (fun slot n => slot.span + n) 0

/-- The number of operands as the slots declare it: a floating-point number if one of them does. -/
def arity (s : Schema) : Value :=
  if s.slots.any Slot.spanIsFloat then .float (.ofInt s.span) else .int s.span

def slotNames (s : Schema) : List Value := s.slots.map (·.name)

/-- The revision of a schema as a value: null if it belongs to none. -/
def revisionValue (s : Schema) : Value :=
  match s.revision with
  | some r => .revision r
  | none => .null

end Schema

end EventDialects
