import EventDialects.Equivalence.Verdict
import EventDialects.Resolver

/-!
# Equivalence definitions

An equivalence definition lists classes by name, and for each class its members by revision. A
member names its event, which is the class's name unless it says otherwise; the code is found in the
registry. It may rename slots and ignore slots, all of them slots of its event.
-/

namespace EventDialects

namespace Member

/-- The schema of a member's event. A revision or an event that does not resolve is a fault of the
definition. -/
def resolve (g : Registry) (source : String) (className : Value) (revision event : Value) :
    Attempt Schema :=
  match g.resolveName revision event with
  | .error (.refused r) => refuse (.definition (.memberUnresolved source className r.message))
  | result => result

/-- Refuses names of which one is not a slot of a member's event. -/
def checkSlots (source : String) (className : Value) (revision : Revision) (event : Value)
    (schema : Schema) : List Value → Attempt Unit
  | [] => .ok ()
  | slot :: slots =>
    if schema.slotNames.any (·.equal slot) then
      checkSlots source className revision event schema slots
    else refuse (.definition (.memberWithoutSlot source className revision event slot))

def ofEntry (g : Registry) (source : String) (className entry : Value) : Attempt Member := do
  match ← entry.subscript? "revision" with
  | none => refuse (.definition (.memberWithoutRevision source className))
  | some named =>
    let revision ← Revision.read named
    let event ← entry.entryOr "event" className
    let schema ← resolve g source className (.revision revision) event
    let rename ← entry.entryOrEmpty "slots" (.map [])
    let ignored ← (← entry.entryOrEmpty "ignore" (.list [])).iterate
    Value.checkKeys ignored
    let ignore := Value.distinct ignored
    checkSlots source className revision event schema ((← rename.iterate) ++ ignore)
    return ⟨revision, schema.code, schema.name, ← rename.entries, ignore⟩

def ofEntries (g : Registry) (source : String) (className : Value) :
    List Value → Attempt (List Member)
  | [] => .ok []
  | entry :: entries => do
    let m ← ofEntry g source className entry
    let ms ← ofEntries g source className entries
    return m :: ms

end Member

namespace EquivalenceClass

def ofEntry (g : Registry) (source : String) (entry : Value) : Attempt EquivalenceClass := do
  if !(← entry.holds "name") then refuse (.definition (.namelessClass source))
  let entries ← (← entry.entryOrEmpty "members" (.list [])).iterate
  let name := (← entry.subscript? "name").getD .null
  let members ← Member.ofEntries g source name entries
  let unordered ← (← entry.entryOrEmpty "order_insensitive" (.list [])).iterate
  Value.checkKeys unordered
  return ⟨name, members, Value.distinct unordered⟩

end EquivalenceClass

namespace EquivalenceTable

def addEntries (g : Registry) (source : String) (t : EquivalenceTable) :
    List Value → Attempt EquivalenceTable
  | [] => .ok t
  | entry :: entries => do
    let c ← EquivalenceClass.ofEntry g source entry
    let t' ← t.add c
    addEntries g source t' entries

/-- The equivalence table that a definition makes over a registry. -/
def build (g : Registry) (definition : Value) (source : String) : Attempt EquivalenceTable := do
  let document := if definition.truthy then definition else .map []
  let entries ← (← document.entryOrEmpty "classes" (.list [])).iterate
  addEntries g source empty entries

end EquivalenceTable

end EventDialects
