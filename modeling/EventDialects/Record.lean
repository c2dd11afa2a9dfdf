import EventDialects.Value.Access
import EventDialects.Value.Order

/-!
# Records

A record is one callback registration with its arguments named. It keeps the names of the slots
beside the arguments, in the schema's order, so that it can be read without the schema. Its plain
form holds nothing but what a document can hold.

* `argument_eq_of_getElem?`: the argument under a name stands where the name first stands.
-/

namespace EventDialects

/-- One decoded callback registration. -/
structure Record where
  revision : Value
  code : Value
  event : Value
  slotNames : List Value
  arguments : List Value

namespace Value

mutual

/-- The plain form of an argument: a variant's name, a sorted list for a set, a mapping with one
entry for a reference and a list for a tuple. -/
def plain : Value → Attempt Value
  | .variant family raw => match family.label? raw with
    | some label => .ok (.str label)
    | none => .ok .null
  | .set xs => do return .list (← sort (← plainItems xs))
  | .frozenset xs => do return .list (← sort (← plainItems xs))
  | .ref kind offset => match kind with
    | .pid => .ok (.map [(.str "pid", offset)])
    | .function => .ok (.map [(.str "function", offset)])
    | .string => .ok (.map [(.str "string", offset)])
  | .tuple xs => .ok (.list xs)
  | v => .ok v
termination_by structural x => x

def plainItems : List Value → Attempt (List Value)
  | [] => .ok []
  | x :: xs => do
    let y ← plain x
    let ys ← plainItems xs
    return y :: ys
termination_by structural x => x

end

end Value

namespace Record

/-- The record of some named arguments. Of a repeated name the first place and the last value
count. -/
def ofArguments (revision code event : Value) (arguments : List (Value × Value)) : Record :=
  let es := Entries.ofPairs arguments
  ⟨revision, code, event, es.map (·.1), es.map (·.2)⟩

def position? (r : Record) (name : Value) : Option Nat :=
  r.slotNames.findIdx? (·.equal name)

def argument (r : Record) (name : Value) : Attempt Value :=
  match r.position? name with
  | none => .error (Failure.noSuchSlot r.event name).raised
  | some i => match r.arguments[i]? with
    | some v => .ok v
    | none => misused .outOfBounds

def named (r : Record) : List (Value × Value) := r.slotNames.zip r.arguments

/-- Puts named values into a mapping, one after the other. -/
def collect (es : Entries) : List (Value × Value) → Attempt Entries
  | [] => .ok es
  | (name, v) :: rest => do
    name.checkKey
    collect (es.insert name v) rest

def namedArguments (r : Record) : Attempt Entries := collect [] r.named

def plainPairs : List (Value × Value) → Attempt (List (Value × Value))
  | [] => .ok []
  | (name, v) :: rest => do
    let w ← v.plain
    name.checkKey
    return (name, w) :: (← plainPairs rest)

def plainArguments (r : Record) : Attempt Entries := do
  return Entries.ofPairs (← plainPairs r.named)

/-- The plain form of a record, fit for a document. -/
def toDocument (r : Record) : Attempt Entries := do
  let revision ← r.revision.print
  let arguments ← r.plainArguments
  return [(.str "revision", .str revision), (.str "event", r.event), (.str "code", r.code),
    (.str "arguments", .map arguments)]

theorem argument_eq_of_getElem? {r : Record} {name v : Value} {i : Nat}
    (hi : r.position? name = some i) (hv : r.arguments[i]? = some v) : r.argument name = .ok v := by
  simp [argument, hi, hv]

end Record

end EventDialects
