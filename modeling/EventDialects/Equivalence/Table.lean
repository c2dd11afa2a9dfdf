import EventDialects.Failure
import EventDialects.Record

/-!
# Equivalence classes

An equivalence class lists the events of several revisions that are the same callback. A member
names an event by revision and code, says how its slots are called in the class, and which of its
slots have no counterpart elsewhere. An equivalence table is a list of classes; no event is a member
of two of them.

* `add_classes`: an added class comes last.
-/

namespace EventDialects

/-- An event of a revision as a member of an equivalence class. -/
structure Member where
  revision : Revision
  code : Int
  event : Value
  /-- The names of slots here and in the class; of several for one slot the last counts. -/
  rename : List (Value × Value)
  /-- The slots that are dropped against records that lack them. -/
  ignore : List Value

namespace Member

def isAt (m : Member) (revision : Revision) (code : Value) : Bool :=
  m.revision = revision && (Value.int m.code).equal code

def canonicalName (m : Member) (slot : Value) : Attempt Value := do
  Value.checkKeys (m.rename.map (·.1))
  slot.checkKey
  return ((m.rename.reverse.find? fun p => p.1.equal slot).map (·.2)).getD slot

def canonicalNames (m : Member) : List Value → Attempt (List Value)
  | [] => .ok []
  | slot :: slots => do
    let name ← m.canonicalName slot
    let names ← canonicalNames m slots
    return name :: names

/-- Whether a slot with a canonical name is dropped: it is ignored and the other record has no slot
of that name. -/
def drops (m : Member) (counterpart : List Value) (slot name : Value) : Attempt Bool := do
  slot.checkKey
  if m.ignore.any (·.equal slot) then
    name.checkKey
    return !counterpart.any (·.equal name)
  return false

/-- Puts arguments into a mapping under their canonical names, leaving out those that are dropped.
-/
def collect (m : Member) (counterpart : List Value) (es : Entries) :
    List (Value × Value) → Attempt Entries
  | [] => .ok es
  | (slot, v) :: rest => do
    let name ← m.canonicalName slot
    if ← m.drops counterpart slot name then collect m counterpart es rest
    else
      name.checkKey
      collect m counterpart (es.insert name v) rest

def canonicalArguments (m : Member) (r : Record) (counterpart : List Value) : Attempt Entries :=
  m.collect counterpart [] r.named

end Member

/-- Events of several revisions that are the same callback. -/
structure EquivalenceClass where
  name : Value
  members : List Member
  /-- The canonical slots whose values are compared as a group, in any order. -/
  orderInsensitive : List Value

namespace EquivalenceClass

def isAt (c : EquivalenceClass) (revision : Revision) (code : Value) : Bool :=
  c.members.any fun m => m.isAt revision code

def memberAt? (c : EquivalenceClass) (revision : Revision) (code event : Value) : Option Member :=
  c.members.find? fun m => m.isAt revision code && m.event.comparesEqual event

/-- The member that a record belongs to, by its revision, its code and its event's name. -/
def memberFor (c : EquivalenceClass) (r : Record) : Attempt (Option Member) := do
  return c.memberAt? (← Revision.read r.revision) r.code r.event

end EquivalenceClass

/-- Equivalence classes in the order in which they were added. -/
structure EquivalenceTable where
  classes : List EquivalenceClass

namespace EquivalenceTable

def empty : EquivalenceTable := ⟨[]⟩

def indexAt? (t : EquivalenceTable) (revision : Revision) (code : Value) : Option Nat :=
  t.classes.findIdx? fun c => c.isAt revision code

def classAt? (t : EquivalenceTable) (revision : Revision) (code : Value) :
    Option EquivalenceClass :=
  t.classes.find? fun c => c.isAt revision code

def indexFor (t : EquivalenceTable) (revision code : Value) : Attempt (Option Nat) := do
  let r ← Revision.read revision
  code.checkKey
  return t.indexAt? r code

def classFor (t : EquivalenceTable) (revision code : Value) :
    Attempt (Option EquivalenceClass) := do
  let r ← Revision.read revision
  code.checkKey
  return t.classAt? r code

/-- Refuses members of which one belongs to a class of the table. -/
def checkFree (t : EquivalenceTable) : List Member → Attempt Unit
  | [] => .ok ()
  | m :: ms => match t.classAt? m.revision (.int m.code) with
    | some c => refuse (.definition (.memberTaken m.revision m.code c.name))
    | none => checkFree t ms

/-- Adds a class, none of whose members belongs to another. -/
def add (t : EquivalenceTable) (c : EquivalenceClass) : Attempt EquivalenceTable := do
  t.checkFree c.members
  return ⟨t.classes ++ [c]⟩

def ofClasses (cs : List EquivalenceClass) : Attempt EquivalenceTable := cs.foldlM add empty

theorem add_classes {t t' : EquivalenceTable} {c : EquivalenceClass} (h : t.add c = .ok t') :
    t'.classes = t.classes ++ [c] := by
  simp only [add, bind, Except.bind, pure, Except.pure] at h
  split at h
  · cases h
  · cases h
    rfl

end EquivalenceTable

end EventDialects
