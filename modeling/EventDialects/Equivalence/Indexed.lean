import EventDialects.Equivalence.Table
import EventDialects.Update

/-!
# Equivalence classes with an index

An equivalence table as it is kept: beside the list of the classes there is an index, which has for
the revision and the code of every member the place of its class. Adding a class goes through its
members twice. First each of them is looked up, and the class is refused if one is found; then they
are entered, one after the other, and in the end the class is put last in the list.
-/

namespace EventDialects.EquivalenceTable

/-- The classes in the order in which they were added, and their places by the members' events. -/
structure Indexed where
  classes : List EquivalenceClass
  index : Entries Nat

/-- What an event stands under in an index. -/
def key (revision : Revision) (code : Value) : Value := .tuple [.revision revision, code]

namespace Indexed

def empty : Indexed := ⟨[], []⟩

def place? (x : Indexed) (revision : Revision) (code : Value) : Option Nat :=
  x.index.lookup? (key revision code)

def nameAt (x : Indexed) (place : Nat) : Value := (x.classes[place]?.map (·.name)).getD .null

def checkFree (m : Member) : Update Indexed Unit := do
  let x ← get
  match x.place? m.revision (.int m.code) with
  | some place => refuse (.definition (.memberTaken m.revision m.code (x.nameAt place)))
  | none => return ()

def enter (place : Nat) (m : Member) : Update Indexed Unit :=
  modify fun x => { x with index := x.index.insert (key m.revision (.int m.code)) place }

/-- Adds a class: checks its members, enters them, and puts the class last. -/
def add (c : EquivalenceClass) : Update Indexed Unit := do
  c.members.forM checkFree
  let x ← get
  c.members.forM (enter x.classes.length)
  modify fun x => { x with classes := x.classes ++ [c] }

def classFor (x : Indexed) (revision code : Value) : Attempt (Option EquivalenceClass) := do
  let r ← Revision.read revision
  code.checkKey
  return (x.place? r code).bind fun place => x.classes[place]?

end Indexed

end EventDialects.EquivalenceTable
