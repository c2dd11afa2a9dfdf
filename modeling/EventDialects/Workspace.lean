import EventDialects.Definition.Equivalence
import EventDialects.Report

/-!
# Workspaces

A workspace keeps named tables, registries, resolvers, records and equivalence tables while they are
being worked on. A registry has a place of its own, so that a resolver over it sees the tables that
are published later. What fails changes nothing.

* `item?_assign_self`: a name stands for what was last put under it.
* `publish_seals`: publishing a table seals it for whoever named it.
-/

namespace EventDialects

/-- What a name can stand for. -/
inductive Item
  | table (t : Table)
  | registry (place : Nat)
  | resolver (place : Nat)
  | record (r : Record)
  | equivalences (t : EquivalenceTable)

/-- Named items, and the registries by their places. -/
structure Workspace where
  items : List (String × Item)
  registries : List Registry

namespace Workspace

def empty : Workspace := ⟨[], []⟩

def item? (w : Workspace) (name : String) : Option Item :=
  (w.items.find? (·.1 == name)).map (·.2)

/-- Puts an item under a name, in place of what the name stood for. -/
def assign (w : Workspace) (name : String) (item : Item) : Workspace :=
  ⟨(name, item) :: w.items.filter (·.1 != name), w.registries⟩

def table? (w : Workspace) (name : String) : Option Table :=
  match w.item? name with
  | some (.table t) => some t
  | _ => none

def place? (w : Workspace) (name : String) : Option Nat :=
  match w.item? name with
  | some (.registry place) => some place
  | _ => none

/-- The registry at a place. -/
def registryAt (w : Workspace) (place : Nat) : Registry := w.registries[place]?.getD .empty

def registryNamed? (w : Workspace) (name : String) : Option Registry :=
  (w.place? name).map w.registryAt

def resolver? (w : Workspace) (name : String) : Option Registry :=
  match w.item? name with
  | some (.resolver place) => some (w.registryAt place)
  | _ => none

def record? (w : Workspace) (name : String) : Option Record :=
  match w.item? name with
  | some (.record r) => some r
  | _ => none

def equivalences? (w : Workspace) (name : String) : Option EquivalenceTable :=
  match w.item? name with
  | some (.equivalences t) => some t
  | _ => none

def addRegistry (w : Workspace) (name : String) (g : Registry) : Workspace :=
  assign ⟨w.items, w.registries ++ [g]⟩ name (.registry w.registries.length)

def registerEvent (w : Workspace) (name : String) (t : Table) (code : Int) (schema : Schema) :
    Attempt (Schema × Table × Workspace) := do
  let (bound, t') ← t.register code schema
  return (bound, t', w.assign name (.table t'))

def sealTable (w : Workspace) (name : String) (t : Table) : Workspace :=
  w.assign name (.table t.close)

/-- Publishes the table under a name in the registry at a place, which seals the table. -/
def publish (w : Workspace) (place : Nat) (revision : Value) (name : String) (t : Table) :
    Attempt (Registry × Workspace) := do
  let g ← (w.registryAt place).register revision t
  return (g, sealTable ⟨w.items, w.registries.set place g⟩ name t)

def addClass (w : Workspace) (name : String) (t : EquivalenceTable) (c : EquivalenceClass) :
    Attempt (EquivalenceTable × Workspace) := do
  let t' ← t.add c
  return (t', w.assign name (.equivalences t'))

@[simp] theorem item?_assign_self (w : Workspace) (name : String) (item : Item) :
    (w.assign name item).item? name = some item := by
  simp [assign, item?]

theorem publish_seals {w w' : Workspace} {place : Nat} {revision : Value} {name : String}
    {t : Table} {g : Registry} (h : w.publish place revision name t = .ok (g, w')) :
    w'.table? name = some t.close := by
  simp only [publish, bind, Except.bind, pure, Except.pure] at h
  split at h
  · cases h
  · cases h
    simp [sealTable, table?]

end Workspace

end EventDialects
