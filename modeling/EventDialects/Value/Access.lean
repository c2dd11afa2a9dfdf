import EventDialects.Value.Key

/-!
# Access to the parts of a value

How a document's value is gone through and looked into. Text can be gone through by characters and
a mapping by keys; a name is in a text if it occurs in it, and in a list if it is an element; only a
mapping has entries to get.
-/

namespace EventDialects.Value

def iterate : Value → Attempt (List Value)
  | .list xs => .ok xs
  | .tuple xs => .ok xs
  | .set xs => .ok xs
  | .frozenset xs => .ok xs
  | .str s => .ok (s.toList.map fun c => .str (String.singleton c))
  | .map es => .ok (es.map (·.1))
  | .variant f raw =>
    if f.combines then .ok ((f.bitsOf raw).map (.variant f))
    else misused (.notIterable f.name)
  | v => misused (.notIterable v.typeName)

def occursIn (part : List Char) : List Char → Bool
  | [] => part.isEmpty
  | c :: cs => part.isPrefixOf (c :: cs) || occursIn part cs

/-- Whether a value holds a name: as a part of a text, as an element or as a key. -/
def holds (v : Value) (name : String) : Attempt Bool :=
  match v with
  | .str s => .ok (occursIn name.toList s.toList)
  | .list xs => .ok (xs.any (·.equal (.str name)))
  | .tuple xs => .ok (xs.any (·.equal (.str name)))
  | .set xs => .ok (xs.any (·.equal (.str name)))
  | .frozenset xs => .ok (xs.any (·.equal (.str name)))
  | .map es => .ok (es.any (·.1.equal (.str name)))
  | v => misused (.notContainer v.typeName)

/-- The entry of a mapping under a name, if there is one. Nothing but a mapping has entries. -/
def lookup? (v : Value) (name : String) : Attempt (Option Value) :=
  match v with
  | .map es => .ok (Entries.lookup? es (.str name))
  | v => misused (.noField v.typeName "get")

def entries : Value → Attempt Entries
  | .map es => .ok es
  | v => misused (.noField v.typeName "items")

/-- The entry under a name, or a value in its place if there is none. -/
def entryOr (v : Value) (name : String) (default : Value) : Attempt Value := do
  return (← v.lookup? name).getD default

/-- The entry under a name, or a value in its place if there is none or it does not count as
true. -/
def entryOrEmpty (v : Value) (name : String) (empty : Value) : Attempt Value := do
  let found := (← v.lookup? name).getD .null
  return if found.truthy then found else empty

def subscript? (v : Value) (name : String) : Attempt (Option Value) :=
  match v with
  | .map es => .ok (Entries.lookup? es (.str name))
  | v => misused (.notSubscriptable v.typeName)

def hasEntry (v : Value) (name : String) : Bool :=
  match v with
  | .map es => es.any (·.1.equal (.str name))
  | _ => false

end EventDialects.Value
