import EventDialects.Equivalence.Table

/-!
# Equivalence of records

Two records are the same callback if their events are members of one class and their arguments agree
under canonical names. A slot that a member ignores counts only if the other record has a slot of
the same canonical name. Both records must then have the same names; outside the order-insensitive
ones the values under a name must be equal, and the values of the order-insensitive names must be
the same ones, equally often.

* `areEquivalent_of_no_class`: a record whose event is in no class is equivalent to none.
-/

namespace EventDialects

def Entries.keysWithin (es fs : Entries) : Bool := es.all fun e => fs.any (·.1.equal e.1)

namespace EquivalenceClass

/-- Compares the values under each name of the first record. Gives the values of the
order-insensitive names on both sides, or nothing if two values that must be equal are not. -/
def compareValues (c : EquivalenceClass) (b : Entries) :
    Entries → Attempt (Option (List Value × List Value))
  | [] => .ok (some ([], []))
  | (name, v) :: rest => do
    let w := (b.lookup? name).getD .null
    if c.orderInsensitive.any (·.equal name) then
      let x ← v.normal
      x.checkKey
      let y ← w.normal
      y.checkKey
      match ← compareValues c b rest with
      | some (xs, ys) => return some (x :: xs, y :: ys)
      | none => return none
    else if v.comparesEqual w then compareValues c b rest
    else return none

def agree (c : EquivalenceClass) (a b : Entries) : Attempt Bool :=
  if !(a.keysWithin b && b.keysWithin a) then .ok false
  else do
    match ← c.compareValues b a with
    | some (xs, ys) => return Value.sameMultiset xs ys
    | none => return false

/-- Whether two records of a class, each with its member, are the same callback. -/
def sameCallback (c : EquivalenceClass) (ma mb : Member) (a b : Record) : Attempt Bool := do
  let namesA ← ma.canonicalNames a.slotNames
  Value.checkKeys namesA
  let namesB ← mb.canonicalNames b.slotNames
  Value.checkKeys namesB
  let argumentsA ← ma.canonicalArguments a namesB
  let argumentsB ← mb.canonicalArguments b namesA
  c.agree argumentsA argumentsB

end EquivalenceClass

namespace EquivalenceTable

/-- Whether two records are the same callback. -/
def areEquivalent (t : EquivalenceTable) (a b : Record) : Attempt Bool := do
  match ← t.indexFor a.revision a.code with
  | none => return false
  | some i =>
    let j ← t.indexFor b.revision b.code
    if j ≠ some i then return false
    match t.classes[i]? with
    | none => return false
    | some c =>
      match ← c.memberFor a, ← c.memberFor b with
      | some ma, some mb => c.sameCallback ma mb a b
      | _, _ => return false

theorem areEquivalent_of_no_class {t : EquivalenceTable} {a : Record}
    (h : t.indexFor a.revision a.code = .ok none) (b : Record) :
    t.areEquivalent a b = .ok false := by
  simp [areEquivalent, h, bind, Except.bind, pure, Except.pure]

end EquivalenceTable

end EventDialects
