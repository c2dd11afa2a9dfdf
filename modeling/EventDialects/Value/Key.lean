import EventDialects.Failure
import EventDialects.Value.Equal

/-!
# Values as keys

A value can be a key of a mapping or an element of a set if it cannot change: a list, a set or a
mapping cannot, and neither can what holds one. `normal` makes such a value of any argument, so that
arguments can be counted whatever they are: lists become tuples, sets frozen sets, and a mapping the
frozen set of its entries.

* `checkKey_eq_ok_iff`: what passes the check is hashable.
-/

namespace EventDialects

namespace Value

mutual

/-- Whether a value can be a key. -/
def hashable : Value → Bool
  | .list _ => false
  | .set _ => false
  | .map _ => false
  | .tuple xs => allHashable xs
  | .frozenset xs => allHashable xs
  | .ref _ offset => hashable offset
  | _ => true
termination_by structural x => x

def allHashable : List Value → Bool
  | [] => true
  | x :: xs => hashable x && allHashable xs
termination_by structural x => x

end

def checkKey (v : Value) : Attempt Unit :=
  if v.hashable then .ok () else misused (.unhashable v.typeName)

def checkKeys : List Value → Attempt Unit
  | [] => .ok ()
  | x :: xs => do
    x.checkKey
    checkKeys xs

theorem checkKey_eq_ok_iff {v : Value} : v.checkKey = .ok () ↔ v.hashable := by
  unfold checkKey
  split <;> simp_all [misused]

mutual

/-- The form of a value in which it can be counted. -/
def normal : Value → Attempt Value
  | .list xs => do return .tuple (← normalItems xs)
  | .tuple xs => do return .tuple (← normalItems xs)
  | .set xs => do return .frozenset (← normalItems xs)
  | .frozenset xs => do return .frozenset (← normalItems xs)
  | .map es => do
    let items ← normalEntries es
    checkKeys items
    return .frozenset items
  | v => .ok v
termination_by structural x => x

def normalItems : List Value → Attempt (List Value)
  | [] => .ok []
  | x :: xs => do
    let y ← normal x
    let ys ← normalItems xs
    return y :: ys
termination_by structural x => x

def normalEntry : Value × Value → Attempt Value
  | (k, v) => do
    let w ← normal v
    return .tuple [k, w]
termination_by structural x => x

def normalEntries : List (Value × Value) → Attempt (List Value)
  | [] => .ok []
  | e :: es => do
    let y ← normalEntry e
    let ys ← normalEntries es
    return y :: ys
termination_by structural x => x

end

end Value

/-- What stands under some keys, in the order in which the keys were put in. In a mapping these are
values. -/
abbrev Entries (α : Type := Value) := List (Value × α)

namespace Entries

variable {α : Type}

def lookup? (es : Entries α) (key : Value) : Option α :=
  (es.find? fun e => e.1.equal key).map (·.2)

/-- Puts something under a key. A key that is there already keeps its place. -/
def insert : Entries α → Value → α → Entries α
  | [], key, v => [(key, v)]
  | e :: es, key, v => if e.1.equal key then (e.1, v) :: es else e :: insert es key v

/-- The mapping of some pairs: of a repeated key the first place and the last value. -/
def ofPairs (ps : List (Value × Value)) : Entries := ps.foldl (fun es p => insert es p.1 p.2) []

end Entries

end EventDialects
