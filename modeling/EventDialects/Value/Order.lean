import EventDialects.Failure
import EventDialects.Value.Equal

/-!
# The order of values

Numbers are ordered as numbers and texts by their characters' code points. Lists are ordered among
themselves, and tuples likewise, by the first place at which they differ; a revision comes before
another by its title and then by its variant, and a set before each larger one that contains it.
Any other two values have no order, and sorting values of which two had to be compared in vain
fails.
-/

namespace EventDialects.Value

def unordered {α : Type} (x y : Value) : Attempt α := misused (.unordered x.typeName y.typeName)

def numberBefore (a : Number) (x y : Value) : Attempt Bool :=
  match y.number? with
  | some b => .ok (a.less b)
  | none => unordered x y

/-- Whether a set is contained in a value and smaller than it. -/
def properlyWithin (xs : List Value) (x y : Value) : Attempt Bool :=
  match y.elements? with
  | some ys => .ok (allWithin xs ys && !allWithin ys xs)
  | none => unordered x y

mutual

/-- Whether a value comes before another. -/
def before : Value → Value → Attempt Bool
  | .bool b, y => numberBefore (.ofInt (if b then 1 else 0)) (.bool b) y
  | .int n, y => numberBefore (.ofInt n) (.int n) y
  | .float x, y => numberBefore (.ofBinary64 x) (.float x) y
  | .str s, y => match y with
    | .str t => .ok (decide (s < t))
    | _ => unordered (.str s) y
  | .list xs, y => match y with
    | .list ys => beforeAll xs ys
    | _ => unordered (.list xs) y
  | .tuple xs, y => match y with
    | .tuple ys => beforeAll xs ys
    | _ => unordered (.tuple xs) y
  | .set xs, y => properlyWithin xs (.set xs) y
  | .frozenset xs, y => properlyWithin xs (.frozenset xs) y
  | .revision r, y => match y with
    | .revision r' => .ok (r.before r')
    | _ => unordered (.revision r) y
  | x, y => unordered x y
termination_by structural x => x

/-- Whether a sequence comes before another: by the first elements that differ, or by being the
shorter one. -/
def beforeAll : List Value → List Value → Attempt Bool
  | [], ys => .ok !ys.isEmpty
  | x :: xs, ys => match ys with
    | [] => .ok false
    | y :: ys => if x.equal y then beforeAll xs ys else before x y
termination_by structural x => x

end

/-- Puts an item in its place among items sorted by their keys, after those that it is not before.
-/
def placeOn {α : Type} (key : α → Value) (x : α) : List α → Attempt (List α)
  | [] => .ok [x]
  | y :: ys => do
    if ← before (key x) (key y) then return x :: y :: ys
    return y :: (← placeOn key x ys)

/-- The items in the order of their keys; items with equal keys stay in their order. -/
def sortOn {α : Type} (key : α → Value) (xs : List α) : Attempt (List α) :=
  xs.foldlM (fun sorted x => placeOn key x sorted) []

def sort (xs : List Value) : Attempt (List Value) := sortOn id xs

end EventDialects.Value
