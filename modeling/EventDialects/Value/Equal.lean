import EventDialects.Value.Basic

/-!
# Equality of values

Numbers are equal if they stand for the same number, whatever their type. Lists and tuples are
equal to their own sort alone, element by element. Sets of both sorts are equal if each holds every
element of the other, and mappings if each holds every entry of the other. A reference is equal to
one of its own kind with an equal offset, and a variant to the same variant of the same family.

* `equal_int`: integers are equal as integers.
* `equal_str_iff`: a text is equal to that text alone.
-/

namespace EventDialects.Value

/-- Whether a value is a number equal to `a`. -/
def isNumber (a : Number) (y : Value) : Bool := y.number?.any a.equal

mutual

/-- Equality of values. -/
def equal : Value → Value → Bool
  | .null, y => match y with
    | .null => true
    | _ => false
  | .bool b, y => isNumber (.ofInt (if b then 1 else 0)) y
  | .int n, y => isNumber (.ofInt n) y
  | .float x, y => isNumber (.ofBinary64 x) y
  | .str s, y => match y with
    | .str t => s == t
    | _ => false
  | .list xs, y => match y with
    | .list ys => equalAll xs ys
    | _ => false
  | .tuple xs, y => match y with
    | .tuple ys => equalAll xs ys
    | _ => false
  | .set xs, y => match y.elements? with
    | some ys => allWithin xs ys && ys.all (fun b => someEqual xs b)
    | none => false
  | .frozenset xs, y => match y.elements? with
    | some ys => allWithin xs ys && ys.all (fun b => someEqual xs b)
    | none => false
  | .map es, y => match y with
    | .map fs => entriesWithin es fs && fs.all (fun f => someEqualEntry es f)
    | _ => false
  | .ref kind offset, y => match y with
    | .ref kind' offset' => kind == kind' && equal offset offset'
    | _ => false
  | .variant family raw, y => match y with
    | .variant family' raw' => family == family' && raw == raw'
    | _ => false
  | .revision r, y => match y with
    | .revision r' => r == r'
    | _ => false
termination_by structural x => x

def equalAll : List Value → List Value → Bool
  | [], ys => ys.isEmpty
  | x :: xs, ys => match ys with
    | y :: ys => equal x y && equalAll xs ys
    | [] => false
termination_by structural x => x

/-- Whether each of some values has an equal one among others. -/
def allWithin : List Value → List Value → Bool
  | [], _ => true
  | x :: xs, ys => ys.any (fun y => equal x y) && allWithin xs ys
termination_by structural x => x

def someEqual : List Value → Value → Bool
  | [], _ => false
  | x :: xs, y => equal x y || someEqual xs y
termination_by structural x => x

def equalEntry : Value × Value → Value × Value → Bool
  | (k, v), e => equal k e.1 && equal v e.2
termination_by structural x => x

def entriesWithin : List (Value × Value) → List (Value × Value) → Bool
  | [], _ => true
  | e :: es, fs => fs.any (fun f => equalEntry e f) && entriesWithin es fs
termination_by structural x => x

def someEqualEntry : List (Value × Value) → Value × Value → Bool
  | [], _ => false
  | e :: es, f => equalEntry e f || someEqualEntry es f
termination_by structural x => x

end

/-- The first of some values that is kept of each class of equal ones. -/
def distinct (xs : List Value) : List Value :=
  xs.foldl (fun seen x => if seen.any (·.equal x) then seen else seen ++ [x]) []

def countEqual (xs : List Value) (x : Value) : Nat := xs.countP (·.equal x)

/-- Whether two lists hold equal values equally often. -/
def sameMultiset (xs ys : List Value) : Bool :=
  (xs ++ ys).all fun x => countEqual xs x == countEqual ys x

/-- Equality of two values that are compared with each other, not looked for in a container. What
is not a number is then equal to nothing, itself included. -/
def comparesEqual (x y : Value) : Bool := x.equal y && !x.isNaN

theorem equal_int (a b : Int) : (Value.int a).equal (.int b) = (a == b) := by
  simp [equal, isNumber, number?, Number.equal_ofInt]

theorem equal_str_iff {s : String} {y : Value} : (Value.str s).equal y ↔ y = .str s := by
  cases y <;> simp [equal]
  exact eq_comm

example : (Value.set [.int 1, .null]).equal (.frozenset [.null, .bool true]) = true := by
  decide +kernel
example : (Value.list [.int 1]).equal (.tuple [.int 1]) = false := by decide +kernel

end EventDialects.Value
