import EventDialects.Binary64.Basic
import EventDialects.Family
import EventDialects.Revision

/-!
# Values

Definition files, registration files and records hold values that nobody has checked: a slot's
width may be a word, an argument a list. `Value` is the type of all of them. Beside the data of a
document (null, booleans, integers, floating-point numbers, text, lists and mappings) it has what
decoding produces: tuples for coordinates, references into a script's text section, variants of a
family and sets of them, and revisions.

Booleans are numbers here: true is one and false is zero.
-/

namespace EventDialects

/-- What a reference into the text section refers to. -/
inductive RefKind
  | pid
  | function
  | string
  deriving DecidableEq, Repr, Inhabited

def RefKind.typeName : RefKind → String
  | .pid => "Pid"
  | .function => "FunctionRef"
  | .string => "StringRef"

/-- An unchecked value. -/
inductive Value
  | null
  | bool (b : Bool)
  | int (n : Int)
  | float (x : Binary64)
  | str (s : String)
  | list (xs : List Value)
  | tuple (xs : List Value)
  | set (xs : List Value)
  | frozenset (xs : List Value)
  | map (entries : List (Value × Value))
  | ref (kind : RefKind) (offset : Value)
  | variant (family : Family) (raw : Int)
  | revision (r : Revision)
  deriving Inhabited

/-- A number as it compares with others: a count of quanta, or beyond all of them. -/
inductive Number
  | finite (quanta : Int)
  | infinite (negative : Bool)
  | nan
  deriving DecidableEq, Repr

namespace Number

/-- Equality of numbers. What is not a number is one object, which is found where it was put: as a
key, as an element and at its place in a sequence it is equal to itself. -/
def equal : Number → Number → Bool
  | .finite a, .finite b => a == b
  | .infinite s, .infinite t => s == t
  | .nan, .nan => true
  | _, _ => false

/-- The order of numbers; what is not a number is before and after nothing. -/
def less : Number → Number → Bool
  | .finite a, .finite b => a < b
  | .finite _, .infinite t => !t
  | .infinite s, .finite _ => s
  | .infinite s, .infinite t => s && !t
  | _, _ => false

def ofInt (n : Int) : Number := .finite (n * Binary64.one)

def ofBinary64 : Binary64 → Number
  | .finite true q => .finite (-(q : Int))
  | .finite false q => .finite q
  | .infinite s => .infinite s
  | .nan => .nan

theorem equal_ofInt (a b : Int) : (ofInt a).equal (ofInt b) = (a == b) := by
  have h : (0 : Int) < Binary64.one := Int.ofNat_lt.2 (Binary64.twoTo_pos _)
  simp only [equal, ofInt]
  rw [Bool.eq_iff_iff, beq_iff_eq, beq_iff_eq]
  exact ⟨Int.eq_of_mul_eq_mul_right (Int.ne_of_gt h), fun he => by rw [he]⟩

theorem less_ofInt (a b : Int) : (ofInt a).less (ofInt b) = decide (a < b) := by
  have h : (0 : Int) < Binary64.one := Int.ofNat_lt.2 (Binary64.twoTo_pos _)
  simp only [less, ofInt, decide_eq_decide]
  exact Int.mul_lt_mul_right h

end Number

namespace Value

def number? : Value → Option Number
  | .bool b => some (.ofInt (if b then 1 else 0))
  | .int n => some (.ofInt n)
  | .float x => some (.ofBinary64 x)
  | _ => none

/-- The integer that a value is, a boolean counting as one. -/
def integer? : Value → Option Int
  | .bool b => some (if b then 1 else 0)
  | .int n => some n
  | _ => none

def isNaN (v : Value) : Bool := v.number? == some .nan

def elements? : Value → Option (List Value)
  | .set xs => some xs
  | .frozenset xs => some xs
  | _ => none

/-- Whether a value counts as true: all but null, false, zero and what is empty. A combination of
flags is true unless it is empty, and so is every other variant. -/
def truthy : Value → Bool
  | .null => false
  | .bool b => b
  | .int n => n != 0
  | .float x => !x.isZero
  | .str s => s != ""
  | .list xs => !xs.isEmpty
  | .tuple xs => !xs.isEmpty
  | .set xs => !xs.isEmpty
  | .frozenset xs => !xs.isEmpty
  | .map es => !es.isEmpty
  | .ref _ _ => true
  | .variant f raw => !(f.combines && raw == 0)
  | .revision _ => true

def typeName : Value → String
  | .null => "NoneType"
  | .bool _ => "bool"
  | .int _ => "int"
  | .float _ => "float"
  | .str _ => "str"
  | .list _ => "list"
  | .tuple _ => "tuple"
  | .set _ => "set"
  | .frozenset _ => "frozenset"
  | .map _ => "dict"
  | .ref kind _ => kind.typeName
  | .variant f _ => f.name
  | .revision _ => "Revision"

def ofTexts (ss : List String) : List Value := ss.map .str

end Value

end EventDialects
