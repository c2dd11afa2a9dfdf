/-!
# Misuse of values

Documents are not checked before they are used, so an operation may meet a value that it makes no
sense for: a number where a list is needed, a list as a key. A `Misuse` is the reason of such a
failure. It is not part of the error taxonomy, and what goes wrong through it is not reported per
registration.
-/

namespace EventDialects

/-- Why an operation makes no sense for a value. -/
inductive Misuse
  /-- The value has no elements to go through. -/
  | notIterable (type : String)
  /-- The value holds nothing that could be looked for. -/
  | notContainer (type : String)
  /-- The value cannot be a key or an element of a set. -/
  | unhashable (type : String)
  /-- The value has no such operation. -/
  | noField (type field : String)
  /-- The value has no entries by name. -/
  | notSubscriptable (type : String)
  /-- Two values have no order. -/
  | unordered (left right : String)
  /-- An operation on whole numbers makes no sense for these types. -/
  | noOperation (operator left right : String)
  /-- The number of elements to take is not whole. -/
  | noCount
  /-- The value is no number at all, and one is needed. -/
  | notNumber (type : String)
  /-- The text writes no number. -/
  | badNumber (text : String)
  /-- The value is no text, and one is needed. -/
  | notText (type : String)
  /-- The value is a number where the layout needs a text. -/
  | badLayout (type : String)
  /-- The value is neither a text nor a number where the layout needs a text. -/
  | noLayout (type : String)
  /-- No slot kind has this name. -/
  | noSuchKind (shown : String)
  /-- A width in bits is negative. -/
  | negativeWidth
  /-- The number is infinite. -/
  | infinite
  /-- There is no element at this position. -/
  | outOfBounds
  /-- Nothing stands under this key. -/
  | noEntry (key : Int)
  /-- An integer has too many digits to be printed. -/
  | tooLong
  /-- A width in bits is beyond every number of bits that can be shifted by. -/
  | tooWide
  deriving DecidableEq, Repr

namespace Misuse

/-- The sorts of mistake. -/
inductive Mistake
  | type
  | value
  | field
  | bounds
  | key
  | overflow
  deriving DecidableEq, Repr

def mistake : Misuse → Mistake
  | .notIterable _ | .notContainer _ | .unhashable _ | .notSubscriptable _ | .unordered _ _
  | .noOperation _ _ _ | .noCount | .notNumber _ | .notText _ | .noLayout _ => .type
  | .badNumber _ | .badLayout _ | .noSuchKind _ | .negativeWidth | .tooLong => .value
  | .noField _ _ => .field
  | .infinite | .tooWide => .overflow
  | .outOfBounds => .bounds
  | .noEntry _ => .key

def message : Misuse → String
  | .notIterable type => "'" ++ type ++ "' object is not iterable"
  | .notContainer type => "argument of type '" ++ type ++ "' is not iterable"
  | .unhashable type => "unhashable type: '" ++ type ++ "'"
  | .noField type field => "'" ++ type ++ "' object has no attribute '" ++ field ++ "'"
  | .notSubscriptable type =>
    if type = "str" then "string indices must be integers, not 'str'"
    else if type = "list" then "list indices must be integers or slices, not str"
    else "'" ++ type ++ "' object is not subscriptable"
  | .unordered left right =>
    "'<' not supported between instances of '" ++ left ++ "' and '" ++ right ++ "'"
  | .noOperation operator left right =>
    "unsupported operand type(s) for " ++ operator ++ ": '" ++ left ++ "' and '" ++ right ++ "'"
  | .noCount => "slice indices must be integers or None or have an __index__ method"
  | .notNumber type =>
    "int() argument must be a string, a bytes-like object or a real number, not '" ++ type ++ "'"
  | .badNumber text => "invalid literal for int() with base 0: " ++ text
  | .notText type => "sequence item 0: expected str instance, " ++ type ++ " found"
  | .badLayout type => "Unknown format code 's' for object of type '" ++ type ++ "'"
  | .noLayout type => "unsupported format string passed to " ++ type ++ ".__format__"
  | .noSuchKind shown => shown ++ " is not a valid SlotKind"
  | .negativeWidth => "negative shift count"
  | .infinite => "cannot convert float infinity to integer"
  | .outOfBounds => "tuple index out of range"
  | .noEntry key => toString key
  | .tooLong => "Exceeds the limit (4300 digits) for integer string conversion; "
      ++ "use sys.set_int_max_str_digits() to increase the limit"
  | .tooWide => "too many digits in integer"

end Misuse

end EventDialects
