import EventDialects.Numeral
import EventDialects.Text.Pattern
import EventDialects.Value.Basic

/-!
# Plain scalars

A scalar that stands in a document without quotes is text unless it has the form of something else:
a word for null or a boolean, an integer in base two, eight, ten or sixteen, a floating-point
number, or a number in base sixty with colons between its digits. Underscores in a number do not
count.
-/

namespace EventDialects.Document

open Text
open Numeral (splitSign)

namespace Form

open Pattern

def words (ws : List String) : Pattern := oneOf (ws.map fun w => text w.toList)

/-- The words for null; nothing at all is one of them. -/
def null : Pattern := words ["~", "null", "Null", "NULL", ""]

/-- The words for what is true. -/
def yes : Pattern := words ["yes", "Yes", "YES", "true", "True", "TRUE", "on", "On", "ON"]

def no : Pattern := words ["no", "No", "NO", "false", "False", "FALSE", "off", "Off", "OFF"]

def sign : Pattern := optional (anyOf ['+', '-'])

def digit : Pattern := one Char.isDigit

def digitOrGap : Pattern := one fun c => c.isDigit || c == '_'

def leading : Pattern := one fun c => c.isDigit && c != '0'

/-- A digit in base sixty after a colon, written with one or two decimal digits. -/
def sexagesimal : Pattern :=
  all [char ':', optional (anyOf ['0', '1', '2', '3', '4', '5']), digit]

def integer : Pattern :=
  all [sign, oneOf
    [all [text ['0', 'b'], some (anyOf ['0', '1', '_'])],
      all [char '0', some (anyOf ['0', '1', '2', '3', '4', '5', '6', '7', '_'])],
      char '0',
      all [leading, many digitOrGap],
      all [text ['0', 'x'], some (one fun c => (digit? 16 c).isSome || c == '_')],
      all [leading, many digitOrGap, some sexagesimal]]]

def exponent : Pattern := optional (all [anyOf ['e', 'E'], anyOf ['+', '-'], some digit])

def infinite : Pattern := all [sign, words [".inf", ".Inf", ".INF"]]

def notANumber : Pattern := words [".nan", ".NaN", ".NAN"]

def decimalFloat : Pattern :=
  oneOf
    [all [sign, digit, many digitOrGap, char '.', many digitOrGap, exponent],
      all [char '.', digit, many digitOrGap, exponent]]

def sexagesimalFloat : Pattern :=
  all [sign, digit, many digitOrGap, some sexagesimal, char '.', many digitOrGap]

def digits (n : Nat) : Pattern := all (List.replicate n digit)

def date : Pattern := all [digits 4, char '-', digits 2, char '-', digits 2]

def oneOrTwo : Pattern := all [digit, optional digit]

def gap : Pattern := anyOf [' ', '\t']

def zone : Pattern :=
  all [many gap, either (char 'Z')
    (all [anyOf ['+', '-'], oneOrTwo, optional (all [char ':', digits 2])])]

/-- The form of a moment: a date and a time of day. -/
def moment : Pattern :=
  all [digits 4, char '-', oneOrTwo, char '-', oneOrTwo, either (anyOf ['T', 't']) (some gap),
    oneOrTwo, char ':', digits 2, char ':', digits 2, optional (all [char '.', many digit]),
    optional zone]

/-- The forms that other readers take for something else than text. -/
def reserved : Pattern := oneOf [date, moment, text ['<', '<'], text ['=']]

end Form

def colonParts : List Char → List (List Char)
  | [] => [[]]
  | ':' :: s => [] :: colonParts s
  | c :: s => match colonParts s with
    | [] => [[c]]
    | part :: parts => (c :: part) :: parts

def numberIn (b : Nat) (s : List Char) : Nat := ofDigits b (s.filterMap (digit? b))

def magnitude : List Char → Nat
  | '0' :: 'b' :: s => numberIn 2 s
  | '0' :: 'x' :: s => numberIn 16 s
  | '0' :: s => numberIn 8 s
  | s => ofDigits 60 ((colonParts s).map (numberIn 10))

def integerOf (s : List Char) : Int :=
  let (negative, body) := splitSign (s.filter (· != '_'))
  if negative then -(magnitude body : Int) else magnitude body

/-- The number of digits with a point, and perhaps an exponent, in base ten. -/
def decimalOf (negative : Bool) (s : List Char) : Binary64 :=
  let isMark := fun c => c == 'e' || c == 'E'
  let mantissa := s.takeWhile fun c => !isMark c
  let (down, power) := splitSign ((s.dropWhile fun c => !isMark c).drop 1)
  let whole := mantissa.takeWhile (· != '.')
  let fraction := (mantissa.dropWhile (· != '.')).drop 1
  let exponent : Int := numberIn 10 power
  .ofDecimal negative (numberIn 10 (whole ++ fraction))
    ((if down then -exponent else exponent) - fraction.length)

def sumOf : Binary64 → Binary64 → Binary64
  | .finite _ a, .finite _ b => .ofQuotient false (a + b) Binary64.one
  | .finite _ _, y => y
  | x, _ => x

def sexagesimalSum : List (List Char) → Nat → Binary64 → Binary64
  | [], _, sum => sum
  | part :: parts, base, sum =>
    sexagesimalSum parts (base * 60) (sumOf sum ((decimalOf false part).timesNat base))

def withSign (negative : Bool) : Binary64 → Binary64
  | .finite s q => .finite (s != negative) q
  | .infinite s => .infinite (s != negative)
  | .nan => .nan

def floatOf? (s : List Char) : Option Binary64 :=
  let (negative, body) := splitSign (s.filter (· != '_'))
  if Form.decimalFloat.fits s then some (decimalOf negative body)
  else if Form.sexagesimalFloat.fits s then
    some (withSign negative (sexagesimalSum (colonParts body).reverse 1 (.finite false 0)))
  else if Form.infinite.fits s then some (.infinite negative)
  else if Form.notANumber.fits s then some .nan
  else none

/-- What a plain scalar stands for, unless it is text. -/
def resolve? (s : List Char) : Option Value :=
  if Form.null.fits s then some .null
  else if Form.yes.fits s then some (.bool true)
  else if Form.no.fits s then some (.bool false)
  else match floatOf? s with
    | some x => some (.float x)
    | none => if Form.integer.fits s then some (.int (integerOf s)) else none

/-- What a plain scalar stands for. -/
def resolve (s : List Char) : Value := (resolve? s).getD (.str (String.ofList s))

def readsAsText (s : List Char) : Bool := (resolve? s).isNone && !Form.reserved.fits s

example : resolve? "0x1F".toList matches some (.int 31) := by decide +kernel
example : resolve? "1:30".toList matches some (.int 90) := by decide +kernel
example : resolve? "-010".toList matches some (.int (-8)) := by decide +kernel
example : (resolve? "08".toList).isNone := by decide +kernel
example : readsAsText "2001-01-01".toList = false := by decide +kernel

end EventDialects.Document
