import EventDialects.Text.Blank
import EventDialects.Text.Digit
import EventDialects.Text.Radix

/-!
# Written integers

Two grammars read an integer from a text. `Numeral.decimal?` reads decimal digits, leading zeros
allowed. `Numeral.literal?` reads a literal whose base shows in the text: `0x`, `0o` and `0b` stand
before hexadecimal, octal and binary digits, and a decimal literal has no leading zero unless it is
zero. Both allow blanks around the number, one sign, single underscores between digits, and the
decimal digits of every script; both refuse decimal numbers of more than `digitLimit` digits.
-/

namespace EventDialects.Numeral

open Text

/-- A character of a number in ASCII: a digit of another script becomes the ASCII digit of the same
value and a blank becomes a space. Nothing else outside ASCII occurs in a number. -/
def asciiChar? (c : Char) : Option Char :=
  if c.toNat < 127 then some c
  else if isBlank c then some ' '
  else (decimalDigit? c).map digitChar

/-- The text of a number in ASCII, without the blanks around it. -/
def ascii? (s : List Char) : Option (List Char) :=
  (s.mapM asciiChar?).map (trimBy isPlainBlank)

def splitSign : List Char → Bool × List Char
  | '-' :: s => (true, s)
  | '+' :: s => (false, s)
  | s => (false, s)

def digitRun? (b : Nat) : List Char → Option (List Nat)
  | [] => none
  | [c] => (digit? b c).map ([·])
  | c :: '_' :: s => do
    let d ← digit? b c
    let ds ← digitRun? b s
    return d :: ds
  | c :: e :: s => do
    let d ← digit? b c
    let ds ← digitRun? b (e :: s)
    return d :: ds

def signed (negative : Bool) (n : Nat) : Int := if negative then -n else n

def decimalRun? (s : List Char) : Option (List Nat) :=
  (digitRun? 10 s).filter (·.length ≤ digitLimit)

/-- Skips the one underscore that may follow the letter of a base. -/
def skipUnderscore : List Char → List Char
  | '_' :: s => s
  | s => s

def magnitude? : List Char → Option Nat
  | '0' :: 'x' :: s => (digitRun? 16 (skipUnderscore s)).map (ofDigits 16)
  | '0' :: 'X' :: s => (digitRun? 16 (skipUnderscore s)).map (ofDigits 16)
  | '0' :: 'o' :: s => (digitRun? 8 (skipUnderscore s)).map (ofDigits 8)
  | '0' :: 'O' :: s => (digitRun? 8 (skipUnderscore s)).map (ofDigits 8)
  | '0' :: 'b' :: s => (digitRun? 2 (skipUnderscore s)).map (ofDigits 2)
  | '0' :: 'B' :: s => (digitRun? 2 (skipUnderscore s)).map (ofDigits 2)
  | '0' :: s => ((decimalRun? ('0' :: s)).map (ofDigits 10)).filter (· = 0)
  | s => (decimalRun? s).map (ofDigits 10)

def decimal? (text : List Char) : Option Int := do
  let s ← ascii? text
  let (negative, body) := splitSign s
  let ds ← decimalRun? body
  return signed negative (ofDigits 10 ds)

def literal? (text : List Char) : Option Int := do
  let s ← ascii? text
  let (negative, body) := splitSign s
  let n ← magnitude? body
  return signed negative n

example : literal? "0x_1f".toList = some 31 := by decide +kernel
example : literal? "08".toList = none := by decide +kernel
example : decimal? "08".toList = some 8 := by decide +kernel

end EventDialects.Numeral
