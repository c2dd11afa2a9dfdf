import EventDialects.Numeral
import EventDialects.Value.Access

/-!
# Registrations

A registration is one callback as it was found in a script: where it comes from, its event code and
its operands. Registration files list them, and a person may type one. Numbers there are integers or
texts; a text of decimal digits may have leading zeros, and any other must be a literal.
-/

namespace EventDialects

open Text

/-- One raw callback registration. -/
structure Registration where
  source : String
  code : Int
  operands : Value

def isSign (c : Char) : Bool := c == '+' || c == '-'

/-- The integer that a text writes: in decimal digits if it holds nothing else after its signs, and
as a literal otherwise. -/
def numberOfText? (s : List Char) : Option Int :=
  let t := strip s
  let body := t.dropWhile isSign
  if !body.isEmpty && body.all (fun c => (decimalDigit? c).isSome) then Numeral.decimal? t
  else Numeral.literal? t

def numberOf : Value → Attempt Int
  | .int n => .ok n
  | v => do
    let s ← v.print
    match numberOfText? s.toList with
    | some n => return n
    | none => refuse (.input (.notANumber v))

def numbersOf : List Value → Attempt (List Int)
  | [] => .ok []
  | v :: vs => do
    let n ← numberOf v
    let ns ← numbersOf vs
    return n :: ns

namespace Registration

/-- What is read for a registration; a fault of the input is reported with the registration's
source. -/
def inSource {α : Type} (source : String) : Attempt α → Attempt α
  | .error (.refused (.input fault)) => refuse (.input (.registration source fault))
  | result => result

/-- The registration that an entry declares, `index` being its place in the list. -/
def ofEntry (index : Nat) (entry : Value) : Attempt Registration := do
  let named ← entry.entryOr "source" (.str ("#" ++ decimal index))
  let source ← named.print
  if !(← entry.holds "code") then refuse (.input (.missingCode source))
  let code ← inSource source (numberOf ((← entry.subscript? "code").getD .null))
  let raw ← (← entry.entryOrEmpty "operands" (.list [])).iterate
  let operands ← inSource source (numbersOf raw)
  return ⟨source, code, .list (operands.map .int)⟩

/-- The registrations that entries declare, the first of them at a place. -/
def ofEntries (index : Nat) : List Value → Attempt (List Registration)
  | [] => .ok []
  | entry :: entries => do
    let r ← ofEntry index entry
    let rs ← ofEntries (index + 1) entries
    return r :: rs

def ofDocument (document : Value) : Attempt (List Registration) := do
  ofEntries 0 (← (← document.entryOrEmpty "registrations" (.list [])).iterate)

end Registration

end EventDialects
