import EventDialects.Document.Folding
import EventDialects.Value.Key
import EventDialects.Value.Text

/-!
# Writing a document in block style

A mapping is written with an entry on each line, and what belongs to an entry is indented by two
columns; only the items of a list begin in the column of the key that the list belongs to. A key
that is empty, long or has several lines is written after a question mark, and its value after a
colon in a line of its own. Empty lists and mappings are written in brackets.
-/

namespace EventDialects.Document.Block

open Text

def floatChars (x : Binary64) : List Char :=
  match x with
  | .nan => ".nan".toList
  | .infinite true => "-.inf".toList
  | .infinite false => ".inf".toList
  | x =>
    let cs := x.text.toList
    if cs.contains '.' then cs
    else cs.takeWhile (· != 'e') ++ '.' :: '0' :: cs.dropWhile (· != 'e')

def scalarFrom (room : Room) (column : Nat) : Value → List Char
  | .null => "null".toList
  | .bool b => (if b then "true" else "false").toList
  | .int n => intChars 10 n
  | .float x => floatChars x
  | v => textFrom room column v.text.toList

/-- The length of the mark of a scalar's type, which counts for the length of a key. -/
def markLength : Value → Nat
  | .null | .bool _ => 6
  | .float _ => 7
  | _ => 5

/-- The length that a key with the mark of its type must stay below to be written without a question
mark. -/
def keyWidth : Nat := 128

def isSimpleKey (key : Value) : Bool :=
  let s := match key with
    | .str s => s.toList
    | v => scalarFrom ⟨false, 0⟩ 0 v
  !s.isEmpty && !s.any isBreak && decide (s.length + markLength key < keyWidth)

mutual

/-- A value after a key's colon in column `column`, the key standing in column `n`. -/
def afterKey (n column : Nat) : Value → List Char
  | .list xs => match xs with
    | [] => " []".toList
    | x :: rest => newLine n ++ '-' :: afterIndicator n x ++ moreItems n rest
  | .map es => match es with
    | [] => " \x7b\x7d".toList
    | e :: rest => newLine (n + 2) ++ pair (n + 2) e ++ morePairs (n + 2) rest
  | v => ' ' :: scalarFrom ⟨true, n + 2⟩ (column + 1) v
termination_by structural x => x

def afterIndicator (n : Nat) : Value → List Char
  | .list xs => match xs with
    | [] => " []".toList
    | x :: rest => ' ' :: '-' :: afterIndicator (n + 2) x ++ moreItems (n + 2) rest
  | .map es => match es with
    | [] => " \x7b\x7d".toList
    | e :: rest => ' ' :: pair (n + 2) e ++ morePairs (n + 2) rest
  | v => ' ' :: scalarFrom ⟨true, n + 2⟩ (n + 2) v
termination_by structural x => x

def moreItems (n : Nat) : List Value → List Char
  | [] => []
  | x :: xs => newLine n ++ '-' :: afterIndicator n x ++ moreItems n xs
termination_by structural x => x

def pair (n : Nat) : Value × Value → List Char
  | (key, v) =>
    if isSimpleKey key then
      let s := scalarFrom ⟨false, n + 2⟩ n key
      s ++ ':' :: afterKey n (n + s.length + 1) v
    else '?' :: afterIndicator n key ++ newLine n ++ ':' :: afterIndicator n v
termination_by structural x => x

def morePairs (n : Nat) : List (Value × Value) → List Char
  | [] => []
  | e :: es => newLine n ++ pair n e ++ morePairs n es
termination_by structural x => x

end

def text (es : Entries) : String :=
  match es with
  | [] => "\x7b\x7d\n"
  | e :: rest => String.ofList (pair 0 e ++ morePairs 0 rest ++ ['\n'])

example : text [(.str "a", .list [.int 1]), (.str "", .map [])]
    = "a:\n- 1\n? ''\n: \x7b\x7d\n" := by decide +kernel

end EventDialects.Document.Block
