import EventDialects.Value.Key
import EventDialects.Value.Text

/-!
# Writing a document as JSON

Lists and mappings are written with one item on each line, indented by two columns for each list or
mapping around it. All but the printable characters of ASCII is escaped; a character outside the
basic plane is escaped as two surrogates.
-/

namespace EventDialects.Document.Json

open Text

def unit (n : Nat) : List Char :=
  let ds := (natChars 16 n).map Char.toLower
  '\\' :: 'u' :: List.replicate (4 - ds.length) '0' ++ ds

def charText (c : Char) : List Char :=
  if c == '"' then ['\\', '"']
  else if c == '\\' then ['\\', '\\']
  else if c == '\n' then ['\\', 'n']
  else if c == '\r' then ['\\', 'r']
  else if c == '\t' then ['\\', 't']
  else if c == '\x08' then ['\\', 'b']
  else if c == '\x0c' then ['\\', 'f']
  else if ' ' ≤ c && c ≤ '~' then [c]
  else
    let n := c.toNat
    if n < 0x10000 then unit n
    else unit (0xD800 + (n - 0x10000) / 0x400) ++ unit (0xDC00 + (n - 0x10000) % 0x400)

def quoted (s : String) : List Char := '"' :: s.toList.flatMap charText ++ ['"']

def floatText (x : Binary64) : String :=
  match x with
  | .nan => "NaN"
  | .infinite true => "-Infinity"
  | .infinite false => "Infinity"
  | x => x.text

def bare : Value → String
  | .null => "null"
  | .bool b => if b then "true" else "false"
  | .float x => floatText x
  | v => v.text

def scalar : Value → List Char
  | .null => (bare .null).toList
  | .bool b => (bare (.bool b)).toList
  | .int n => (bare (.int n)).toList
  | .float x => (bare (.float x)).toList
  | v => quoted v.text

def newLine (indent : Nat) : List Char := '\n' :: List.replicate indent ' '

mutual

def valueText (n : Nat) : Value → List Char
  | .list xs => match xs with
    | [] => ['[', ']']
    | x :: rest =>
      '[' :: newLine (n + 2) ++ valueText (n + 2) x ++ moreItems (n + 2) rest ++ newLine n ++ [']']
  | .map es => match es with
    | [] => ['{', '}']
    | e :: rest => '{' :: newLine (n + 2) ++ pair (n + 2) e ++ morePairs (n + 2) rest ++ newLine n
        ++ ['}']
  | v => scalar v
termination_by structural x => x

def moreItems (n : Nat) : List Value → List Char
  | [] => []
  | x :: xs => ',' :: newLine n ++ valueText n x ++ moreItems n xs
termination_by structural x => x

def pair (n : Nat) : Value × Value → List Char
  | (key, v) => quoted (bare key) ++ ':' :: ' ' :: valueText n v
termination_by structural x => x

def morePairs (n : Nat) : List (Value × Value) → List Char
  | [] => []
  | e :: es => ',' :: newLine n ++ pair n e ++ morePairs n es
termination_by structural x => x

end

def text (es : Entries) : String := String.ofList (valueText 0 (.map es))

example : text [(.str "a", .list [.int 1])] = "\x7b\n  \"a\": [\n    1\n  ]\n\x7d" := by
  decide +kernel

end EventDialects.Document.Json
