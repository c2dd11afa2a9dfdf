import EventDialects.Text.Printable
import EventDialects.Text.Radix

/-!
# Quoted text

A text inside a list, a mapping or a message that shows a value exactly stands between quotes:
single ones, or double ones if the text has a single quote and no double one. The quote, the
backslash, the tab and the line ends are escaped by a backslash, and a character that is not
printable is shown by its number.
-/

namespace EventDialects.Text

def quoteOf (s : List Char) : Char :=
  if '\'' ∈ s ∧ '"' ∉ s then '"' else '\''

/-- A code point in lower-case hexadecimal, filled with zeros up to `width` digits. -/
def escapedCode (width n : Nat) : List Char :=
  let ds := (natChars 16 n).map Char.toLower
  List.replicate (width - ds.length) '0' ++ ds

/-- A character that cannot stand for itself, by its number: two, four or eight digits. -/
def escapedChar (c : Char) : List Char :=
  let n := c.toNat
  if n < 0x100 then '\\' :: 'x' :: escapedCode 2 n
  else if n < 0x10000 then '\\' :: 'u' :: escapedCode 4 n
  else '\\' :: 'U' :: escapedCode 8 n

def quotedChar (q c : Char) : List Char :=
  if c = q ∨ c = '\\' then ['\\', c]
  else if c = '\t' then ['\\', 't']
  else if c = '\n' then ['\\', 'n']
  else if c = '\r' then ['\\', 'r']
  else if isPrintable c then [c]
  else escapedChar c

def quoted (s : String) : String :=
  let cs := s.toList
  let q := quoteOf cs
  String.ofList (q :: cs.flatMap (quotedChar q) ++ [q])

example : quoted "it's" = "\"it's\"" := by decide +kernel
example : quoted "a\tb" = "'a\\tb'" := by decide +kernel

end EventDialects.Text
