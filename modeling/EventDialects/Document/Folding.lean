import EventDialects.Document.Style
import EventDialects.Text.Radix

/-!
# Long scalars

A scalar that goes beyond `lineWidth` columns goes on in the next line, indented. A plain or single
quoted one is broken at a single space, which the break stands for; a double quoted one anywhere
between its words or escapes, a backslash marking the break. The key of an entry is never broken.
-/

namespace EventDialects.Document

open Text

def lineWidth : Nat := 80

def spaces (n : Nat) : List Char := List.replicate n ' '

def newLine (indent : Nat) : List Char := '\n' :: spaces indent

/-- Where a scalar is written: whether it may be broken, and how far its further lines are
indented. -/
structure Room where
  breaks : Bool
  indent : Nat

def Room.isFull (room : Room) (column : Nat) : Bool := room.breaks && decide (lineWidth < column)

/-- A plain scalar from a column on, `pending` spaces not having been written yet. -/
def plainFrom (room : Room) (column pending : Nat) : List Char → List Char
  | [] => spaces pending
  | c :: s =>
    if c == ' ' then plainFrom room column (pending + 1) s
    else if pending == 1 && room.isFull column then
      newLine room.indent ++ c :: plainFrom room (room.indent + 1) 0 s
    else spaces pending ++ c :: plainFrom room (column + pending + 1) 0 s

/-- What has not been written yet of a single quoted scalar: spaces, of which `leading` says whether
they are its first characters, or line ends. -/
inductive Pending
  | blanks (leading : Bool) (count : Nat)
  | ends (cs : List Char)

namespace Pending

/-- The pending characters before another one in a column, and the column after them. A line end is
written twice, because a single one would be read as a space. -/
def before (room : Room) (column : Nat) : Pending → List Char × Nat
  | blanks leading count =>
    if count == 1 && !leading && room.isFull column then (newLine room.indent, room.indent)
    else (spaces count, column + count)
  | ends cs =>
    ((if cs.head? == some '\n' then ['\n'] else []) ++ cs ++ spaces room.indent, room.indent)

/-- The pending characters at the end of the scalar. -/
def atEnd (room : Room) : Pending → List Char
  | blanks _ count => spaces count
  | ends cs => (before room 0 (ends cs)).1

end Pending

def singleFrom (room : Room) (column : Nat) (pending : Pending) : List Char → List Char
  | [] => pending.atEnd room
  | c :: s =>
    if isBreak c then
      match pending with
      | .ends cs => singleFrom room column (.ends (cs ++ [c])) s
      | .blanks _ count => spaces count ++ singleFrom room (column + count) (.ends [c]) s
    else if c == ' ' then
      match pending with
      | .blanks leading count => singleFrom room column (.blanks leading (count + 1)) s
      | .ends _ =>
        let (text, column') := pending.before room column
        text ++ singleFrom room column' (.blanks false 1) s
    else
      let (text, column') := pending.before room column
      if c == '\'' then text ++ '\'' :: '\'' :: singleFrom room (column' + 2) (.blanks false 0) s
      else text ++ c :: singleFrom room (column' + 1) (.blanks false 0) s

/-- A number in upper-case hexadecimal, filled with zeros up to `width` digits. -/
def codeDigits (width n : Nat) : List Char :=
  let ds := natChars 16 n
  List.replicate (width - ds.length) '0' ++ ds

def escapeLetters : List (Char × Char) :=
  [('\x00', '0'), ('\x07', 'a'), ('\x08', 'b'), ('\t', 't'), ('\n', 'n'), ('\x0b', 'v'),
    ('\x0c', 'f'), ('\r', 'r'), ('\x1b', 'e'), ('"', '"'), ('\\', '\\'), ('\u0085', 'N'),
    ('\u00a0', '_'), ('\u2028', 'L'), ('\u2029', 'P')]

def isEscaped (c : Char) : Bool := c == '"' || c == '\\' || !(' ' ≤ c && c ≤ '~')

def escape (c : Char) : List Char :=
  match escapeLetters.find? (·.1 == c) with
  | some e => ['\\', e.2]
  | none =>
    let n := c.toNat
    if n < 0x100 then '\\' :: 'x' :: codeDigits 2 n
    else if n < 0x10000 then '\\' :: 'u' :: codeDigits 4 n
    else '\\' :: 'U' :: codeDigits 8 n

/-- A break within a double quoted scalar. A space after it is marked, because it would be lost
otherwise. -/
def markedBreak (room : Room) (next : List Char) : List Char :=
  '\\' :: newLine room.indent ++ (if next.head? == some ' ' then ['\\'] else [])

/-- The inside of a double quoted scalar from a column on, `word` being the characters since the
last escape or break, which are not written yet. -/
def doubleFrom (room : Room) (column : Nat) (first : Bool) (word : List Char) :
    List Char → List Char
  | [] => word
  | c :: s =>
    if isEscaped c then
      let written := word ++ escape c
      let column' := column + written.length
      if !first && !s.isEmpty && room.isFull (column' - 1) then
        let broken := markedBreak room s
        written ++ broken
          ++ doubleFrom room (room.indent + (if s.head? == some ' ' then 1 else 0)) false [] s
      else written ++ doubleFrom room column' false [] s
    else if !first && !s.isEmpty && (c == ' ' || word.isEmpty) && room.isFull (column + word.length)
    then
      word ++ markedBreak room (c :: s)
        ++ doubleFrom room (room.indent + (if c == ' ' then 1 else 0)) false [c] s
    else doubleFrom room column false (word ++ [c]) s

def textFrom (room : Room) (column : Nat) (s : List Char) : List Char :=
  match style s with
  | .plain => plainFrom room column 0 s
  | .single => '\'' :: singleFrom room (column + 1) (.blanks true 0) s ++ ['\'']
  | .double => '"' :: doubleFrom room (column + 1) true [] s ++ ['"']

end EventDialects.Document
