import EventDialects.Document.Scalar
import EventDialects.Document.Source

/-!
# Scalars in the text of a document

A scalar stands plain or between quotes. A plain one ends before a colon that a gap follows, before
a comment, and on a line that is not indented enough; inside brackets it ends before their
indicators too. Between single quotes only the quote itself is special and stands for itself when
it is written twice; between double quotes a backslash begins an escape. Gaps are folded in all of
them.
-/

namespace EventDialects.Document

open Text

/-! ### Plain scalars -/

def isFlowIndicator (c : Char) : Bool :=
  c == ',' || c == '[' || c == ']' || c == '{' || c == '}'

def isReserved (c : Char) : Bool :=
  isFlowIndicator c || isGap c
    || ['#', '&', '*', '!', '|', '>', '\'', '"', '%', '@', '\u0060'].contains c

/-- Whether a plain scalar begins here. A dash may begin one if no gap follows, and outside brackets
a question mark or a colon too. -/
def startsPlain (inFlow : Bool) : Source → Bool
  | [] => false
  | p :: rest =>
    if p.char == '-' then !endsWord rest
    else if p.char == '?' || p.char == ':' then !inFlow && !endsWord rest
    else !isReserved p.char

def endsKey (inFlow : Bool) : Source → Bool
  | [] => true
  | p :: _ => isGap p.char || (inFlow && isFlowIndicator p.char)

/-- Whether a plain scalar ends before a character: `indent` is the least column that continues it
on another line. -/
def endsPlain (inFlow : Bool) (indent : Nat) (gap : Gap) (p : Place) (rest : Source) : Bool :=
  p.char == '\t' || atMarker (p :: rest)
    || (p.char == ':' && endsKey inFlow rest)
    || (inFlow && (isFlowIndicator p.char || p.char == '?'))
    || (gap != .nothing && (p.char == '#' || (!inFlow && decide (p.column < indent))))

/-- The characters of a plain scalar, a gap of it having been read, and what follows it. -/
def plainChars (inFlow : Bool) (indent : Nat) (gap : Gap) : Source → List Char × Source
  | [] => ([], [])
  | p :: rest =>
    if p.char == ' ' || isBreak p.char then plainChars inFlow indent (gap.add p.char) rest
    else if endsPlain inFlow indent gap p rest then ([], p :: rest)
    else
      let (more, after) := plainChars inFlow indent .nothing rest
      (gap.chars ++ p.char :: more, after)

def plain (inFlow : Bool) (indent : Nat) (s : Source) : Value × Source :=
  let (cs, rest) := plainChars inFlow indent .nothing s
  (resolve cs, rest)

/-! ### Quoted scalars -/

/-- The characters up to the closing single quote, a gap having been read, and what follows it. -/
def single (gap : Gap) : Source → Option (List Char × Source)
  | [] => none
  | p :: rest =>
    if atMarker (p :: rest) then none
    else if p.char == '\'' then
      match rest with
      | [] => some (gap.chars, [])
      | q :: rest' =>
        if q.char == '\'' then
          (single .nothing rest').map fun r => (gap.chars ++ '\'' :: r.1, r.2)
        else some (gap.chars, q :: rest')
    else if isGap p.char then single (gap.add p.char) rest
    else (single .nothing rest).map fun r => (gap.chars ++ p.char :: r.1, r.2)

def escaped? (c : Char) : Option Char :=
  ([('0', '\x00'), ('a', '\x07'), ('b', '\x08'), ('t', '\t'), ('\t', '\t'), ('n', '\n'),
    ('v', '\x0b'), ('f', '\x0c'), ('r', '\r'), ('e', '\x1b'), (' ', ' '), ('"', '"'), ('\\', '\\'),
    ('/', '/'), ('N', '\u0085'), ('_', '\u00a0'), ('L', '\u2028'), ('P', '\u2029')].find?
      (·.1 == c)).map (·.2)

/-- The number of hexadecimal digits that follow a letter after a backslash. -/
def escapeWidth? (c : Char) : Option Nat :=
  if c == 'x' then some 2 else if c == 'u' then some 4 else if c == 'U' then some 8 else none

/-- How far a text between double quotes has been read: after a gap, after a backslash, or before
`left + 1` more digits of a code. -/
inductive Progress
  | text (gap : Gap)
  | escape
  | code (left value : Nat)

/-- The characters up to the closing double quote and what follows it. -/
def double : Progress → Source → Option (List Char × Source)
  | _, [] => none
  | .text gap, p :: rest =>
    if atMarker (p :: rest) then none
    else if p.char == '"' then some (gap.chars, rest)
    else if p.char == '\\' then
      (double .escape rest).map fun r => (gap.chars ++ r.1, r.2)
    else if isGap p.char then double (.text (gap.add p.char)) rest
    else (double (.text .nothing) rest).map fun r => (gap.chars ++ p.char :: r.1, r.2)
  | .escape, p :: rest =>
    if isBreak p.char then double (.text (.joined [])) rest
    else match escaped? p.char with
      | some c => (double (.text .nothing) rest).map fun r => (c :: r.1, r.2)
      | none => match escapeWidth? p.char with
        | some (width + 1) => double (.code width 0) rest
        | _ => none
  | .code left value, p :: rest =>
    match digit? 16 p.char with
    | none => none
    | some d =>
      let value := 16 * value + d
      match left with
      | left + 1 => double (.code left value) rest
      | 0 => (double (.text .nothing) rest).map fun r => (codePoint value :: r.1, r.2)
where
  /-- The character of a code; a code that belongs to no character gives the replacement. -/
  codePoint (n : Nat) : Char := if n.isValidChar then Char.ofNat n else '\uFFFD'

end EventDialects.Document
