/-!
# The text of a document, by places

The layout of a document means something: what belongs to an entry stands to the right of it. So a
document is read from its characters together with their places, the line and the column of each.
Here are the characters with their places, what lies between two parts of a document, and the way
in which blanks and line ends inside a scalar are folded.
-/

namespace EventDialects.Document

def isBreak (c : Char) : Bool :=
  c == '\n' || c == '\u0085' || c == '\u2028' || c == '\u2029'

/-- A line end as part of a scalar: the separators of lines and paragraphs stay what they are. -/
def breakChar (c : Char) : Char :=
  if c == '\u2028' || c == '\u2029' then c else '\n'

/-- The mark that a text may begin with to show its encoding. It takes no column. -/
def byteOrderMark : Char := '\uFEFF'

/-- A character at its place. -/
structure Place where
  char : Char
  line : Nat
  column : Nat
  deriving DecidableEq, Repr

/-- Characters at their places, as far as they are not read yet. -/
abbrev Source := List Place

/-- The characters of a text at their places, the first of them at a given one. -/
def placesFrom (line column : Nat) : List Char → Source
  | [] => []
  | c :: s =>
    ⟨c, line, column⟩ ::
      if isBreak c then placesFrom (line + 1) 0 s
      else placesFrom line (if c == byteOrderMark then column else column + 1) s

def places (s : List Char) : Source := placesFrom 0 0 s

def isGap (c : Char) : Bool := c == ' ' || c == '\t' || isBreak c

def endsWord : Source → Bool
  | [] => true
  | p :: _ => isGap p.char

/-- Whether a mark between documents stands here: three dashes or points at the start of a line. -/
def atMarker : Source → Bool
  | a :: b :: c :: rest =>
    a.column == 0 && (a.char == '-' || a.char == '.') && b.char == a.char && c.char == a.char
      && endsWord rest
  | _ => false

/-- Whether an indicator stands here that is one only before a gap. -/
def atIndicator (c : Char) : Source → Bool
  | p :: rest => p.char == c && endsWord rest
  | [] => false

/-- Skips spaces, line ends and comments; `comment` says whether a comment has begun. -/
def skipFrom : Bool → Source → Source
  | _, [] => []
  | comment, p :: s =>
    if isBreak p.char then skipFrom false s
    else if comment then skipFrom true s
    else if p.char == ' ' then skipFrom false s
    else if p.char == '#' then skipFrom true s
    else p :: s

/-- What follows the spaces, line ends and comments at the front. -/
def skip (s : Source) : Source := skipFrom false s

/-- What lies between two words of a scalar. -/
inductive Gap
  /-- Blanks on one line. -/
  | blanks (cs : List Char)
  /-- A line end and the line ends after it. -/
  | folded (first : Char) (more : List Char)
  /-- The line ends after one that is escaped. -/
  | joined (more : List Char)
  deriving DecidableEq, Repr

namespace Gap

def nothing : Gap := blanks []

/-- A gap with one more blank or line end. Blanks at the start of a line do not count, and a line
end takes the blanks before it away. -/
def add (c : Char) : Gap → Gap
  | blanks cs => if isBreak c then folded (breakChar c) [] else blanks (cs ++ [c])
  | folded first more =>
    if isBreak c then folded first (more ++ [breakChar c]) else folded first more
  | joined more => if isBreak c then joined (more ++ [breakChar c]) else joined more

/-- The characters of a scalar that a gap stands for. A single line end is a space, and of several
the first does not count. -/
def chars : Gap → List Char
  | blanks cs => cs
  | folded first more =>
    if first == '\n' then (if more.isEmpty then [' '] else more) else first :: more
  | joined more => more

end Gap

end EventDialects.Document
