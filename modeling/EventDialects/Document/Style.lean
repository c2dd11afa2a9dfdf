import EventDialects.Document.Scalar
import EventDialects.Document.Source

/-!
# How a text is written in a document

A text is written plain if it is read back as the same text: it must not have the form of something
else, begin with an indicator, hold one within, or have blanks or line ends at its ends or line ends
anywhere. Otherwise it stands between single quotes, unless it holds a character that cannot stand
in a document as it is, or a blank beside a line end; then it stands between double quotes.
-/

namespace EventDialects.Document

/-- The ways to write a text. -/
inductive Style
  | plain
  | single
  | double
  deriving DecidableEq, Repr

/-- Whether a character is written as it is: a printable one of ASCII, or a newline. -/
def isOrdinary (c : Char) : Bool := c == '\n' || (' ' ≤ c && c ≤ '~')

/-- The characters that cannot begin a plain text. -/
def isLeadingIndicator (c : Char) : Bool :=
  ['#', ',', '[', ']', '{', '}', '&', '*', '!', '|', '>', '\'', '"', '%', '@', '\u0060'].contains c

def gapNext : List Char → Bool
  | [] => true
  | c :: _ => isGap c

/-- Whether a text begins with a character that makes it something else. -/
def beginsAsIndicator : List Char → Bool
  | [] => false
  | c :: s => isLeadingIndicator c || ((c == '?' || c == '-') && gapNext s)

def beginsAsMarker (s : List Char) : Bool :=
  ['-', '-', '-'].isPrefixOf s || ['.', '.', '.'].isPrefixOf s

def holdsIndicator : List Char → Bool
  | [] => false
  | c :: s =>
    (c == ':' && gapNext s) || (isGap c && s.head? == some '#') || holdsIndicator s

/-- Whether a text holds a character of one class directly before one of another. -/
def holdsPair (p q : Char → Bool) : List Char → Bool
  | c :: d :: s => (p c && q d) || holdsPair p q (d :: s)
  | _ => false

def isSpace (c : Char) : Bool := c == ' '

/-- Whether a text has a space beside a line end, or a character that cannot stand as it is. -/
def needsEscapes (s : List Char) : Bool :=
  !s.all isOrdinary || holdsPair isSpace isBreak s || holdsPair isBreak isSpace s

/-- Whether the layout of a text lets it stand plain. -/
def fitsPlain (s : List Char) : Bool :=
  !needsEscapes s && !s.any isBreak && !(s.head?.any isSpace) && !(s.getLast?.any isSpace)
    && !beginsAsMarker s && !beginsAsIndicator s && !holdsIndicator s

/-- The way in which a text is written. -/
def style (s : List Char) : Style :=
  if readsAsText s && fitsPlain s then .plain
  else if needsEscapes s then .double
  else .single

example : style "a b".toList = .plain := by decide +kernel
example : style "yes".toList = .single := by decide +kernel
example : style "a: b".toList = .single := by decide +kernel
example : style "tab\there".toList = .double := by decide +kernel

end EventDialects.Document
