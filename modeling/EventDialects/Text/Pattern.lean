/-!
# Patterns of text

A pattern describes a set of texts: one character of a class, one text after another, one or the
other, or any number of them. `Pattern.after c` describes what may follow the character `c` in the
texts of a pattern that begin with it, so that a text is checked one character at a time.
-/

namespace EventDialects.Text

/-- A set of texts. -/
inductive Pattern
  /-- No text. -/
  | never
  /-- The empty text. -/
  | empty
  /-- One character of a class. -/
  | one (p : Char → Bool)
  /-- A text of the first pattern followed by one of the second. -/
  | andThen (p q : Pattern)
  /-- A text of either pattern. -/
  | either (p q : Pattern)
  /-- Any number of texts of a pattern, one after the other. -/
  | many (p : Pattern)

namespace Pattern

def acceptsEmpty : Pattern → Bool
  | never => false
  | empty => true
  | one _ => false
  | andThen p q => p.acceptsEmpty && q.acceptsEmpty
  | either p q => p.acceptsEmpty || q.acceptsEmpty
  | many _ => true

/-- One pattern after another, shortened where one of them is trivial. -/
def join : Pattern → Pattern → Pattern
  | never, _ => never
  | empty, q => q
  | p, q => andThen p q

/-- The choice of two patterns, shortened where one of them is trivial. -/
def choose : Pattern → Pattern → Pattern
  | never, q => q
  | p, never => p
  | p, q => either p q

/-- What may follow a character in the texts that begin with it. -/
def after (c : Char) : Pattern → Pattern
  | never => never
  | empty => never
  | one p => if p c then empty else never
  | andThen p q =>
    let first := join (p.after c) q
    if p.acceptsEmpty then choose first (q.after c) else first
  | either p q => choose (p.after c) (q.after c)
  | many p => join (p.after c) (many p)

/-- Whether a pattern describes a text. -/
def fits (p : Pattern) : List Char → Bool
  | [] => p.acceptsEmpty
  | c :: s => (p.after c).fits s

def char (c : Char) : Pattern := one (· == c)

def anyOf (cs : List Char) : Pattern := one (cs.contains ·)

def text : List Char → Pattern
  | [] => empty
  | c :: s => andThen (char c) (text s)

def all : List Pattern → Pattern
  | [] => empty
  | [p] => p
  | p :: ps => andThen p (all ps)

def oneOf : List Pattern → Pattern
  | [] => never
  | [p] => p
  | p :: ps => either p (oneOf ps)

def optional (p : Pattern) : Pattern := either p empty

def some (p : Pattern) : Pattern := andThen p (many p)

example : (some (anyOf ['a', 'b'])).fits "abba".toList = true := by decide +kernel
example : (all [char 'x', optional (char 'y')]).fits "xyy".toList = false := by decide +kernel

end Pattern

end EventDialects.Text
