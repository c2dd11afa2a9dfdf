import EventDialects.Document.ScalarReader
import EventDialects.Value.Key

/-!
# Reading a document

A document is a value in block style, where lists and mappings are laid out in lines, or in flow
style, where they stand between brackets. In block style an entry takes in what stands to the right
of it. An entry without a value has null; of a repeated key the first place and the last value
count; an empty document is null.

The functions that read one node after another take the number of steps that they may make. Every
few steps read a character, so `stepsFor` never runs out.
-/

namespace EventDialects.Document

/-! ### Keys -/

/-- The greatest length of a key that nothing marks as one. -/
def keyLimit : Nat := 1024

/-- Whether a colon can belong to the key that begins at a place: it stands on the same line and not
too far away. -/
def isColonOf (start colon : Place) : Bool :=
  colon.char == ':' && colon.line == start.line && decide (colon.column ≤ start.column + keyLimit)

/-- What follows the colon of a key in block style, if there is a colon. -/
def afterKey? (start : Place) (s : Source) : Option (Place × Source) :=
  match s.dropWhile (·.char == ' ') with
  | [] => none
  | p :: rest => if isColonOf start p && endsWord rest then some (p, rest) else none

def afterFlowKey? (start : Place) (s : Source) : Option Source :=
  match skip s with
  | [] => none
  | p :: rest => if isColonOf start p then some rest else none

/-- Puts an entry into a mapping. Not every value can be a key. -/
def addPair? (es : Entries) (key v : Value) : Option Entries :=
  if key.hashable then some (es.insert key v) else none

/-! ### Nodes -/

mutual

/-- A scalar, or a list or a mapping between brackets. Plain scalars go on in lines that are
indented by `indent`. -/
def flowNode (inFlow : Bool) (indent : Nat) : Nat → Source → Option (Value × Source)
  | 0, _ => none
  | _, [] => none
  | steps + 1, p :: rest =>
    if p.char == '[' then flowItems [] steps rest
    else if p.char == '{' then flowPairs [] steps rest
    else if p.char == '"' then
      (double (.text .nothing) rest).map fun r => (.str (String.ofList r.1), r.2)
    else if p.char == '\'' then
      (single .nothing rest).map fun r => (.str (String.ofList r.1), r.2)
    else if startsPlain inFlow (p :: rest) then some (plain inFlow indent (p :: rest))
    else none
termination_by structural steps => steps

def flowItems (done : List Value) : Nat → Source → Option (Value × Source)
  | 0, _ => none
  | steps + 1, s => match skip s with
    | [] => none
    | p :: rest =>
      if p.char == ']' then some (.list done.reverse, rest)
      else do
        let (v, after) ← flowItem steps (p :: rest)
        match skip after with
        | [] => none
        | q :: rest' =>
          if q.char == ',' then flowItems (v :: done) steps rest'
          else if q.char == ']' then some (.list (v :: done).reverse, rest')
          else none
termination_by structural steps => steps

/-- An item of a list between brackets. One with a colon is a mapping with one entry. -/
def flowItem : Nat → Source → Option (Value × Source)
  | 0, _ => none
  | _, [] => none
  | steps + 1, p :: rest => do
    let (key, v?, after) ← flowPair steps p rest
    match v? with
    | none => some (key, after)
    | some v => some (.map (← addPair? [] key v), after)
termination_by structural steps => steps

/-- A key between brackets, the value after its colon if it has one, and what follows. -/
def flowPair : Nat → Place → Source → Option (Value × Option Value × Source)
  | 0, _, _ => none
  | steps + 1, p, rest =>
    if p.char == '?' then do
      let (key, after) ← flowValue steps rest
      match skip after with
      | [] => none
      | q :: rest' =>
        if q.char == ':' then do
          let (v, after') ← flowValue steps rest'
          some (key, some v, after')
        else some (key, some .null, q :: rest')
    else do
      let (key, after) ← flowNode true 0 steps (p :: rest)
      match afterFlowKey? p after with
      | none => some (key, none, after)
      | some rest' => do
        let (v, after') ← flowValue steps rest'
        some (key, some v, after')
termination_by structural steps => steps

def flowValue : Nat → Source → Option (Value × Source)
  | 0, _ => none
  | steps + 1, s => match skip s with
    | [] => none
    | p :: rest =>
      if p.char == ',' || p.char == ']' || p.char == '}' || p.char == ':' then
        some (.null, p :: rest)
      else flowNode true 0 steps (p :: rest)
termination_by structural steps => steps

def flowPairs (done : Entries) : Nat → Source → Option (Value × Source)
  | 0, _ => none
  | steps + 1, s => match skip s with
    | [] => none
    | p :: rest =>
      if p.char == '}' then some (.map done, rest)
      else do
        let (key, v?, after) ← flowPair steps p rest
        let es ← addPair? done key (v?.getD .null)
        match skip after with
        | [] => none
        | q :: rest' =>
          if q.char == ',' then flowPairs es steps rest'
          else if q.char == '}' then some (.map es, rest')
          else none
termination_by structural steps => steps

end

mutual

/-- A node of which nothing stands to the left of column `indent`; `allowed` says whether a list or
a mapping in block style may begin here. -/
def blockNode (indent : Nat) (allowed : Bool) : Nat → Source → Option (Value × Source)
  | 0, _ => none
  | _, [] => some (.null, [])
  | steps + 1, p :: rest =>
    if p.column < indent || atMarker (p :: rest) then some (.null, p :: rest)
    else if allowed && atIndicator '-' (p :: rest) then
      blockItems p.column [] steps (p :: rest)
    else if allowed && atIndicator '?' (p :: rest) then
      blockPairs p.column [] steps (p :: rest)
    else do
      let (key, after) ← flowNode false indent steps (p :: rest)
      match if allowed then afterKey? p after else none with
      | none => some (key, after)
      | some (colon, rest') => do
        let (v, after') ← pairValue p.column colon steps rest'
        blockPairs p.column (← addPair? [] key v) steps (skip after')
termination_by structural steps => steps

def blockItems (column : Nat) (done : List Value) : Nat → Source → Option (Value × Source)
  | 0, _ => none
  | _, [] => some (.list done.reverse, [])
  | steps + 1, p :: rest =>
    if p.column == column && atIndicator '-' (p :: rest) && !atMarker (p :: rest) then do
      let (v, after) ← blockNode (column + 1) true steps (skip rest)
      blockItems column (v :: done) steps (skip after)
    else some (.list done.reverse, p :: rest)
termination_by structural steps => steps

/-- The value of an entry whose key stands in column `column`. A list may stand in that column
too. -/
def entryNode (column : Nat) : Nat → Source → Option (Value × Source)
  | 0, _ => none
  | steps + 1, s => match skip s with
    | [] => some (.null, [])
    | p :: rest =>
      if p.column == column && atIndicator '-' (p :: rest) && !atMarker (p :: rest) then
        blockItems column [] steps (p :: rest)
      else blockNode (column + 1) true steps (p :: rest)
termination_by structural steps => steps

/-- The value after the colon of a key in column `column`. On the colon's own line no list and no
mapping in block style can begin. -/
def pairValue (column : Nat) (colon : Place) : Nat → Source → Option (Value × Source)
  | 0, _ => none
  | steps + 1, s => match skip s with
    | [] => some (.null, [])
    | p :: rest =>
      if p.line == colon.line then flowNode false (column + 1) steps (p :: rest)
      else entryNode column steps (p :: rest)
termination_by structural steps => steps

/-- The entries of a mapping in column `column`, some of them having been read. -/
def blockPairs (column : Nat) (done : Entries) : Nat → Source → Option (Value × Source)
  | 0, _ => none
  | _, [] => some (.map done, [])
  | steps + 1, p :: rest =>
    if p.column != column || atMarker (p :: rest) then some (.map done, p :: rest)
    else if atIndicator '?' (p :: rest) then do
      let (key, after) ← entryNode column steps rest
      match skip after with
      | [] => some (.map (← addPair? done key .null), [])
      | q :: rest' =>
        if q.column == column && atIndicator ':' (q :: rest') then do
          let (v, after') ← entryNode column steps rest'
          blockPairs column (← addPair? done key v) steps (skip after')
        else blockPairs column (← addPair? done key .null) steps (q :: rest')
    else do
      let (key, after) ← flowNode false (column + 1) steps (p :: rest)
      let (colon, rest') ← afterKey? p after
      let (v, after') ← pairValue column colon steps rest'
      blockPairs column (← addPair? done key v) steps (skip after')
termination_by structural steps => steps

end

/-! ### Documents -/

/-- Enough steps for a text of a given length. -/
def stepsFor (n : Nat) : Nat := 8 * n + 16

def isAdmitted (c : Char) : Bool :=
  let n := c.toNat
  n == 9 || n == 10 || n == 13 || (0x20 ≤ n && n ≤ 0x7E) || n == 0x85
    || (0xA0 ≤ n && n ≤ 0xFFFD) || 0x10000 ≤ n

/-- Makes a newline of every line end that has a carriage return in it. -/
def unifyLines : List Char → List Char
  | '\r' :: '\n' :: s => '\n' :: unifyLines s
  | '\r' :: s => '\n' :: unifyLines s
  | c :: s => c :: unifyLines s
  | [] => []

/-- The root of a document, after the mark that it may begin with. -/
def rootNode (steps : Nat) (s : Source) : Option (Value × Source) :=
  match s with
  | a :: _ :: _ :: rest =>
    if a.char == '-' && atMarker s then
      let s' := skip rest
      blockNode 0 (s'.head?.any (·.line != a.line)) steps s'
    else blockNode 0 true steps s
  | _ => blockNode 0 true steps s

/-- Whether nothing follows a document but the mark of its end. -/
def isOver (s : Source) : Bool :=
  match s with
  | [] => true
  | a :: _ :: _ :: rest => a.char == '.' && atMarker s && (skip rest).isEmpty
  | _ => false

/-- The value of a text, if it is a document. -/
def read? (text : List Char) : Option Value := do
  let s := unifyLines text
  let s := if s.head? == some byteOrderMark then s.drop 1 else s
  if !s.all isAdmitted then none
  let (v, rest) ← rootNode (stepsFor s.length) (skip (places s))
  if isOver (skip rest) then some v else none

/-- The value of a text; a text that is no document is refused. -/
def read (text : String) : Attempt Value :=
  match read? text.toList with
  | some v => .ok v
  | none => .error .malformed

end EventDialects.Document
