import EventDialects.Binary64.Text
import EventDialects.Text.Quoted
import EventDialects.Value.Basic

/-!
# The text of a value

A message shows a value in one of two forms. `shown` is the exact form, in which text stands between
quotes; it is used inside every container. `text` is the plain form, which leaves a text, a
revision and a variant without quotes or brackets. A value has these forms only if every integer
that they show can be written: `showable` and `printable` say so.
-/

namespace EventDialects

open Text

def Family.shown (f : Family) (raw : Int) : String :=
  match f.label? raw with
  | some label => "<" ++ f.name ++ "." ++ label ++ ": " ++ decimal raw ++ ">"
  | none => "<" ++ f.name ++ ": " ++ decimal raw ++ ">"

def Family.text (f : Family) (raw : Int) : String :=
  match f.label? raw with
  | some label => f.name ++ "." ++ label
  | none => f.name ++ "(" ++ decimal raw ++ ")"

def Revision.shown (r : Revision) : String :=
  "Revision(title=" ++ quoted r.title ++ ", variant=" ++ quoted r.variant ++ ")"

namespace Value

/-- Items between brackets, with commas between them. -/
def bracketed (opening closing : String) (items : List String) : String :=
  opening ++ ", ".intercalate items ++ closing

def boolText (b : Bool) : String := if b then "True" else "False"

mutual

/-- The exact form of a value. -/
def shown : Value → String
  | .null => "None"
  | .bool b => boolText b
  | .int n => decimal n
  | .float x => x.text
  | .str s => quoted s
  | .list xs => bracketed "[" "]" (shownItems xs)
  | .tuple xs => match xs with
    | [] => "()"
    | [x] => "(" ++ shown x ++ ",)"
    | x :: y :: rest => bracketed "(" ")" (shown x :: shown y :: shownItems rest)
  | .set xs => match xs with
    | [] => "set()"
    | x :: rest => bracketed "\x7b" "\x7d" (shown x :: shownItems rest)
  | .frozenset xs => match xs with
    | [] => "frozenset()"
    | x :: rest => bracketed "frozenset(\x7b" "\x7d)" (shown x :: shownItems rest)
  | .map es => bracketed "\x7b" "\x7d" (shownEntries es)
  | .ref kind offset => kind.typeName ++ "(offset=" ++ shown offset ++ ")"
  | .variant family raw => family.shown raw
  | .revision r => r.shown
termination_by structural x => x

def shownItems : List Value → List String
  | [] => []
  | x :: xs => shown x :: shownItems xs
termination_by structural x => x

def shownEntry : Value × Value → String
  | (k, v) => shown k ++ ": " ++ shown v
termination_by structural x => x

def shownEntries : List (Value × Value) → List String
  | [] => []
  | e :: es => shownEntry e :: shownEntries es
termination_by structural x => x

end

/-- The plain form of a value. -/
def text : Value → String
  | .str s => s
  | .variant family raw => family.text raw
  | .revision r => r.text
  | v => v.shown

mutual

/-- Whether the exact form of a value shows only integers that can be written. -/
def showable : Value → Bool
  | .int n => writable n
  | .list xs => allShowable xs
  | .tuple xs => allShowable xs
  | .set xs => allShowable xs
  | .frozenset xs => allShowable xs
  | .map es => entriesShowable es
  | .ref _ offset => showable offset
  | .variant _ raw => writable raw
  | _ => true
termination_by structural x => x

def allShowable : List Value → Bool
  | [] => true
  | x :: xs => showable x && allShowable xs
termination_by structural x => x

def entryShowable : Value × Value → Bool
  | (k, v) => showable k && showable v
termination_by structural x => x

def entriesShowable : List (Value × Value) → Bool
  | [] => true
  | e :: es => entryShowable e && entriesShowable es
termination_by structural x => x

end

/-- Whether the plain form of a value shows only integers that can be written. -/
def printable : Value → Bool
  | .variant family raw => (family.label? raw).isSome || writable raw
  | v => v.showable

theorem not_printable_beyondPrint : (Value.int beyondPrint).printable = false :=
  Bool.eq_false_iff.mpr not_writable_beyondPrint

theorem allShowable_iff {xs : List Value} : allShowable xs ↔ ∀ x ∈ xs, x.showable := by
  induction xs with
  | nil => simp [allShowable]
  | cons x xs ih => simp [allShowable, ih]

theorem entriesShowable_iff {es : List (Value × Value)} :
    entriesShowable es ↔ ∀ e ∈ es, e.1.showable ∧ e.2.showable := by
  induction es with
  | nil => simp [entriesShowable]
  | cons e es ih =>
    obtain ⟨k, v⟩ := e
    simp [entriesShowable, entryShowable, ih]

example : (Value.tuple [.int 1]).shown = "(1,)" := by decide +kernel
example : (Value.list [.str "a", .null]).text = "['a', None]" := by decide +kernel
example : (Value.variant Family.battleFlag 96).shown = "<BattleFlag.HIT|CRIT: 96>" := by
  decide +kernel

end Value

/-- The revision that a value names: a revision is itself, and any other value names one by its
text. -/
def Revision.ofValue : Value → Revision
  | .revision r => r
  | v => .ofText v.text

end EventDialects
