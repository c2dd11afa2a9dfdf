/-!
# Invocations

The command line takes words and two options, each with a value. Options may stand anywhere; of a
repeated one the last value counts. An option without a value is a word like any other.

* `ofArguments_dialects`, `ofArguments_format`: an option in front counts unless it is repeated.
-/

namespace EventDialects

/-- The words of a command line and the values of its options. -/
structure Invocation where
  dialects : Option String
  format : Option String
  words : List String
  deriving DecidableEq, Repr

namespace Invocation

def dialectsOption : String := "--dialects"

def formatOption : String := "--format"

def ofArguments : List String → Invocation
  | [] => ⟨none, none, []⟩
  | [a] => ⟨none, none, [a]⟩
  | a :: b :: rest =>
    if a = dialectsOption then
      let i := ofArguments rest
      ⟨i.dialects.or (some b), i.format, i.words⟩
    else if a = formatOption then
      let i := ofArguments rest
      ⟨i.dialects, i.format.or (some b), i.words⟩
    else
      let i := ofArguments (b :: rest)
      ⟨i.dialects, i.format, a :: i.words⟩

theorem ofArguments_dialects (d : String) (rest : List String) :
    ofArguments (dialectsOption :: d :: rest)
      = ⟨(ofArguments rest).dialects.or (some d), (ofArguments rest).format,
        (ofArguments rest).words⟩ := by
  simp [ofArguments]

theorem ofArguments_format (f : String) (rest : List String) :
    ofArguments (formatOption :: f :: rest)
      = ⟨(ofArguments rest).dialects, (ofArguments rest).format.or (some f),
        (ofArguments rest).words⟩ := by
  simp [ofArguments, formatOption, dialectsOption]

end Invocation

/-- The formats of decoded records. -/
inductive RecordFormat
  | yaml
  | json
  deriving DecidableEq, Repr

def RecordFormat.ofName? (name : String) : Option RecordFormat :=
  if name = "yaml" then some .yaml else if name = "json" then some .json else none

/-- The format that an invocation asks for; without a word about it, YAML. -/
def Invocation.format? (i : Invocation) : Option RecordFormat :=
  RecordFormat.ofName? (i.format.getD "yaml")

/-- What the command line can do. -/
inductive Command
  | revisions
  | events (revision : String)
  | decode (revision code : String) (operands : List String)
  | check (path : String)
  deriving DecidableEq, Repr

def Command.ofWords? : List String → Option Command
  | [] => none
  | name :: rest =>
    if name = "revisions" then some .revisions
    else if name = "events" then
      match rest with
      | [revision] => some (.events revision)
      | _ => none
    else if name = "decode" then
      match rest with
      | revision :: code :: operands => some (.decode revision code operands)
      | _ => none
    else if name = "check" then
      match rest with
      | [path] => some (.check path)
      | _ => none
    else none

end EventDialects
