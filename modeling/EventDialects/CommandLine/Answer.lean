import EventDialects.CommandLine.Invocation
import EventDialects.Document.Block
import EventDialects.Document.Json
import EventDialects.Report
import EventDialects.Shelf

/-!
# Answers of the command line

Every invocation gets a text and an exit status. A command prints as far as it comes. An error of
the taxonomy is then named in a line; any other failure is announced as one that nobody expected.
The status of a check says whether all registrations are compatible.
-/

namespace EventDialects.CommandLine

open Text

/-- What is printed, and the exit status. -/
structure Answer where
  text : String
  status : Nat
  deriving DecidableEq, Repr

/-- What a command prints before it ends, and how it ends. -/
structure Transcript where
  text : String
  outcome : Attempt Nat

def textOfLines (ls : List String) : String := String.join (ls.map (· ++ "\n"))

def usage : String :=
  textOfLines
    ["Usage: python check_events.py <command> [arguments] [options]",
      "",
      "Commands:",
      "  revisions                          - List supported revisions",
      "  events <revision>                  - List a revision's events and argument slots",
      "  decode <revision> <code> <ops...>  - Decode one registration (code/operands decimal or "
        ++ "hex with 0x)",
      "  check <registrations.yaml>         - Decode and re-encode every registration in a file",
      "",
      "Options:",
      "  --dialects <dir>                   - Load dialect definitions from another directory",
      "  --format <json|yaml>               - Output format for decode (default: yaml)",
      "",
      "Examples:",
      "  python check_events.py events FE14",
      "  python check_events.py decode FE14 0x10 1 3 0",
      "  python check_events.py check fe14_registrations.yaml"]

def failureText : Failure → String
  | .refused r => textOfLines ["Error: " ++ r.message]
  | e => textOfLines ["", "Error: " ++ e.message, "", "Full traceback:"]

/-- The answer of a command that ran to its end or failed. -/
def Transcript.answer (t : Transcript) : Answer :=
  match t.outcome with
  | .ok status => ⟨t.text, status⟩
  | .error e => ⟨t.text ++ failureText e, 1⟩

/-- The transcript of something that prints only at its end. -/
def Transcript.ofAttempt (a : Attempt String) : Transcript :=
  match a with
  | .ok text => ⟨text, .ok 0⟩
  | .error e => ⟨"", .error e⟩

def Transcript.after (text : String) (t : Transcript) : Transcript := ⟨text ++ t.text, t.outcome⟩

def printEach {α : Type} (line : α → Attempt String) : List α → Transcript
  | [] => ⟨"", .ok 0⟩
  | x :: xs => match line x with
    | .ok text => (printEach line xs).after (textOfLines [text])
    | .error e => ⟨"", .error e⟩

/-- A value in a column of a listing. Only a text fits one. -/
def column (width : Nat) (v : Value) : Attempt String :=
  match v with
  | .str s => .ok (padRight width s)
  | .bool _ | .int _ | .float _ => misused (.badLayout v.typeName)
  | v => misused (.noLayout v.typeName)

def titleOf (t : Table) : Value := if t.title.truthy then t.title else .str ""

def revisionLine (t : Table) : Attempt String := do
  return padRight 8 t.revision.text ++ " " ++ (← column 28 (titleOf t)) ++ " "
    ++ (← t.operandBits.print) ++ "-bit  " ++ padLeft 3 ' ' (decimal t.schemas.length) ++ " events"

def eventLine (s : Schema) : Attempt String := do
  let slots ← s.slots.mapM Slot.print
  return "  " ++ codeText s.code ++ "  " ++ (← column 12 s.name) ++ " \x7b "
    ++ ", ".intercalate slots ++ " \x7d"

def eventsHeading (t : Table) : Attempt String := do
  return t.revision.text ++ ": " ++ (← (titleOf t).print)

def revisions (g : Registry) : Transcript := printEach revisionLine g.tables

def events (g : Registry) (revision : String) : Transcript :=
  match do
    let t ← g.get (.str revision)
    return (t, ← eventsHeading t) with
  | .error e => ⟨"", .error e⟩
  | .ok (t, heading) => (printEach eventLine t.schemas).after (textOfLines [heading])

def recordText (format : RecordFormat) (r : Record) : Attempt String := do
  let es ← r.toDocument
  if !(Value.map es).showable then misused .tooLong
  match format with
  | .yaml => return Document.Block.text es
  | .json => return textOfLines [Document.Json.text es]

/-- The numbers of a code and of operands. -/
def readNumbers (code : String) (operands : List String) : Attempt (Int × List Int) := do
  let n ← numberOf (.str code)
  let ns ← numbersOf (Value.ofTexts operands)
  return (n, ns)

/-- Decodes one registration. A number that cannot be read is answered with the usage. -/
def decode (g : Registry) (format : RecordFormat) (revision code : String)
    (operands : List String) : Transcript :=
  match readNumbers code operands with
  | .error (.refused (.input fault)) =>
    ⟨textOfLines ["Error: " ++ fault.message, ""] ++ usage, .ok 1⟩
  | .error e => ⟨"", .error e⟩
  | .ok (n, ns) => .ofAttempt do
    recordText format (← g.decode (.str revision) (.int n) (.list (ns.map .int)))

/-- The registrations document at a path; one that does not count is taken for an empty mapping. -/
def registrationsAt (shelf : Shelf) (path : String) : Attempt Value := do
  let v ← shelf.document path
  return if v.truthy then v else .map []

def revisionNamed (path : String) (document : Value) : Attempt String := do
  if !(← document.holds "revision") then refuse (.input (.missingRevision path))
  ((← document.subscript? "revision").getD .null).print

def check (shelf : Shelf) (g : Registry) (path : String) : Transcript :=
  match do
    let document ← registrationsAt shelf path
    return (document, ← revisionNamed path document) with
  | .error e => ⟨"", .error e⟩
  | .ok (document, revision) =>
    let report := do
      let r ← g.report (.str revision) (← Registration.ofDocument document)
      return (r, ← r.text)
    let t : Transcript := match report with
      | .error e => ⟨"", .error e⟩
      | .ok (r, text) => ⟨textOfLines [text], .ok (if r.failures = 0 then 0 else 1)⟩
    t.after (textOfLines
      ["Testing registrations at '" ++ path ++ "' for game '" ++ revision ++ "'"])

def perform (shelf : Shelf) (g : Registry) (format : RecordFormat) : Command → Transcript
  | .revisions => revisions g
  | .events revision => events g revision
  | .decode revision code operands => decode g format revision code operands
  | .check path => check shelf g path

/-- The answer to an invocation. The dialects are loaded before the command is looked at. -/
def answer (shelf : Shelf) (i : Invocation) : Answer :=
  match i.format? with
  | none => ⟨usage, 1⟩
  | some format =>
    if i.words.isEmpty then ⟨usage, 1⟩
    else match shelf.registry i.dialects with
      | .error e => Transcript.answer ⟨"", .error e⟩
      | .ok g => match Command.ofWords? i.words with
        | none => ⟨usage, 1⟩
        | some command => (perform shelf g format command).answer

/-- The answer to the arguments of a command line. -/
def answerTo (shelf : Shelf) (arguments : List String) : Answer :=
  answer shelf (.ofArguments arguments)

end EventDialects.CommandLine
