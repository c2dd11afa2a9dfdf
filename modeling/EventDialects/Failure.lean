import EventDialects.Misuse
import EventDialects.Value.Text

/-!
# Failures

A `Refusal` is an error of the taxonomy: the library understood what it was asked and says why it
cannot do it. Six of its kinds are reportable, and `Refusal.classify` gives the category under which
a compatibility report counts them. A `Failure` is any way in which an operation can fail: a
refusal, or a mistake that the taxonomy does not cover.

* `classify_eq_ok_iff`: an error is classified exactly if it has a category.
* `Attempt.bind_eq_ok`: what a sequence of two steps gives, if both succeed.
* `Attempt.bind_eq_error`: a sequence fails with the failure of its first step that fails.
-/

namespace EventDialects

open Text

/-- What is wrong with a slot's declaration. -/
inductive SlotFault
  /-- The kind of slot needs a decoder. -/
  | needsDecoder (name : Value) (kind : String)
  /-- A coordinate has two or four fields. -/
  | coordinateFields (name fields : Value)
  /-- Every other slot has one. -/
  | singleField (name : Value) (kind : String)

namespace SlotFault

def printable : SlotFault → Bool
  | .needsDecoder name _ => name.printable
  | .coordinateFields name fields => name.printable && fields.printable
  | .singleField name _ => name.printable

/-- What is to be said about a faulty slot. -/
def statement : SlotFault → String
  | .needsDecoder name kind => "Slot '" ++ name.text ++ "' of kind " ++ kind ++ " needs a decoder"
  | .coordinateFields name fields =>
    "Coordinate slot '" ++ name.text ++ "' must have 2 or 4 fields, not " ++ fields.text
  | .singleField name kind =>
    "Slot '" ++ name.text ++ "' of kind " ++ kind ++ " spans exactly one operand"

/-- The message of a faulty slot. It is a mistake of the same sort if it cannot be printed, so that
the two are reported alike. -/
def message (fault : SlotFault) : String :=
  if fault.printable then fault.statement else Misuse.tooLong.message

end SlotFault

def unknownDecoderMessage (name : Value) : String := "Unknown value decoder: " ++ name.text

/-- What is wrong with a slot's entry in a definition file. -/
inductive SlotEntryFault
  /-- The entry lacks its name or its kind. -/
  | incomplete (entry : Value)
  /-- No slot kind has this name. -/
  | unknownKind (kind : Value)
  /-- No decoder has this name. -/
  | unknownDecoder (name : Value)
  /-- The slot is declared against the rules of its kind. -/
  | illFormed (fault : SlotFault)

namespace SlotEntryFault

def message : SlotEntryFault → String
  | .incomplete entry => "slot needs 'name' and 'kind': " ++ entry.text
  | .unknownKind kind => "unknown slot kind '" ++ kind.text ++ "'"
  | .unknownDecoder name => unknownDecoderMessage name
  | .illFormed fault => fault.message

def printable : SlotEntryFault → Bool
  | .incomplete entry => entry.printable
  | .unknownKind kind => kind.printable
  | .unknownDecoder name => name.printable
  | .illFormed _ => true

end SlotEntryFault

/-- What is wrong with a dialect or equivalence definition. -/
inductive DefinitionFault
  /-- The document names no revision. -/
  | missingRevision (source : String)
  /-- An event's key is no number. -/
  | badCode (source : String) (key : Value)
  /-- An event has no name. -/
  | namelessEvent (source : String) (code : Int)
  /-- A slot of an event is declared wrongly. -/
  | slot (source : String) (event : Value) (fault : SlotEntryFault)
  /-- A table is registered under a revision that is not its own. -/
  | wrongRevision (table asked : Revision)
  /-- The directory of definitions does not exist. -/
  | missingDirectory (path : String)
  /-- An equivalence class has no name. -/
  | namelessClass (source : String)
  /-- A member of a class names no revision. -/
  | memberWithoutRevision (source : String) (className : Value)
  /-- A member of a class does not resolve. -/
  | memberUnresolved (source : String) (className : Value) (reason : String)
  /-- A member of a class refers to a slot that its event lacks. -/
  | memberWithoutSlot (source : String) (className : Value) (revision : Revision)
      (event slot : Value)
  /-- A member belongs to another class already. -/
  | memberTaken (revision : Revision) (code : Int) (className : Value)
  /-- A fault in the words of whoever found it. -/
  | other (message : String)

namespace DefinitionFault

def message : DefinitionFault → String
  | .missingRevision source => source ++ ": missing 'revision'"
  | .badCode source key => source ++ ": bad event code '" ++ key.text ++ "'"
  | .namelessEvent source code => source ++ ": event " ++ codeText code ++ " needs a 'name'"
  | .slot source event fault => source ++ ": " ++ event.text ++ ": " ++ fault.message
  | .wrongRevision table asked =>
    "Cannot register the " ++ table.text ++ " dialect table as " ++ asked.text
  | .missingDirectory path => "Dialect directory not found: " ++ path
  | .namelessClass source => source ++ ": equivalence class needs a 'name'"
  | .memberWithoutRevision source className =>
    source ++ ": " ++ className.text ++ ": member needs a 'revision'"
  | .memberUnresolved source className reason => source ++ ": " ++ className.text ++ ": " ++ reason
  | .memberWithoutSlot source className revision event name =>
    source ++ ": " ++ className.text ++ ": " ++ revision.text ++ " " ++ event.text
      ++ " has no slot '" ++ name.text ++ "'"
  | .memberTaken revision code className =>
    revision.text ++ " code " ++ codeText code ++ " is already in equivalence class '"
      ++ className.text ++ "'"
  | .other message => message

/-- Whether every integer in the message can be written. A code is hexadecimal, which has no
limit. -/
def printable : DefinitionFault → Bool
  | .badCode _ key => key.printable
  | .slot _ event fault => event.printable && fault.printable
  | .memberWithoutRevision _ className | .memberUnresolved _ className _
  | .memberTaken _ _ className => className.printable
  | .memberWithoutSlot _ className _ event name =>
    className.printable && event.printable && name.printable
  | _ => true

end DefinitionFault

/-- What is wrong with a registrations file or a number on the command line. -/
inductive InputFault
  /-- The value writes no number. -/
  | notANumber (value : Value)
  /-- The registrations document names no revision. -/
  | missingRevision (path : String)
  /-- A registration has no code. -/
  | missingCode (source : String)
  /-- A registration has a fault in it. -/
  | registration (source : String) (fault : InputFault)
  /-- A fault in the words of whoever found it. -/
  | other (message : String)

namespace InputFault

def message : InputFault → String
  | .notANumber value => "'" ++ value.text ++ "' is not a number"
  | .missingRevision path => path ++ ": missing 'revision'"
  | .missingCode source => "registration " ++ source ++ ": missing 'code'"
  | .registration source fault => "registration " ++ source ++ ": " ++ fault.message
  | .other message => message

/-- Whether every integer in the message can be written. -/
def printable : InputFault → Bool
  | .notANumber value => value.printable
  | .registration _ fault => printable fault
  | _ => true

end InputFault

/-- An error of the taxonomy. Revisions and names stand in it as they are to be printed. -/
inductive Refusal
  /-- An error of no particular kind. -/
  | general (message : String)
  | definition (fault : DefinitionFault)
  | input (fault : InputFault)
  | duplicateCode (revision : String) (code : Int)
  | duplicateName (revision : String) (name : Value) (code : Int)
  | duplicateRevision (revision : String)
  | unknownRevision (revision : String)
  | unknownEvent (revision : String) (event : Value)
  | arityMismatch (event expected : Value) (actual : Nat)
  | schemaMismatch (event : Value) (expected actual : List String)
  | unknownVariant (decoder : String) (raw : Value)
  | outOfRange (value bits : Value) (signed : Bool)
  | slotDecode (slot : Value) (cause : Refusal)
  | slotEncode (slot : Value) (reason : String)
  /-- An error from outside the library, known by its kind and its text. -/
  | foreign (kind text : String)

/-- The reportable kinds of failure. -/
inductive Category
  | unknownRevision
  | unknownEvent
  | arityMismatch
  | slotDecodeError
  | slotEncodeError
  | schemaMismatch
  deriving DecidableEq, Repr

namespace Category

def name : Category → String
  | .unknownRevision => "unknown_revision"
  | .unknownEvent => "unknown_event"
  | .arityMismatch => "arity_mismatch"
  | .slotDecodeError => "slot_decode_error"
  | .slotEncodeError => "slot_encode_error"
  | .schemaMismatch => "schema_mismatch"

def all : List Category :=
  [.arityMismatch, .schemaMismatch, .slotDecodeError, .slotEncodeError, .unknownEvent,
    .unknownRevision]

def ofName? (s : String) : Option Category := all.find? (·.name == s)

end Category

namespace Refusal

def kindName : Refusal → String
  | .general _ => "CallbackSchemaError"
  | .definition _ => "DialectConfigError"
  | .input _ => "RegistrationInputError"
  | .duplicateCode _ _ => "DuplicateCode"
  | .duplicateName _ _ _ => "DuplicateEventName"
  | .duplicateRevision _ => "DuplicateRevision"
  | .unknownRevision _ => "UnknownRevision"
  | .unknownEvent _ _ => "UnknownEvent"
  | .arityMismatch _ _ _ => "ArityMismatch"
  | .schemaMismatch _ _ _ => "SchemaMismatch"
  | .unknownVariant _ _ => "UnknownVariant"
  | .outOfRange _ _ _ => "OperandOutOfRange"
  | .slotDecode _ _ => "SlotDecodeError"
  | .slotEncode _ _ => "SlotEncodeError"
  | .foreign kind _ => kind

/-- How an event that was not found is called: a code or a name. -/
def eventLabel (event : Value) : String :=
  match event.integer? with
  | some code => "code " ++ codeText code
  | none => "name '" ++ event.text ++ "'"

def wordText (raw : Value) : String := "0x" ++ hex (raw.integer?.getD 0 % 0x100000000)

/-- What stands before the message of what went wrong in a slot. -/
@[irreducible] def slotLead (slot : Value) : String := "slot '" ++ slot.text ++ "': "

/-- The message of an error that is not caused by another; of one that is, what it adds. -/
@[irreducible] def ownMessage : Refusal → String
  | .general message => message
  | .definition fault => fault.message
  | .input fault => fault.message
  | .duplicateCode revision code =>
    revision ++ ": event code " ++ codeText code ++ " is already registered"
  | .duplicateName revision name code =>
    revision ++ ": event name '" ++ name.text ++ "' is already bound to code " ++ codeText code
  | .duplicateRevision revision => "Dialect for revision " ++ revision ++ " is already registered"
  | .unknownRevision revision => "Unknown revision: " ++ revision
  | .unknownEvent revision event => revision ++ ": no event with " ++ eventLabel event
  | .arityMismatch event expected actual =>
    event.text ++ ": expected " ++ expected.text ++ " operands but actual count is "
      ++ decimal actual
  | .schemaMismatch event expected actual =>
    event.text ++ ": schema has slots (" ++ ", ".intercalate expected ++ ") but record has ("
      ++ ", ".intercalate actual ++ ") (was the record resolved against the target revision?)"
  | .unknownVariant decoder raw =>
    decoder ++ ": no variant for raw value " ++ raw.text ++ " (" ++ wordText raw ++ ")"
  | .outOfRange value bits signed =>
    "value " ++ value.text ++ " does not fit a " ++ bits.text ++ "-bit "
      ++ (if signed then "signed" else "unsigned") ++ " operand"
  | .slotDecode slot _ => slotLead slot
  | .slotEncode slot reason => slotLead slot ++ reason
  | .foreign _ text => text

def message : Refusal → String
  | .slotDecode slot cause => slotLead slot ++ message cause
  | r => r.ownMessage

def category? : Refusal → Option Category
  | .unknownRevision _ => some .unknownRevision
  | .unknownEvent _ _ => some .unknownEvent
  | .arityMismatch _ _ _ => some .arityMismatch
  | .slotDecode _ _ => some .slotDecodeError
  | .slotEncode _ _ => some .slotEncodeError
  | .schemaMismatch _ _ _ => some .schemaMismatch
  | _ => none

/-- Whether every integer in the message can be written, so that the error can be raised. Codes are
hexadecimal, which has no limit, and numbers of operands are small. -/
def printable : Refusal → Bool
  | .definition fault => fault.printable
  | .input fault => fault.printable
  | .duplicateName _ name _ => name.printable
  | .unknownEvent _ event => event.integer?.isSome || event.printable
  | .arityMismatch event _ _ | .schemaMismatch event _ _ => event.printable
  | .unknownVariant _ raw => raw.printable
  | .outOfRange value bits _ => value.printable && bits.printable
  | .slotDecode slot cause => slot.printable && printable cause
  | .slotEncode slot _ => slot.printable
  | _ => true

end Refusal

/-- A way in which an operation fails. -/
inductive Failure
  | refused (refusal : Refusal)
  | misuse (misuse : Misuse)
  /-- A slot is declared against the rules of its kind. -/
  | slot (fault : SlotFault)
  /-- A table that is sealed takes no more events. -/
  | sealedTable (revision : Revision)
  /-- No value decoder has this name. -/
  | unknownDecoder (name : Value)
  /-- A record has no slot with this name. -/
  | noSuchSlot (event slot : Value)
  /-- The error is outside the reportable categories. -/
  | notReportable (refusal : Refusal)
  /-- There is no file at this path. -/
  | missingFile (path : String)
  /-- A directory stands where a file is needed. -/
  | isDirectory (path : String)
  /-- A file stands where a directory is needed. -/
  | notDirectory (path : String)
  /-- The text of a document cannot be read. -/
  | malformed

/-- The result of an operation that may fail. -/
abbrev Attempt (α : Type) := Except Failure α

theorem Attempt.bind_eq_ok {α β : Type} {x : Attempt α} {f : α → Attempt β} {b : β} :
    (x >>= f) = .ok b ↔ ∃ a, x = .ok a ∧ f a = .ok b := by
  cases x with
  | error e => exact ⟨(nomatch ·), fun ⟨_, h, _⟩ => nomatch h⟩
  | ok a => exact ⟨fun h => ⟨a, rfl, h⟩, fun ⟨_, ha, h⟩ => by cases ha; exact h⟩

theorem Attempt.bind_eq_error {α β : Type} {x : Attempt α} {f : α → Attempt β} {e : Failure} :
    (x >>= f) = .error e ↔ x = .error e ∨ ∃ a, x = .ok a ∧ f a = .error e := by
  cases x with
  | error e' =>
    constructor
    · intro h; cases h; exact .inl rfl
    · rintro (h | ⟨_, h, -⟩) <;> cases h; rfl
  | ok a =>
    constructor
    · intro h; exact .inr ⟨a, rfl, h⟩
    · rintro (h | ⟨_, ha, h⟩)
      · cases h
      · cases ha; exact h

theorem Attempt.eq_ok_of_toOption {α : Type} {x : Attempt α} {a : α} (h : x.toOption = some a) :
    x = .ok a := by
  cases x with
  | error e => cases h
  | ok b => cases h; rfl

theorem Attempt.isSome_toOption_iff {α : Type} {x : Attempt α} :
    x.toOption.isSome ↔ ∃ a, x = .ok a := by
  cases x with
  | error e => exact ⟨(nomatch ·), fun ⟨_, h⟩ => nomatch h⟩
  | ok a => exact ⟨fun _ => ⟨a, rfl⟩, fun _ => rfl⟩

namespace Failure

def message : Failure → String
  | .refused refusal => refusal.message
  | .misuse m => m.message
  | .slot fault => fault.message
  | .sealedTable revision => "Dialect table " ++ revision.text ++ " is sealed"
  | .unknownDecoder name => unknownDecoderMessage name
  | .noSuchSlot event name => event.text ++ " has no slot named '" ++ name.text ++ "'"
  | .notReportable refusal =>
    "Not a reportable schema error: " ++ refusal.kindName ++ ": " ++ refusal.message
  | .missingFile path => "[Errno 2] No such file or directory: " ++ quoted path
  | .isDirectory path => "[Errno 21] Is a directory: " ++ quoted path
  | .notDirectory path => "[Errno 20] Not a directory: " ++ quoted path
  | .malformed => "malformed document"

end Failure

def Failure.printable : Failure → Bool
  | .refused refusal => refusal.printable
  | .unknownDecoder name => name.printable
  | .noSuchSlot event name => event.printable && name.printable
  | _ => true

/-- The failure that raising one ends in. The message is put together first, and where it cannot be
printed, that is the failure. -/
def Failure.raised (f : Failure) : Failure := if f.printable then f else .misuse .tooLong

/-- A refusal as the outcome of an operation. -/
def refuse {α : Type} (refusal : Refusal) : Attempt α := .error (Failure.refused refusal).raised

/-- A misuse as the outcome of an operation. -/
def misused {α : Type} (misuse : Misuse) : Attempt α := .error (.misuse misuse)

theorem Failure.raised_of_printable {f : Failure} (h : f.printable) : f.raised = f := if_pos h

theorem Failure.raised_of_not_printable {f : Failure} (h : f.printable = false) :
    f.raised = .misuse .tooLong := by
  rw [raised, h]
  rfl

theorem refuse_of_printable {α : Type} {r : Refusal} (h : r.printable) :
    (refuse r : Attempt α) = .error (.refused r) :=
  congrArg Except.error (Failure.raised_of_printable (f := .refused r) h)

theorem refuse_of_not_printable {α : Type} {r : Refusal} (h : r.printable = false) :
    (refuse r : Attempt α) = misused .tooLong :=
  congrArg Except.error (Failure.raised_of_not_printable (f := .refused r) h)

namespace Value

/-- The plain form of a value, if it can be printed. -/
def print (v : Value) : Attempt String := if v.printable then .ok v.text else misused .tooLong

/-- The exact form of a value, if it can be printed. -/
def display (v : Value) : Attempt String := if v.showable then .ok v.shown else misused .tooLong

theorem print_eq_error {v : Value} {e : Failure} :
    v.print = .error e ↔ v.printable = false ∧ e = .misuse .tooLong := by
  unfold print
  cases v.printable with
  | true => simp
  | false => simp [misused, eq_comm]

theorem print_eq_ok {v : Value} {s : String} : v.print = .ok s ↔ v.printable ∧ v.text = s := by
  unfold print
  split <;> simp_all [misused]

end Value

namespace Revision

/-- Reads the revision that a value names, which has to be printed for it unless it is one. -/
def read (v : Value) : Attempt Revision :=
  if v.printable then .ok (ofValue v) else misused .tooLong

theorem read_eq_error {v : Value} {e : Failure} :
    read v = .error e ↔ v.printable = false ∧ e = .misuse .tooLong := by
  unfold read
  cases v.printable with
  | true => simp
  | false => simp [misused, eq_comm]

theorem read_eq_ok {v : Value} {r : Revision} : read v = .ok r ↔ v.printable ∧ ofValue v = r := by
  unfold read
  split <;> simp_all [misused]

end Revision

def Attempt.misuse? {α : Type} : Attempt α → Option Misuse
  | .error (.misuse m) => some m
  | _ => none

theorem Attempt.eq_misused_of_misuse? {α : Type} {x : Attempt α} {m : Misuse}
    (h : x.misuse? = some m) : x = misused m := by
  unfold Attempt.misuse? at h
  split at h
  · cases h
    rfl
  · cases h

def Refusal.classify (refusal : Refusal) : Attempt Category :=
  match refusal.category? with
  | some category => .ok category
  | none => .error (.notReportable refusal)

theorem Refusal.classify_eq_ok_iff {refusal : Refusal} {category : Category} :
    refusal.classify = .ok category ↔ refusal.category? = some category := by
  unfold classify
  split <;> simp_all

end EventDialects
