import EventDialects.Numeral
import EventDialects.Registry
import EventDialects.Value.Order

/-!
# Dialect definitions

A dialect definition is a mapping that names a revision and lists events by code. Each event has a
name and slots, each slot a name and a kind, and may say more: the decoder, the width and sign of
its operands and the number of its fields. What it does not say has a default: the dialect's operand
width, signed operands for all but references, one field or, for a coordinate, two.

A directory of definitions makes a registry: the dialects are registered in the order of their
`order` keys, and of their file names where these are equal.

* `build_missingRevision`: what is not a mapping defines no dialect.
-/

namespace EventDialects

/-- The event code that a key writes: a number, or a text with a literal of any base. -/
def codeOfKey : Value → Attempt Int
  | .str s => match Numeral.literal? s.toList with
    | some n => .ok n
    | none => misused (.badNumber (Text.quoted s))
  | .float x => match x.truncate? with
    | some n => .ok n
    | none => if x = .nan then misused (.badNumber "nan") else misused .infinite
  | v => match v.integer? with
    | some n => .ok n
    | none => misused (.notNumber v.typeName)

namespace Slot

def refuseEntry {α : Type} (source : String) (event : Value) (fault : SlotEntryFault) : Attempt α :=
  refuse (.definition (.slot source event fault))

def decoderOfEntry (source : String) (event : Value) (kind : SlotKind) (entry : Value) :
    Attempt (Option Decoder) := do
  if !kind.needsDecoder then return none
  let name ← entry.entryOr "decoder" (.str "")
  match Decoder.ofName name with
  | .ok d => return some d
  | .error (.unknownDecoder n) => refuseEntry source event (.unknownDecoder n)
  | .error e => .error e

def ofEntry (source : String) (event operandBits entry : Value) : Attempt Slot := do
  if !(← entry.holds "name") then refuseEntry source event (.incomplete entry)
  if !(← entry.holds "kind") then refuseEntry source event (.incomplete entry)
  let kindName := (← entry.subscript? "kind").getD .null
  match SlotKind.ofValue? kindName with
  | none => refuseEntry source event (.unknownKind kindName)
  | some kind =>
    let decoder ← decoderOfEntry source event kind entry
    let signed ← entry.entryOr "signed" (.bool kind.refKind?.isNone)
    let name := (← entry.subscript? "name").getD .null
    let bits ← entry.entryOr "bits" operandBits
    let fields ← entry.entryOr "fields" (.int (if kind = .coordinate then 2 else 1))
    match make name kind decoder bits signed fields with
    | .ok s => return s
    | .error fault => refuseEntry source event (.illFormed fault)

def ofEntries (source : String) (event operandBits : Value) : List Value → Attempt (List Slot)
  | [] => .ok []
  | entry :: entries => do
    let s ← ofEntry source event operandBits entry
    let slots ← ofEntries source event operandBits entries
    return s :: slots

end Slot

namespace Table

/-- The code that an event's key writes; a text that writes none is refused. -/
def codeOfEvent (source : String) (key : Value) : Attempt Int :=
  match codeOfKey key with
  | .error (.misuse (.badNumber _)) => refuse (.definition (.badCode source key))
  | result => result

def registerEntry (source : String) (t : Table) (key event : Value) : Attempt Table := do
  let code ← codeOfEvent source key
  if !event.hasEntry "name" then refuse (.definition (.namelessEvent source code))
  let name ← event.entryOr "name" .null
  -- What is said about a slot begins with the event, so that its name is printed before any slot.
  let _ ← name.print
  let entries ← (← event.entryOrEmpty "slots" (.list [])).iterate
  let slots ← Slot.ofEntries source name t.operandBits entries
  let (_, t') ← t.register code ⟨code, name, slots, none⟩
  return t'

def registerEntries (source : String) (t : Table) : Entries → Attempt Table
  | [] => .ok t
  | (key, event) :: rest => do
    let t' ← registerEntry source t key event
    registerEntries source t' rest

/-- The table that a definition makes, not sealed. -/
def build (definition : Value) (source : String) : Attempt Table := do
  if !definition.hasEntry "revision" then refuse (.definition (.missingRevision source))
  let title ← (← definition.entryOr "revision" .null).print
  let variant ← (← definition.entryOr "variant" (.str "")).print
  let operandBits ← definition.entryOr "operand_bits" (.int 32)
  let t := Table.empty ⟨title, variant⟩ (← definition.entryOr "title" .null) operandBits
  let events ← (← definition.entryOrEmpty "events" (.map [])).entries
  registerEntries source t events

theorem build_missingRevision {definition : Value} (h : definition.hasEntry "revision" = false)
    (source : String) :
    build definition source = refuse (.definition (.missingRevision source)) := by
  simp [build, h, refuse, Bind.bind, Except.bind]

end Table

namespace Registry

/-- The place of a definition among others: its `order` key, or zero without one, and its file
name. -/
def rank (document : String × Value) : Value :=
  let order := match document.2 with
    | .map es => (Entries.lookup? es (.str "order")).getD (.int 0)
    | _ => .int 0
  .tuple [order, .str document.1]

/-- Builds and registers the dialects of some definitions, in the order given. -/
def registerAll (g : Registry) : List (String × Value) → Attempt Registry
  | [] => .ok g
  | (name, definition) :: rest => do
    let t ← Table.build definition name
    let g' ← g.register (.revision t.revision) t
    registerAll g' rest

/-- The registry of a directory's definitions, each under its file name. -/
def ofDocuments (documents : List (String × Value)) : Attempt Registry := do
  registerAll empty (← Value.sortOn rank documents)

end Registry

end EventDialects
