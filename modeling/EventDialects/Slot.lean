import EventDialects.Decoder

/-!
# Slots

A slot is one positional argument of an event. Its kind says what the argument means, its width and
sign say which raw operands fit, and a coordinate spans two or four operands where every other slot
has one. The rules on decoders and fields hold of every slot by construction; its name, width and
sign are whatever the definition says, and show themselves only in use.

* `Slot.span_of_ne_coordinate`: only a coordinate spans more than one operand.
-/

namespace EventDialects

/-- The kinds of slot. -/
inductive SlotKind
  | rawInteger
  | coordinate
  | characterId
  | bitflags
  | enumValue
  | functionRef
  | stringRef
  | unknown
  deriving DecidableEq, Repr

namespace SlotKind

def name : SlotKind → String
  | .rawInteger => "raw_integer"
  | .coordinate => "coordinate"
  | .characterId => "character_id"
  | .bitflags => "bitflags"
  | .enumValue => "enum_value"
  | .functionRef => "function_ref"
  | .stringRef => "string_ref"
  | .unknown => "unknown"

def all : List SlotKind :=
  [.rawInteger, .coordinate, .characterId, .bitflags, .enumValue, .functionRef, .stringRef,
    .unknown]

def ofValue? : Value → Option SlotKind
  | .str s => all.find? (·.name == s)
  | _ => none

def needsDecoder : SlotKind → Bool
  | .bitflags | .enumValue => true
  | _ => false

/-- The reference that operands of a kind are, if they are offsets into the text section. -/
def refKind? : SlotKind → Option RefKind
  | .characterId => some .pid
  | .functionRef => some .function
  | .stringRef => some .string
  | _ => none

/-- The kind with a name is found under it. -/
theorem ofValue?_name (k : SlotKind) : ofValue? (.str k.name) = some k := by
  cases k <;> decide

end SlotKind

namespace Slot

def fault? (name : Value) (kind : SlotKind) (decoder : Option Decoder) (fields : Value) :
    Option SlotFault :=
  if kind.needsDecoder ∧ decoder.isNone then some (.needsDecoder name kind.name)
  else if kind = .coordinate then
    if (Value.int 2).equal fields ∨ (Value.int 4).equal fields then none
    else some (.coordinateFields name fields)
  else if (Value.int 1).equal fields then none
  else some (.singleField name kind.name)

end Slot

/-- One positional argument of an event. -/
structure Slot where
  name : Value
  kind : SlotKind
  decoder : Option Decoder
  bits : Value
  signed : Value
  fields : Value
  wellFormed : Slot.fault? name kind decoder fields = none

namespace Slot

/-- The slot of a declaration that keeps the rules. -/
def make (name : Value) (kind : SlotKind) (decoder : Option Decoder) (bits signed fields : Value) :
    Except SlotFault Slot :=
  match h : fault? name kind decoder fields with
  | none => .ok ⟨name, kind, decoder, bits, signed, fields, h⟩
  | some fault => .error fault

def span (s : Slot) : Nat :=
  if s.kind = .coordinate then
    if (Value.int 4).equal s.fields then 4 else 2
  else 1

/-- Whether the span is declared as a floating-point number, which counts operands but takes no
slice of them. -/
def spanIsFloat (s : Slot) : Bool :=
  match s.fields with
  | .float _ => true
  | _ => false

def operandCount (s : Slot) : Attempt Nat :=
  if s.spanIsFloat then misused .noCount else .ok s.span

def wordCount (bits : Nat) : Int := (Nat.pow 2 bits : Nat)

/-- The most bits that a number can be shifted by. -/
def shiftLimit : Nat := 69175290276410818320

def wordCountOf (bits : Int) : Attempt Int :=
  if bits < 0 then misused .negativeWidth
  else if shiftLimit < bits then misused .tooWide
  else .ok (wordCount bits.toNat)

def widthMisuse (s : Slot) : Misuse :=
  if s.signed.truthy && s.bits.number?.isNone then .noOperation "-" s.bits.typeName "int"
  else .noOperation "<<" "int" s.bits.typeName

/-- The least and the greatest raw operand that fits a slot. -/
def range (s : Slot) : Attempt (Int × Int) :=
  match s.bits.integer? with
  | none => misused s.widthMisuse
  | some bits =>
    if s.signed.truthy then do
      let half ← wordCountOf (bits - 1)
      return (-half, half - 1)
    else do return (0, (← wordCountOf bits) - 1)

def print (s : Slot) : Attempt String := do
  let fields ← if s.kind = .coordinate then do pure ("[" ++ (← s.fields.print) ++ "]") else pure ""
  return (← s.name.print) ++ ": " ++ s.kind.name ++ fields
    ++ (match s.decoder with
      | some d => "(" ++ d.name ++ ")"
      | none => "")

theorem span_of_ne_coordinate {s : Slot} (h : s.kind ≠ .coordinate) : s.span = 1 := if_neg h

end Slot

end EventDialects
