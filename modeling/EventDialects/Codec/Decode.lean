import EventDialects.Record
import EventDialects.Schema

/-!
# Decoding

Decoding walks through a schema's slots in order. Each slot takes its span of operands, checks that
they fit its width, and makes an argument of them: an integer, a coordinate, a reference, or what
its decoder gives. Operands of an undocumented slot are taken as they are. A wrong number of
operands is refused before any slot is looked at, and the first slot with a bad operand is the one
reported.

* `decodeSlots_length`: there is one argument per slot.
-/

namespace EventDialects

namespace Slot

def fits (low high : Int) (n : Number) : Bool :=
  !n.less (.ofInt low) && !(Number.ofInt high).less n && n != .nan

def checkWidth (s : Slot) (v : Value) : Attempt Unit := do
  let (low, high) ← s.range
  match v.number? with
  | none => misused (.unordered "int" v.typeName)
  | some n =>
    if fits low high n then return ()
    else refuse (.outOfRange v s.bits s.signed.truthy)

def checkWidths (s : Slot) : List Value → Attempt Unit
  | [] => .ok ()
  | v :: vs => do
    s.checkWidth v
    checkWidths s vs

def single : List Value → Attempt Value
  | v :: _ => .ok v
  | [] => misused .outOfBounds

def fitting (s : Slot) (raw : List Value) : Attempt Value := do
  let v ← single raw
  s.checkWidth v
  return v

/-- The argument that a slot makes of its operands. -/
def argumentOf (s : Slot) (raw : List Value) : Attempt Value :=
  match s.kind with
  | .rawInteger => s.fitting raw
  | .coordinate => do
    s.checkWidths raw
    return .tuple raw
  | .characterId => do return .ref .pid (← s.fitting raw)
  | .functionRef => do return .ref .function (← s.fitting raw)
  | .stringRef => do return .ref .string (← s.fitting raw)
  | .bitflags | .enumValue => do
    let v ← s.fitting raw
    match s.decoder with
    | some d => d.decode v
    | none => misused (.noField "NoneType" "decode")
  | .unknown => single raw

/-- A refusal is reported with the slot that it happened in. -/
def inSlot {α : Type} (s : Slot) : Attempt α → Attempt α
  | .error (.refused r) => refuse (.slotDecode s.name r)
  | result => result

def decode (s : Slot) (raw : List Value) : Attempt Value := s.inSlot (s.argumentOf raw)

end Slot

namespace Schema

def decodeSlots : List Slot → List Value → Attempt (List Value)
  | [], _ => .ok []
  | s :: slots, operands => do
    let n ← s.operandCount
    let argument ← s.decode (operands.take n)
    let arguments ← decodeSlots slots (operands.drop n)
    return argument :: arguments

def decode (schema : Schema) (operands : Value) : Attempt Record := do
  let raw ← operands.iterate
  if !(Value.int raw.length).equal schema.arity then
    refuse (.arityMismatch schema.name schema.arity raw.length)
  let arguments ← decodeSlots schema.slots raw
  return ⟨schema.revisionValue, .int schema.code, schema.name, schema.slotNames, arguments⟩

theorem decodeSlots_length : ∀ {slots : List Slot} {operands arguments : List Value},
    decodeSlots slots operands = .ok arguments → arguments.length = slots.length := by
  intro slots
  induction slots with
  | nil =>
    intro operands arguments h
    cases h
    rfl
  | cons s slots ih =>
    intro operands arguments h
    simp only [decodeSlots, bind, Except.bind, pure, Except.pure] at h
    split at h
    · cases h
    · split at h
      · cases h
      · split at h
        · cases h
        · rename_i rest hrest
          cases h
          simp [ih hrest]

end Schema

end EventDialects
