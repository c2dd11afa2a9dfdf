import EventDialects.Codec.Decode

/-!
# Encoding

Encoding makes operands of a record's arguments. It is the inverse of decoding and is done with the
schema of the revision that the operands are for: the record must have that schema's slots in that
order. Each slot refuses an argument outside its domain, naming itself.

* `integerOperand_eq`: what an integer slot encodes is one integer, which is its operand.
-/

namespace EventDialects

open Text

namespace Slot

def reject {α : Type} (s : Slot) (reason : String) : Attempt α := refuse (.slotEncode s.name reason)

def integerOperand (s : Slot) (v : Value) : Attempt (List Int) :=
  match v with
  | .int n => match s.checkWidth (.int n) with
    | .ok () => .ok [n]
    | .error (.refused r) => s.reject r.message
    | .error e => .error e
  | v => s.reject ("expected an integer, got " ++ v.typeName)

def integerOperands (s : Slot) : List Value → Attempt (List Int)
  | [] => .ok []
  | v :: vs => do
    let operand ← s.integerOperand v
    let operands ← integerOperands s vs
    return operand ++ operands

def rejectCoordinate {α : Type} (s : Slot) (v : Value) : Attempt α := do
  s.reject ("expected a " ++ (← s.fields.print) ++ "-field coordinate, got " ++ (← v.display))

/-- The operands of a coordinate: a tuple of as many integers as the slot has fields. -/
def coordinateOperands (s : Slot) (v : Value) : Attempt (List Int) :=
  match v with
  | .tuple xs =>
    if (Value.int xs.length).equal s.fields then s.integerOperands xs else s.rejectCoordinate v
  | _ => s.rejectCoordinate v

/-- The operand of a reference of exactly the given kind. -/
def refOperand (s : Slot) (kind : RefKind) (v : Value) : Attempt (List Int) :=
  let expected := "expected " ++ kind.typeName ++ ", got " ++ v.typeName
  match v with
  | .ref kind' offset => if kind' = kind then s.integerOperand offset else s.reject expected
  | _ => s.reject expected

/-- The refusal of what is no variant of a slot's decoder. -/
def rejectVariant {α : Type} (s : Slot) (d : Decoder) (v : Value) : Attempt α := do
  s.reject ((← v.display) ++ " is not a " ++ d.name ++ " variant")

def variantOperand (s : Slot) (v : Value) : Attempt (List Int) :=
  match s.decoder with
  | none => misused (.noField "NoneType" "accepts")
  | some d =>
    if d.accepts v then do s.integerOperand (.int (← d.encode v))
    else s.rejectVariant d v

/-- The operand of an undocumented slot: any integer. -/
def reservedOperand (s : Slot) : Value → Attempt (List Int)
  | .int n => .ok [n]
  | v => s.reject ("expected the raw reserved value, got " ++ v.typeName)

/-- The operands that a slot makes of its argument. -/
def operandsOf (s : Slot) (v : Value) : Attempt (List Int) :=
  match s.kind with
  | .rawInteger => s.integerOperand v
  | .coordinate => s.coordinateOperands v
  | .characterId => s.refOperand .pid v
  | .functionRef => s.refOperand .function v
  | .stringRef => s.refOperand .string v
  | .bitflags | .enumValue => s.variantOperand v
  | .unknown => s.reservedOperand v

@[simp] theorem rejectCoordinate_ne_ok {α : Type} (s : Slot) (v : Value) (x : α) :
    s.rejectCoordinate v ≠ .ok x := by
  intro h
  obtain ⟨_, -, h⟩ := Attempt.bind_eq_ok.mp h
  obtain ⟨_, -, h⟩ := Attempt.bind_eq_ok.mp h
  cases h

@[simp] theorem rejectVariant_ne_ok {α : Type} (s : Slot) (d : Decoder) (v : Value) (x : α) :
    s.rejectVariant d v ≠ .ok x := by
  intro h
  obtain ⟨_, -, h⟩ := Attempt.bind_eq_ok.mp h
  cases h

theorem integerOperand_eq {s : Slot} {v : Value} {ops : List Int}
    (h : s.integerOperand v = .ok ops) : ∃ n, v = .int n ∧ ops = [n] := by
  unfold integerOperand at h
  split at h
  · split at h
    · cases h
      exact ⟨_, rfl, rfl⟩
    · simp [reject, refuse] at h
    · cases h
  · simp [reject, refuse] at h

end Slot

namespace Schema

def namesText : List Value → Attempt (List String)
  | [] => .ok []
  | .str s :: rest => do return s :: (← namesText rest)
  | v :: _ => misused (.notText v.typeName)

def mismatch {α : Type} (schema : Schema) (record : Record) : Attempt α := do
  -- The message begins with the event, so that its name is printed before the slots are joined.
  let _ ← schema.name.print
  let expected ← namesText schema.slotNames
  let actual ← namesText record.slotNames
  refuse (.schemaMismatch schema.name expected actual)

def encodeSlots : List Slot → List Value → Attempt (List Int)
  | s :: slots, v :: arguments => do
    let operands ← s.operandsOf v
    let rest ← encodeSlots slots arguments
    return operands ++ rest
  | _, _ => .ok []

/-- Encodes a record whose slots are the schema's, in order. -/
def encode (schema : Schema) (record : Record) : Attempt (List Int) :=
  if record.arguments.length ≠ schema.slots.length
      ∨ !Value.equalAll record.slotNames schema.slotNames then
    schema.mismatch record
  else encodeSlots schema.slots record.arguments

end Schema

end EventDialects
