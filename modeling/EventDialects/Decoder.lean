import EventDialects.Value.Access

/-!
# Value decoders

A decoder is a closed mapping between raw numbers and the variants of a family. A choice decodes
the number of a member to that member. A set of flags decodes a sum of members' bits to the frozen
set of these members, zero to the empty set. Every other raw value is refused.

* `Decoder.accepts_choice_iff`: a choice accepts the variants of its own family.
-/

namespace EventDialects

def joinBits (raws : List Int) : Nat := raws.foldl (fun sum raw => sum ||| raw.toNat) 0

def Family.mask (f : Family) : Nat := joinBits f.bits

/-- A mapping between raw numbers and variants. -/
inductive Decoder
  /-- One member of a family. -/
  | choice (name : String) (family : Family)
  /-- A set of members of a family of flags. -/
  | flagSet (name : String) (family : Family)
  deriving DecidableEq, Repr

namespace Decoder

def name : Decoder → String
  | .choice name _ => name
  | .flagSet name _ => name

def all : List Decoder :=
  [.choice "spawn_effects" .spawnEffect, .choice "cannon_types" .cannonType,
    .flagSet "battle_flags" .battleFlag]

def ofName (name : Value) : Attempt Decoder := do
  name.checkKey
  match all.find? fun d => (Value.str d.name).equal name with
  | some d => return d
  | none => .error (Failure.unknownDecoder name).raised

/-- The refusal of a raw value outside the domain. -/
def noVariant {α : Type} (name : String) (raw : Value) : Attempt α :=
  match raw.integer? with
  | some _ => refuse (.unknownVariant name raw)
  | none => misused (.noOperation "&" raw.typeName "int")

def decodeChoice (name : String) (family : Family) (raw : Value) : Attempt Value := do
  raw.checkKey
  match family.raws.find? fun r => (Value.int r).equal raw with
  | some r => return .variant family r
  | none => noVariant name raw

/-- The members of a family whose bits make up a raw number. -/
def decodeFlags (name : String) (family : Family) (raw : Value) : Attempt Value :=
  match raw.integer? with
  | none =>
    misused (if raw.number?.isNone then .unordered raw.typeName "int"
      else .noOperation "&" raw.typeName "int")
  | some n =>
    if n < 0 ∨ n.toNat &&& family.mask ≠ n.toNat then noVariant name raw
    else .ok (.frozenset ((family.bitsOf n).map (.variant family)))

def decode : Decoder → Value → Attempt Value
  | .choice name family, raw => decodeChoice name family raw
  | .flagSet name family, raw => decodeFlags name family raw

def rawOf : Value → Attempt Int
  | .variant _ raw => .ok raw
  | v => misused (.noField v.typeName "value")

def union : List Value → Nat → Attempt Int
  | [], raw => .ok raw
  | v :: vs, raw => do
    let bit ← rawOf v
    union vs (raw ||| bit.toNat)

def encode : Decoder → Value → Attempt Int
  | .choice _ _, v => rawOf v
  | .flagSet _ _, v => do union (← v.iterate) 0

def isMember (family : Family) : Value → Bool
  | .variant f raw => f == family && family.bits.contains raw
  | _ => false

/-- Whether a value is one that the decoder encodes: for a choice a variant of its family, for a set
of flags a set of its family's single members. -/
def accepts : Decoder → Value → Bool
  | .choice _ family, v => match v with
    | .variant f raw => f == family && (family.combines || family.raws.contains raw)
    | _ => false
  | .flagSet _ family, v => match v.elements? with
    | some xs => xs.all (isMember family)
    | none => false

theorem accepts_choice_iff {name : String} {family : Family} {v : Value} :
    (Decoder.choice name family).accepts v ↔
      ∃ raw, v = .variant family raw ∧ (family.combines ∨ raw ∈ family.raws) := by
  cases v with
  | variant f r =>
    simp only [accepts, Bool.and_eq_true, Bool.or_eq_true, beq_iff_eq, List.contains_iff_mem]
    constructor
    · intro ⟨hf, h⟩
      exact ⟨r, by rw [hf], h⟩
    · intro ⟨raw, he, h⟩
      cases he
      exact ⟨rfl, h⟩
  | _ => simp [accepts]

end Decoder

end EventDialects
