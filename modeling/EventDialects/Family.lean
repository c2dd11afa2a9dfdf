import EventDialects.Text.Radix

/-!
# Variant families

The small closed domains of values that slots refer to. A family names its members and gives each a
raw number; the members of a family of flags may be combined, so that a value of it is a sum of
members' bits.

* `isBit_iff`: a single bit is a power of two.
-/

namespace EventDialects

/-- A closed family of named values with raw numbers. The members of a family that combines are
bits, and any union of them is a value of the family. -/
structure Family where
  name : String
  members : List (String × Int)
  combines : Bool
  deriving DecidableEq, Repr, Inhabited

def sharesBit (a b : Int) : Bool := a.toNat &&& b.toNat != 0

def isBit (raw : Int) : Bool := raw == (Nat.pow 2 raw.toNat.log2 : Nat)

theorem isBit_iff {raw : Int} : isBit raw ↔ ∃ k, raw = (Nat.pow 2 k : Nat) := by
  rw [isBit, beq_iff_eq]
  constructor
  · intro h
    exact ⟨_, h⟩
  · rintro ⟨k, rfl⟩
    rw [Int.toNat_natCast]
    exact congrArg (fun n => ((Nat.pow 2 n : Nat) : Int)) (Nat.log2_two_pow (n := k)).symm

namespace Family

/-- How a unit appears on the map. -/
def spawnEffect : Family :=
  ⟨"SpawnEffect",
    [("APPEAR", 0), ("WARP", 1), ("FADE_IN", 2), ("FLY_IN", 3), ("FROM_FOG", 4), ("FROM_VEIN", 5)],
    false⟩

/-- The siege weapon that an event places. -/
def cannonType : Family :=
  ⟨"CannonType",
    [("BALLISTA", 0), ("IRON_BALLISTA", 1), ("KILLER_BALLISTA", 2), ("STONE_LAUNCHER", 3),
      ("FIRE_ORB", 4)],
    false⟩

/-- What happened in a battle, one bit for each outcome. -/
def battleFlag : Family :=
  ⟨"BattleFlag",
    [("ATTACK", 1), ("COUNTER", 2), ("FOLLOW_UP", 4), ("BRAVE", 8), ("MISS", 16), ("HIT", 32),
      ("CRIT", 64), ("KILL", 128)],
    true⟩

def all : List Family := [spawnEffect, cannonType, battleFlag]

def raws (f : Family) : List Int := f.members.map (·.2)

/-- The raw numbers of the members that are single bits. A member that is not one only names a
combination of others. -/
def bits (f : Family) : List Int := f.raws.filter isBit

def bitsOf (f : Family) (raw : Int) : List Int := f.bits.filter (sharesBit raw)

def rawOf? (f : Family) (name : String) : Option Int :=
  (f.members.find? (·.1 == name)).map (·.2)

/-- The name of a value: its member's name, or the names of its bits from the lowest to the highest,
joined by bars. The combination of no bits has no name. -/
def label? (f : Family) (raw : Int) : Option String :=
  if f.combines then
    match f.members.filter fun m => sharesBit raw m.2 with
    | [] => none
    | ms => some ("|".intercalate (ms.map (·.1)))
  else (f.members.find? (·.2 == raw)).map (·.1)

example : battleFlag.label? 96 = some "HIT|CRIT" := by decide +kernel

end Family

end EventDialects
