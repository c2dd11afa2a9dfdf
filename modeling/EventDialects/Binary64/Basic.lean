/-!
# Binary floating-point numbers

A number of the 64-bit binary format is a sign and a magnitude. Every finite magnitude is a whole
multiple of the smallest one, `2 ^ -1074`, so the magnitude is kept as a natural number of these
quanta, and two finite numbers compare as the integers that count their quanta. Rounding a quotient
to the format is exact arithmetic on natural numbers.

* `roundQuotient_exact`: a whole quotient is not changed by rounding.
* `twoTo_pos`: powers of two are positive.
-/

namespace EventDialects

/-- A number of the 64-bit binary format; a finite one counts quanta of `2 ^ -1074`. -/
inductive Binary64
  | finite (negative : Bool) (quanta : Nat)
  | infinite (negative : Bool)
  | nan
  deriving DecidableEq, Repr, Inhabited

namespace Binary64

def twoTo (n : Nat) : Nat := Nat.pow 2 n

def tenTo (n : Nat) : Nat := Nat.pow 10 n

theorem twoTo_pos (n : Nat) : 0 < twoTo n := Nat.pow_pos (by decide)

/-- The exponent of the number of quanta that make one. -/
def scale : Nat := 1074

/-- The number of quanta that make one. -/
def one : Nat := twoTo scale

def precision : Nat := 53

def overflow : Nat := twoTo (1024 + scale)

/-- A quotient rounded to the nearest whole number, half way to the even one. -/
def roundQuotient (num den : Nat) : Nat :=
  let q := num / den
  let r := num % den
  if 2 * r < den then q
  else if 2 * r > den then q + 1
  else if q % 2 = 0 then q else q + 1

theorem roundQuotient_exact (q : Nat) {den : Nat} (h : 0 < den) :
    roundQuotient (q * den) den = q := by
  simp [roundQuotient, Nat.mul_div_cancel q h, h]

/-- The quotient of two natural numbers in quanta, rounded to the significand's precision. -/
def roundQuanta (num den : Nat) : Nat :=
  let n := num * one
  let width := (n / den).log2 + 1
  if width ≤ precision then roundQuotient n den
  else
    let step := twoTo (width - precision)
    roundQuotient n (den * step) * step

/-- The number nearest to a quotient. -/
def ofQuotient (negative : Bool) (num den : Nat) : Binary64 :=
  let q := roundQuanta num den
  if q < overflow then .finite negative q else .infinite negative

def ofDecimal (negative : Bool) (n : Nat) (e : Int) : Binary64 :=
  let size : Int := (n.log2 + 1) / 3 + e
  if n = 0 then .finite negative 0
  else if size > 400 then .infinite negative
  else if size + n.log2 < -400 then .finite negative 0
  else match e with
    | .ofNat k => ofQuotient negative (n * tenTo k) 1
    | .negSucc k => ofQuotient negative n (tenTo (k + 1))

def ofInt (n : Int) : Binary64 := ofQuotient (n < 0) n.natAbs 1

def scaled? : Binary64 → Option Int
  | .finite true q => some (-(q : Int))
  | .finite false q => some q
  | _ => none

def truncate? (x : Binary64) : Option Int :=
  x.scaled?.map fun q => Int.tdiv q one

def isZero (x : Binary64) : Bool := x.scaled? == some 0

/-- A finite number times a natural one, rounded. -/
def timesNat (x : Binary64) (k : Nat) : Binary64 :=
  match x with
  | .finite s q => ofQuotient s (q * k) one
  | x => x

/-- The 64 bits of a number: the sign, eleven bits of exponent and the significand without its
leading one. -/
def bits : Binary64 → Nat
  | .nan => 0x7FF8 * twoTo 48
  | .infinite s => (if s then twoTo 63 else 0) + 0x7FF0 * twoTo 48
  | .finite s q =>
    let magnitude :=
      if q < twoTo 52 then q
      else
        let shift := q.log2 + 1 - precision
        (shift + 1) * twoTo 52 + (q / twoTo shift - twoTo 52)
    (if s then twoTo 63 else 0) + magnitude

example : (ofDecimal false 15 (-1)).bits = 0x3FF8000000000000 := by decide +kernel
example : (ofInt 100).bits = 0x4059000000000000 := by decide +kernel

end Binary64

end EventDialects
