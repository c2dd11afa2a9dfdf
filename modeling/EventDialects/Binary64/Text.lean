import EventDialects.Binary64.Basic
import EventDialects.Text.Radix

/-!
# The text of a floating-point number

A number is written with the fewest decimal digits that read back as the same number; of several
such decimals the nearest is taken, and of two equally near ones that with the even last digit.
Powers of ten from `10 ^ -4` up to below `10 ^ 16` are written by position, with at least one
digit on either side of the point, and all others with an exponent of at least two digits. A rate is
written with a fixed number of places instead.
-/

namespace EventDialects.Binary64

open Text

/-- The exponent of the leading decimal digit of `q` quanta, `q` not zero. -/
def leadingPower (q : Nat) : Int :=
  let whole := q / one
  if whole ≠ 0 then ((digits 10 whole).length : Int) - 1
  else
    let k := (List.range 330).find? fun k => one ≤ q * tenTo (k + 1)
    .negSucc (k.getD 0)

def decimalFraction (n : Nat) : Int → Nat × Nat
  | .ofNat k => (n * tenTo k, 1)
  | .negSucc k => (n, tenTo (k + 1))

def readsBack (q n : Nat) (e : Int) : Bool :=
  let (num, den) := decimalFraction n e
  roundQuanta num den == q

/-- The decimal of `count` digits that is nearest to `q` quanta among those that read back, its last
digit standing for `10 ^ e`. -/
def decimalOf? (q : Nat) (e : Int) : Option Nat :=
  let (num, den) := match e with
    | .ofNat k => (q, one * tenTo k)
    | .negSucc k => (q * tenTo (k + 1), one)
  let low := num / den
  let nearest := roundQuotient num den
  let other := if nearest = low then low + 1 else low
  [nearest, other].find? fun n => readsBack q n e

/-- The fewest digits that read back as `q` quanta, without zeros at the end, and the exponent of
the first of them. -/
def shortest (q : Nat) : List Nat × Int :=
  let e := leadingPower q
  let found := (List.range 17).findSome? fun (k : Nat) =>
    (decimalOf? q (e - k)).map fun n => (n, k)
  let (n, k) := found.getD (0, 0)
  let ds := digits 10 n
  ((ds.reverse.dropWhile (· == 0)).reverse, e + (ds.length - 1 : Int) - k)

def digitChars (ds : List Nat) : List Char := ds.map digitChar

def positional (ds : List Nat) (e : Int) : List Char :=
  match e with
  | .negSucc k => '0' :: '.' :: List.replicate k '0' ++ digitChars ds
  | .ofNat k =>
    let whole := ds.take (k + 1)
    let rest := ds.drop (k + 1)
    digitChars whole ++ List.replicate (k + 1 - whole.length) '0' ++ '.' ::
      (if rest.isEmpty then ['0'] else digitChars rest)

def scientific (ds : List Nat) (e : Int) : List Char :=
  let mantissa := match ds with
    | [] => ['0']
    | [d] => [digitChar d]
    | d :: rest => digitChar d :: '.' :: digitChars rest
  let power := natChars 10 e.natAbs
  mantissa ++ 'e' :: (if e < 0 then '-' else '+') :: List.replicate (2 - power.length) '0' ++ power

def text : Binary64 → String
  | .nan => "nan"
  | .infinite s => if s then "-inf" else "inf"
  | .finite s q =>
    let body :=
      if q = 0 then ['0', '.', '0']
      else
        let (ds, e) := shortest q
        if -4 ≤ e ∧ e < 16 then positional ds e else scientific ds e
    String.ofList (if s then '-' :: body else body)

/-- The text of a number with one decimal place, a half going to the even digit. -/
def onePlace : Binary64 → String
  | .finite s q =>
    let n := roundQuotient (q * 10) one
    String.ofList ((if s then ['-'] else []) ++ natChars 10 (n / 10) ++ '.' :: natChars 10 (n % 10))
  | x => x.text

example : (ofDecimal false 15 (-1)).text = "1.5" := by decide +kernel
example : (ofDecimal false 1 16).text = "1e+16" := by decide +kernel
example : (ofDecimal false 1 (-4)).text = "0.0001" := by decide +kernel
example : (ofQuotient false 200 3).onePlace = "66.7" := by decide +kernel

end EventDialects.Binary64
