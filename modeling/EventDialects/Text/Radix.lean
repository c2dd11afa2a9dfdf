import EventDialects.Text.Digit

/-!
# Numbers written in a base

`digits b n` are the digits of `n` in base `b`, the most significant first, and `ofDigits` reads
them back. From them come the decimal text of an integer, the hexadecimal text of a code, and the
padding that lines columns up.

* `ofDigits_digits`: what is written reads back.
* `writable_iff`: an integer can be written exactly if it has at most `digitLimit` digits.
-/

namespace EventDialects.Text

def ofDigits (b : Nat) (ds : List Nat) : Nat := ds.foldl (fun n d => n * b + d) 0

/-- The digits of `n`, found in at most `fuel` divisions. -/
def digitsWithin (b : Nat) : Nat → Nat → List Nat
  | 0, _ => []
  | fuel + 1, n => if n < b then [n] else digitsWithin b fuel (n / b) ++ [n % b]

/-- The digits of `n` in base `b`, the most significant first; zero has one digit. -/
def digits (b n : Nat) : List Nat := digitsWithin b (n + 1) n

theorem ofDigits_append (b : Nat) (ds : List Nat) (d : Nat) :
    ofDigits b (ds ++ [d]) = ofDigits b ds * b + d := by
  simp [ofDigits]

theorem ofDigits_digitsWithin {b : Nat} (hb : 2 ≤ b) :
    ∀ fuel n, n < fuel → ofDigits b (digitsWithin b fuel n) = n := by
  intro fuel
  induction fuel with
  | zero => intro n h; omega
  | succ fuel ih =>
    intro n h
    rw [digitsWithin]
    split
    · simp [ofDigits]
    · have hlt : n / b < n := Nat.div_lt_self (by omega) hb
      rw [ofDigits_append, ih _ (by omega), Nat.mul_comm, Nat.div_add_mod]

/-- **What is written reads back.** -/
theorem ofDigits_digits {b : Nat} (hb : 2 ≤ b) (n : Nat) : ofDigits b (digits b n) = n :=
  ofDigits_digitsWithin hb _ _ (Nat.lt_succ_self n)

def natChars (b n : Nat) : List Char := (digits b n).map digitChar

/-- The characters of an integer in base `b`: a minus sign stands before a negative one. -/
def intChars (b : Nat) : Int → List Char
  | .ofNat n => natChars b n
  | .negSucc n => '-' :: natChars b (n + 1)

/-- The most digits of an integer in base ten, written or read. -/
def digitLimit : Nat := 4300

def hasDigitsWithin : Nat → Nat → Bool
  | 0, _ => false
  | k + 1, n => n < 10 || hasDigitsWithin k (n / 10)

/-- Whether an integer can be written in base ten. One with more digits than the limit cannot. -/
def writable (n : Int) : Bool := hasDigitsWithin digitLimit n.natAbs

/-- The least number of more than `k` digits. -/
def firstBeyond (k : Nat) : Nat := Nat.pow 10 k

theorem firstBeyond_pos (k : Nat) : 0 < firstBeyond k := Nat.pow_pos (by decide)

theorem firstBeyond_mono {k l : Nat} (h : k ≤ l) : firstBeyond k ≤ firstBeyond l :=
  Nat.pow_le_pow_right (by decide) h

theorem hasDigitsWithin_iff {k : Nat} (hk : 0 < k) {n : Nat} :
    hasDigitsWithin k n ↔ n < firstBeyond k := by
  induction k generalizing n with
  | zero => omega
  | succ k ih =>
    rw [hasDigitsWithin, Bool.or_eq_true, decide_eq_true_iff]
    rcases Nat.eq_zero_or_pos k with rfl | hk
    · have hone : firstBeyond 1 = 10 := rfl
      simp [hasDigitsWithin, hone]
    · have hten : 10 ≤ firstBeyond (k + 1) := firstBeyond_mono (Nat.le_add_left 1 k)
      have hsucc : firstBeyond (k + 1) = firstBeyond k * 10 := rfl
      rw [ih hk, Nat.div_lt_iff_lt_mul (by decide), ← hsucc]
      omega

theorem writable_iff {n : Int} : writable n ↔ n.natAbs < firstBeyond digitLimit :=
  hasDigitsWithin_iff (by decide)

/-- A number of at most twenty digits is far from the limit. -/
theorem writable_of_lt {n : Int} (h : n.natAbs < firstBeyond 20) : writable n :=
  writable_iff.mpr
    (Nat.lt_of_lt_of_le h (firstBeyond_mono (by decide : 20 ≤ digitLimit)))

/-- The least number that is too long to be written: a one and as many zeros as the limit. -/
def beyondPrint : Int := firstBeyond digitLimit

theorem not_writable_beyondPrint : ¬ writable beyondPrint := by
  rw [writable_iff, beyondPrint, Int.natAbs_natCast]
  exact Nat.lt_irrefl _

def decimal (n : Int) : String := String.ofList (intChars 10 n)

def hex (n : Int) : String := String.ofList (intChars 16 n)

def padLeft (width : Nat) (fill : Char) (s : String) : String :=
  String.ofList (List.replicate (width - s.length) fill ++ s.toList)

def padRight (width : Nat) (s : String) : String :=
  String.ofList (s.toList ++ List.replicate (width - s.length) ' ')

/-- The text of an event code: `0x` and at least two hexadecimal characters, the sign among
them. -/
def codeText (n : Int) : String := "0x" ++ padLeft 2 '0' (hex n)

example : codeText 5 = "0x05" := by decide +kernel
example : codeText (-1) = "0x-1" := by decide +kernel
example : codeText 4096 = "0x1000" := by decide +kernel

end EventDialects.Text
