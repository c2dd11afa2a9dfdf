import EventDialects.Numeral
import EventDialects.Proofs.Text.Blank

/-!
# The grammar of written integers

A digit is written by its character, a letter in either case.  A **run** is a row of digits with
single underscores between them.  A **literal** is a run after the mark of its base, or a decimal
run of at most `digitLimit` digits that does not begin with zero unless it is zero; a sign may stand
before it.  This is what is written; the readers of `EventDialects.Numeral` are shown to read
exactly that.

Both readers strip blanks, split one sign off and read the rest, so this much is proved once, for
any grammar whose words have visible characters only and do not begin with a sign (`Reads`).

* `Numeral.digit?_eq_some_iff`, `digitRun?_eq_some_iff`: the digits of a base and runs of them.
* `Numeral.magnitude?_eq_some_iff`: **literals without a sign**.
* `Numeral.Reads.readSigned?_eq_some_iff`: **with a sign and blanks**, in any grammar.
-/

namespace EventDialects

namespace Text

theorem forall_ascii {P : Char → Prop} (h : ∀ n < 128, P (Char.ofNat n)) {c : Char}
    (hc : c.toNat < 128) : P c := by
  have hP := h c.toNat hc
  rwa [Char.ofNat_toNat] at hP

end Text

namespace Numeral

open Text

/-! ### Digits -/

/-- A character **writes** a digit of a base: it is the digit's own, in upper or lower case. -/
def Writes (b : Nat) (c : Char) (d : Nat) : Prop :=
  d < b ∧ (c = digitChar d ∨ c = (digitChar d).toLower)

instance (b : Nat) (c : Char) (d : Nat) : Decidable (Writes b c d) :=
  inferInstanceAs (Decidable (_ ∧ _))

/-- A character that may occur in a number: in ASCII, and not blank. -/
def Visible (c : Char) : Prop := c.toNat < 127 ∧ ¬ isBlank c

instance (c : Char) : Decidable (Visible c) := inferInstanceAs (Decidable (_ ∧ _))

theorem digit?_eq_filter {b : Nat} (hb : b ≤ 16) (c : Char) :
    digit? b c = (digit? 16 c).filter (· < b) := by
  rw [digit?, digit?, Option.filter_filter]
  congr
  funext d
  rw [Bool.eq_iff_iff]
  simp only [decide_eq_true_eq, Bool.and_eq_true]
  omega

theorem toNat_lt_of_digit? {c : Char} {d : Nat} (h : digit? 16 c = some d) : c.toNat < 128 := by
  rw [digit?, Option.filter_eq_some_iff] at h
  obtain ⟨h, -⟩ := h
  split at h
  · simp_all; omega
  · split at h
    · simp_all; omega
    · split at h
      · simp_all; omega
      · cases h

/-- **A digit is read** from the characters that write it, and from no other. -/
theorem digit?_eq_some_iff {b : Nat} (hb : b ≤ 16) {c : Char} {d : Nat} :
    digit? b c = some d ↔ Writes b c d := by
  have hwritten {c : Char} : c.toNat < 128 → ∀ d ∈ digit? 16 c,
      c = digitChar d ∨ c = (digitChar d).toLower :=
    @forall_ascii (fun c => ∀ d ∈ digit? 16 c, c = digitChar d ∨ c = (digitChar d).toLower)
      (by decide +kernel) c
  have hread : ∀ d < 16, digit? 16 (digitChar d) = some d ∧
      digit? 16 (digitChar d).toLower = some d := by decide
  rw [digit?_eq_filter hb, Option.filter_eq_some_iff, decide_eq_true_iff, and_comm]
  refine and_congr_right fun hd => ⟨fun h => ?_, fun h => ?_⟩
  · exact hwritten (toNat_lt_of_digit? h) d h
  · rcases h with rfl | rfl
    · exact (hread d (by omega)).1
    · exact (hread d (by omega)).2

theorem Writes.visible {b : Nat} (hb : b ≤ 16) {c : Char} {d : Nat} (h : Writes b c d) :
    Visible c := by
  have hvisible : ∀ d < 16, Visible (digitChar d) ∧ Visible (digitChar d).toLower := by decide
  obtain ⟨hd, rfl | rfl⟩ := h
  · exact (hvisible d (by omega)).1
  · exact (hvisible d (by omega)).2

/-! ### Runs -/

/-- A **run** of digits, with single underscores between them. -/
inductive Run (b : Nat) : List Char → List Nat → Prop
  | last {c : Char} {d : Nat} (h : Writes b c d) : Run b [c] [d]
  | digit {c : Char} {d : Nat} {s : List Char} {ds : List Nat} (h : Writes b c d)
      (hs : Run b s ds) : Run b (c :: s) (d :: ds)
  | underscore {c : Char} {d : Nat} {s : List Char} {ds : List Nat} (h : Writes b c d)
      (hs : Run b s ds) : Run b (c :: '_' :: s) (d :: ds)

namespace Run

variable {b : Nat} {s : List Char} {ds : List Nat}

theorem exists_cons (h : Run b s ds) : ∃ c s' d, s = c :: s' ∧ Writes b c d := by
  cases h with
  | last h => exact ⟨_, _, _, rfl, h⟩
  | digit h _ => exact ⟨_, _, _, rfl, h⟩
  | underscore h _ => exact ⟨_, _, _, rfl, h⟩

theorem mem (h : Run b s ds) : ∀ c ∈ s, c = '_' ∨ ∃ d, Writes b c d := by
  induction h with
  | last h => exact List.forall_mem_singleton.mpr (.inr ⟨_, h⟩)
  | digit h _ ih => exact List.forall_mem_cons.mpr ⟨.inr ⟨_, h⟩, ih⟩
  | underscore h _ ih =>
    exact List.forall_mem_cons.mpr ⟨.inr ⟨_, h⟩, List.forall_mem_cons.mpr ⟨.inl rfl, ih⟩⟩

end Run

theorem Run.of_writes {b : Nat} {s : List Char} {ds : List Nat}
    (h : List.Forall₂ (Writes b) s ds) (hne : s ≠ []) : Run b s ds := by
  induction h with
  | nil => exact absurd rfl hne
  | @cons c d s ds hd hs ih =>
    cases hs with
    | nil => exact .last hd
    | cons => exact .digit hd (ih (List.cons_ne_nil _ _))

theorem not_writes_underscore {b : Nat} (hb : b ≤ 16) (d : Nat) : ¬ Writes b '_' d := by
  have hnot : ∀ d < 16, '_' ≠ digitChar d ∧ '_' ≠ (digitChar d).toLower := by decide
  rintro ⟨hd, h | h⟩
  · exact (hnot d (by omega)).1 h
  · exact (hnot d (by omega)).2 h

theorem not_run_underscore {b : Nat} (hb : b ≤ 16) {s : List Char} {ds : List Nat} :
    ¬ Run b ('_' :: s) ds := by
  intro h
  obtain ⟨c, s', d, hs, hc⟩ := h.exists_cons
  cases hs
  exact not_writes_underscore hb d hc

/-- **A run is read** as its digits. -/
theorem digitRun?_eq_some_iff {b : Nat} (hb : b ≤ 16) {s : List Char} {ds : List Nat} :
    digitRun? b s = some ds ↔ Run b s ds := by
  constructor
  · intro h
    induction s using digitRun?.induct generalizing ds with
    | case1 => cases h
    | case2 c =>
      obtain ⟨d, hd, rfl⟩ := Option.map_eq_some_iff.mp h
      exact .last ((digit?_eq_some_iff hb).mp hd)
    | case3 c s ih =>
      rw [digitRun?] at h
      obtain ⟨d, hd, h⟩ := Option.bind_eq_some_iff.mp h
      obtain ⟨ds', hds, h⟩ := Option.bind_eq_some_iff.mp h
      cases h
      exact .underscore ((digit?_eq_some_iff hb).mp hd) (ih hds)
    | case4 c e s hne ih =>
      rw [digitRun?.eq_4 _ _ _ _ hne] at h
      obtain ⟨d, hd, h⟩ := Option.bind_eq_some_iff.mp h
      obtain ⟨ds', hds, h⟩ := Option.bind_eq_some_iff.mp h
      cases h
      exact .digit ((digit?_eq_some_iff hb).mp hd) (ih hds)
  · intro h
    induction h with
    | last h => rw [digitRun?, (digit?_eq_some_iff hb).mpr h]; rfl
    | underscore h _ ih => rw [digitRun?, (digit?_eq_some_iff hb).mpr h, ih]; rfl
    | @digit c d s ds h hs ih =>
      obtain ⟨e, s', d', rfl, he⟩ := hs.exists_cons
      have hne : e ≠ '_' := fun h => not_writes_underscore hb d' (h ▸ he)
      rw [digitRun?.eq_4 _ _ _ _ (fun h => absurd h hne), (digit?_eq_some_iff hb).mpr h, ih]
      rfl

/-! ### Numbers without a sign -/

def DecimalRun (s : List Char) (n : Nat) : Prop :=
  ∃ ds, Run 10 s ds ∧ ds.length ≤ digitLimit ∧ ofDigits 10 ds = n

/-- **Decimal digits** alone, at least one and not too many; leading zeros are allowed. -/
def Decimal (s : List Char) (n : Nat) : Prop :=
  ∃ ds, s ≠ [] ∧ List.Forall₂ (Writes 10) s ds ∧ ds.length ≤ digitLimit ∧ ofDigits 10 ds = n

def marks : List (Char × Nat) := [('x', 16), ('X', 16), ('o', 8), ('O', 8), ('b', 2), ('B', 2)]

/-- **A literal** without a sign: digits after the mark of their base, perhaps after an underscore,
or a decimal run that is not too long and does not begin with zero, unless it is zero. -/
inductive Literal : List Char → Nat → Prop
  | based {mark : Char} {b : Nat} {s : List Char} {ds : List Nat} (hmark : (mark, b) ∈ marks)
      (hs : Run b s ds) : Literal ('0' :: mark :: s) (ofDigits b ds)
  | underscore {mark : Char} {b : Nat} {s : List Char} {ds : List Nat} (hmark : (mark, b) ∈ marks)
      (hs : Run b s ds) : Literal ('0' :: mark :: '_' :: s) (ofDigits b ds)
  | decimal {s : List Char} {n : Nat} (hs : DecimalRun s n) (hzero : s.head? = some '0' → n = 0) :
      Literal s n

theorem decimalRun?_eq_some_iff {s : List Char} {n : Nat} :
    (decimalRun? s).map (ofDigits 10) = some n ↔ DecimalRun s n := by
  simp only [Option.map_eq_some_iff, decimalRun?, Option.filter_eq_some_iff,
    digitRun?_eq_some_iff (show 10 ≤ 16 by decide), decide_eq_true_iff, DecimalRun, and_assoc]

theorem not_writes_mark {mark : Char} {b : Nat} (hmark : (mark, b) ∈ marks) (d : Nat) :
    ¬ Writes 10 mark d := by
  have hnot : ∀ m ∈ marks, ∀ d < 10, ¬ Writes 10 m.1 d := by decide
  exact fun h => hnot (mark, b) hmark d h.1 h

theorem DecimalRun.not_marked {mark : Char} {b : Nat} (hmark : (mark, b) ∈ marks) {c : Char}
    {s : List Char} {n : Nat} : ¬ DecimalRun (c :: mark :: s) n := by
  rintro ⟨ds, hs, -⟩
  rcases hs.mem mark (by simp) with rfl | ⟨d, hd⟩
  · have hnot : ∀ m ∈ marks, m.1 ≠ '_' := by decide
    exact hnot _ hmark rfl
  · exact not_writes_mark hmark d hd

theorem base_le_of_mark {mark : Char} {b : Nat} (hmark : (mark, b) ∈ marks) : b ≤ 16 := by
  have hle : ∀ m ∈ marks, m.2 ≤ 16 := by decide
  exact hle _ hmark

theorem literal_based_iff {mark : Char} {b : Nat} (hmark : (mark, b) ∈ marks) {s : List Char}
    {n : Nat} : Literal ('0' :: mark :: s) n ↔
      (digitRun? b (skipUnderscore s)).map (ofDigits b) = some n := by
  have hb := base_le_of_mark hmark
  have hunique : ∀ m ∈ marks, ∀ m' ∈ marks, m.1 = m'.1 → m.2 = m'.2 := by decide
  simp only [Option.map_eq_some_iff, digitRun?_eq_some_iff hb]
  constructor
  · intro h
    cases h with
    | @based _ b' _ ds hmark' hs =>
      obtain rfl : b' = b := hunique _ hmark' _ hmark rfl
      refine ⟨ds, ?_, rfl⟩
      rw [skipUnderscore.eq_2 _ fun s' h => not_run_underscore hb (h ▸ hs)]
      exact hs
    | @underscore _ b' _ ds hmark' hs =>
      obtain rfl : b' = b := hunique _ hmark' _ hmark rfl
      exact ⟨ds, hs, rfl⟩
    | decimal hs _ => exact absurd hs (DecimalRun.not_marked hmark)
  · rintro ⟨ds, hs, rfl⟩
    cases s with
    | nil => exact .based hmark hs
    | cons c s =>
      by_cases hc : c = '_'
      · subst hc
        exact .underscore hmark hs
      · rw [skipUnderscore.eq_2 _ fun s' h => hc (List.cons.inj h).1] at hs
        exact .based hmark hs

theorem literal_unmarked_iff {s : List Char} {n : Nat}
    (h : ∀ m ∈ marks, ∀ rest, s ≠ '0' :: m.1 :: rest) :
    Literal s n ↔ DecimalRun s n ∧ (s.head? = some '0' → n = 0) := by
  constructor
  · intro hs
    cases hs with
    | based hmark _ => exact absurd rfl (h _ hmark _)
    | underscore hmark _ => exact absurd rfl (h _ hmark _)
    | decimal hs hzero => exact ⟨hs, hzero⟩
  · rintro ⟨hs, hzero⟩
    exact .decimal hs hzero

/-- **The literals without a sign** are read as what they write. -/
theorem magnitude?_eq_some_iff {s : List Char} {n : Nat} :
    magnitude? s = some n ↔ Literal s n := by
  fun_cases magnitude? s with
  | case1 s => exact (literal_based_iff (by decide)).symm
  | case2 s => exact (literal_based_iff (by decide)).symm
  | case3 s => exact (literal_based_iff (by decide)).symm
  | case4 s => exact (literal_based_iff (by decide)).symm
  | case5 s => exact (literal_based_iff (by decide)).symm
  | case6 s => exact (literal_based_iff (by decide)).symm
  | case7 s hx hX ho hO hb hB =>
    rw [literal_unmarked_iff, Option.filter_eq_some_iff, decimalRun?_eq_some_iff,
      List.head?_cons, decide_eq_true_iff]
    · simp
    · simp only [marks, List.forall_mem_cons, ne_eq, List.cons.injEq, true_and]
      exact ⟨hx, hX, ho, hO, hb, hB, fun _ h => absurd h List.not_mem_nil⟩
  | case8 s hx hX ho hO hb hB hzero =>
    rw [literal_unmarked_iff, decimalRun?_eq_some_iff]
    · refine (and_iff_left fun h => ?_).symm
      obtain ⟨rest, hrest⟩ := List.head?_eq_some_iff.mp h
      exact (hzero rest hrest).elim
    · exact fun m _ rest h => hzero _ h

/-! ### Signs and blanks -/

theorem isBlank_of_isPlainBlank (c : Char) (h : isPlainBlank c) : isBlank c := by
  simp only [isPlainBlank, isBlank, Bool.or_eq_true, Bool.and_eq_true, decide_eq_true_eq,
    beq_iff_eq] at h ⊢
  omega

/-- **A sign** may stand before what a grammar has. -/
inductive Signed (P : List Char → Nat → Prop) : List Char → Int → Prop
  | plain {s : List Char} {n : Nat} (h : P s n) : Signed P s n
  | plus {s : List Char} {n : Nat} (h : P s n) : Signed P ('+' :: s) n
  | minus {s : List Char} {n : Nat} (h : P s n) : Signed P ('-' :: s) (-n)

/-- Reads a number with a sign and blanks around it, given how it is read without. -/
def readSigned? (read? : List Char → Option Nat) (text : List Char) : Option Int := do
  let s ← ascii? text
  let (negative, body) := splitSign s
  let n ← read? body
  return signed negative n

theorem literal?_eq_readSigned? : literal? = readSigned? magnitude? := rfl

theorem decimal?_eq_readSigned? :
    decimal? = readSigned? fun s => (decimalRun? s).map (ofDigits 10) := by
  funext text
  simp only [decimal?, readSigned?, Option.bind_eq_bind, Option.bind_map]
  rfl

/-- A grammar whose words are unsigned and visible, and what reads it. -/
structure Reads (read? : List Char → Option Nat) (P : List Char → Nat → Prop) : Prop where
  iff : ∀ s n, read? s = some n ↔ P s n
  unsigned : ∀ c s n, P (c :: s) n → c ≠ '+' ∧ c ≠ '-'
  visible : ∀ s n, P s n → ∀ c ∈ s, Visible c

theorem Run.visible {b : Nat} (hb : b ≤ 16) {s : List Char} {ds : List Nat} (h : Run b s ds) :
    ∀ c ∈ s, Visible c := by
  intro c hc
  rcases h.mem c hc with rfl | ⟨d, hd⟩
  · decide
  · exact hd.visible hb

theorem Run.unsigned {b : Nat} (hb : b ≤ 16) {c : Char} {s : List Char} {ds : List Nat}
    (h : Run b (c :: s) ds) : c ≠ '+' ∧ c ≠ '-' := by
  have hnot : ∀ d < 16, digitChar d ≠ '+' ∧ digitChar d ≠ '-' ∧ (digitChar d).toLower ≠ '+' ∧
    (digitChar d).toLower ≠ '-' := by decide
  obtain ⟨c', s', d, hs, hd, hc⟩ := h.exists_cons
  obtain ⟨rfl, -⟩ := List.cons.inj hs
  obtain ⟨h₁, h₂, h₃, h₄⟩ := hnot d (by omega)
  rcases hc with rfl | rfl
  · exact ⟨h₁, h₂⟩
  · exact ⟨h₃, h₄⟩

theorem reads_decimalRun : Reads (fun s => (decimalRun? s).map (ofDigits 10)) DecimalRun where
  iff _ _ := decimalRun?_eq_some_iff
  unsigned _ _ _ := fun ⟨_, hs, _⟩ => hs.unsigned (by decide)
  visible _ _ := fun ⟨_, hs, _⟩ => hs.visible (by decide)

theorem reads_literal : Reads magnitude? Literal where
  iff _ _ := magnitude?_eq_some_iff
  unsigned c s n h := by
    cases h with
    | based => decide
    | underscore => decide
    | decimal hs _ => exact reads_decimalRun.unsigned _ _ _ hs
  visible s n h := by
    have hmarks : ∀ m ∈ marks, Visible m.1 := by decide
    have hzero : Visible '0' := by decide
    have hunderscore : Visible '_' := by decide
    cases h with
    | based hmark hs =>
      exact List.forall_mem_cons.mpr ⟨hzero, List.forall_mem_cons.mpr
        ⟨hmarks _ hmark, hs.visible (base_le_of_mark hmark)⟩⟩
    | underscore hmark hs =>
      exact List.forall_mem_cons.mpr ⟨hzero, List.forall_mem_cons.mpr ⟨hmarks _ hmark,
        List.forall_mem_cons.mpr ⟨hunderscore, hs.visible (base_le_of_mark hmark)⟩⟩⟩
    | decimal hs _ => exact reads_decimalRun.visible _ _ hs

/-- A character of ASCII is read as itself, and the last one of the table not at all. -/
theorem asciiChar?_eq_some_iff {c c' : Char} (hc : c.toNat < 128) :
    asciiChar? c = some c' ↔ c.toNat < 127 ∧ c' = c := by
  by_cases hlt : c.toNat < 127
  · rw [asciiChar?, if_pos hlt, and_iff_right hlt, Option.some.injEq, eq_comm]
  · obtain rfl : c = Char.ofNat 127 := by
      rw [← Char.ofNat_toNat c, show c.toNat = 127 by omega]
    have hnone : asciiChar? (Char.ofNat 127) = none := by decide
    rw [hnone]
    exact ⟨(nomatch ·), fun h => absurd h.1 hlt⟩

theorem mapM_asciiChar?_eq_some_iff {s : List Char} : ∀ {t : List Char},
    (∀ c ∈ s, c.toNat < 128) →
      (s.mapM asciiChar? = some t ↔ (∀ c ∈ s, c.toNat < 127) ∧ t = s) := by
  induction s with
  | nil => exact fun _ => by simp [eq_comm]
  | cons c s ih =>
    intro t hs
    obtain ⟨hc, htail⟩ := List.forall_mem_cons.mp hs
    rw [List.mapM_cons, List.forall_mem_cons]
    constructor
    · intro h
      obtain ⟨c', hc', h⟩ := Option.bind_eq_some_iff.mp h
      obtain ⟨t', ht', h⟩ := Option.bind_eq_some_iff.mp h
      obtain ⟨hlt, hhead⟩ := (asciiChar?_eq_some_iff hc).mp hc'
      obtain ⟨hlts, hrest⟩ := (ih htail).mp ht'
      cases h
      exact ⟨⟨hlt, hlts⟩, by rw [hhead, hrest]⟩
    · rintro ⟨⟨hlt, hlts⟩, rfl⟩
      rw [(asciiChar?_eq_some_iff hc).mpr ⟨hlt, rfl⟩, (ih htail).mpr ⟨hlts, rfl⟩]
      rfl

theorem splitSign_of_unsigned {c : Char} {s : List Char} (h : c ≠ '+' ∧ c ≠ '-') :
    splitSign (c :: s) = (false, c :: s) :=
  splitSign.eq_3 _ (fun _ hs => h.2 (List.cons.inj hs).1) fun _ hs => h.1 (List.cons.inj hs).1

namespace Reads

variable {read? : List Char → Option Nat} {P : List Char → Nat → Prop} (h : Reads read? P)
include h

theorem signed_iff {s : List Char} {n : Int} : Signed P s n ↔
    ∃ m, read? (splitSign s).2 = some m ∧ signed (splitSign s).1 m = n := by
  simp only [h.iff]
  constructor
  · intro hs
    cases hs with
    | @plain s m hs =>
      cases s with
      | nil => exact ⟨m, hs, rfl⟩
      | cons c s =>
        rw [splitSign_of_unsigned (h.unsigned _ _ _ hs)]
        exact ⟨m, hs, rfl⟩
    | plus hs => exact ⟨_, hs, rfl⟩
    | minus hs => exact ⟨_, hs, rfl⟩
  · rintro ⟨m, hs, rfl⟩
    revert hs
    fun_cases splitSign s with
    | case1 s => exact .minus
    | case2 s => exact .plus
    | case3 s => exact .plain

theorem visible_of_signed {s : List Char} {n : Int} (hs : Signed P s n) : ∀ c ∈ s, Visible c := by
  cases hs with
  | plain hs => exact h.visible _ _ hs
  | plus hs => exact List.forall_mem_cons.mpr ⟨by decide, h.visible _ _ hs⟩
  | minus hs => exact List.forall_mem_cons.mpr ⟨by decide, h.visible _ _ hs⟩

/-- **With a sign and blanks**: of a text in ASCII that has no character above the visible ones,
what is left without the blanks around it is read. -/
theorem readSigned?_eq_some_iff {s : List Char} (hs : ∀ c ∈ s, c.toNat < 128) {n : Int} :
    readSigned? read? s = some n ↔
      (∀ c ∈ s, c.toNat < 127) ∧ Signed P (trimBy isPlainBlank s) n := by
  rw [h.signed_iff]
  constructor
  · intro hread
    obtain ⟨t, ht, hread⟩ := Option.bind_eq_some_iff.mp hread
    obtain ⟨u, hu, htrim⟩ := Option.map_eq_some_iff.mp ht
    obtain ⟨hlt, hsame⟩ := (mapM_asciiChar?_eq_some_iff hs).mp hu
    obtain ⟨m, hm, hsigned⟩ := Option.bind_eq_some_iff.mp hread
    rw [hsame] at htrim
    rw [htrim]
    exact ⟨hlt, m, hm, Option.some.inj hsigned⟩
  · rintro ⟨hlt, m, hm, rfl⟩
    have hascii : ascii? s = some (trimBy isPlainBlank s) := by
      rw [ascii?, (mapM_asciiChar?_eq_some_iff hs).mpr ⟨hlt, rfl⟩]
      rfl
    simp only [readSigned?, hascii, Option.bind_eq_bind, Option.bind_some, hm]
    rfl

/-- **Without blanks around it** a text is read if it is a word. -/
theorem readSigned?_bare {s : List Char} (hs : ∀ c ∈ s, c.toNat < 128) (hbare : Bare isBlank s)
    {n : Int} : readSigned? read? s = some n ↔ Signed P s n := by
  rw [h.readSigned?_eq_some_iff hs, (hbare.mono isBlank_of_isPlainBlank).trimBy_eq]
  exact and_iff_right_of_imp fun hsigned c hc => (h.visible_of_signed hsigned c hc).1

end Reads

end Numeral

end EventDialects
