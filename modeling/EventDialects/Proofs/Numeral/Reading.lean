import EventDialects.Definition.Dialect
import EventDialects.Proofs.List
import EventDialects.Proofs.Numeral.Grammar
import EventDialects.Registration

/-!
# Which texts are numbers

Two readers take a number from a text.  The key of an event in a dialect is a literal.  A number of
a registration may have leading zeros too: whether it is read in base ten or as a literal is decided
by a look at the text without any of its signs, while only one sign is allowed.  Here it is shown
for texts in ASCII that nothing comes of the difference.  A registration's number is a row of
decimal digits or a literal, with at most one sign, and what both readers accept they read alike.

* `numberOfText?_eq_some_iff`: **the texts that are numbers**, by the grammar.
* `signed_decimal_padded`: an integer's own text, with zeros after the sign.
* `signed_literal_of_codeOfKey`: the text of an event's key is a literal.
* `numberOf_text_exactly`: **what a number's text is read as, and what is refused**.
-/

namespace EventDialects

open Text Numeral

/-! ### Decimal digits alone -/

theorem isSome_decimalDigit?_iff {c : Char} (hc : c.toNat < 128) :
    (decimalDigit? c).isSome ↔ ∃ d, Writes 10 c d := by
  have hsame : (decimalDigit? c).isSome = (digit? 10 c).isSome :=
    @forall_ascii (fun c => (decimalDigit? c).isSome = (digit? 10 c).isSome) (by decide +kernel) c
      hc
  rw [hsame, Option.isSome_iff_exists]
  exact exists_congr fun d => digit?_eq_some_iff (by decide)

namespace Numeral

theorem Decimal.decimalRun {s : List Char} {n : Nat} (h : Decimal s n) : DecimalRun s n := by
  obtain ⟨ds, hne, hs, hlimit, hn⟩ := h
  exact ⟨ds, .of_writes hs hne, hlimit, hn⟩

theorem DecimalRun.decimal {s : List Char} {n : Nat} (h : DecimalRun s n)
    (hdigits : ∀ c ∈ s, ∃ d, Writes 10 c d) : Decimal s n := by
  obtain ⟨ds, hs, hlimit, hn⟩ := h
  have hne : s ≠ [] := by
    obtain ⟨c, s', -, hs, -⟩ := hs.exists_cons
    exact hs ▸ List.cons_ne_nil _ _
  refine ⟨ds, hne, ?_, hlimit, hn⟩
  clear hlimit hn hne
  induction hs with
  | last hd => exact .cons hd .nil
  | digit hd _ ih => exact .cons hd (ih (List.forall_mem_cons.mp hdigits).2)
  | underscore hd _ _ =>
    obtain ⟨d, hd⟩ := hdigits '_' (by simp)
    exact absurd hd (not_writes_underscore (by decide) d)

theorem Literal.decimal_of_digits {s : List Char} {n : Nat} (h : Literal s n)
    (hdigits : ∀ c ∈ s, ∃ d, Writes 10 c d) : Decimal s n := by
  cases h with
  | @based mark _ _ _ hmark _ =>
    obtain ⟨d, hd⟩ := hdigits mark (by simp)
    exact absurd hd (not_writes_mark hmark d)
  | @underscore mark _ _ _ hmark _ =>
    obtain ⟨d, hd⟩ := hdigits mark (by simp)
    exact absurd hd (not_writes_mark hmark d)
  | decimal hs _ => exact hs.decimal hdigits

theorem Decimal.unsigned {c : Char} {s : List Char} {n : Nat} (h : Decimal (c :: s) n) :
    c ≠ '+' ∧ c ≠ '-' := reads_decimalRun.unsigned _ _ _ h.decimalRun

theorem Decimal.digits {s : List Char} {n : Nat} (h : Decimal s n) :
    ∀ c ∈ s, ∃ d, Writes 10 c d := by
  obtain ⟨ds, -, hs, -⟩ := h
  intro c hc
  obtain ⟨d, -, hd⟩ := exists_mem_of_forall₂ hs c hc
  exact ⟨d, hd⟩

theorem Decimal.ne_nil {s : List Char} {n : Nat} (h : Decimal s n) : s ≠ [] := by
  obtain ⟨_, hne, -⟩ := h
  exact hne

theorem Signed.exists_dropWhile {P : List Char → Nat → Prop}
    (hP : ∀ c s n, P (c :: s) n → c ≠ '+' ∧ c ≠ '-') {s : List Char} {n : Int}
    (h : Signed P s n) : (∃ m, P (s.dropWhile isSign) m) ∧
      ∀ Q : List Char → Nat → Prop,
        (∀ m, P (s.dropWhile isSign) m → Q (s.dropWhile isSign) m) → Signed Q s n := by
  have hbody {s : List Char} {m : Nat} (hs : P s m) : s.dropWhile isSign = s := by
    cases s with
    | nil => rfl
    | cons c s =>
      obtain ⟨hplus, hminus⟩ := hP c s m hs
      exact List.dropWhile_cons_of_neg (by simp [isSign, hplus, hminus])
  cases h with
  | plain hs =>
    rw [hbody hs]
    exact ⟨⟨_, hs⟩, fun Q himp => .plain (himp _ hs)⟩
  | plus hs =>
    rw [List.dropWhile_cons_of_pos (by decide), hbody hs]
    exact ⟨⟨_, hs⟩, fun Q himp => .plus (himp _ hs)⟩
  | minus hs =>
    rw [List.dropWhile_cons_of_pos (by decide), hbody hs]
    exact ⟨⟨_, hs⟩, fun Q himp => .minus (himp _ hs)⟩

theorem Signed.decimalRun {s : List Char} {n : Int} (h : Signed Decimal s n) :
    Signed DecimalRun s n := by
  obtain ⟨-, himp⟩ := h.exists_dropWhile fun _ _ _ => Decimal.unsigned
  exact himp DecimalRun fun m => Decimal.decimalRun

end Numeral

/-! ### The numbers of a registration -/

/-- What a registration's number looks at: whether a text without its signs is a row of decimal
digits. -/
def DigitsOnly (t : List Char) : Prop :=
  t.dropWhile isSign ≠ [] ∧ ∀ c ∈ t.dropWhile isSign, ∃ d, Writes 10 c d

section Strip

variable {s : List Char} (hs : ∀ c ∈ s, c.toNat < 128)
include hs

theorem ascii_strip : ∀ c ∈ strip s, c.toNat < 128 := by
  obtain ⟨before, after, hsplit, -⟩ := exists_trimBy isBlank s
  intro c hc
  refine hs c ?_
  rw [hsplit]
  exact List.mem_append_left _ (List.mem_append_right _ hc)

theorem digitsOnly_iff : DigitsOnly (strip s) ↔
    (!((strip s).dropWhile isSign).isEmpty &&
      ((strip s).dropWhile isSign).all fun c => (decimalDigit? c).isSome) := by
  have hascii : ∀ c ∈ (strip s).dropWhile isSign, c.toNat < 128 := fun c hc =>
    ascii_strip hs c (List.dropWhile_sublist _ |>.mem hc)
  rw [DigitsOnly, Bool.and_eq_true, List.all_eq_true, Bool.not_eq_true', List.isEmpty_eq_false_iff]
  exact and_congr_right fun _ => forall₂_congr fun c hc =>
    (isSome_decimalDigit?_iff (hascii c hc)).symm

theorem numberOfText?_of_digitsOnly (h : DigitsOnly (strip s)) {n : Int} :
    numberOfText? s = some n ↔ Signed DecimalRun (strip s) n := by
  rw [numberOfText?, if_pos ((digitsOnly_iff hs).mp h), decimal?_eq_readSigned?]
  exact reads_decimalRun.readSigned?_bare (ascii_strip hs) (bare_trimBy isBlank s)

theorem numberOfText?_of_not_digitsOnly (h : ¬ DigitsOnly (strip s)) {n : Int} :
    numberOfText? s = some n ↔ Signed Literal (strip s) n := by
  rw [numberOfText?, if_neg fun htest => h ((digitsOnly_iff hs).mpr htest), literal?_eq_readSigned?]
  exact reads_literal.readSigned?_bare (ascii_strip hs) (bare_trimBy isBlank s)

/-- **The texts that are numbers**: rows of decimal digits and literals, with at most one sign. -/
theorem numberOfText?_eq_some_iff {n : Int} : numberOfText? s = some n ↔
    Signed Decimal (strip s) n ∨ Signed Literal (strip s) n := by
  by_cases h : DigitsOnly (strip s)
  · rw [numberOfText?_of_digitsOnly hs h]
    constructor
    · intro hn
      obtain ⟨-, himp⟩ := hn.exists_dropWhile reads_decimalRun.unsigned
      exact .inl (himp Decimal fun m hm => hm.decimal h.2)
    · rintro (hn | hn)
      · exact hn.decimalRun
      · -- A literal without underscores and a mark is a row of decimal digits as well.
        obtain ⟨-, himp⟩ := hn.exists_dropWhile reads_literal.unsigned
        exact himp DecimalRun fun m hm => (hm.decimal_of_digits h.2).decimalRun
  · rw [numberOfText?_of_not_digitsOnly hs h]
    refine ⟨.inr, fun hn => hn.resolve_left fun hdecimal => h ?_⟩
    obtain ⟨⟨m, hm⟩, -⟩ := hdecimal.exists_dropWhile fun _ _ _ => Decimal.unsigned
    exact ⟨hm.ne_nil, hm.digits⟩

/-- **The text of an event's key** is a literal between blanks. -/
theorem signed_literal_of_codeOfKey {n : Int} (h : literal? s = some n) :
    Signed Literal (strip s) n := by
  rw [literal?_eq_readSigned?, reads_literal.readSigned?_eq_some_iff hs] at h
  obtain ⟨-, hn⟩ := h
  -- A literal has no blanks, so all that is blank around it has been stripped.
  have hbare : Bare isBlank (trimBy isPlainBlank s) := bare_of_forall fun c hc =>
    (reads_literal.visible_of_signed hn c hc).2
  obtain ⟨before, after, hsplit, hbefore, hafter⟩ := exists_trimBy isPlainBlank s
  have hstrip : strip s = trimBy isPlainBlank s := by
    rw [strip]
    conv_lhs => rw [hsplit]
    exact hbare.trimBy_append (fun c hc => isBlank_of_isPlainBlank c (hbefore c hc))
      fun c hc => isBlank_of_isPlainBlank c (hafter c hc)
  rw [hstrip]
  exact hn

end Strip

/-! ### Numbers that are written -/

namespace Text

theorem lt_of_mem_digitsWithin {b : Nat} (hb : 0 < b) (fuel : Nat) : ∀ n,
    ∀ d ∈ digitsWithin b fuel n, d < b := by
  induction fuel with
  | zero => exact fun n d hd => absurd hd List.not_mem_nil
  | succ fuel ih =>
    intro n d hd
    rw [digitsWithin] at hd
    split at hd
    · rw [List.mem_singleton.mp hd]
      assumption
    · rcases List.mem_append.mp hd with hd | hd
      · exact ih _ d hd
      · rw [List.mem_singleton.mp hd]
        exact Nat.mod_lt n hb

theorem digits_ne_nil (b n : Nat) : digits b n ≠ [] := by
  rw [digits, digitsWithin]
  split
  · exact List.cons_ne_nil _ _
  · simp

theorem ofDigits_zeros_append (b k : Nat) (ds : List Nat) :
    ofDigits b (List.replicate k 0 ++ ds) = ofDigits b ds := by
  induction k with
  | zero => rfl
  | succ k ih =>
    rw [List.replicate_succ, List.cons_append, ofDigits, List.foldl_cons, Nat.zero_mul]
    exact ih

/-- The characters of an integer in base ten, with zeros after the sign. -/
def paddedChars (k : Nat) : Int → List Char
  | .ofNat n => List.replicate k '0' ++ natChars 10 n
  | .negSucc n => '-' :: (List.replicate k '0' ++ natChars 10 (n + 1))

theorem paddedChars_zero (n : Int) : paddedChars 0 n = intChars 10 n := by
  cases n with
  | ofNat n => rfl
  | negSucc n => rfl

end Text

namespace Numeral

/-- The characters of a number in a base write its digits, with any zeros before them. -/
theorem writes_padded {b : Nat} (hb : 0 < b) (n k : Nat) : List.Forall₂ (Writes b)
    (List.replicate k '0' ++ natChars b n) (List.replicate k 0 ++ digits b n) := by
  induction k with
  | zero =>
    rw [List.replicate_zero, List.replicate_zero, List.nil_append, List.nil_append, natChars,
      List.forall₂_map_left_iff, List.forall₂_same]
    exact fun d hd => ⟨lt_of_mem_digitsWithin hb _ _ d hd, .inl rfl⟩
  | succ k ih =>
    have hzero : Writes b '0' 0 := ⟨hb, .inl rfl⟩
    exact .cons hzero ih

theorem padded_ne_nil (b n k : Nat) : List.replicate k '0' ++ natChars b n ≠ [] :=
  List.append_ne_nil_of_right_ne_nil _ (by simpa [natChars] using digits_ne_nil b n)

theorem decimal_natChars {n k : Nat} (h : k + (digits 10 n).length ≤ digitLimit) :
    Decimal (List.replicate k '0' ++ natChars 10 n) n := by
  refine ⟨List.replicate k 0 ++ digits 10 n, padded_ne_nil 10 n k, writes_padded (by decide) n k,
    ?_, ?_⟩
  · rwa [List.length_append, List.length_replicate]
  · rw [ofDigits_zeros_append, ofDigits_digits (by decide)]

/-- **An integer's own text**, with zeros after the sign, is a row of decimal digits with a sign. -/
theorem signed_decimal_padded {n : Int} {k : Nat}
    (h : k + (digits 10 n.natAbs).length ≤ digitLimit) : Signed Decimal (paddedChars k n) n := by
  cases n with
  | ofNat n => exact .plain (decimal_natChars h)
  | negSucc n => exact .minus (decimal_natChars h)

end Numeral

theorem numberOf_str_eq_ok {s : String} {n : Int} (h : numberOfText? s.toList = some n) :
    numberOf (.str s) = .ok n := by
  have hprint : (Value.str s).print = .ok s := rfl
  simp only [numberOf, hprint, h, bind, Except.bind]
  rfl

theorem numberOf_str_eq_error {s : String} (h : numberOfText? s.toList = none) :
    numberOf (.str s) = .error (.refused (.input (.notANumber (.str s)))) := by
  have hprint : (Value.str s).print = .ok s := rfl
  simp only [numberOf, hprint, h, bind, Except.bind]
  rfl

theorem numberOf_str_eq_ok_iff {s : String} {n : Int} :
    numberOf (.str s) = .ok n ↔ numberOfText? s.toList = some n := by
  refine ⟨fun hn => ?_, numberOf_str_eq_ok⟩
  cases h : numberOfText? s.toList with
  | none =>
    rw [numberOf_str_eq_error h] at hn
    cases hn
  | some m =>
    rw [numberOf_str_eq_ok h] at hn
    rw [Except.ok.inj hn]

theorem codeOfKey_str_eq_ok_iff {s : String} {n : Int} :
    codeOfKey (.str s) = .ok n ↔ literal? s.toList = some n := by
  rw [codeOfKey]
  cases literal? s.toList with
  | none => simp [misused]
  | some m => simp

theorem numberOf_of_signed_decimal {s : List Char} {n : Int} (h : Signed Decimal s n) :
    numberOf (.str (String.ofList s)) = .ok n := by
  have hvisible := reads_decimalRun.visible_of_signed h.decimalRun
  have hascii : ∀ c ∈ s, c.toNat < 128 := fun c hc => Nat.lt_succ_of_lt (hvisible c hc).1
  have hstrip : strip s = s := (bare_of_forall fun c hc => (hvisible c hc).2).trimBy_eq
  rw [numberOf_str_eq_ok_iff, String.toList_ofList, numberOfText?_eq_some_iff hascii, hstrip]
  exact .inl h

/-- **What a number's text is read as, and what is refused.**  A text in ASCII is the number that it
writes, between blanks, in decimal digits or as a literal, with at most one sign; it is refused as
no number if it writes none.  The text of an event's key, if it has a code, is the number of that
code.  An integer's own text is that integer, and so it is with zeros after the sign, if there are
not too many digits. -/
theorem numberOf_text_exactly :
    (∀ s : String, (∀ c ∈ s.toList, c.toNat < 128) →
      (∀ n, numberOf (.str s) = .ok n ↔
        Signed Decimal (strip s.toList) n ∨ Signed Literal (strip s.toList) n) ∧
      (numberOf (.str s) = .error (.refused (.input (.notANumber (.str s)))) ↔
        ∀ n, ¬ (Signed Decimal (strip s.toList) n ∨ Signed Literal (strip s.toList) n)) ∧
      ∀ n, codeOfKey (.str s) = .ok n → numberOf (.str s) = .ok n) ∧
    ∀ (n : Int) (k : Nat), k + (digits 10 n.natAbs).length ≤ digitLimit →
      numberOf (.str (decimal n)) = .ok n ∧
      numberOf (.str (String.ofList (paddedChars k n))) = .ok n := by
  constructor
  · intro s hs
    have hread (n : Int) : numberOf (.str s) = .ok n ↔
        Signed Decimal (strip s.toList) n ∨ Signed Literal (strip s.toList) n := by
      rw [numberOf_str_eq_ok_iff, numberOfText?_eq_some_iff hs]
    refine ⟨hread, ?_, fun n hn => ?_⟩
    · simp only [← hread]
      constructor
      · intro herror n hn
        cases herror.symm.trans hn
      · intro hnone
        refine numberOf_str_eq_error (Option.eq_none_iff_forall_ne_some.mpr fun n hn => ?_)
        exact hnone n (numberOf_str_eq_ok_iff.mpr hn)
    · rw [codeOfKey_str_eq_ok_iff] at hn
      exact (hread n).mpr (.inr (signed_literal_of_codeOfKey hs hn))
  · intro n k h
    refine ⟨?_, numberOf_of_signed_decimal (signed_decimal_padded h)⟩
    rw [decimal, ← paddedChars_zero]
    exact numberOf_of_signed_decimal (signed_decimal_padded (by omega))

/-- A literal between blanks, an integer with zeros, and two signs. -/
theorem numberOf_text_exactly_signs : numberOf (.str " +0x_1F\n") = .ok 31 ∧
    numberOf (.str "-007") = .ok (-7) ∧
    numberOf (.str "--7") = .error (.refused (.input (.notANumber (.str "--7")))) := by
  obtain ⟨htexts, hwritten⟩ := numberOf_text_exactly
  have hpadded : String.ofList (paddedChars 2 (-7)) = "-007" := by decide +kernel
  refine ⟨?_, hpadded ▸ (hwritten (-7) 2 (by decide +kernel)).2, ?_⟩
  · obtain ⟨hread, -⟩ := htexts " +0x_1F\n" (by simp)
    have hrun : Run 16 ['1', 'F'] [1, 15] := .digit (by decide) (.last (by decide))
    exact (hread 31).mpr (.inr (.plus (.underscore (.head _) hrun)))
  · obtain ⟨-, hrefused, -⟩ := htexts "--7" (by simp)
    refine hrefused.mpr fun n hn => ?_
    -- What is left after one sign begins with the other one.
    rcases hn with hn | hn
    · cases hn with
      | plain h => exact absurd rfl h.unsigned.2
      | minus h => exact absurd rfl h.unsigned.2
    · cases hn with
      | plain h => exact absurd rfl (reads_literal.unsigned _ _ _ h).2
      | minus h => exact absurd rfl (reads_literal.unsigned _ _ _ h).2

end EventDialects
