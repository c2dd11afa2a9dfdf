import EventDialects.CommandLine.Answer
import EventDialects.Proofs.Numeral.Reading
import EventDialects.Proofs.Registry.Loading

/-!
# Listed codes

A listing names each event by its code in hexadecimal, and a code is what the decode command asks
for.  The text of a code is `0x` and at least two characters, of which the sign is one: it stands
between the mark of the base and the digits.  So a code that is not negative is written as a
literal, and a negative one is no number at all, since a sign may stand only before the mark.

* `Numeral.literal_codeText`: the text of a code that is not negative is a literal for it.
* `Numeral.not_signed_codeText`: the text of a negative code writes no number.
* `numberOf_codeText`: **what the text of a code is read as**.
* `CommandLine.decode_listed`: **which listed events the decode command can be asked for**.
-/

namespace EventDialects

open Text

/-! ### The text of a code -/

namespace Numeral

theorem toList_codeText (n : Int) : (codeText n).toList =
    '0' :: 'x' :: (List.replicate (2 - (intChars 16 n).length) '0' ++ intChars 16 n) := by
  simp only [codeText, padLeft, hex, String.length_ofList, String.toList_ofList,
    String.toList_append]
  rfl

theorem length_natChars_pos (b n : Nat) : 0 < (natChars b n).length := by
  rw [natChars, List.length_map]
  exact List.length_pos_iff.mpr (digits_ne_nil b n)

/-- The sign of a negative code and a digit are two characters, so there are no zeros. -/
theorem toList_codeText_negSucc (n : Nat) :
    (codeText (.negSucc n)).toList = '0' :: 'x' :: '-' :: natChars 16 (n + 1) := by
  have hlength : 2 - (intChars 16 (.negSucc n)).length = 0 := by
    have hpos := length_natChars_pos 16 (n + 1)
    simp only [intChars, List.length_cons]
    omega
  rw [toList_codeText, hlength]
  rfl

/-- **A code that is not negative** is written as a literal. -/
theorem literal_codeText (n : Nat) : Literal (codeText n).toList n := by
  have hmark : ('x', 16) ∈ marks := .head _
  have hrun (k : Nat) := Run.of_writes (writes_padded (b := 16) (by decide) n k)
    (padded_ne_nil 16 n k)
  have hliteral (k : Nat) := Literal.based hmark (hrun k)
  simp only [ofDigits_zeros_append, ofDigits_digits (show 2 ≤ 16 by decide)] at hliteral
  rw [toList_codeText]
  exact hliteral _

/-- **A negative code** is not written as a number: what follows the mark is no digit. -/
theorem not_signed_codeText (n : Nat) (m : Int) :
    ¬ (Signed Decimal (codeText (.negSucc n)).toList m ∨
      Signed Literal (codeText (.negSucc n)).toList m) := by
  have hmark : ('x', 16) ∈ marks := .head _
  rw [toList_codeText_negSucc]
  rintro (h | h)
  · cases h with
    | plain h => exact DecimalRun.not_marked hmark h.decimalRun
  · cases h with
    | plain h =>
      cases h with
      | based hmark' hs => exact (hs.unsigned (base_le_of_mark hmark')).2 rfl
      | decimal hs _ => exact DecimalRun.not_marked hmark hs

theorem visible_codeText (n : Int) : ∀ c ∈ (codeText n).toList, Visible c := by
  have hpadded (n k : Nat) : ∀ c ∈ List.replicate k '0' ++ natChars 16 n, Visible c := by
    intro c hc
    obtain ⟨d, -, hd⟩ := exists_mem_of_forall₂ (writes_padded (b := 16) (by decide) n k) c hc
    exact hd.visible (by decide)
  have hzero : Visible '0' := by decide
  have hmark : Visible 'x' := by decide
  have hminus : Visible '-' := by decide
  cases n with
  | ofNat n =>
    rw [toList_codeText]
    exact List.forall_mem_cons.mpr ⟨hzero, List.forall_mem_cons.mpr ⟨hmark, hpadded n _⟩⟩
  | negSucc n =>
    rw [toList_codeText_negSucc]
    exact List.forall_mem_cons.mpr ⟨hzero, List.forall_mem_cons.mpr ⟨hmark,
      List.forall_mem_cons.mpr ⟨hminus, hpadded (n + 1) 0⟩⟩⟩

theorem numberOfText?_codeText {n m : Int} : numberOfText? (codeText n).toList = some m ↔
    Signed Decimal (codeText n).toList m ∨ Signed Literal (codeText n).toList m := by
  have hvisible := visible_codeText n
  have hascii : ∀ c ∈ (codeText n).toList, c.toNat < 128 := fun c hc =>
    Nat.lt_succ_of_lt (hvisible c hc).1
  have hstrip : strip (codeText n).toList = (codeText n).toList :=
    (bare_of_forall fun c hc => (hvisible c hc).2).trimBy_eq
  rw [numberOfText?_eq_some_iff hascii, hstrip]

end Numeral

open Numeral

/-- **What the text of a code is read as**: the code, unless it is negative. -/
theorem numberOf_codeText (n : Int) : numberOf (.str (codeText n)) =
    if n < 0 then .error (.refused (.input (.notANumber (.str (codeText n))))) else .ok n := by
  cases n with
  | ofNat n =>
    have hn : ¬ Int.ofNat n < 0 := Int.not_lt.mpr (Int.natCast_nonneg n)
    rw [if_neg hn, numberOf_str_eq_ok_iff, numberOfText?_codeText]
    exact .inr (.plain (literal_codeText n))
  | negSucc n =>
    rw [if_pos (Int.negSucc_lt_zero n)]
    refine numberOf_str_eq_error (Option.eq_none_iff_forall_ne_some.mpr fun m hm => ?_)
    exact not_signed_codeText n m (numberOfText?_codeText.mp hm)

/-! ### Events of a published table -/

theorem Registry.get_of_register {g g' : Registry} {r revision : Value} {t : Table}
    (h : g.register r t = .ok g') (hprint : revision.printable)
    (hrevision : Revision.ofValue revision = t.revision) : g'.get revision = .ok t.close := by
  obtain ⟨-, hnew, rfl⟩ := register_eq_ok_iff.mp h
  refine get_eq_ok_iff.mpr ⟨hprint, ?_⟩
  rw [hrevision, find?, List.find?_append, ← find?, hnew]
  simp [Table.close]

theorem Registry.resolve_of_register {g g' : Registry} {r revision : Value} {t : Table} {s : Schema}
    (ht : t.Reachable) (h : g.register r t = .ok g') (hprint : revision.printable)
    (hrevision : Revision.ofValue revision = t.revision) (hs : s ∈ t.schemas) :
    g'.resolve revision (.int s.code) = .ok s :=
  resolve_eq_ok_iff.mpr
    ⟨t.close, get_of_register h hprint hrevision, rfl, ht.coherent.close.byCode?_eq hs⟩

namespace CommandLine

theorem readNumbers_of_negative {n : Int} (h : n < 0) (operands : List String) :
    readNumbers (codeText n) operands =
      .error (.refused (.input (.notANumber (.str (codeText n))))) := by
  rw [readNumbers, numberOf_codeText, if_pos h]
  rfl

theorem readNumbers_of_nonneg {n : Int} (h : 0 ≤ n) {operands : List String} {ns : List Int}
    (hns : numbersOf (Value.ofTexts operands) = .ok ns) :
    readNumbers (codeText n) operands = .ok (n, ns) := by
  rw [readNumbers, numberOf_codeText, if_neg (Int.not_lt.mpr h), hns]
  rfl

/-- **Which listed events the decode command can be asked for.**  Take a table that a definition
makes and an event in it.  The line of the event begins with the text of its code.  If the code is
not negative, this text is a number, the code, and wherever the table is published the decode command
decodes this event.  If the code is negative, the text is no number, and the command answers so,
with the usage. -/
theorem decode_listed {definition : Value} {source : String} {t : Table}
    (h : Table.build definition source = .ok t) : ∀ s ∈ t.schemas,
      (∀ line, eventLine s = .ok line → ∃ rest, line = "  " ++ codeText s.code ++ "  " ++ rest) ∧
      (0 ≤ s.code → numberOf (.str (codeText s.code)) = .ok s.code ∧
        ∀ g g' : Registry, g.register (.revision t.revision) t = .ok g' →
          ∀ revision, Revision.ofText revision = t.revision →
            g'.resolve (.str revision) (.int s.code) = .ok s ∧
            ∀ format operands ns, numbersOf (Value.ofTexts operands) = .ok ns →
              decode g' format revision (codeText s.code) operands = .ofAttempt do
                recordText format (← s.decode (.list (ns.map .int)))) ∧
      (s.code < 0 →
        numberOf (.str (codeText s.code)) =
          .error (.refused (.input (.notANumber (.str (codeText s.code))))) ∧
        ∀ g format revision operands, decode g format revision (codeText s.code) operands =
          ⟨textOfLines ["Error: '" ++ codeText s.code ++ "' is not a number", ""] ++ usage,
            .ok 1⟩) := by
  intro s hs
  obtain ⟨hreachable, -⟩ := Table.build_reachable h
  refine ⟨fun line hline => ?_, fun hcode => ⟨?_, ?_⟩, fun hcode => ⟨?_, ?_⟩⟩
  · obtain ⟨slots, -, hline⟩ := Attempt.bind_eq_ok.mp hline
    obtain ⟨name, -, hline⟩ := Attempt.bind_eq_ok.mp hline
    cases hline
    exact ⟨name ++ " \x7b " ++ ", ".intercalate slots ++ " \x7d", by
      simp only [String.append_assoc]⟩
  · rw [numberOf_codeText, if_neg (Int.not_lt.mpr hcode)]
  · intro g g' hregister revision hrevision
    have hresolve : g'.resolve (.str revision) (.int s.code) = .ok s :=
      Registry.resolve_of_register hreachable hregister rfl hrevision hs
    refine ⟨hresolve, fun format operands ns hns => ?_⟩
    rw [decode, readNumbers_of_nonneg hcode hns]
    simp only [Registry.decode, hresolve]
    rfl
  · rw [numberOf_codeText, if_pos hcode]
  · intro g format revision operands
    rw [decode, readNumbers_of_negative hcode]
    rfl

/-- A dialect with a code on either side of zero. -/
def bothSigns : Value :=
  Bundled.fields [("revision", .str "FE14"), ("events", .map
    [Bundled.event 0x1000 "Turn" [Bundled.number "turn"], Bundled.event (-1) "Past" []])]

theorem decode_listed_bothSigns : ∃ t turn past g', Table.build bothSigns "fe14.yaml" = .ok t ∧
    t.schemas = [turn, past] ∧ Registry.empty.register (.revision t.revision) t = .ok g' ∧
    g'.resolve (.str "FE14") (.int 0x1000) = .ok turn ∧
    (decode g' .json "FE14" "0x1000" ["0x07"] = .ofAttempt do
      recordText .json (← turn.decode (.list [.int 7]))) ∧
    decode g' .json "FE14" "0x-1" [] =
      ⟨textOfLines ["Error: '0x-1' is not a number", ""] ++ usage, .ok 1⟩ := by
  have hload : ((Table.build bothSigns "fe14.yaml").toOption.map fun t =>
      (t.revision, t.schemas.map (·.code))) = some (⟨"FE14", ""⟩, [0x1000, -1]) := by
    decide +kernel
  obtain ⟨t, ht, hcodes⟩ := Option.map_eq_some_iff.mp hload
  replace ht := Attempt.eq_ok_of_toOption ht
  obtain ⟨hrevision, hcodes⟩ := Prod.mk.inj hcodes
  obtain ⟨turn, rest, hlist, hturn, hrest⟩ := List.map_eq_cons_iff.mp hcodes
  obtain ⟨past, rest, rfl, hpast, hrest⟩ := List.map_eq_cons_iff.mp hrest
  obtain rfl := List.map_eq_nil_iff.mp hrest
  have hregister : Registry.empty.register (.revision t.revision) t = .ok ⟨[t.close]⟩ :=
    Registry.register_eq_ok_iff.mpr ⟨rfl, rfl, rfl⟩
  refine ⟨t, turn, past, ⟨[t.close]⟩, ht, hlist, hregister, ?_⟩
  obtain ⟨-, hgiven, -⟩ := decode_listed ht turn (by rw [hlist]; exact .head _)
  obtain ⟨-, -, hrefused⟩ := decode_listed ht past (by rw [hlist]; exact .tail _ (.head _))
  rw [hturn] at hgiven
  rw [hpast] at hrefused
  obtain ⟨-, hpublished⟩ := hgiven (by decide)
  obtain ⟨-, hanswer⟩ := hrefused (by decide)
  have htext : codeText 0x1000 = "0x1000" := by decide +kernel
  have hnegative : codeText (-1) = "0x-1" := by decide +kernel
  obtain ⟨hresolve, hdecode⟩ := hpublished _ _ hregister "FE14" (by rw [hrevision]; decide +kernel)
  refine ⟨hresolve, ?_, ?_⟩
  · exact htext ▸ hdecode .json ["0x07"] [7] (by cbv)
  · exact hnegative ▸ hanswer ⟨[t.close]⟩ .json "FE14" []

/-- A listed code that is no number. -/
theorem listed_not_number : ∃ t, Table.build bothSigns "fe14.yaml" = .ok t ∧
    ∃ past ∈ t.schemas, eventLine past = .ok "  0x-1  Past         \x7b  \x7d" ∧
      numberOf (.str "0x-1") = .error (.refused (.input (.notANumber (.str "0x-1")))) := by
  have hload : ((Table.build bothSigns "fe14.yaml").toOption.bind fun t =>
      (t.byCode? (.int (-1))).bind fun past => (eventLine past).toOption) =
        some "  0x-1  Past         \x7b  \x7d" := by
    decide +kernel
  obtain ⟨t, ht, hload⟩ := Option.bind_eq_some_iff.mp hload
  obtain ⟨past, hpast, hline⟩ := Option.bind_eq_some_iff.mp hload
  refine ⟨t, Attempt.eq_ok_of_toOption ht, past, List.mem_of_find?_eq_some hpast,
    Attempt.eq_ok_of_toOption hline, ?_⟩
  exact numberOf_str_eq_error (by decide +kernel)

end CommandLine

end EventDialects
