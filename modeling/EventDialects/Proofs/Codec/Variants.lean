import EventDialects.Proofs.Codec.Decoding

/-!
# Raw numbers and accepted variants

A decoder turns the raw numbers of its domain into variants, and accepts variants to turn back.
Here both sides are said without the decoder: the raw numbers by members and by bits, what is
accepted by members alone, and the variant of a number by the members that it holds.  Between the
two sides decoding and encoding are inverse to each other, a set of flags being the same in every
order and of either sort.

* `Family.and_mask_eq_iff`: a number is within the mask if each of its bits is a member's.
* `Decoder.domain_iff_hasVariant`: **the raw numbers** of a decoder.
* `Decoder.accepts_iff_isVariant`: **the variants** that a decoder accepts.
* `Decoder.showsAs_variantOf`: the variant of a raw number holds the members whose bits it has.
* `Decoder.bijective`: **a decoder is a bijection** between the two, but for raw numbers too long
  to be printed, which are not refused.
-/

namespace EventDialects

open Text (beyondPrint not_writable_beyondPrint)
open Value (variants not_printable_beyondPrint)

namespace Family

theorem bits_eq_raws {f : Family} (h : ∀ raw ∈ f.raws, isBit raw) : f.bits = f.raws :=
  List.filter_eq_self.mpr h

theorem testBit_mask {f : Family} {k : Nat} :
    f.mask.testBit k ↔ ((Nat.pow 2 k : Nat) : Int) ∈ f.bits := by
  rw [mask, testBit_joinBits]
  constructor
  · rintro ⟨raw, hraw, hk⟩
    exact eq_pow_of_testBit hraw hk ▸ hraw
  · intro hraw
    exact ⟨_, hraw, testBit_toNat_pow_self k⟩

theorem and_mask_eq_iff {f : Family} {n : Nat} :
    n &&& f.mask = n ↔ ∀ k, n.testBit k → ((Nat.pow 2 k : Nat) : Int) ∈ f.bits := by
  constructor
  · intro h k hk
    rw [← h, Nat.testBit_and, Bool.and_eq_true] at hk
    exact testBit_mask.mp hk.2
  · intro h
    refine Nat.eq_of_testBit_eq fun k => ?_
    rw [Bool.eq_iff_iff, Nat.testBit_and, Bool.and_eq_true]
    exact and_iff_left_of_imp fun hk => testBit_mask.mpr (h k hk)

end Family

namespace Decoder

/-! ### The two sides -/

/-- A decoder is **proper** if its family is of the sort that it is for: plain for a choice, and
single bits, each of them once, for a set of flags. -/
def Proper : Decoder → Prop
  | .choice _ family => family.combines = false
  | .flagSet _ family => (∀ raw ∈ family.raws, isBit raw) ∧ family.raws.Nodup

/-- A raw number **has a variant** if it is a member's, or, for a set of flags, if it is not negative
and each of its bits is a member's. -/
def HasVariant : Decoder → Int → Prop
  | .choice _ family, n => n ∈ family.raws
  | .flagSet _ family, n =>
    0 ≤ n ∧ ∀ k, n.toNat.testBit k → ((Nat.pow 2 k : Nat) : Int) ∈ family.raws

/-- The **variants** of a decoder are the members of its family, or, for a set of flags, the sets of
its members, of either sort. -/
def IsVariant : Decoder → Value → Prop
  | .choice _ family, v => ∃ raw ∈ family.raws, v = .variant family raw
  | .flagSet _ family, v => ∃ xs, v.elements? = some xs ∧
    ∀ x ∈ xs, ∃ raw ∈ family.raws, x = .variant family raw

/-- A raw number **shows as** its member, or, for a set of flags, as the frozen set of the members
whose bits it has, each of them once. -/
def ShowsAs : Decoder → Int → Value → Prop
  | .choice _ family, n, v => v = .variant family n
  | .flagSet _ family, n, v => ∃ raws, v = .frozenset (variants family raws) ∧ raws.Nodup ∧
    ∀ raw, raw ∈ raws ↔ raw ∈ family.raws ∧ ∃ k, raw = (Nat.pow 2 k : Nat) ∧ n.toNat.testBit k

instance : DecidablePred Proper
  | .choice _ family => inferInstanceAs (Decidable (family.combines = false))
  | .flagSet _ family =>
    inferInstanceAs (Decidable ((∀ raw ∈ family.raws, isBit raw) ∧ family.raws.Nodup))

theorem Proper.single {d : Decoder} (hd : d.Proper) : d.Single := by
  cases d with
  | choice => exact hd
  | flagSet => exact trivial

/-- **The raw numbers** of a proper decoder are those that have a variant. -/
theorem domain_iff_hasVariant {d : Decoder} (hd : d.Proper) {n : Int} :
    d.Domain n ↔ d.HasVariant n := by
  cases d with
  | choice => exact Iff.rfl
  | flagSet name family =>
    obtain ⟨hbits, -⟩ := hd
    rw [Domain, HasVariant, Family.and_mask_eq_iff, Family.bits_eq_raws hbits]

/-- **The variants** of a proper decoder are what it accepts: no combination, no empty one, and no
member of another family. -/
theorem accepts_iff_isVariant {d : Decoder} (hd : d.Proper) {v : Value} :
    d.accepts v ↔ d.IsVariant v := by
  cases d with
  | choice name family =>
    have hplain : family.combines = false := hd
    rw [accepts_choice_iff, IsVariant]
    simp only [hplain, Bool.false_eq_true, false_or]
    exact exists_congr fun raw => and_comm
  | flagSet name family =>
    obtain ⟨hbits, -⟩ := hd
    rw [accepts_flagSet_iff, IsVariant, Family.bits_eq_raws hbits]
    constructor
    · rintro ⟨raws, hv, hraws⟩
      refine ⟨_, hv, fun x hx => ?_⟩
      obtain ⟨raw, hraw, rfl⟩ := List.mem_map.mp hx
      exact ⟨raw, hraws raw hraw, rfl⟩
    · rintro ⟨xs, hv, hxs⟩
      have hmembers : ∀ x ∈ xs, isMember family x := by
        intro x hx
        obtain ⟨raw, hraw, rfl⟩ := hxs x hx
        exact isMember_iff.mpr ⟨raw, Family.bits_eq_raws hbits ▸ hraw, rfl⟩
      obtain ⟨raws, rfl, hraws⟩ := exists_variants_of_members hmembers
      exact ⟨raws, hv, Family.bits_eq_raws hbits ▸ hraws⟩

theorem showsAs_variantOf {d : Decoder} (hd : d.Proper) (n : Int) : d.ShowsAs n (d.variantOf n) := by
  cases d with
  | choice => rfl
  | flagSet name family =>
    obtain ⟨hbits, hnodup⟩ := hd
    have hraws := Family.bits_eq_raws hbits
    refine ⟨family.bitsOf n, rfl, ?_, fun raw => ?_⟩
    · rw [Family.bitsOf, hraws]
      exact hnodup.filter _
    · rw [Family.mem_bitsOf, hraws]
      refine and_congr_right fun hraw => ?_
      constructor
      · intro hshares
        obtain ⟨k, rfl⟩ := isBit_iff.mp (hbits raw hraw)
        rw [sharesBit_two_pow] at hshares
        exact ⟨k, rfl, hshares⟩
      · rintro ⟨k, rfl, hk⟩
        rw [sharesBit_two_pow]
        exact hk

/-! ### Between the two sides -/

/-- The number of an accepted variant is one that has a variant, and decodes to an equal one. -/
theorem exists_decode_of_accepts {d : Decoder} (hd : d.Proper) {v : Value} (ha : d.accepts v) :
    ∃ n w, d.encode v = .ok n ∧ d.HasVariant n ∧ d.decode (.int n) = .ok w ∧ w.equal v := by
  obtain ⟨n, hn⟩ := exists_encode_of_accepts ha
  obtain ⟨w, hw, halike⟩ := decode_of_encode hd.single ha hn
  exact ⟨n, w, hn, (domain_iff_hasVariant hd).mp (decode_int_eq_ok_iff.mp hw).1, hw,
    Value.equal_symm halike.equal⟩

/-- **A decoder is a bijection** between its raw numbers and the variants that it accepts.

* A raw number that has a variant decodes to it: it holds the members that the number says, it is
  accepted, and it encodes to the number.  Every other whole number, negative or positive, is
  refused as having no variant if it can be printed.  If it cannot, there is no refusal: its message
  would have to name the number.
* The members of the family, or the sets of its members, are accepted and nothing else is; what is
  accepted encodes to a raw number that decodes to an equal value. -/
theorem bijective {d : Decoder} (hd : d.Proper) :
    (∀ (raw : Value) (n : Int), raw.integer? = some n →
      (d.HasVariant n → ∃ v, d.decode raw = .ok v ∧ d.ShowsAs n v ∧ d.accepts v ∧
        d.encode v = .ok n) ∧
      (¬ d.HasVariant n →
        (raw.printable → d.decode raw = .error (.refused (.unknownVariant d.name raw))) ∧
        (raw.printable = false → d.decode raw = misused .tooLong))) ∧
    ∀ v : Value, (d.accepts v ↔ d.IsVariant v) ∧
      (d.accepts v → ∃ n w, d.encode v = .ok n ∧ d.HasVariant n ∧ d.decode (.int n) = .ok w ∧
        w.equal v) := by
  refine ⟨fun raw n hraw => ⟨fun hn => ?_, fun hn => ?_⟩,
    fun v => ⟨accepts_iff_isVariant hd, exists_decode_of_accepts hd⟩⟩
  · have hdomain := (domain_iff_hasVariant hd).mpr hn
    obtain ⟨haccepts, hencode⟩ := encode_of_decode (decode_int_eq_ok_iff.mpr ⟨hdomain, rfl⟩)
    exact ⟨d.variantOf n, decode_of_domain hraw hdomain, showsAs_variantOf hd n, haccepts, hencode⟩
  · rw [decode_of_not_domain hraw fun hdomain => hn ((domain_iff_hasVariant hd).mp hdomain)]
    exact ⟨fun hprint => refuse_of_printable hprint, fun hprint => refuse_of_not_printable hprint⟩

/-- A raw number that is no member's and too long to be printed is not refused as having no
variant. -/
theorem not_refused_beyondPrint :
    let d := Decoder.choice "cannon_types" .cannonType
    d.Proper ∧ ¬ d.HasVariant beyondPrint ∧ d.decode (.int beyondPrint) = misused .tooLong ∧
      d.decode (.int beyondPrint) ≠
        .error (.refused (.unknownVariant d.name (.int beyondPrint))) := by
  intro d
  have hdomain : ¬ d.Domain beyondPrint :=
    fun h => not_writable_beyondPrint (writable_of_domain (.tail _ (.head _)) h)
  have hdecode : d.decode (.int beyondPrint) = misused .tooLong := by
    rw [decode_of_not_domain (n := beyondPrint) rfl hdomain]
    exact refuse_of_not_printable not_printable_beyondPrint
  refine ⟨rfl, hdomain, hdecode, ?_⟩
  rw [hdecode]
  exact fun h => nomatch h

/-- Two flags, a bit that is no flag's, no whole domain below zero, a number that is too long; and of
the sets of flags one with a member twice, and one with a combination. -/
theorem bijective_battleFlags :
    let d := Decoder.flagSet "battle_flags" .battleFlag
    d.Proper ∧
      (∃ v, d.decode (.int 96) = .ok v ∧ d.ShowsAs 96 v ∧ d.accepts v ∧ d.encode v = .ok 96) ∧
      d.decode (.int 256) = .error (.refused (.unknownVariant "battle_flags" (.int 256))) ∧
      d.decode (.int (-1)) = .error (.refused (.unknownVariant "battle_flags" (.int (-1)))) ∧
      d.decode (.int (-beyondPrint)) = misused .tooLong ∧
      (∃ n w, d.encode (.set (variants .battleFlag [64, 32, 64])) = .ok n ∧ d.HasVariant n ∧
        d.decode (.int n) = .ok w ∧ w.equal (.set (variants .battleFlag [64, 32, 64]))) ∧
      ¬ d.IsVariant (.set (variants .battleFlag [96])) := by
  intro d
  have hd : d.Proper := by decide +kernel
  obtain ⟨hraws, hvariants⟩ := bijective hd
  refine ⟨hd, ?_, ?_, ?_, ?_, ?_, ?_⟩
  · obtain ⟨hdecoded, -⟩ := hraws (.int 96) 96 rfl
    exact hdecoded ((domain_iff_hasVariant hd).mp ⟨by decide, by decide +kernel⟩)
  · obtain ⟨-, hrefused⟩ := hraws (.int 256) 256 rfl
    refine (hrefused fun hn => ?_).1 rfl
    obtain ⟨-, hmask⟩ := (domain_iff_hasVariant hd).mpr hn
    revert hmask
    decide +kernel
  · obtain ⟨-, hrefused⟩ := hraws (.int (-1)) (-1) rfl
    exact (hrefused fun hn => absurd hn.1 (by decide)).1 rfl
  · obtain ⟨-, hrefused⟩ := hraws (.int (-beyondPrint)) (-beyondPrint) rfl
    refine (hrefused fun hn => ?_).2 ?_
    · have hpositive : 0 < beyondPrint := Int.natCast_pos.mpr (Text.firstBeyond_pos _)
      exact absurd hn.1 (by omega)
    · have hsame : Text.writable (-beyondPrint) = Text.writable beyondPrint := by
        rw [Text.writable, Text.writable, Int.natAbs_neg]
      exact hsame.trans not_printable_beyondPrint
  · obtain ⟨-, hencoded⟩ := hvariants (.set (variants .battleFlag [64, 32, 64]))
    exact hencoded (by decide +kernel)
  · obtain ⟨hiff, -⟩ := hvariants (.set (variants .battleFlag [96]))
    rw [← hiff]
    decide +kernel

end Decoder

end EventDialects
