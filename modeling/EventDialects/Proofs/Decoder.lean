import EventDialects.Decoder
import EventDialects.Proofs.Value.Equality
import Mathlib.Data.Nat.Bitwise

/-!
# Decoders and their inverses

A decoder turns a raw number into a variant and back.  For a choice both ways are a look-up.  For a
set of flags they go through sums of bits: decoding filters the family's bits, encoding adds the
members of a set up again, in whatever order the set has them.

* `testBit_joinBits`: a sum has exactly the bits of its terms, so order and repetition are lost.
* `Family.joinBits_bitsOf`: **the bits of a number add up to its part within the mask**.
* `Family.mem_bitsOf_joinBits`: the bits of a sum of bits are its terms.
* `Decoder.encode_of_decode`: what decoding gives is accepted and encodes to the same number.
* `Decoder.decode_of_encode`: what is accepted and encoded decodes to a value alike.

Decoding builds frozen sets with their members in the family's order, so a set is not given back as
it was.  `Value.Alike` is the relation between the two: no slot tells such values apart.
-/

namespace EventDialects

/-! ### Sums of bits -/

theorem testBit_foldl_or (raws : List Int) (k : Nat) : ∀ sum : Nat,
    (raws.foldl (fun sum raw => sum ||| raw.toNat) sum).testBit k ↔
      sum.testBit k ∨ ∃ raw ∈ raws, raw.toNat.testBit k := by
  induction raws with
  | nil => intro sum; simp
  | cons raw raws ih =>
    intro sum
    rw [List.foldl_cons, ih, Nat.testBit_or, Bool.or_eq_true, List.exists_mem_cons_iff, or_assoc]

theorem testBit_joinBits {raws : List Int} {k : Nat} :
    (joinBits raws).testBit k ↔ ∃ raw ∈ raws, raw.toNat.testBit k := by
  rw [joinBits, testBit_foldl_or]
  simp

/-- A sum of bits depends on nothing but which bits are added. -/
theorem joinBits_congr {raws raws' : List Int} (h : ∀ raw, raw ∈ raws ↔ raw ∈ raws') :
    joinBits raws = joinBits raws' := by
  refine Nat.eq_of_testBit_eq fun k => ?_
  rw [Bool.eq_iff_iff, testBit_joinBits, testBit_joinBits]
  simp only [h]

theorem sharesBit_two_pow (n : Int) (k : Nat) :
    sharesBit n ((Nat.pow 2 k : Nat) : Int) = n.toNat.testBit k := by
  have hand : n.toNat &&& Nat.pow 2 k = (n.toNat.testBit k).toNat * 2 ^ k := Nat.and_two_pow _ _
  rw [sharesBit, Int.toNat_natCast, hand]
  cases n.toNat.testBit k <;> simp

namespace Family

theorem exists_pow_of_mem_bits {f : Family} {raw : Int} (h : raw ∈ f.bits) :
    ∃ k, raw = (Nat.pow 2 k : Nat) := isBit_iff.mp (List.mem_filter.mp h).2

theorem mem_bitsOf {f : Family} {n raw : Int} :
    raw ∈ f.bitsOf n ↔ raw ∈ f.bits ∧ sharesBit n raw := List.mem_filter

theorem eq_pow_of_testBit {f : Family} {raw : Int} {k : Nat} (h : raw ∈ f.bits)
    (hk : raw.toNat.testBit k) : raw = (Nat.pow 2 k : Nat) := by
  obtain ⟨j, rfl⟩ := exists_pow_of_mem_bits h
  rw [Int.toNat_natCast, show Nat.pow 2 j = 2 ^ j from rfl, Nat.testBit_two_pow] at hk
  rw [of_decide_eq_true hk]

theorem testBit_toNat_pow_self (k : Nat) : ((Nat.pow 2 k : Nat) : Int).toNat.testBit k := by
  rw [Int.toNat_natCast]
  exact Nat.testBit_two_pow_self

/-- A member has the bit `k` and is in a number exactly if that number has the bit `k`. -/
theorem sharesBit_iff_of_testBit {f : Family} {n raw : Int} {k : Nat} (h : raw ∈ f.bits)
    (hk : raw.toNat.testBit k) : sharesBit n raw ↔ n.toNat.testBit k := by
  rw [eq_pow_of_testBit h hk, sharesBit_two_pow]

/-- **The bits of a number add up to its part within the mask.** -/
theorem joinBits_bitsOf (f : Family) (n : Int) : joinBits (f.bitsOf n) = n.toNat &&& f.mask := by
  refine Nat.eq_of_testBit_eq fun k => ?_
  rw [Bool.eq_iff_iff, testBit_joinBits, Nat.testBit_and, Bool.and_eq_true, mask, testBit_joinBits]
  constructor
  · rintro ⟨raw, hraw, hk⟩
    obtain ⟨hbits, hn⟩ := mem_bitsOf.mp hraw
    exact ⟨(sharesBit_iff_of_testBit hbits hk).mp hn, raw, hbits, hk⟩
  · rintro ⟨hn, raw, hbits, hk⟩
    exact ⟨raw, mem_bitsOf.mpr ⟨hbits, (sharesBit_iff_of_testBit hbits hk).mpr hn⟩, hk⟩

theorem mem_bitsOf_joinBits {f : Family} {raws : List Int} (h : ∀ raw ∈ raws, raw ∈ f.bits)
    {raw : Int} : raw ∈ f.bitsOf (joinBits raws) ↔ raw ∈ raws := by
  rw [mem_bitsOf]
  constructor
  · rintro ⟨hraw, hs⟩
    obtain ⟨k, rfl⟩ := exists_pow_of_mem_bits hraw
    rw [sharesBit_two_pow, Int.toNat_natCast, testBit_joinBits] at hs
    obtain ⟨raw', hraw', hk⟩ := hs
    exact eq_pow_of_testBit (h raw' hraw') hk ▸ hraw'
  · intro hraw
    obtain ⟨k, rfl⟩ := exists_pow_of_mem_bits (h raw hraw)
    refine ⟨h _ hraw, ?_⟩
    rw [sharesBit_two_pow, Int.toNat_natCast, testBit_joinBits]
    exact ⟨_, hraw, testBit_toNat_pow_self k⟩

theorem joinBits_and_mask {f : Family} {raws : List Int} (h : ∀ raw ∈ raws, raw ∈ f.bits) :
    joinBits raws &&& f.mask = joinBits raws := by
  have hj := joinBits_bitsOf f (joinBits raws)
  rw [Int.toNat_natCast] at hj
  rw [← hj]
  exact joinBits_congr fun _ => mem_bitsOf_joinBits h

end Family

/-! ### Values alike -/

namespace Value

/-- Two values are **alike** if they are the same, or sets with the same elements, of whichever sort
and in whichever order. -/
inductive Alike : Value → Value → Prop
  | same (v : Value) : Alike v v
  | sets {v w : Value} {xs ys : List Value} (hv : v.elements? = some xs)
      (hw : w.elements? = some ys) (h : ∀ x, x ∈ xs ↔ x ∈ ys) : Alike v w

theorem Alike.equal {v w : Value} (h : v.Alike w) : v.equal w := by
  cases h with
  | same => exact equal_self v
  | @sets _ xs ys hv hw hmem =>
    exact (equal_iff_of_elements? hv).mpr ⟨ys, hw, fun a ha => ⟨a, (hmem a).mp ha, equal_self a⟩,
      fun b hb => ⟨b, (hmem b).mpr hb, equal_self b⟩⟩

/-- The variants of a family with some raw numbers. -/
def variants (family : Family) (raws : List Int) : List Value := raws.map (.variant family)

theorem mem_variants (family : Family) (raws : List Int) {raw : Int} :
    Value.variant family raw ∈ variants family raws ↔ raw ∈ raws := by
  simp [variants]

end Value

/-! ### The two sorts of decoder -/

namespace Decoder

open Value (variants mem_variants)

theorem decode_choice_eq_ok {name : String} {family : Family} {n : Int} {v : Value} :
    (Decoder.choice name family).decode (.int n) = .ok v ↔
      n ∈ family.raws ∧ v = .variant family n := by
  have hkey : Value.checkKey (.int n) = .ok () := Value.checkKey_eq_ok_iff.mpr rfl
  rw [decode, decodeChoice, hkey]
  simp only [bind, Except.bind, Value.equal_int]
  cases hr : family.raws.find? (· == n) with
  | none =>
    have hn : n ∉ family.raws := fun hn => by simpa using List.find?_eq_none.mp hr n hn
    simp [noVariant, Value.integer?, refuse, hn]
  | some r =>
    obtain rfl : r = n := by simpa using List.find?_some hr
    simp [pure, Except.pure, List.mem_of_find?_eq_some hr, eq_comm]

theorem decode_flagSet_eq_ok {name : String} {family : Family} {n : Int} {v : Value} :
    (Decoder.flagSet name family).decode (.int n) = .ok v ↔
      0 ≤ n ∧ n.toNat &&& family.mask = n.toNat ∧
        v = .frozenset (variants family (family.bitsOf n)) := by
  rw [decode, decodeFlags]
  simp only [Value.integer?]
  split
  · rename_i h
    simp only [noVariant, Value.integer?, refuse, reduceCtorEq, false_iff]
    rintro ⟨hn, hm, -⟩
    rcases h with h | h
    · omega
    · exact h hm
  · rename_i h
    rw [not_or, Int.not_lt, Decidable.not_not] at h
    simp [h, variants, eq_comm]

theorem isMember_iff {family : Family} {v : Value} :
    isMember family v ↔ ∃ raw ∈ family.bits, v = .variant family raw := by
  cases v with
  | variant f raw =>
    simp only [isMember, Bool.and_eq_true, beq_iff_eq, List.contains_iff_mem]
    constructor
    · rintro ⟨rfl, h⟩; exact ⟨raw, h, rfl⟩
    · rintro ⟨raw', h, he⟩; cases he; exact ⟨rfl, h⟩
  | _ => simp [isMember]

theorem exists_variants_of_members {family : Family} {xs : List Value}
    (h : ∀ x ∈ xs, isMember family x) :
    ∃ raws, xs = variants family raws ∧ ∀ raw ∈ raws, raw ∈ family.bits := by
  induction xs with
  | nil => exact ⟨[], rfl, fun _ h => nomatch h⟩
  | cons x xs ih =>
    obtain ⟨hx, hxs⟩ := List.forall_mem_cons.mp h
    obtain ⟨raw, hraw, rfl⟩ := isMember_iff.mp hx
    obtain ⟨raws, rfl, hraws⟩ := ih hxs
    exact ⟨raw :: raws, rfl, List.forall_mem_cons.mpr ⟨hraw, hraws⟩⟩

/-- A set of flags accepts the sets of its family's single members. -/
theorem accepts_flagSet_iff {name : String} {family : Family} {v : Value} :
    (Decoder.flagSet name family).accepts v ↔
      ∃ raws, v.elements? = some (variants family raws) ∧ ∀ raw ∈ raws, raw ∈ family.bits := by
  rw [accepts]
  cases hv : v.elements? with
  | none => simp
  | some xs =>
    simp only [Option.some.injEq, List.all_eq_true]
    constructor
    · exact exists_variants_of_members
    · rintro ⟨raws, rfl, h⟩ x hx
      obtain ⟨raw, hraw, rfl⟩ := List.mem_map.mp hx
      exact isMember_iff.mpr ⟨raw, h raw hraw, rfl⟩

theorem union_variants (family : Family) : ∀ (raws : List Int) (sum : Nat),
    union (variants family raws) sum =
      .ok ((raws.foldl (fun sum raw => sum ||| raw.toNat) sum : Nat) : Int) := by
  intro raws
  induction raws with
  | nil => intro sum; rfl
  | cons raw raws ih => intro sum; exact ih (sum ||| raw.toNat)

theorem encode_flagSet {name : String} {family f : Family} {v : Value} {raws : List Int}
    (h : v.elements? = some (variants f raws)) :
    (Decoder.flagSet name family).encode v = .ok (joinBits raws : Nat) := by
  cases v <;> simp only [Value.elements?, Option.some.injEq, reduceCtorEq] at h
  all_goals subst h; exact union_variants f raws 0

/-! ### Round trips -/

/-- **Decode, then encode**: a decoded value is accepted and encodes to the number it came from. -/
theorem encode_of_decode {d : Decoder} {n : Int} {v : Value} (h : d.decode (.int n) = .ok v) :
    d.accepts v ∧ d.encode v = .ok n := by
  cases d with
  | choice name family =>
    obtain ⟨hn, rfl⟩ := decode_choice_eq_ok.mp h
    exact ⟨accepts_choice_iff.mpr ⟨n, rfl, Or.inr hn⟩, rfl⟩
  | flagSet name family =>
    obtain ⟨hn, hm, rfl⟩ := decode_flagSet_eq_ok.mp h
    refine ⟨accepts_flagSet_iff.mpr ⟨_, rfl, fun raw hraw => (Family.mem_bitsOf.mp hraw).1⟩, ?_⟩
    rw [encode_flagSet rfl, Family.joinBits_bitsOf, hm, Int.toNat_of_nonneg hn]

theorem exists_encode_of_accepts {d : Decoder} {v : Value} (h : d.accepts v) :
    ∃ n, d.encode v = .ok n := by
  cases d with
  | choice name family =>
    obtain ⟨raw, rfl, -⟩ := accepts_choice_iff.mp h
    exact ⟨raw, rfl⟩
  | flagSet name family =>
    obtain ⟨raws, hv, -⟩ := accepts_flagSet_iff.mp h
    exact ⟨_, encode_flagSet hv⟩

/-- A decoder whose choices are single members: the family of a choice does not combine. -/
def Single : Decoder → Prop
  | .choice _ family => family.combines = false
  | .flagSet _ _ => True

theorem single_of_mem_all {d : Decoder} (h : d ∈ Decoder.all) : d.Single := by
  simp only [Decoder.all, List.mem_cons, List.not_mem_nil, or_false] at h
  rcases h with rfl | rfl | rfl
  · exact rfl
  · exact rfl
  · exact trivial

/-- **Encode, then decode**: the number of an accepted value decodes to a value alike. -/
theorem decode_of_encode {d : Decoder} (hd : d.Single) {n : Int} {v : Value} (ha : d.accepts v)
    (h : d.encode v = .ok n) : ∃ w, d.decode (.int n) = .ok w ∧ v.Alike w := by
  cases d with
  | choice name family =>
    obtain ⟨raw, rfl, hraw⟩ := accepts_choice_iff.mp ha
    obtain rfl : raw = n := Except.ok.inj h
    have hc : family.combines = false := hd
    have hmem : raw ∈ family.raws := hraw.resolve_left (by rw [hc]; decide)
    exact ⟨_, decode_choice_eq_ok.mpr ⟨hmem, rfl⟩, .same _⟩
  | flagSet name family =>
    obtain ⟨raws, hv, hraws⟩ := accepts_flagSet_iff.mp ha
    rw [encode_flagSet hv] at h
    obtain rfl := Except.ok.inj h
    refine ⟨_, decode_flagSet_eq_ok.mpr ⟨Int.natCast_nonneg _, ?_, rfl⟩, .sets hv rfl fun x => ?_⟩
    · rw [Int.toNat_natCast]
      exact Family.joinBits_and_mask hraws
    · simp only [variants, List.mem_map, Family.mem_bitsOf_joinBits hraws]

theorem alike_of_encode {d : Decoder} {v w : Value} {n : Int} (hv : d.accepts v)
    (hw : d.accepts w) (hvn : d.encode v = .ok n) (hwn : d.encode w = .ok n) : v.Alike w := by
  cases d with
  | choice name family =>
    obtain ⟨raw, rfl, -⟩ := accepts_choice_iff.mp hv
    obtain ⟨raw', rfl, -⟩ := accepts_choice_iff.mp hw
    obtain rfl : raw = raw' := Except.ok.inj (hvn.trans hwn.symm)
    exact .same _
  | flagSet name family =>
    obtain ⟨raws, hvs, hraws⟩ := accepts_flagSet_iff.mp hv
    obtain ⟨raws', hws, hraws'⟩ := accepts_flagSet_iff.mp hw
    rw [encode_flagSet hvs] at hvn
    rw [encode_flagSet hws] at hwn
    have hsum : joinBits raws = joinBits raws' :=
      Int.ofNat_inj.mp (Except.ok.inj (hvn.trans hwn.symm))
    refine .sets hvs hws fun x => ?_
    simp only [variants, List.mem_map, ← Family.mem_bitsOf_joinBits hraws,
      ← Family.mem_bitsOf_joinBits hraws', hsum]

theorem encode_congr {d : Decoder} {v w : Value} (h : v.Alike w) (ha : d.accepts v) :
    d.accepts w ∧ d.encode w = d.encode v := by
  cases h with
  | same => exact ⟨ha, rfl⟩
  | @sets _ xs ys hv hw hmem =>
    cases d with
    | choice name family =>
      obtain ⟨raw, rfl, _⟩ := accepts_choice_iff.mp ha
      simp [Value.elements?] at hv
    | flagSet name family =>
      obtain ⟨raws, hv', hraws⟩ := accepts_flagSet_iff.mp ha
      obtain rfl : xs = variants family raws := Option.some.inj (hv.symm.trans hv')
      have hys : ∀ y ∈ ys, isMember family y := by
        intro y hy
        obtain ⟨raw, hraw, rfl⟩ := List.mem_map.mp ((hmem y).mpr hy)
        exact isMember_iff.mpr ⟨raw, hraws raw hraw, rfl⟩
      obtain ⟨raws', rfl, hraws'⟩ := exists_variants_of_members hys
      refine ⟨accepts_flagSet_iff.mpr ⟨raws', hw, hraws'⟩, ?_⟩
      rw [encode_flagSet hv, encode_flagSet hw]
      have hsame : ∀ raw, raw ∈ raws' ↔ raw ∈ raws := by
        intro raw
        rw [← mem_variants family raws', ← mem_variants family raws, hmem]
      rw [joinBits_congr hsame]

end Decoder

end EventDialects
