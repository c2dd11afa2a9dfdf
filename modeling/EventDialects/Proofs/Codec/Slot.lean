import EventDialects.Codec.Encode
import EventDialects.Proofs.Decoder

/-!
# One slot, both ways

A slot makes an argument of its operands (`Slot.argumentOf`) and operands of an argument
(`Slot.operandsOf`), by one rule for each kind.  `Slot.Encodes` states the rules once, as a relation
between arguments and operands: an integer, a coordinate, a reference, a variant and an undocumented
value.  The two functions are then compared with the relation and not with each other.

* `Slot.equal_fields_iff`: a coordinate's declared fields are the operands that it spans.
* `Slot.operandsOf_eq_ok_iff`: **encoding follows the rules**, and nothing else is encoded.
* `Slot.encodes_of_argumentOf`: what decoding gives is encoded by the operands it was made of.
* `Slot.Encodes.argumentOf`: the operands of an argument decode to one alike.
* `Slot.Encodes.congr`: arguments alike have the same operands.
* `Slot.Encodes.alike`: **operands stand for one argument**, up to the order of a set.
* `Value.IsArgument.alike_of_equal`: arguments that are equal are alike, whatever their slots are.
-/

namespace EventDialects

open List (Forall₂)
open Value (Alike variants)

theorem SlotKind.needsDecoder_iff {k : SlotKind} :
    k.needsDecoder ↔ k = .bitflags ∨ k = .enumValue := by
  cases k <;> decide

/-! ### Arguments -/

namespace Value

/-- The values that slots make of operands. -/
inductive IsArgument : Value → Prop
  | int (n : Int) : IsArgument (.int n)
  | tuple (ns : List Int) : IsArgument (.tuple (ns.map .int))
  | ref (kind : RefKind) (n : Int) : IsArgument (.ref kind (.int n))
  | variant (family : Family) (raw : Int) : IsArgument (.variant family raw)
  | flags {v : Value} {family : Family} {raws : List Int}
      (h : v.elements? = some (variants family raws)) : IsArgument v

theorem IsArgument.isNaN_eq_false {v : Value} (h : v.IsArgument) : v.isNaN = false := by
  cases h with
  | @flags _ _ _ hs => cases v <;> cases hs <;> rfl
  | _ => rfl

theorem eq_of_equal_int {n : Int} {v : Value} (hv : v.IsArgument) (h : (Value.int n).equal v) :
    v = .int n := by
  obtain ⟨b, hb, he⟩ := (equal_iff_of_number? (x := .int n) rfl).mp h
  cases hv with
  | int m =>
    rw [equal_int, beq_iff_eq] at h
    rw [h]
  | @flags v family raws hs => cases v <;> cases hb <;> cases hs
  | _ => cases hb

theorem eq_of_forall₂_equal_int {ns : List Int} : ∀ {ms : List Int},
    Forall₂ (fun x y => x.equal y) (ns.map Value.int) (ms.map Value.int) → ns = ms := by
  induction ns with
  | nil =>
    intro ms h
    cases ms with
    | nil => rfl
    | cons m ms => cases h
  | cons n ns ih =>
    intro ms h
    cases ms with
    | nil => cases h
    | cons m ms =>
      cases h with
      | cons hnm h =>
        rw [equal_int, beq_iff_eq] at hnm
        rw [hnm, ih h]

theorem IsArgument.alike_of_equal {v w : Value} (hv : v.IsArgument) (hw : w.IsArgument)
    (h : v.equal w) : v.Alike w := by
  cases hv with
  | int n => rw [eq_of_equal_int hw h]; exact .same _
  | tuple ns =>
    obtain ⟨ys, rfl, hys⟩ := equal_tuple_iff.mp h
    cases hw with
    | tuple ms => rw [eq_of_forall₂_equal_int hys]; exact .same _
    | flags hs => cases hs
  | ref kind n =>
    obtain ⟨offset, rfl, ho⟩ := equal_ref_iff.mp h
    cases hw with
    | ref _ m => rw [eq_of_equal_int (.int m) ho]; exact .same _
    | flags hs => cases hs
  | variant family raw => rw [equal_variant_iff.mp h]; exact .same _
  | @flags _ family raws hs =>
    obtain ⟨ys, hy, hxs, hys⟩ := (equal_iff_of_elements? hs).mp h
    cases hw with
    | @flags _ family' raws' hs' =>
      obtain rfl : ys = variants family' raws' := Option.some.inj (hy.symm.trans hs')
      refine .sets hs hs' fun x => ⟨fun hx => ?_, fun hx => ?_⟩
      · obtain ⟨y, hymem, he⟩ := hxs x hx
        obtain ⟨raw, -, rfl⟩ := List.mem_map.mp hx
        rwa [equal_variant_iff.mp he] at hymem
      · obtain ⟨y, hymem, he⟩ := hys x hx
        obtain ⟨raw, -, rfl⟩ := List.mem_map.mp hymem
        rwa [equal_variant_iff.mp he]
    | _ => cases hy

end Value

namespace Slot

/-! ### The number of operands -/

theorem equal_fields_iff {s : Slot} {n : Nat} (hc : s.kind = .coordinate) :
    (Value.int n).equal s.fields ↔ n = s.span := by
  have hf : (Value.int 2).equal s.fields ∨ (Value.int 4).equal s.fields := by
    have hw := s.wellFormed
    rw [fault?, if_neg (by simp [hc, SlotKind.needsDecoder]), if_pos hc] at hw
    by_contra hn
    rw [if_neg hn] at hw
    exact absurd hw (by simp)
  have hspan : (Value.int s.span).equal s.fields := by
    rw [span, if_pos hc]
    split
    · assumption
    · exact hf.resolve_right ‹_›
  constructor
  · intro hn
    have := Value.equal_trans hn (Value.equal_symm hspan)
    rw [Value.equal_int, beq_iff_eq] at this
    exact Int.ofNat_inj.mp this
  · intro hn
    rw [hn]
    exact hspan

/-! ### Integers -/

theorem integerOperand_eq_ok {s : Slot} {v : Value} {ops : List Int} :
    s.integerOperand v = .ok ops ↔
      ∃ n, v = .int n ∧ ops = [n] ∧ s.checkWidth (.int n) = .ok () := by
  constructor
  · intro h
    obtain ⟨n, rfl, rfl⟩ := integerOperand_eq h
    refine ⟨n, rfl, rfl, ?_⟩
    simp only [integerOperand] at h
    cases hw : s.checkWidth (.int n) with
    | ok => rfl
    | error e => rw [hw] at h; cases e <;> simp [reject, refuse] at h
  · rintro ⟨n, rfl, rfl, hw⟩
    simp only [integerOperand, hw]

theorem fitting_eq_ok {s : Slot} {n : Int} {v : Value} :
    s.fitting [.int n] = .ok v ↔ v = .int n ∧ s.checkWidth (.int n) = .ok () := by
  rw [fitting]
  simp only [single, Attempt.bind_eq_ok]
  constructor
  · rintro ⟨_, hn, ⟨⟩, hw, hv⟩
    cases hn
    cases hv
    exact ⟨rfl, hw⟩
  · rintro ⟨rfl, hw⟩
    exact ⟨_, rfl, (), hw, rfl⟩

theorem checkWidths_cons {s : Slot} {v : Value} {vs : List Value} :
    s.checkWidths (v :: vs) = .ok () ↔ s.checkWidth v = .ok () ∧ s.checkWidths vs = .ok () := by
  rw [checkWidths, Attempt.bind_eq_ok]
  exact ⟨fun ⟨(), hv, hvs⟩ => ⟨hv, hvs⟩, fun ⟨hv, hvs⟩ => ⟨(), hv, hvs⟩⟩

theorem integerOperands_eq_ok {s : Slot} : ∀ {vs : List Value} {ops : List Int},
    s.integerOperands vs = .ok ops ↔ vs = ops.map .int ∧ s.checkWidths vs = .ok () := by
  intro vs
  induction vs with
  | nil =>
    intro ops
    simp [integerOperands, checkWidths, eq_comm]
  | cons v vs ih =>
    intro ops
    rw [integerOperands, checkWidths_cons]
    simp only [Attempt.bind_eq_ok, integerOperand_eq_ok, ih]
    constructor
    · rintro ⟨_, ⟨n, rfl, rfl, hw⟩, rest, ⟨rfl, hws⟩, hops⟩
      cases hops
      exact ⟨rfl, hw, hws⟩
    · rintro ⟨hvs, hw, hws⟩
      cases ops with
      | nil => simp at hvs
      | cons n ops =>
        obtain ⟨rfl, rfl⟩ := List.cons.inj hvs
        exact ⟨[n], ⟨n, rfl, rfl, hw⟩, ops, ⟨rfl, hws⟩, rfl⟩

/-! ### Coordinates, references, variants -/

theorem coordinateOperands_eq_ok {s : Slot} (hc : s.kind = .coordinate) {v : Value}
    {ops : List Int} : s.coordinateOperands v = .ok ops ↔
      v = .tuple (ops.map .int) ∧ ops.length = s.span ∧ s.checkWidths (ops.map .int) = .ok () := by
  cases v with
  | tuple xs =>
    simp only [coordinateOperands]
    by_cases hlen : (Value.int xs.length).equal s.fields
    · rw [if_pos hlen, integerOperands_eq_ok]
      rw [equal_fields_iff hc] at hlen
      constructor
      · rintro ⟨rfl, hw⟩
        rw [List.length_map] at hlen
        exact ⟨rfl, hlen, hw⟩
      · rintro ⟨he, -, hw⟩
        cases he
        exact ⟨rfl, hw⟩
    · rw [if_neg hlen]
      rw [equal_fields_iff hc] at hlen
      simp only [rejectCoordinate_ne_ok, false_iff]
      rintro ⟨he, hl, -⟩
      cases he
      rw [List.length_map] at hlen
      exact hlen hl
  | _ => simp [coordinateOperands]

theorem refOperand_eq_ok {s : Slot} {kind : RefKind} {v : Value} {ops : List Int} :
    s.refOperand kind v = .ok ops ↔
      ∃ n, v = .ref kind (.int n) ∧ ops = [n] ∧ s.checkWidth (.int n) = .ok () := by
  cases v with
  | ref kind' offset =>
    simp only [refOperand]
    by_cases hk : kind' = kind
    · subst hk
      rw [if_pos rfl, integerOperand_eq_ok]
      simp
    · rw [if_neg hk]
      simp [reject, refuse, hk]
  | _ => simp [refOperand, reject, refuse]

theorem variantOperand_eq_ok {s : Slot} {v : Value} {ops : List Int} :
    s.variantOperand v = .ok ops ↔ ∃ d n, s.decoder = some d ∧ d.accepts v ∧ d.encode v = .ok n ∧
      ops = [n] ∧ s.checkWidth (.int n) = .ok () := by
  rw [variantOperand]
  cases hd : s.decoder with
  | none => simp [misused]
  | some d =>
    by_cases ha : d.accepts v
    · simp only [ha, if_true, Attempt.bind_eq_ok, integerOperand_eq_ok]
      constructor
      · rintro ⟨n, he, _, hn, rfl, hw⟩
        cases hn
        exact ⟨d, n, rfl, ha, he, rfl, hw⟩
      · rintro ⟨_, n, hd', -, he, rfl, hw⟩
        cases hd'
        exact ⟨n, he, n, rfl, rfl, hw⟩
    · simp only [ha, Bool.false_eq_true, if_false, rejectVariant_ne_ok, false_iff]
      rintro ⟨_, _, hd', ha', -⟩
      cases hd'
      exact ha ha'

/-! ### The rules -/

/-- **The rules of a slot**: which operands an argument has, kind by kind. -/
inductive Encodes (s : Slot) : Value → List Int → Prop
  | integer {n : Int} (hk : s.kind = .rawInteger) (hw : s.checkWidth (.int n) = .ok ()) :
      Encodes s (.int n) [n]
  | coordinate {ns : List Int} (hk : s.kind = .coordinate) (hlen : ns.length = s.span)
      (hw : s.checkWidths (ns.map .int) = .ok ()) : Encodes s (.tuple (ns.map .int)) ns
  | reference {kind : RefKind} {n : Int} (hk : s.kind.refKind? = some kind)
      (hw : s.checkWidth (.int n) = .ok ()) : Encodes s (.ref kind (.int n)) [n]
  | variant {d : Decoder} {v : Value} {n : Int} (hk : s.kind.needsDecoder)
      (hd : s.decoder = some d) (ha : d.accepts v) (he : d.encode v = .ok n)
      (hw : s.checkWidth (.int n) = .ok ()) : Encodes s v [n]
  | reserved {n : Int} (hk : s.kind = .unknown) : Encodes s (.int n) [n]

theorem operandsOf_of_refKind? {s : Slot} {kind : RefKind} (hk : s.kind.refKind? = some kind)
    (v : Value) : s.operandsOf v = s.refOperand kind v := by
  cases hs : s.kind <;> rw [hs] at hk <;> cases hk <;> rw [operandsOf, hs]

theorem operandsOf_of_needsDecoder {s : Slot} (hk : s.kind.needsDecoder) (v : Value) :
    s.operandsOf v = s.variantOperand v := by
  rcases SlotKind.needsDecoder_iff.mp hk with hs | hs <;> rw [operandsOf, hs]

/-- **Encoding follows the rules**, and nothing else is encoded. -/
theorem operandsOf_eq_ok_iff {s : Slot} {v : Value} {ops : List Int} :
    s.operandsOf v = .ok ops ↔ s.Encodes v ops := by
  constructor
  · intro h
    cases hk : s.kind with
    | rawInteger =>
      rw [operandsOf, hk] at h
      obtain ⟨n, rfl, rfl, hw⟩ := integerOperand_eq_ok.mp h
      exact .integer hk hw
    | coordinate =>
      rw [operandsOf, hk] at h
      obtain ⟨rfl, hlen, hw⟩ := (coordinateOperands_eq_ok hk).mp h
      exact .coordinate hk hlen hw
    | characterId | functionRef | stringRef =>
      rw [operandsOf, hk] at h
      obtain ⟨n, rfl, rfl, hw⟩ := refOperand_eq_ok.mp h
      exact .reference (by rw [hk]; rfl) hw
    | bitflags | enumValue =>
      rw [operandsOf, hk] at h
      obtain ⟨d, n, hd, ha, he, rfl, hw⟩ := variantOperand_eq_ok.mp h
      exact .variant (by rw [hk]; rfl) hd ha he hw
    | unknown =>
      rw [operandsOf, hk] at h
      cases v with
      | int n => cases h; exact .reserved hk
      | _ => cases h
  · intro h
    cases h with
    | @integer n hk hw =>
      rw [operandsOf, hk]
      exact integerOperand_eq_ok.mpr ⟨n, rfl, rfl, hw⟩
    | coordinate hk hlen hw =>
      rw [operandsOf, hk]
      exact (coordinateOperands_eq_ok hk).mpr ⟨rfl, hlen, hw⟩
    | @reference kind n hk hw =>
      rw [operandsOf_of_refKind? hk]
      exact refOperand_eq_ok.mpr ⟨n, rfl, rfl, hw⟩
    | @variant d _ n hk hd ha he hw =>
      rw [operandsOf_of_needsDecoder hk]
      exact variantOperand_eq_ok.mpr ⟨d, n, hd, ha, he, rfl, hw⟩
    | reserved hk =>
      rw [operandsOf, hk]
      rfl

/-! ### Decoding by the rules -/

theorem coordinate_eq_ok {s : Slot} {raw : List Value} {v : Value} (hk : s.kind = .coordinate) :
    s.argumentOf raw = .ok v ↔ v = .tuple raw ∧ s.checkWidths raw = .ok () := by
  rw [argumentOf, hk]
  simp only [Attempt.bind_eq_ok, pure, Except.pure, Except.ok.injEq]
  exact ⟨fun ⟨(), hw, hv⟩ => ⟨hv.symm, hw⟩, fun ⟨hv, hw⟩ => ⟨(), hw, hv.symm⟩⟩

theorem reference_eq_ok {s : Slot} {n : Int} {v : Value} {kind : RefKind}
    (hk : s.kind.refKind? = some kind) : s.argumentOf [.int n] = .ok v ↔
      v = .ref kind (.int n) ∧ s.checkWidth (.int n) = .ok () := by
  have hrule : s.argumentOf [.int n] = s.fitting [.int n] >>= fun x => .ok (.ref kind x) := by
    cases hs : s.kind <;> rw [hs] at hk <;> cases hk <;> simp only [argumentOf, hs] <;> rfl
  rw [hrule, Attempt.bind_eq_ok]
  simp only [fitting_eq_ok, Except.ok.injEq]
  constructor
  · rintro ⟨_, ⟨rfl, hw⟩, rfl⟩
    exact ⟨rfl, hw⟩
  · rintro ⟨rfl, hw⟩
    exact ⟨_, ⟨rfl, hw⟩, rfl⟩

theorem variant_eq_ok {s : Slot} {n : Int} {v : Value} {d : Decoder} (hk : s.kind.needsDecoder)
    (hd : s.decoder = some d) : s.argumentOf [.int n] = .ok v ↔
      s.checkWidth (.int n) = .ok () ∧ d.decode (.int n) = .ok v := by
  have hrule : s.argumentOf [.int n] = s.fitting [.int n] >>= d.decode := by
    rcases SlotKind.needsDecoder_iff.mp hk with hs | hs <;> simp only [argumentOf, hs, hd]
  rw [hrule, Attempt.bind_eq_ok]
  simp only [fitting_eq_ok]
  constructor
  · rintro ⟨_, ⟨rfl, hw⟩, hv⟩
    exact ⟨hw, hv⟩
  · rintro ⟨hw, hv⟩
    exact ⟨_, ⟨rfl, hw⟩, hv⟩

theorem exists_decoder {s : Slot} (hk : s.kind.needsDecoder) : ∃ d, s.decoder = some d := by
  cases hd : s.decoder with
  | some d => exact ⟨d, rfl⟩
  | none =>
    have hw := s.wellFormed
    rw [fault?, if_pos ⟨hk, by rw [hd]; rfl⟩] at hw
    cases hw

/-- **Decode, then encode**, for one slot: an argument has the operands that it was made of. -/
theorem encodes_of_argumentOf {s : Slot} {ns : List Int} {v : Value} (hlen : ns.length = s.span)
    (h : s.argumentOf (ns.map .int) = .ok v) : s.Encodes v ns := by
  by_cases hc : s.kind = .coordinate
  · obtain ⟨rfl, hw⟩ := (coordinate_eq_ok hc).mp h
    exact .coordinate hc hlen hw
  · rw [span_of_ne_coordinate hc, List.length_eq_one_iff] at hlen
    obtain ⟨n, rfl⟩ := hlen
    rw [List.map_singleton] at h
    cases hk : s.kind with
    | rawInteger =>
      rw [argumentOf, hk] at h
      obtain ⟨rfl, hw⟩ := fitting_eq_ok.mp h
      exact .integer hk hw
    | coordinate => exact absurd hk hc
    | characterId | functionRef | stringRef =>
      obtain ⟨kind, hr⟩ := Option.isSome_iff_exists.mp (show s.kind.refKind?.isSome by rw [hk]; rfl)
      obtain ⟨rfl, hw⟩ := (reference_eq_ok hr).mp h
      exact .reference hr hw
    | bitflags | enumValue =>
      have hn : s.kind.needsDecoder := by rw [hk]; rfl
      obtain ⟨d, hd⟩ := exists_decoder hn
      obtain ⟨hw, hv⟩ := (variant_eq_ok hn hd).mp h
      obtain ⟨ha, he⟩ := Decoder.encode_of_decode hv
      exact .variant hn hd ha he hw
    | unknown =>
      rw [argumentOf, hk] at h
      cases h
      exact .reserved hk

namespace Encodes

theorem length_eq {s : Slot} {v : Value} {ops : List Int} (h : s.Encodes v ops) :
    ops.length = s.span := by
  have single : s.kind ≠ .coordinate → 1 = s.span := fun hk => (span_of_ne_coordinate hk).symm
  cases h with
  | integer hk => exact single (by rw [hk]; decide)
  | coordinate _ hlen => exact hlen
  | reference hk => exact single (by intro hc; rw [hc] at hk; cases hk)
  | variant hk => exact single (by intro hc; rw [hc] at hk; cases hk)
  | reserved hk => exact single (by rw [hk]; decide)

/-- **Encode, then decode**, for one slot: the operands of an argument decode to one alike. -/
theorem argumentOf {s : Slot} {v : Value} {ops : List Int} (hs : ∀ d ∈ s.decoder, d.Single)
    (h : s.Encodes v ops) : ∃ w, s.argumentOf (ops.map .int) = .ok w ∧ v.Alike w := by
  cases h with
  | integer hk hw =>
    refine ⟨_, ?_, .same _⟩
    rw [Slot.argumentOf, hk]
    exact fitting_eq_ok.mpr ⟨rfl, hw⟩
  | coordinate hk _ hw => exact ⟨_, (coordinate_eq_ok hk).mpr ⟨rfl, hw⟩, .same _⟩
  | reference hk hw => exact ⟨_, (reference_eq_ok hk).mpr ⟨rfl, hw⟩, .same _⟩
  | variant hk hd ha he hw =>
    obtain ⟨w, hw', halike⟩ := Decoder.decode_of_encode (hs _ hd) ha he
    exact ⟨w, (variant_eq_ok hk hd).mpr ⟨hw, hw'⟩, halike⟩
  | reserved hk =>
    refine ⟨_, ?_, .same _⟩
    rw [Slot.argumentOf, hk]
    rfl

theorem congr {s : Slot} {v w : Value} {ops : List Int} (ha : v.Alike w) (h : s.Encodes v ops) :
    s.Encodes w ops := by
  cases ha with
  | same => exact h
  | sets hv hw hmem =>
    cases h with
    | variant hk hd hacc he hwidth =>
      obtain ⟨hacc', he'⟩ := Decoder.encode_congr (.sets hv hw hmem) hacc
      exact .variant hk hd hacc' (he'.trans he) hwidth
    | _ => cases hv

/-- **Operands stand for one argument**, up to the order of a set. -/
theorem alike {s : Slot} {v w : Value} {ops : List Int} (hv : s.Encodes v ops)
    (hw : s.Encodes w ops) : v.Alike w := by
  rw [← operandsOf_eq_ok_iff] at hw
  cases hv with
  | @integer n hk =>
    rw [operandsOf, hk] at hw
    obtain ⟨m, rfl, he, -⟩ := integerOperand_eq_ok.mp hw
    cases he
    exact .same _
  | coordinate hk =>
    rw [operandsOf, hk] at hw
    obtain ⟨rfl, -⟩ := (coordinateOperands_eq_ok hk).mp hw
    exact .same _
  | reference hk =>
    rw [operandsOf_of_refKind? hk] at hw
    obtain ⟨m, rfl, he, -⟩ := refOperand_eq_ok.mp hw
    cases he
    exact .same _
  | variant hk hd ha hn =>
    rw [operandsOf_of_needsDecoder hk] at hw
    obtain ⟨d, m, hd', ha', hm, he, -⟩ := variantOperand_eq_ok.mp hw
    obtain rfl := Option.some.inj (hd.symm.trans hd')
    cases he
    exact Decoder.alike_of_encode ha ha' hn hm
  | reserved hk =>
    rw [operandsOf, hk] at hw
    cases w with
    | int m => cases hw; exact .same _
    | _ => cases hw

theorem isArgument {s : Slot} {v : Value} {ops : List Int} (h : s.Encodes v ops) :
    v.IsArgument := by
  cases h with
  | integer => exact .int _
  | coordinate => exact .tuple _
  | reference => exact .ref _ _
  | @variant d _ _ _ _ ha =>
    cases d with
    | choice name family =>
      obtain ⟨raw, rfl, -⟩ := Decoder.accepts_choice_iff.mp ha
      exact .variant family raw
    | flagSet name family =>
      obtain ⟨raws, hv, -⟩ := Decoder.accepts_flagSet_iff.mp ha
      exact .flags hv
  | reserved => exact .int _

end Encodes

end Slot

end EventDialects
