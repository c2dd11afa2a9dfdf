import EventDialects.Proofs.Codec.Refusal

/-!
# Which operands decode

A slot **admits** its operands if they fit its width and its decoder, if it has one, knows them; a
slot that nobody has documented admits anything.  `Slot.Admits` says this without decoding, and
`Schema.pieces` cuts a list of operands into the spans of the slots.

* `Slot.exists_argumentOf_iff`: **a slot makes an argument of what it admits**, and of nothing else.
* `Schema.exists_decodeSlots_iff`: slots decode exactly if each of them admits its piece.
* `Slot.Objects`: what a slot can have against its operands.
* `Schema.decode_eq_error`: **decoding whole numbers fails by a refusal**: of how many they are, or
  of a slot; and the refusal is raised if it can be printed.
-/

namespace EventDialects

namespace Value

/-! ### Whole numbers -/

theorem checkKey_of_integer? {v : Value} {n : Int} (h : v.integer? = some n) :
    v.checkKey = .ok () := by
  cases v <;> cases h <;> rfl

theorem isSome_integer?_of_ints (ns : List Int) :
    ∀ v ∈ ns.map Value.int, v.integer?.isSome := by
  intro v hv
  obtain ⟨n, -, rfl⟩ := List.mem_map.mp hv
  rfl

end Value

namespace Decoder

/-- The raw numbers that a decoder has a variant for: the numbers of members, or the sums of their
bits. -/
def Domain : Decoder → Int → Prop
  | .choice _ family, n => n ∈ family.raws
  | .flagSet _ family, n => 0 ≤ n ∧ n.toNat &&& family.mask = n.toNat

theorem exists_decode_iff {d : Decoder} {n : Int} :
    (∃ v, d.decode (.int n) = .ok v) ↔ d.Domain n := by
  cases d with
  | choice name family =>
    constructor
    · rintro ⟨v, hv⟩
      exact (decode_choice_eq_ok.mp hv).1
    · intro hn
      exact ⟨_, decode_choice_eq_ok.mpr ⟨hn, rfl⟩⟩
  | flagSet name family =>
    constructor
    · rintro ⟨v, hv⟩
      have h := decode_flagSet_eq_ok.mp hv
      exact ⟨h.1, h.2.1⟩
    · rintro ⟨hn, hmask⟩
      exact ⟨_, decode_flagSet_eq_ok.mpr ⟨hn, hmask, rfl⟩⟩

theorem domain_of_encode {d : Decoder} (hd : d.Single) {n : Int} {v : Value} (ha : d.accepts v)
    (h : d.encode v = .ok n) : d.Domain n := by
  obtain ⟨w, hw, -⟩ := decode_of_encode hd ha h
  exact exists_decode_iff.mp ⟨w, hw⟩

/-- The decoders that definition files may name have small numbers only. -/
theorem writable_of_domain {d : Decoder} (hd : d ∈ Decoder.all) {n : Int} (h : d.Domain n) :
    Text.writable n := by
  simp only [Decoder.all, List.mem_cons, List.not_mem_nil, or_false] at hd
  rcases hd with rfl | rfl | rfl
  · exact (by decide : ∀ n ∈ Family.spawnEffect.raws, Text.writable n) n h
  · exact (by decide : ∀ n ∈ Family.cannonType.raws, Text.writable n) n h
  · have hmask : n.toNat ≤ Family.battleFlag.mask := h.2 ▸ Nat.and_le_right
    have hsmall : Family.battleFlag.mask < Text.firstBeyond 20 := by decide
    have hn : 0 ≤ n := h.1
    exact Text.writable_of_lt (by omega)

theorem decode_eq_error {d : Decoder} {v : Value} {n : Int} {e : Failure}
    (hv : v.integer? = some n) (h : d.decode v = .error e) :
    e = (Failure.refused (.unknownVariant d.name v)).raised := by
  cases d with
  | choice name family =>
    simp only [decode, decodeChoice, Value.checkKey_of_integer? hv, noVariant, hv, bind,
      Except.bind, refuse] at h
    split at h <;> cases h
    rfl
  | flagSet name family =>
    simp only [decode, decodeFlags, noVariant, hv, refuse] at h
    split at h <;> cases h
    rfl

end Decoder

namespace Slot

/-! ### One slot -/

/-- A number is **within** a slot's width. -/
def Within (s : Slot) (n : Int) : Prop :=
  ∃ low high, s.range = .ok (low, high) ∧ low ≤ n ∧ n ≤ high

/-- A slot is **ranged** if it has a range to check its operands against.  Those of an undocumented
slot are not checked. -/
def Ranged (s : Slot) : Prop := s.kind ≠ .unknown → ∃ low high, s.range = .ok (low, high)

theorem ranged_iff {s : Slot} : s.Ranged ↔ s.kind = .unknown ∨ s.range.toOption.isSome := by
  rw [Attempt.isSome_toOption_iff, Prod.exists, or_iff_not_imp_left, Ranged]

instance : DecidablePred Slot.Ranged := fun _ => decidable_of_iff _ ranged_iff.symm

def misfit (s : Slot) (v : Value) : Refusal := .outOfRange v s.bits s.signed.truthy

/-- A slot **admits** operands that are within its width and that its decoder has variants for.  An
undocumented slot admits all. -/
def Admits (s : Slot) (ns : List Int) : Prop :=
  s.kind = .unknown ∨ (∀ n ∈ ns, s.Within n) ∧
    (s.kind.needsDecoder → ∀ d ∈ s.decoder, ∀ n ∈ ns, d.Domain n)

theorem fits_iff {low high n : Int} : fits low high (.ofInt n) ↔ low ≤ n ∧ n ≤ high := by
  have hn : (Number.ofInt n != .nan) = true := rfl
  simp only [fits, hn, Number.less_ofInt, Bool.and_true, Bool.and_eq_true, Bool.not_eq_true',
    decide_eq_false_iff_not, Int.not_lt]

theorem checkWidth_eq_ok_iff {s : Slot} {n : Int} :
    s.checkWidth (.int n) = .ok () ↔ s.Within n := by
  simp only [checkWidth, Attempt.bind_eq_ok, Value.number?, Prod.exists]
  constructor
  · rintro ⟨low, high, hrange, h⟩
    have hfits : fits low high (.ofInt n) := by
      by_contra hn
      rw [if_neg hn] at h
      cases h
    exact ⟨low, high, hrange, fits_iff.mp hfits⟩
  · rintro ⟨low, high, hrange, hn⟩
    refine ⟨low, high, hrange, ?_⟩
    rw [if_pos (fits_iff.mpr hn)]
    rfl

theorem checkWidths_eq_ok_iff {s : Slot} {ns : List Int} :
    s.checkWidths (ns.map .int) = .ok () ↔ ∀ n ∈ ns, s.Within n := by
  induction ns with
  | nil => simp [checkWidths]
  | cons n ns ih =>
    rw [List.map_cons, checkWidths_cons, checkWidth_eq_ok_iff, ih, List.forall_mem_cons]

/-- **A slot makes an argument of what it admits**, and of nothing else. -/
theorem exists_argumentOf_iff {s : Slot} {ns : List Int} (hlen : ns.length = s.span) :
    (∃ v, s.argumentOf (ns.map .int) = .ok v) ↔ s.Admits ns := by
  by_cases hc : s.kind = .coordinate
  · simp only [coordinate_eq_ok hc, Admits, hc, checkWidths_eq_ok_iff, SlotKind.needsDecoder]
    simp
  · rw [span_of_ne_coordinate hc, List.length_eq_one_iff] at hlen
    obtain ⟨n, rfl⟩ := hlen
    rw [List.map_singleton]
    cases hk : s.kind with
    | coordinate => exact absurd hk hc
    | rawInteger =>
      have hrule : s.argumentOf [.int n] = s.fitting [.int n] := by rw [argumentOf, hk]
      simp [hrule, fitting_eq_ok, checkWidth_eq_ok_iff, Admits, hk, SlotKind.needsDecoder]
    | characterId | functionRef | stringRef =>
      obtain ⟨kind, hr⟩ := Option.isSome_iff_exists.mp (show s.kind.refKind?.isSome by rw [hk]; rfl)
      simp [reference_eq_ok hr, checkWidth_eq_ok_iff, Admits, hk, SlotKind.needsDecoder]
    | bitflags | enumValue =>
      have hn : s.kind.needsDecoder := by rw [hk]; rfl
      obtain ⟨d, hd⟩ := exists_decoder hn
      simp [variant_eq_ok hn hd, checkWidth_eq_ok_iff, Decoder.exists_decode_iff, Admits, hk, hd,
        SlotKind.needsDecoder]
    | unknown =>
      have hrule : s.argumentOf [.int n] = .ok (.int n) := by rw [argumentOf, hk]; rfl
      simp [hrule, Admits, hk]

theorem checkWidths_eq_error {s : Slot} {vs : List Value} {e : Failure}
    (h : s.checkWidths vs = .error e) : ∃ v ∈ vs, s.checkWidth v = .error e := by
  induction vs with
  | nil => cases h
  | cons v vs ih =>
    rw [checkWidths] at h
    rcases Attempt.bind_eq_error.mp h with h | ⟨_, -, h⟩
    · exact ⟨v, List.mem_cons_self, h⟩
    · obtain ⟨w, hw, he⟩ := ih h
      exact ⟨w, List.mem_cons_of_mem v hw, he⟩

theorem fitting_eq_error {s : Slot} {v : Value} {e : Failure}
    (h : s.fitting [v] = .error e) : s.checkWidth v = .error e := by
  rw [fitting] at h
  rcases Attempt.bind_eq_error.mp h with h | ⟨_, hv, h⟩
  · cases h
  · cases hv
    rcases Attempt.bind_eq_error.mp h with h | ⟨_, -, h⟩
    · exact h
    · cases h

theorem eq_of_fitting {s : Slot} {v w : Value} {vs : List Value} (h : s.fitting (v :: vs) = .ok w) :
    w = v := by
  obtain ⟨_, hv, h⟩ := Attempt.bind_eq_ok.mp h
  obtain ⟨_, -, h⟩ := Attempt.bind_eq_ok.mp h
  cases hv
  cases h
  rfl

/-- What a slot has against its operands: one that does not fit its width, or that its decoder has
no variant for. -/
inductive Objects (s : Slot) (raw : List Value) : Refusal → Prop
  | misfit {low high : Int} (hrange : s.range = .ok (low, high)) {v : Value} (hv : v ∈ raw) :
    Objects s raw (s.misfit v)
  | noVariant {d : Decoder} (hd : d ∈ s.decoder) {v : Value} (hv : v ∈ raw) :
    Objects s raw (.unknownVariant d.name v)

theorem Objects.mono {s : Slot} {raw raw' : List Value} {r : Refusal} (h : s.Objects raw r)
    (hsub : ∀ v ∈ raw, v ∈ raw') : s.Objects raw' r := by
  cases h with
  | misfit hrange hv => exact .misfit hrange (hsub _ hv)
  | noVariant hd hv => exact .noVariant hd (hsub _ hv)

theorem Objects.printable {s : Slot} {raw : List Value} {r : Refusal} (h : s.Objects raw r)
    (hraw : ∀ v ∈ raw, v.printable) : r.printable := by
  cases h with
  | misfit hrange hv =>
    exact Bool.and_eq_true_iff.mpr ⟨hraw _ hv, printable_bits_of_range hrange⟩
  | noVariant _ hv => exact hraw _ hv

/-- How a slot can fail on whole numbers: its range is none although it has one to check them
against, or it raises what it has against them, in the form of `wrap`. -/
def FailsOn (s : Slot) (raw : List Value) (wrap : Refusal → Refusal) (e : Failure) : Prop :=
  (s.kind ≠ .unknown ∧ s.range = .error e) ∨
    ∃ r, s.Objects raw r ∧ e = (Failure.refused (wrap r)).raised

theorem argumentOf_eq_error {s : Slot} {raw : List Value} {e : Failure}
    (hraw : ∀ v ∈ raw, v.integer?.isSome) (hlen : raw.length = s.span)
    (h : s.argumentOf raw = .error e) :
    s.FailsOn raw id e := by
  have of_width (hk : s.kind ≠ .unknown) {v : Value} (hv : v ∈ raw)
      (h : s.checkWidth v = .error e) :
      s.FailsOn raw id e := by
    obtain ⟨n, hn⟩ := Option.isSome_iff_exists.mp (hraw v hv)
    rcases checkWidth_eq_error (Value.number?_of_integer? hn) h with hr | ⟨⟨low, high, hr⟩, he⟩
    · exact .inl ⟨hk, hr⟩
    · exact .inr ⟨_, .misfit hr hv, he⟩
  by_cases hc : s.kind = .coordinate
  · rw [argumentOf, hc] at h
    rcases Attempt.bind_eq_error.mp h with h | ⟨_, -, h⟩
    · obtain ⟨v, hv, hn⟩ := checkWidths_eq_error h
      exact of_width (by rw [hc]; decide) hv hn
    · cases h
  · rw [span_of_ne_coordinate hc, List.length_eq_one_iff] at hlen
    obtain ⟨v, rfl⟩ := hlen
    have of_fitting (hk : s.kind ≠ .unknown) (h : s.fitting [v] = .error e) :
        s.FailsOn [v] id e :=
      of_width hk List.mem_cons_self (fitting_eq_error h)
    cases hk : s.kind with
    | coordinate => exact absurd hk hc
    | rawInteger =>
      rw [argumentOf, hk] at h
      exact of_fitting (by rw [hk]; decide) h
    | characterId | functionRef | stringRef =>
      rw [argumentOf, hk] at h
      rcases Attempt.bind_eq_error.mp h with h | ⟨_, -, h⟩
      · exact of_fitting (by rw [hk]; decide) h
      · cases h
    | bitflags | enumValue =>
      obtain ⟨d, hd⟩ := exists_decoder (s := s) (by rw [hk]; rfl)
      rw [argumentOf, hk] at h
      rcases Attempt.bind_eq_error.mp h with h | ⟨w, hw, hdecode⟩
      · exact of_fitting (by rw [hk]; decide) h
      · -- The operand fits, so it is the decoder that lacks a variant.
        obtain rfl := eq_of_fitting hw
        obtain ⟨n, hn⟩ := Option.isSome_iff_exists.mp (hraw w List.mem_cons_self)
        simp only [hd] at hdecode
        exact .inr ⟨_, .noVariant hd List.mem_cons_self, Decoder.decode_eq_error hn hdecode⟩
    | unknown =>
      rw [argumentOf, hk] at h
      cases h

/-- A refusal is reported with its slot, also where it cannot be printed: then neither can be. -/
@[simp] theorem inSlot_refuse {α : Type} (s : Slot) (r : Refusal) :
    s.inSlot (refuse r : Attempt α) = refuse (.slotDecode s.name r) := by
  cases hr : r.printable with
  | true =>
    rw [refuse_of_printable hr]
    rfl
  | false =>
    rw [refuse_of_not_printable hr, refuse_of_not_printable]
    · rfl
    · exact Bool.and_eq_false_iff.mpr (.inr hr)

end Slot

namespace Schema

/-! ### Some slots -/

/-- The operands of each slot, cut off one slot after the other. -/
def pieces : List Slot → List Int → List (Slot × List Int)
  | [], _ => []
  | s :: slots, ns => (s, ns.take s.span) :: pieces slots (ns.drop s.span)

theorem exists_decodeSlots_iff {slots : List Slot}
    (hfields : ∀ s ∈ slots, s.spanIsFloat = false) : ∀ {ns : List Int}, ns.length = spanOf slots →
      ((∃ arguments, decodeSlots slots (ns.map .int) = .ok arguments) ↔
        ∀ piece ∈ pieces slots ns, piece.1.Admits piece.2) := by
  induction slots with
  | nil =>
    intro ns _
    simp [decodeSlots, pieces]
  | cons s slots ih =>
    intro ns hlen
    obtain ⟨hf, hfs⟩ := List.forall_mem_cons.mp hfields
    obtain ⟨htake, hdrop⟩ := length_of_spanOf_cons hlen
    rw [pieces, List.forall_mem_cons, ← Slot.exists_argumentOf_iff htake, ← ih hfs hdrop,
      List.map_take, List.map_drop]
    constructor
    · rintro ⟨arguments, h⟩
      obtain ⟨v, rest, -, -, hv, hrest⟩ := decodeSlots_cons_eq_ok.mp h
      exact ⟨⟨v, hv⟩, ⟨rest, hrest⟩⟩
    · rintro ⟨⟨v, hv⟩, ⟨rest, hrest⟩⟩
      exact ⟨v :: rest, decodeSlots_cons_eq_ok.mpr ⟨v, rest, rfl, hf, hv, hrest⟩⟩

/-- The failure of several slots is that of one of them, and a refusal names the slot. -/
theorem decodeSlots_eq_error {slots : List Slot} (hfields : ∀ s ∈ slots, s.spanIsFloat = false) :
    ∀ {raw : List Value} {e : Failure}, (∀ v ∈ raw, v.integer?.isSome) →
      raw.length = spanOf slots → decodeSlots slots raw = .error e → ∃ s ∈ slots,
        s.FailsOn raw (.slotDecode s.name) e := by
  induction slots with
  | nil =>
    intro raw e _ _ h
    cases h
  | cons s slots ih =>
    intro raw e hraw hlen h
    obtain ⟨hf, hfs⟩ := List.forall_mem_cons.mp hfields
    obtain ⟨htake, hdrop⟩ := length_of_spanOf_cons hlen
    rw [decodeSlots, operandCount_eq_ok.mpr ⟨hf, rfl⟩] at h
    rcases Attempt.bind_eq_error.mp h with h | ⟨_, hn, h⟩
    · cases h
    cases hn
    rcases Attempt.bind_eq_error.mp h with h | ⟨_, -, h⟩
    · refine ⟨s, List.mem_cons_self, ?_⟩
      rw [Slot.decode] at h
      cases ha : s.argumentOf (raw.take s.span) with
      | ok v =>
        rw [ha] at h
        cases h
      | error e' =>
        rw [ha] at h
        rcases Slot.argumentOf_eq_error (fun v hv => hraw v (List.mem_of_mem_take hv)) htake ha
          with hr | ⟨r, hr, rfl⟩
        · -- A width without a range is no refusal, and is handed on as it is.
          rcases Slot.range_eq_error hr.2 with rfl | rfl | rfl <;> cases h <;> exact .inl hr
        · exact .inr ⟨r, hr.mono fun v => List.mem_of_mem_take,
            (Except.error.inj ((Slot.inSlot_refuse s r).symm.trans h)).symm⟩
    · rcases Attempt.bind_eq_error.mp h with h | ⟨_, -, h⟩
      · obtain ⟨s', hs', he⟩ := ih hfs (fun v hv => hraw v (List.mem_of_mem_drop hv)) hdrop h
        refine ⟨s', List.mem_cons_of_mem s hs', he.imp_right ?_⟩
        rintro ⟨r, hr, he⟩
        exact ⟨r, hr.mono fun v => List.mem_of_mem_drop, he⟩
      · cases h

/-! ### Records -/

/-- **Decoding whole numbers fails by a refusal**: of how many they are, or of a slot; or because
what the refusal has to say cannot be printed. -/
theorem decode_eq_error {schema : Schema} {raw : List Value} {e : Failure}
    (hfields : ∀ s ∈ schema.slots, s.spanIsFloat = false) (hraw : ∀ v ∈ raw, v.integer?.isSome)
    (h : schema.decode (.list raw) = .error e) :
    (raw.length ≠ schema.span ∧
        e = (Failure.refused (.arityMismatch schema.name schema.arity raw.length)).raised) ∨
      raw.length = schema.span ∧ ∃ s ∈ schema.slots,
        s.FailsOn raw (.slotDecode s.name) e := by
  rw [decode_list] at h
  by_cases hlen : raw.length = schema.span
  · rw [if_pos ((equal_arity_iff hfields).mpr hlen)] at h
    rcases Attempt.bind_eq_error.mp h with h | ⟨_, -, h⟩
    · exact .inr ⟨hlen, decodeSlots_eq_error hfields hraw hlen h⟩
    · cases h
  · rw [if_neg (mt (equal_arity_iff hfields).mp hlen)] at h
    cases h
    exact .inl ⟨hlen, rfl⟩

end Schema

end EventDialects
