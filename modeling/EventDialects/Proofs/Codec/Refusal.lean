import EventDialects.Proofs.Codec.RoundTrip
import EventDialects.Proofs.Value.Order

/-!
# How encoding fails

Encoding a slot's argument fails in three ways only.  The slot refuses the argument, and the refusal
names the slot; or what the refusal would have to name is an integer that is too long to be printed;
or the slot's width is none, so that the slot has no range to check an argument against.  A record
that has not the schema's slots is refused as a whole.  The two can be told apart, and this file says
so once for all kinds of slot.

* `Slot.range_eq_ok`, `Slot.range_eq_error`: which widths have a range.
* `Slot.operandsOf_eq_error`: **a slot's failure names the slot**, or is one of the other two.
* `Schema.encodeSlots_eq_error`: the failure of several slots is that of one of them.
* `Schema.encode_of_fits`, `Schema.encode_of_not_fits`: what encoding a record is.
* `Schema.encodeSlots_ne_mismatch`: the arguments of slots never fail as a whole record does.
* `Schema.encode_eq_error`: **encoding fails by a refusal**, or by one of five misuses.
-/

namespace EventDialects

namespace Slot

/-! ### Ranges -/

theorem exists_widthMisuse (s : Slot) :
    ∃ operator left right, s.widthMisuse = .noOperation operator left right := by
  rw [widthMisuse]
  split <;> exact ⟨_, _, _, rfl⟩

theorem wordCountOf_eq_ok {bits count : Int} : wordCountOf bits = .ok count ↔
    0 ≤ bits ∧ bits ≤ shiftLimit ∧ wordCount bits.toNat = count := by
  rw [wordCountOf]
  split
  · simp [misused]; omega
  · split
    · simp [misused]; omega
    · simp; omega

theorem wordCountOf_eq_error {bits : Int} {e : Failure} (h : wordCountOf bits = .error e) :
    e = .misuse .negativeWidth ∨ e = .misuse .tooWide := by
  rw [wordCountOf] at h
  split at h
  · cases h
    exact .inl rfl
  · split at h <;> cases h
    exact .inr rfl

/-- A slot has a range exactly if its width is an integer that can be shifted by, a signed slot
needing one bit for the sign. -/
theorem range_eq_ok {s : Slot} {low high : Int} : s.range = .ok (low, high) ↔ ∃ bits,
    s.bits.integer? = some bits ∧ if s.signed.truthy then ∃ half, wordCountOf (bits - 1) = .ok half ∧
      low = -half ∧ high = half - 1
    else ∃ count, wordCountOf bits = .ok count ∧ low = 0 ∧ high = count - 1 := by
  rw [range]
  cases s.bits.integer? with
  | none => simp [misused]
  | some bits =>
    simp only [Option.some.injEq, exists_eq_left']
    split <;> rw [Attempt.bind_eq_ok] <;> simp [pure, Except.pure, eq_comm]

theorem range_eq_error {s : Slot} {e : Failure} (h : s.range = .error e) :
    e = .misuse s.widthMisuse ∨ e = .misuse .negativeWidth ∨ e = .misuse .tooWide := by
  rw [range] at h
  split at h
  · cases h
    exact .inl rfl
  · split at h
    all_goals
      rcases Attempt.bind_eq_error.mp h with h | ⟨_, -, h⟩
      · exact .inr (wordCountOf_eq_error h)
      · cases h

theorem printable_bits_of_range {s : Slot} {low high : Int} (h : s.range = .ok (low, high)) :
    s.bits.printable := by
  obtain ⟨bits, hbits, h⟩ := range_eq_ok.mp h
  have hsmall : 0 ≤ bits ∧ bits ≤ shiftLimit + 1 := by
    split at h
    · obtain ⟨half, hhalf, -⟩ := h
      have := wordCountOf_eq_ok.mp hhalf
      omega
    · obtain ⟨count, hcount, -⟩ := h
      have := wordCountOf_eq_ok.mp hcount
      omega
  cases hs : s.bits <;> rw [hs] at hbits <;> cases hbits
  · rfl
  · have : shiftLimit + 1 < Text.firstBeyond 20 := by decide
    exact Text.writable_of_lt (by omega)

/-! ### One slot -/

/-- The ways in which a slot can fail to encode an argument. What a refusal has to say may be too
long to be printed, unless it `prints`. -/
inductive Blames (s : Slot) (prints : Prop) : Failure → Prop
  /-- The argument is refused. -/
  | argument (reason : String) : Blames s prints (.refused (.slotEncode s.name reason))
  | unprintable (h : ¬ prints) : Blames s prints (.misuse .tooLong)
  /-- The slot's width is no width. -/
  | width {e : Failure} (h : s.range = .error e) : Blames s prints e

theorem Blames.mono {s : Slot} {p q : Prop} {e : Failure} (h : s.Blames p e) (hpq : q → p) :
    s.Blames q e := by
  cases h with
  | argument reason => exact .argument reason
  | unprintable h => exact .unprintable fun hq => h (hpq hq)
  | width h => exact .width h

/-- What blames a slot is a refusal that names it, or a misuse of its width or of a number that is
too long. -/
theorem Blames.cases {s : Slot} {p : Prop} {e : Failure} (h : s.Blames p e) :
    (∃ reason, e = .refused (.slotEncode s.name reason)) ∨
      (∃ operator left right, e = .misuse (.noOperation operator left right)) ∨
      e = .misuse .negativeWidth ∨ e = .misuse .tooWide ∨ ¬ p ∧ e = .misuse .tooLong := by
  cases h with
  | argument reason => exact .inl ⟨reason, rfl⟩
  | unprintable h => exact .inr (.inr (.inr (.inr ⟨h, rfl⟩)))
  | width h =>
    rcases range_eq_error h with rfl | rfl | rfl
    · obtain ⟨operator, left, right, hw⟩ := exists_widthMisuse s
      exact .inr (.inl ⟨operator, left, right, congrArg Failure.misuse hw⟩)
    · exact .inr (.inr (.inl rfl))
    · exact .inr (.inr (.inr (.inl rfl)))

theorem checkWidth_eq_error {s : Slot} {v : Value} {a : Number} {e : Failure}
    (hv : v.number? = some a) (h : s.checkWidth v = .error e) :
    s.range = .error e ∨ (∃ low high, s.range = .ok (low, high)) ∧
      e = (Failure.refused (.outOfRange v s.bits s.signed.truthy)).raised := by
  rw [checkWidth] at h
  rcases Attempt.bind_eq_error.mp h with h | ⟨⟨low, high⟩, hrange, h⟩
  · exact .inl h
  · simp only [hv] at h
    split at h
    · cases h
    · cases h
      exact .inr ⟨⟨low, high, hrange⟩, rfl⟩

theorem blames_of_reject {α : Type} {s : Slot} {reason : String} {e : Failure}
    (h : (s.reject reason : Attempt α) = .error e) : s.Blames s.name.printable e := by
  cases h
  cases hname : s.name.printable with
  | true =>
    rw [Failure.raised_of_printable (by exact hname)]
    exact .argument reason
  | false =>
    rw [Failure.raised_of_not_printable (by exact hname)]
    exact .unprintable (by decide)

theorem integerOperand_eq_error {s : Slot} {v : Value} {e : Failure}
    (h : s.integerOperand v = .error e) : s.Blames (s.name.printable ∧ v.showable) e := by
  cases v with
  | int n =>
    simp only [integerOperand] at h
    cases hw : s.checkWidth (.int n) with
    | ok => rw [hw] at h; cases h
    | error e' =>
      rw [hw] at h
      rcases checkWidth_eq_error rfl hw with hr | ⟨⟨low, high, hr⟩, rfl⟩
      · -- The range fails by a misuse, which is handed on as it is.
        rcases range_eq_error hr with rfl | rfl | rfl <;> cases h <;> exact .width hr
      · cases hn : (Value.int n).printable with
        | true =>
          rw [Failure.raised_of_printable] at h
          · exact (blames_of_reject h).mono And.left
          · exact Bool.and_eq_true_iff.mpr ⟨hn, printable_bits_of_range hr⟩
        | false =>
          rw [Failure.raised_of_not_printable] at h
          · cases h
            exact .unprintable fun hp => by
              rw [show (Value.int n).showable = false from hn] at hp
              exact absurd hp.2 (by decide)
          · exact Bool.and_eq_false_iff.mpr (.inl hn)
  | _ => exact (blames_of_reject h).mono And.left

theorem integerOperands_eq_error {s : Slot} {vs : List Value} {e : Failure}
    (h : s.integerOperands vs = .error e) :
    s.Blames (s.name.printable ∧ ∀ v ∈ vs, v.showable) e := by
  induction vs generalizing e with
  | nil => cases h
  | cons v vs ih =>
    rw [List.forall_mem_cons]
    rw [integerOperands] at h
    rcases Attempt.bind_eq_error.mp h with h | ⟨operand, -, h⟩
    · exact (integerOperand_eq_error h).mono fun hp => ⟨hp.1, hp.2.1⟩
    · rcases Attempt.bind_eq_error.mp h with h | ⟨operands, -, h⟩
      · exact (ih h).mono fun hp => ⟨hp.1, hp.2.2⟩
      · cases h

theorem printable_fields {s : Slot} (hc : s.kind = .coordinate) : s.fields.printable := by
  have hspan : (Value.int s.span).equal s.fields := (equal_fields_iff hc).mpr rfl
  cases hf : s.fields with
  | int n =>
    rw [hf, Value.equal_int, beq_iff_eq] at hspan
    have : n = 2 ∨ n = 4 := by
      rw [← hspan, span, if_pos hc]
      split
      · exact .inr rfl
      · exact .inl rfl
    rcases this with rfl | rfl <;> rfl
  | bool b => rfl
  | float x => rfl
  | _ => rw [hf] at hspan; simp [Value.equal, Value.isNumber, Value.number?] at hspan

theorem rejectCoordinate_eq_error {α : Type} {s : Slot} (hc : s.kind = .coordinate) {v : Value}
    {e : Failure} (h : (s.rejectCoordinate v : Attempt α) = .error e) :
    s.Blames (s.name.printable ∧ v.showable) e := by
  rw [rejectCoordinate, Value.print, if_pos (printable_fields hc), Value.display] at h
  split at h
  · exact (blames_of_reject h).mono And.left
  · rename_i hv
    cases h
    exact .unprintable fun hp => hv hp.2

theorem coordinateOperands_eq_error {s : Slot} (hc : s.kind = .coordinate) {v : Value}
    {e : Failure} (h : s.coordinateOperands v = .error e) :
    s.Blames (s.name.printable ∧ v.showable) e := by
  cases v with
  | tuple xs =>
    simp only [coordinateOperands] at h
    split at h
    · refine (integerOperands_eq_error h).mono fun hp => ⟨hp.1, ?_⟩
      exact Value.allShowable_iff.mp hp.2
    · exact rejectCoordinate_eq_error hc h
  | _ => exact rejectCoordinate_eq_error hc h

theorem refOperand_eq_error {s : Slot} {kind : RefKind} {v : Value} {e : Failure}
    (h : s.refOperand kind v = .error e) : s.Blames (s.name.printable ∧ v.showable) e := by
  cases v with
  | ref kind' offset =>
    simp only [refOperand] at h
    split at h
    · exact (integerOperand_eq_error h).mono id
    · exact (blames_of_reject h).mono And.left
  | _ => exact (blames_of_reject h).mono And.left

/-- What a slot has to say about an argument **prints** if its name and the argument can be written,
and the number that its decoder makes of the argument. -/
structure Prints (s : Slot) (v : Value) : Prop where
  name : s.name.printable
  argument : v.showable
  number : ∀ d ∈ s.decoder, d.accepts v → ∀ n, d.encode v = .ok n → Text.writable n

theorem variantOperand_eq_error {s : Slot} (hk : s.kind.needsDecoder) {v : Value} {e : Failure}
    (h : s.variantOperand v = .error e) : s.Blames (s.Prints v) e := by
  obtain ⟨d, hd⟩ := exists_decoder hk
  simp only [variantOperand, hd] at h
  split at h
  · rename_i ha
    obtain ⟨n, hn⟩ := Decoder.exists_encode_of_accepts ha
    rcases Attempt.bind_eq_error.mp h with h | ⟨m, hm, h⟩
    · rw [hn] at h
      cases h
    · exact (integerOperand_eq_error h).mono fun hp => ⟨hp.name, hp.number d hd ha m hm⟩
  · rw [rejectVariant, Value.display] at h
    split at h
    · exact (blames_of_reject h).mono Prints.name
    · rename_i hv
      cases h
      exact .unprintable fun hp => hv hp.argument

theorem reservedOperand_eq_error {s : Slot} {v : Value} {e : Failure}
    (h : s.reservedOperand v = .error e) : s.Blames s.name.printable e := by
  cases v with
  | int n => cases h
  | _ => exact blames_of_reject h

/-- **A slot's failure names the slot**, or is that of its range, or says that a number is too long
to be named. -/
theorem operandsOf_eq_error {s : Slot} {v : Value} {e : Failure} (h : s.operandsOf v = .error e) :
    s.Blames (s.Prints v) e := by
  have both (hp : s.Prints v) : s.name.printable ∧ v.showable := ⟨hp.name, hp.argument⟩
  cases hk : s.kind with
  | rawInteger => rw [operandsOf, hk] at h; exact (integerOperand_eq_error h).mono both
  | coordinate => rw [operandsOf, hk] at h; exact (coordinateOperands_eq_error hk h).mono both
  | characterId | functionRef | stringRef =>
    rw [operandsOf, hk] at h
    exact (refOperand_eq_error h).mono both
  | bitflags | enumValue =>
    rw [operandsOf, hk] at h
    exact variantOperand_eq_error (by rw [hk]; rfl) h
  | unknown =>
    rw [operandsOf, hk] at h
    exact (reservedOperand_eq_error h).mono Prints.name

end Slot

namespace Schema

/-! ### Records -/

theorem encodeSlots_eq_error {slots : List Slot} : ∀ {arguments : List Value} {e : Failure},
    encodeSlots slots arguments = .error e →
      ∃ s ∈ slots, ∃ v ∈ arguments, s.Blames (s.Prints v) e := by
  induction slots with
  | nil => intro arguments e h; cases arguments <;> cases h
  | cons s slots ih =>
    intro arguments e h
    cases arguments with
    | nil => cases h
    | cons v arguments =>
      rw [encodeSlots] at h
      rcases Attempt.bind_eq_error.mp h with h | ⟨piece, -, h⟩
      · exact ⟨s, List.mem_cons_self, v, List.mem_cons_self, Slot.operandsOf_eq_error h⟩
      · rcases Attempt.bind_eq_error.mp h with h | ⟨rest, -, h⟩
        · obtain ⟨s', hs', w, hw, he⟩ := ih h
          exact ⟨s', List.mem_cons_of_mem s hs', w, List.mem_cons_of_mem v hw, he⟩
        · cases h

/-- A record fits a schema if it has the schema's slots, in order, and an argument for each. -/
def Fits (schema : Schema) (record : Record) : Prop :=
  Value.equalAll record.slotNames schema.slotNames ∧
    record.arguments.length = schema.slots.length

theorem encode_of_fits {schema : Schema} {record : Record} (h : schema.Fits record) :
    schema.encode record = encodeSlots schema.slots record.arguments := by
  rw [encode, if_neg]
  rintro (hlen | hnames)
  · exact hlen h.2
  · rw [h.1] at hnames
    cases hnames

theorem encode_of_not_fits {schema : Schema} {record : Record} (h : ¬ schema.Fits record) :
    schema.encode record = schema.mismatch record := by
  rw [encode, if_pos]
  by_contra hn
  rw [not_or, Decidable.not_not, Bool.not_eq_true', Bool.not_eq_false] at hn
  exact h ⟨hn.2, hn.1⟩

theorem namesText_eq_error {names : List Value} {e : Failure} (h : namesText names = .error e) :
    ∃ type, e = .misuse (.notText type) := by
  induction names with
  | nil => cases h
  | cons name names ih =>
    cases name with
    | str s =>
      rw [namesText] at h
      rcases Attempt.bind_eq_error.mp h with h | ⟨_, -, h⟩
      · exact ih h
      · cases h
    | _ => cases h; exact ⟨_, rfl⟩

/-- A record is refused as a whole with the names of both sides, unless they cannot be printed. -/
theorem mismatch_eq_error (schema : Schema) (record : Record) (α : Type) : ∃ e,
    schema.mismatch record = (.error e : Attempt α) ∧
      ((∃ expected actual, e = .refused (.schemaMismatch schema.name expected actual)) ∨
        (∃ type, e = .misuse (.notText type)) ∨
        schema.name.printable = false ∧ e = .misuse .tooLong) := by
  cases h : (schema.mismatch record : Attempt α) with
  | ok x => exact absurd h mismatch_ne_ok
  | error e =>
    refine ⟨e, rfl, ?_⟩
    rw [mismatch] at h
    rcases Attempt.bind_eq_error.mp h with h | ⟨_, hname, h⟩
    · exact .inr (.inr (Value.print_eq_error.mp h))
    · rcases Attempt.bind_eq_error.mp h with h | ⟨expected, -, h⟩
      · exact .inr (.inl (namesText_eq_error h))
      · rcases Attempt.bind_eq_error.mp h with h | ⟨actual, -, h⟩
        · exact .inr (.inl (namesText_eq_error h))
        · rw [refuse_of_printable (by exact (Value.print_eq_ok.mp hname).1)] at h
          cases h
          exact .inl ⟨expected, actual, rfl⟩

/-- The arguments of slots never fail as a whole record does, if the event can be named. -/
theorem encodeSlots_ne_mismatch {schema : Schema} (hname : schema.name.printable) {record : Record}
    {slots : List Slot} {arguments : List Value} :
    encodeSlots slots arguments ≠ schema.mismatch record := by
  obtain ⟨e, he, hwhole⟩ := mismatch_eq_error schema record (List Int)
  rw [he]
  intro h
  obtain ⟨s, -, v, -, hs⟩ := encodeSlots_eq_error h
  rcases hs.cases with ⟨reason, rfl⟩ | ⟨operator, left, right, rfl⟩ | rfl | rfl | ⟨-, rfl⟩ <;>
    simp [hname] at hwhole

/-- **Encoding fails by a refusal**, or by a misuse of a width, of a name that is no text or of a
number that is too long to be printed. -/
theorem encode_eq_error {schema : Schema} {record : Record} {e : Failure}
    (h : schema.encode record = .error e) :
    (∃ refusal, e = .refused refusal) ∨
      (∃ operator left right, e = .misuse (.noOperation operator left right)) ∨
      e = .misuse .negativeWidth ∨ e = .misuse .tooWide ∨ e = .misuse .tooLong ∨
      ∃ type, e = .misuse (.notText type) := by
  by_cases hfits : schema.Fits record
  · rw [encode_of_fits hfits] at h
    obtain ⟨s, -, v, -, hs⟩ := encodeSlots_eq_error h
    rcases hs.cases with ⟨reason, he⟩ | hoperation | hwidth | hwide | ⟨-, hlong⟩
    · exact .inl ⟨_, he⟩
    · exact .inr (.inl hoperation)
    · exact .inr (.inr (.inl hwidth))
    · exact .inr (.inr (.inr (.inl hwide)))
    · exact .inr (.inr (.inr (.inr (.inl hlong))))
  · rw [encode_of_not_fits hfits] at h
    obtain ⟨e', he', hwhole⟩ := mismatch_eq_error schema record (List Int)
    cases he'.symm.trans h
    rcases hwhole with ⟨expected, actual, he⟩ | htext | ⟨-, hlong⟩
    · exact .inl ⟨_, he⟩
    · exact .inr (.inr (.inr (.inr (.inr htext))))
    · exact .inr (.inr (.inr (.inr (.inl hlong))))

theorem encode_ne_unordered {schema : Schema} {record : Record} {e : Failure}
    (he : Value.IsUnordered e) : schema.encode record ≠ .error e := by
  obtain ⟨left, right, rfl⟩ := he
  intro h
  rcases encode_eq_error h with ⟨_, he⟩ | ⟨_, _, _, he⟩ | he | he | he | ⟨_, he⟩ <;> cases he

theorem encode_ne_outOfBounds {schema : Schema} {record : Record} :
    schema.encode record ≠ misused .outOfBounds := by
  intro h
  rcases encode_eq_error h with ⟨_, he⟩ | ⟨_, _, _, he⟩ | he | he | he | ⟨_, he⟩ <;> cases he

end Schema

end EventDialects
