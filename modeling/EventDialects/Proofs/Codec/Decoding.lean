import EventDialects.Proofs.Codec.Domain

/-!
# What decoding answers

Decoding integers has three outcomes, and this file says exactly when each arises.  A wrong number
of operands is refused whatever they are.  With the right number, every slot owns a slice: as many
operands as it spans, from where the slices of the slots before it end.  `Slot.Faulty` says what is
wrong with a slice, if anything is: its first operand that does not fit the width, or else an
operand that the decoder has no variant for.  `Slot.reading` is what a slice without a fault stands
for, and it is a function of the slot and the slice alone.

* `Slot.argumentOf_of_faulty`, `Slot.argumentOf_of_clean`: **one slot** refuses a faulty slice for
  its fault and reads any other.
* `Schema.decodeSlots_of_faulty`, `Schema.decodeSlots_of_clean`: some slots do so in their order, by
  induction on the slots.
* `Schema.decode_exactly`: **decoding**, with its arity.
-/

namespace EventDialects

open Value (variants)

namespace Value

theorem int_equal_of_integer? {v : Value} {n : Int} (h : v.integer? = some n) :
    (Value.int n).equal v := by
  have hself : (Number.ofInt n).equal (.ofInt n) := by rw [Number.equal_ofInt, beq_self_eq_true]
  exact (equal_iff_of_number? rfl).mpr ⟨_, number?_of_integer? h, hself⟩

end Value

namespace Decoder

/-! ### Raw numbers and their variants -/

/-- The variant of a raw number: the member that has it, or the members whose bits it has. -/
def variantOf : Decoder → Int → Value
  | .choice _ family, n => .variant family n
  | .flagSet _ family, n => .frozenset (variants family (family.bitsOf n))

theorem decode_int_eq_ok_iff {d : Decoder} {n : Int} {w : Value} :
    d.decode (.int n) = .ok w ↔ d.Domain n ∧ w = d.variantOf n := by
  cases d with
  | choice name family => exact decode_choice_eq_ok
  | flagSet name family => rw [decode_flagSet_eq_ok, Domain, and_assoc, variantOf]

theorem decode_eq_ok_iff_of_integer? {d : Decoder} {v w : Value} {n : Int}
    (hv : v.integer? = some n) : d.decode v = .ok w ↔ d.Domain n ∧ w = d.variantOf n := by
  rw [← decode_int_eq_ok_iff]
  have hn : (Value.int n).integer? = some n := rfl
  cases d with
  | choice name family =>
    have hequal : ∀ r : Int, (Value.int r).equal v = (Value.int r).equal (.int n) := by
      intro r
      exact (Value.equal_congr_right (Value.int_equal_of_integer? hv) _).symm
    simp only [decode, decodeChoice, Value.checkKey_of_integer? hv, Value.checkKey_of_integer? hn,
      hequal, noVariant, hv, hn, bind, Except.bind]
    split <;> simp [refuse]
  | flagSet name family =>
    simp only [decode, decodeFlags, noVariant, hv, hn]
    split <;> simp [refuse]

theorem decode_of_domain {d : Decoder} {v : Value} {n : Int} (hv : v.integer? = some n)
    (hn : d.Domain n) : d.decode v = .ok (d.variantOf n) :=
  (decode_eq_ok_iff_of_integer? hv).mpr ⟨hn, rfl⟩

theorem decode_of_not_domain {d : Decoder} {v : Value} {n : Int} (hv : v.integer? = some n)
    (hn : ¬ d.Domain n) : d.decode v = refuse (.unknownVariant d.name v) := by
  cases h : d.decode v with
  | ok w => exact absurd ((decode_eq_ok_iff_of_integer? hv).mp h).1 hn
  | error e => rw [decode_eq_error hv h]; rfl

end Decoder

namespace Slot

/-! ### Operands that fit -/

/-- A slot **holds** an operand if it is a whole number within the slot's width. -/
def Holds (s : Slot) (v : Value) : Prop := ∃ n, v.integer? = some n ∧ s.Within n

theorem checkWidth_of_holds {s : Slot} {v : Value} (hv : s.Holds v) : s.checkWidth v = .ok () := by
  obtain ⟨n, hn, low, high, hrange, hwithin⟩ := hv
  simp only [checkWidth, hrange, Value.number?_of_integer? hn, bind, Except.bind,
    if_pos (fits_iff.mpr hwithin)]
  rfl

theorem checkWidth_of_not_holds {s : Slot} (hrange : ∃ low high, s.range = .ok (low, high))
    {v : Value} (hint : v.integer?.isSome) (hv : ¬ s.Holds v) :
    s.checkWidth v = refuse (s.misfit v) := by
  obtain ⟨low, high, hrange⟩ := hrange
  obtain ⟨n, hn⟩ := Option.isSome_iff_exists.mp hint
  have hfits : ¬ fits low high (.ofInt n) := by
    intro h
    exact hv ⟨n, hn, low, high, hrange, fits_iff.mp h⟩
  simp only [checkWidth, hrange, Value.number?_of_integer? hn, bind, Except.bind, if_neg hfits]
  rfl

theorem checkWidths_of_holds {s : Slot} {raw : List Value} (hraw : ∀ v ∈ raw, s.Holds v) :
    s.checkWidths raw = .ok () := by
  induction raw with
  | nil => rfl
  | cons v raw ih =>
    obtain ⟨hv, hraw⟩ := List.forall_mem_cons.mp hraw
    exact checkWidths_cons.mpr ⟨checkWidth_of_holds hv, ih hraw⟩

theorem checkWidths_of_not_holds {s : Slot} (hrange : ∃ low high, s.range = .ok (low, high))
    {before after : List Value} {v : Value} (hbefore : ∀ w ∈ before, s.Holds w)
    (hint : v.integer?.isSome) (hv : ¬ s.Holds v) :
    s.checkWidths (before ++ v :: after) = refuse (s.misfit v) := by
  induction before with
  | nil =>
    rw [List.nil_append, checkWidths, checkWidth_of_not_holds hrange hint hv]
    rfl
  | cons w before ih =>
    obtain ⟨hw, hbefore⟩ := List.forall_mem_cons.mp hbefore
    rw [List.cons_append, checkWidths, checkWidth_of_holds hw]
    exact ih hbefore

theorem fitting_of_holds {s : Slot} {v : Value} (hv : s.Holds v) : s.fitting [v] = .ok v := by
  simp only [fitting, single, bind, Except.bind, checkWidth_of_holds hv]
  rfl

theorem fitting_of_not_holds {s : Slot} (hrange : ∃ low high, s.range = .ok (low, high))
    {v : Value} (hint : v.integer?.isSome) (hv : ¬ s.Holds v) :
    s.fitting [v] = refuse (s.misfit v) := by
  simp only [fitting, single, bind, Except.bind, checkWidth_of_not_holds hrange hint hv]
  rfl

/-! ### One slot -/

/-- What is **wrong with the operands** of a slot.  An undocumented slot takes them as they are. -/
inductive Faulty (s : Slot) : List Value → Refusal → Prop
  /-- The first operand that does not fit the width. -/
  | width {before after : List Value} {v : Value} (hk : s.kind ≠ .unknown)
      (hbefore : ∀ w ∈ before, s.Holds w) (hv : ¬ s.Holds v) :
      Faulty s (before ++ v :: after) (s.misfit v)
  /-- An operand that fits, and that the decoder has no variant for. -/
  | variant {d : Decoder} {v : Value} {n : Int} (hk : s.kind.needsDecoder)
      (hd : s.decoder = some d) (hv : v.integer? = some n) (hw : s.Within n) (hn : ¬ d.Domain n) :
      Faulty s [v] (.unknownVariant d.name v)

/-- Operands with which nothing is wrong. -/
def Clean (s : Slot) (raw : List Value) : Prop := ∀ cause, ¬ s.Faulty raw cause

/-- What one operand stands for. -/
def meaning (s : Slot) (v : Value) : Value :=
  if s.kind.needsDecoder then s.decoder.elim .null fun d => d.variantOf (v.integer?.getD 0)
  else s.kind.refKind?.elim v fun kind => .ref kind v

/-- What the operands of a slot stand for: several of them for a coordinate. -/
def reading (s : Slot) : List Value → Value
  | [v] => s.meaning v
  | raw => .tuple raw

/-- **A slot refuses faulty operands** for their fault. -/
theorem argumentOf_of_faulty {s : Slot} (hs : s.Ranged) {raw : List Value} {cause : Refusal}
    (hint : ∀ v ∈ raw, v.integer?.isSome) (hlen : raw.length = s.span)
    (h : s.Faulty raw cause) : s.argumentOf raw = refuse cause := by
  cases h with
  | @width before after v hk hbefore hv =>
    have hrange := hs hk
    have hv' : v.integer?.isSome := hint v (by simp)
    by_cases hc : s.kind = .coordinate
    · rw [argumentOf, hc]
      simp only [checkWidths_of_not_holds hrange hbefore hv' hv]
      rfl
    · rw [span_of_ne_coordinate hc, List.length_append, List.length_cons] at hlen
      obtain rfl : before = [] := List.length_eq_zero_iff.mp (by omega)
      obtain rfl : after = [] := List.length_eq_zero_iff.mp (by omega)
      have hfitting := fitting_of_not_holds hrange hv' hv
      rw [List.nil_append]
      cases hs : s.kind with
      | unknown => exact absurd hs hk
      | coordinate => exact absurd hs hc
      | rawInteger => rw [argumentOf, hs]; exact hfitting
      | characterId | functionRef | stringRef | bitflags | enumValue =>
        rw [argumentOf, hs]
        simp only [hfitting]
        rfl
  | @variant d v n hk hd hv hw hn =>
    have hfitting : s.fitting [v] = .ok v := fitting_of_holds ⟨n, hv, hw⟩
    rcases SlotKind.needsDecoder_iff.mp hk with hs | hs
    all_goals
      rw [argumentOf, hs]
      simp only [hfitting, hd, bind, Except.bind]
      exact Decoder.decode_of_not_domain hv hn

theorem Faulty.objects {s : Slot} (hs : s.Ranged) {raw : List Value} {cause : Refusal}
    (h : s.Faulty raw cause) : s.Objects raw cause := by
  cases h with
  | width hk _ _ =>
    obtain ⟨low, high, hrange⟩ := hs hk
    exact .misfit hrange (List.mem_append_cons_self)
  | variant _ hd _ _ _ => exact .noVariant hd List.mem_cons_self

theorem Clean.holds {s : Slot} {raw : List Value} (h : s.Clean raw) (hk : s.kind ≠ .unknown) :
    ∀ v ∈ raw, s.Holds v := by
  rcases forall_or_exists_first s.Holds raw with hall | ⟨before, v, after, rfl, hbefore, hv⟩
  · exact hall
  · exact absurd (.width hk hbefore hv) (h _)

theorem one_lt_span {s : Slot} (hc : s.kind = .coordinate) : 1 < s.span := by
  rw [span, if_pos hc]
  split <;> omega

theorem reading_coordinate {s : Slot} {raw : List Value} (hc : s.kind = .coordinate)
    (hlen : raw.length = s.span) : s.reading raw = .tuple raw := by
  have hmany : 1 < s.span := one_lt_span hc
  match raw, hlen with
  | [], _ => rfl
  | [v], hlen => rw [List.length_singleton] at hlen; omega
  | _ :: _ :: _, _ => rfl

/-- **A slot reads operands** with which nothing is wrong. -/
theorem argumentOf_of_clean {s : Slot} {raw : List Value} (hlen : raw.length = s.span)
    (h : s.Clean raw) : s.argumentOf raw = .ok (s.reading raw) := by
  by_cases hc : s.kind = .coordinate
  · rw [reading_coordinate hc hlen, argumentOf, hc]
    simp only [checkWidths_of_holds (h.holds (by rw [hc]; decide))]
    rfl
  · rw [span_of_ne_coordinate hc, List.length_eq_one_iff] at hlen
    obtain ⟨v, rfl⟩ := hlen
    have hholds : s.kind ≠ .unknown → s.Holds v := by
      intro hk
      exact h.holds hk v (List.mem_singleton_self v)
    have hmeaning : s.reading [v] = s.meaning v := rfl
    cases hs : s.kind with
    | coordinate => exact absurd hs hc
    | unknown => rw [argumentOf, hs, hmeaning, meaning, hs]; rfl
    | rawInteger =>
      rw [argumentOf, hs, hmeaning, meaning, hs]
      exact fitting_of_holds (hholds (by rw [hs]; decide))
    | characterId | functionRef | stringRef =>
      rw [argumentOf, hs, hmeaning, meaning, hs]
      simp only [fitting_of_holds (hholds (by rw [hs]; decide))]
      rfl
    | bitflags | enumValue =>
      have hk : s.kind.needsDecoder := by rw [hs]; rfl
      have hv : s.Holds v := hholds (by rw [hs]; decide)
      obtain ⟨d, hd⟩ := exists_decoder hk
      obtain ⟨n, hn, hw⟩ := hv
      have hdomain : d.Domain n := by
        by_contra hunknown
        exact h _ (.variant hk hd hn hw hunknown)
      have hvalue : s.reading [v] = d.variantOf n := by
        rw [hmeaning, meaning, if_pos hk, hd, hn]
        rfl
      rw [argumentOf, hs, hvalue]
      simp only [fitting_of_holds ⟨n, hn, hw⟩, hd, bind, Except.bind]
      exact Decoder.decode_of_domain hn hdomain

/-- Nothing is wrong with operands exactly if the slot makes an argument of them. -/
theorem clean_iff {s : Slot} (hs : s.Ranged) {raw : List Value}
    (hint : ∀ v ∈ raw, v.integer?.isSome) (hlen : raw.length = s.span) :
    s.Clean raw ↔ (s.argumentOf raw).toOption.isSome := by
  rw [Attempt.isSome_toOption_iff]
  constructor
  · intro h
    exact ⟨_, argumentOf_of_clean hlen h⟩
  · rintro ⟨v, hv⟩ cause hfaulty
    rw [argumentOf_of_faulty hs hint hlen hfaulty] at hv
    cases hv

/-- The operands that a slot owns: as many as it spans, from where those of the slots before it
end. -/
def slice {α : Type} (s : Slot) (before : List Slot) (raw : List α) : List α :=
  (raw.drop (Schema.spanOf before)).take s.span

theorem mem_of_mem_slice {α : Type} {s : Slot} {before : List Slot} {raw : List α} {x : α}
    (h : x ∈ s.slice before raw) : x ∈ raw :=
  List.mem_of_mem_drop (List.mem_of_mem_take h)

theorem slice_cons {α : Type} (s first : Slot) (before : List Slot) (raw : List α) :
    s.slice (first :: before) raw = s.slice before (raw.drop first.span) := by
  simp only [slice, Schema.spanOf, List.foldr_cons, List.drop_drop]

end Slot

namespace Schema

/-! ### Some slots -/

theorem decodeSlots_cons_of_clean {s : Slot} {slots : List Slot} {raw : List Value}
    (hf : s.spanIsFloat = false) (hlen : raw.length = spanOf (s :: slots))
    (h : s.Clean (raw.take s.span)) : decodeSlots (s :: slots) raw =
      decodeSlots slots (raw.drop s.span) >>= fun rest =>
        .ok (s.reading (raw.take s.span) :: rest) := by
  have hargument := Slot.argumentOf_of_clean (length_of_spanOf_cons hlen).1 h
  rw [decodeSlots, operandCount_eq_ok.mpr ⟨hf, rfl⟩]
  simp only [bind, Except.bind, decode_slot_eq_ok.mpr hargument]
  rfl

/-- **Some slots refuse** operands in the name of the first slot whose slice is faulty. -/
theorem decodeSlots_of_faulty : ∀ {slots : List Slot} {raw : List Value} {i : Nat}
    {cause : Refusal} (hi : i < slots.length),
    (∀ s ∈ slots, s.spanIsFloat = false) →
    (∀ s ∈ slots, s.Ranged) →
    (∀ v ∈ raw, v.integer?.isSome) → raw.length = spanOf slots →
    (∀ (j : Nat) (hj : j < i), Slot.Clean slots[j] (slots[j].slice (slots.take j) raw)) →
    Slot.Faulty slots[i] (slots[i].slice (slots.take i) raw) cause →
    decodeSlots slots raw = refuse (.slotDecode slots[i].name cause) := by
  intro slots
  induction slots with
  | nil =>
    intro raw i cause hi
    exact absurd hi (Nat.not_lt_zero i)
  | cons s slots ih =>
    intro raw i cause hi hfields hranges hint hlen hclean hfaulty
    obtain ⟨hf, hfs⟩ := List.forall_mem_cons.mp hfields
    obtain ⟨hr, hrs⟩ := List.forall_mem_cons.mp hranges
    obtain ⟨htake, hdrop⟩ := length_of_spanOf_cons hlen
    cases i with
    | zero =>
      have hargument : s.argumentOf (raw.take s.span) = refuse cause :=
        Slot.argumentOf_of_faulty hr (fun v hv => hint v (List.mem_of_mem_take hv)) htake hfaulty
      rw [decodeSlots, operandCount_eq_ok.mpr ⟨hf, rfl⟩]
      simp only [bind, Except.bind, Slot.decode, hargument, Slot.inSlot_refuse]
      rfl
    | succ i =>
      have hfirst : s.Clean (raw.take s.span) := hclean 0 (Nat.succ_pos i)
      have hrest := ih (Nat.lt_of_succ_lt_succ hi) hfs hrs
        (fun v hv => hint v (List.mem_of_mem_drop hv)) hdrop
        (fun j hj => by simpa [Slot.slice_cons] using hclean (j + 1) (Nat.succ_lt_succ hj))
        (by simpa [Slot.slice_cons] using hfaulty)
      rw [decodeSlots_cons_of_clean hf hlen hfirst, hrest]
      rfl

/-- **Some slots read** their slices if none of them is faulty. -/
theorem decodeSlots_of_clean : ∀ {slots : List Slot} {raw : List Value},
    (∀ s ∈ slots, s.spanIsFloat = false) → raw.length = spanOf slots →
    (∀ (i : Nat) (hi : i < slots.length),
      Slot.Clean slots[i] (slots[i].slice (slots.take i) raw)) →
    ∃ arguments, decodeSlots slots raw = .ok arguments ∧ ∀ (i : Nat) (hi : i < slots.length),
      arguments[i]? = some (slots[i].reading (slots[i].slice (slots.take i) raw)) := by
  intro slots
  induction slots with
  | nil =>
    intro raw _ _ _
    exact ⟨[], rfl, fun i hi => absurd hi (Nat.not_lt_zero i)⟩
  | cons s slots ih =>
    intro raw hfields hlen hclean
    obtain ⟨hf, hfs⟩ := List.forall_mem_cons.mp hfields
    obtain ⟨-, hdrop⟩ := length_of_spanOf_cons hlen
    have hfirst : s.Clean (raw.take s.span) := hclean 0 (Nat.succ_pos _)
    obtain ⟨rest, hrest, hreadings⟩ := ih hfs hdrop fun i hi => by
      simpa [Slot.slice_cons] using hclean (i + 1) (Nat.succ_lt_succ hi)
    refine ⟨s.reading (raw.take s.span) :: rest, ?_, fun i hi => ?_⟩
    · rw [decodeSlots_cons_of_clean hf hlen hfirst, hrest]
      rfl
    · cases i with
      | zero => rfl
      | succ i => simpa [Slot.slice_cons] using hreadings i (Nat.lt_of_succ_lt_succ hi)

/-! ### Records -/

/-- **Decoding, exactly.**  The slots' fields are whole numbers, and the event and the slots have
names that can be printed.  Operands of the wrong number are refused with the number that the slots
span and the actual one, whatever they are.  If the number is right and the operands are integers
that can be printed, decoding refuses in the name of the first slot whose slice is faulty, with the
fault as the cause; and if no slice is faulty, it makes a record with one argument for each slot,
which is the reading of that slot's own slice. -/
theorem decode_exactly {schema : Schema} (hfields : ∀ s ∈ schema.slots, s.spanIsFloat = false)
    (hranges : ∀ s ∈ schema.slots, s.Ranged) (hname : schema.name.printable)
    (hnames : ∀ s ∈ schema.slots, s.name.printable) (raw : List Value) :
    (raw.length ≠ schema.span → schema.decode (.list raw) =
      .error (.refused (.arityMismatch schema.name (.int schema.span) raw.length))) ∧
    ((∀ v ∈ raw, v.integer?.isSome) → (∀ v ∈ raw, v.printable) → raw.length = schema.span →
      (∀ (i : Nat) (hi : i < schema.slots.length) (cause : Refusal),
        (∀ (j : Nat) (hj : j < i),
          Slot.Clean schema.slots[j] (schema.slots[j].slice (schema.slots.take j) raw)) →
        Slot.Faulty schema.slots[i] (schema.slots[i].slice (schema.slots.take i) raw) cause →
        schema.decode (.list raw) =
          .error (.refused (.slotDecode schema.slots[i].name cause))) ∧
      ((∀ (i : Nat) (hi : i < schema.slots.length),
          Slot.Clean schema.slots[i] (schema.slots[i].slice (schema.slots.take i) raw)) →
        ∃ record, schema.decode (.list raw) = .ok record ∧
          record.slotNames = schema.slotNames ∧
          record.arguments.length = schema.slots.length ∧
          ∀ (i : Nat) (hi : i < schema.slots.length), record.arguments[i]? =
            some (schema.slots[i].reading (schema.slots[i].slice (schema.slots.take i) raw)))) := by
  have harity : (Value.int raw.length).equal schema.arity ↔ raw.length = schema.span :=
    equal_arity_iff hfields
  constructor
  · intro hlen
    rw [decode_list, if_neg (mt harity.mp hlen), arity_eq_span hfields]
    exact refuse_of_printable hname
  · intro hint hprint hlen
    rw [decode_list, if_pos (harity.mpr hlen)]
    constructor
    · intro i hi cause hclean hfaulty
      have hmem : schema.slots[i] ∈ schema.slots := List.getElem_mem hi
      have hcause : cause.printable := (hfaulty.objects (hranges _ hmem)).printable
        fun v hv => hprint v (Slot.mem_of_mem_slice hv)
      rw [decodeSlots_of_faulty hi hfields hranges hint hlen hclean hfaulty, refuse_of_printable]
      · rfl
      · exact Bool.and_eq_true_iff.mpr ⟨hnames _ hmem, hcause⟩
    · intro hclean
      obtain ⟨arguments, harguments, hreadings⟩ := decodeSlots_of_clean hfields hlen hclean
      refine ⟨schema.recordOf arguments, ?_, rfl, decodeSlots_length harguments, hreadings⟩
      rw [harguments]
      rfl

/-- Operands for an ambush of which the variant is missing and the last one does not fit. -/
def ambushOperands : List Value := [0, -1, 31, -32768, 255, 6, 100000, 65535, 40000].map .int

theorem decode_exactly_ambush :
    ambush.decode (.list ambushOperands) =
        .error (.refused
          (.slotDecode (.str "effect") (.unknownVariant "spawn_effects" (.int 6)))) ∧
      ambush.decode (.list (.null :: ambushOperands)) =
        .error (.refused (.arityMismatch (.str "Ambush") (.int 9) 10)) := by
  have hfields : ∀ s ∈ ambush.slots, s.spanIsFloat = false := by decide +kernel
  have hranges : ∀ s ∈ ambush.slots, s.Ranged := by decide +kernel
  have hnames : ∀ s ∈ ambush.slots, s.name.printable := by decide +kernel
  have hint : ∀ v ∈ ambushOperands, v.integer?.isSome := by decide +kernel
  have hprint : ∀ v ∈ ambushOperands, v.printable := by decide +kernel
  have hspan : ambush.span = 9 := by decide +kernel
  constructor
  · have hslice : ambush.slots[2].slice (ambush.slots.take 2) ambushOperands = [.int 6] := by
      have hbefore : spanOf (ambush.slots.take 2) = 5 := by decide +kernel
      have heffect : ambush.slots[2].span = 1 := by decide +kernel
      rw [Slot.slice, hbefore, heffect]
      rfl
    have hwithin : ambush.slots[2].Within 6 :=
      ⟨-8, 7, Attempt.eq_ok_of_toOption (by decide +kernel), by decide, by decide⟩
    have hunknown : ¬ (Decoder.choice "spawn_effects" .spawnEffect).Domain 6 := by
      show (6 : Int) ∉ Family.spawnEffect.raws
      decide
    refine ((decode_exactly hfields hranges rfl hnames ambushOperands).2 hint hprint
      hspan.symm).1 2 (by decide) _ ?_ ?_
    · intro j hj
      have hslots : ∀ j : Fin 2, (ambush.slots[j].Ranged ∧
          (∀ v ∈ ambush.slots[j].slice (ambush.slots.take j) ambushOperands, v.integer?.isSome) ∧
          (ambush.slots[j].slice (ambush.slots.take j) ambushOperands).length =
            ambush.slots[j].span ∧
          (ambush.slots[j].argumentOf
            (ambush.slots[j].slice (ambush.slots.take j) ambushOperands)).toOption.isSome) := by
        decide +kernel
      obtain ⟨hr, hi, hl, ha⟩ := hslots ⟨j, hj⟩
      exact (Slot.clean_iff hr hi hl).mpr ha
    · rw [hslice]
      exact .variant rfl rfl rfl hwithin hunknown
  · have hmismatch := (decode_exactly hfields hranges rfl hnames (.null :: ambushOperands)).1
    rw [hspan] at hmismatch
    exact hmismatch (by decide)

end Schema

end EventDialects
