import EventDialects.Proofs.Codec.Domain

/-!
# What encoding answers

A record holds any values whatsoever, and encoding says of each whether its slot takes it.
`Slot.Accepts` is the domain of a slot, kind by kind and without encoding: an integer within the
width, a tuple of as many of them as a coordinate has fields, a reference of exactly the slot's kind
to such an integer, a variant whose number fits, or any integer at all where the slot is
undocumented.

* `Slot.exists_operandsOf_iff`: **a slot encodes what it accepts**, and nothing else.
* `Slot.operandsOf_of_not_accepts`: anything else is refused in the slot's name.
* `Schema.encodeSlots_of_first`: of some slots the first one that fails is reported, by induction on
  the slots.
* `Schema.encode_exactly`: **encoding**, with the names of the record's slots.
-/

namespace EventDialects

open Value (variants ofTexts)

namespace Slot

/-! ### One slot -/

/-- The **domain of a slot**: the arguments that it has operands for. -/
inductive Accepts (s : Slot) : Value → Prop
  | integer {n : Int} (hk : s.kind = .rawInteger) (hn : s.Within n) : Accepts s (.int n)
  | coordinate {ns : List Int} (hk : s.kind = .coordinate) (hlen : ns.length = s.span)
      (hns : ∀ n ∈ ns, s.Within n) : Accepts s (.tuple (ns.map .int))
  | reference {kind : RefKind} {n : Int} (hk : s.kind.refKind? = some kind) (hn : s.Within n) :
      Accepts s (.ref kind (.int n))
  | member {name : String} {family : Family} {raw : Int} (hk : s.kind.needsDecoder)
      (hd : s.decoder = some (.choice name family)) (hraw : raw ∈ family.raws)
      (hn : s.Within raw) : Accepts s (.variant family raw)
  | flags {name : String} {family : Family} {v : Value} {raws : List Int}
      (hk : s.kind.needsDecoder) (hd : s.decoder = some (.flagSet name family))
      (hv : v.elements? = some (variants family raws)) (hraws : ∀ raw ∈ raws, raw ∈ family.bits)
      (hn : s.Within (joinBits raws)) : Accepts s v
  | reserved {n : Int} (hk : s.kind = .unknown) : Accepts s (.int n)

theorem Encodes.accepts {s : Slot} (hd : ∀ d ∈ s.decoder, d.Single) {v : Value} {ops : List Int}
    (h : s.Encodes v ops) : s.Accepts v := by
  cases h with
  | integer hk hw => exact .integer hk (checkWidth_eq_ok_iff.mp hw)
  | coordinate hk hlen hw => exact .coordinate hk hlen (checkWidths_eq_ok_iff.mp hw)
  | reference hk hw => exact .reference hk (checkWidth_eq_ok_iff.mp hw)
  | @variant d v n hk hdecoder ha he hw =>
    have hn : s.Within n := checkWidth_eq_ok_iff.mp hw
    cases d with
    | choice name family =>
      obtain ⟨raw, rfl, hraw⟩ := Decoder.accepts_choice_iff.mp ha
      have hsingle : family.combines = false := hd _ hdecoder
      obtain rfl : raw = n := Except.ok.inj he
      exact .member hk hdecoder (hraw.resolve_left (by rw [hsingle]; decide)) hn
    | flagSet name family =>
      obtain ⟨raws, hv, hraws⟩ := Decoder.accepts_flagSet_iff.mp ha
      rw [Decoder.encode_flagSet hv] at he
      obtain rfl := Except.ok.inj he
      exact .flags hk hdecoder hv hraws hn
  | reserved hk => exact .reserved hk

theorem Accepts.exists_encodes {s : Slot} {v : Value} (h : s.Accepts v) :
    ∃ ops, s.Encodes v ops := by
  cases h with
  | integer hk hn => exact ⟨_, .integer hk (checkWidth_eq_ok_iff.mpr hn)⟩
  | coordinate hk hlen hns => exact ⟨_, .coordinate hk hlen (checkWidths_eq_ok_iff.mpr hns)⟩
  | reference hk hn => exact ⟨_, .reference hk (checkWidth_eq_ok_iff.mpr hn)⟩
  | @member name family raw hk hd hraw hn =>
    have ha : (Decoder.choice name family).accepts (.variant family raw) :=
      Decoder.accepts_choice_iff.mpr ⟨raw, rfl, .inr hraw⟩
    exact ⟨_, .variant hk hd ha rfl (checkWidth_eq_ok_iff.mpr hn)⟩
  | @flags name family _ raws hk hd hv hraws hn =>
    have ha : (Decoder.flagSet name family).accepts v :=
      Decoder.accepts_flagSet_iff.mpr ⟨raws, hv, hraws⟩
    exact ⟨_, .variant hk hd ha (Decoder.encode_flagSet hv) (checkWidth_eq_ok_iff.mpr hn)⟩
  | reserved hk => exact ⟨_, .reserved hk⟩

/-- **A slot encodes what it accepts**, and nothing else. -/
theorem exists_operandsOf_iff {s : Slot} (hd : ∀ d ∈ s.decoder, d.Single) {v : Value} :
    (∃ ops, s.operandsOf v = .ok ops) ↔ s.Accepts v := by
  simp only [operandsOf_eq_ok_iff]
  exact ⟨fun ⟨_, h⟩ => h.accepts hd, Accepts.exists_encodes⟩

theorem prints_of_decoders {s : Slot} (hname : s.name.printable)
    (hd : ∀ d ∈ s.decoder, d ∈ Decoder.all) {v : Value} (hv : v.showable) : s.Prints v where
  name := hname
  argument := hv
  number d hs ha _ hn :=
    Decoder.writable_of_domain (hd d hs)
      (Decoder.domain_of_encode (Decoder.single_of_mem_all (hd d hs)) ha hn)

theorem operandsOf_of_not_accepts {s : Slot} (hs : s.Ranged) (hd : ∀ d ∈ s.decoder, d.Single)
    {v : Value} (hprint : s.Prints v) (h : ¬ s.Accepts v) :
    ∃ reason, s.operandsOf v = .error (.refused (.slotEncode s.name reason)) := by
  by_cases hk : s.kind = .unknown
  · have hreserved : s.operandsOf v = s.reservedOperand v := by rw [operandsOf, hk]
    rw [hreserved]
    cases v with
    | int n => exact absurd (.reserved hk) h
    | _ => exact ⟨_, refuse_of_printable (r := .slotEncode s.name _) hprint.name⟩
  · cases hops : s.operandsOf v with
    | ok ops => exact absurd ((exists_operandsOf_iff hd).mp ⟨ops, hops⟩) h
    | error e =>
      cases operandsOf_eq_error hops with
      | argument reason => exact ⟨reason, rfl⟩
      | unprintable hnot => exact absurd hprint hnot
      | width hrange =>
        obtain ⟨low, high, hok⟩ := hs hk
        rw [hrange] at hok
        cases hok

end Slot

namespace Schema

/-! ### Some slots -/

/-- **The first slot that fails** is the one whose failure is reported. -/
theorem encodeSlots_of_first : ∀ {slots : List Slot} {arguments : List Value} {i : Nat}
    {e : Failure} (hi : i < slots.length) (ha : i < arguments.length),
    (∀ (j : Nat) (hj : j < i), ∃ ops, slots[j].operandsOf arguments[j] = .ok ops) →
    slots[i].operandsOf arguments[i] = .error e → encodeSlots slots arguments = .error e := by
  intro slots
  induction slots with
  | nil =>
    intro arguments i e hi
    exact absurd hi (Nat.not_lt_zero i)
  | cons s slots ih =>
    intro arguments i e hi ha hbefore he
    cases arguments with
    | nil => exact absurd ha (Nat.not_lt_zero i)
    | cons v arguments =>
      rw [encodeSlots]
      cases i with
      | zero =>
        have hfirst : s.operandsOf v = .error e := he
        rw [hfirst]
        rfl
      | succ i =>
        obtain ⟨ops, hops⟩ := hbefore 0 (Nat.succ_pos i)
        have hfirst : s.operandsOf v = .ok ops := hops
        have hrest := ih (Nat.lt_of_succ_lt_succ hi) (Nat.lt_of_succ_lt_succ ha)
          (fun j hj => hbefore (j + 1) (Nat.succ_lt_succ hj)) he
        rw [hfirst, hrest]
        rfl

theorem exists_encodeSlots : ∀ {slots : List Slot} {arguments : List Value},
    (∀ (i : Nat) (hi : i < slots.length) (ha : i < arguments.length),
      ∃ ops, slots[i].operandsOf arguments[i] = .ok ops) →
    ∃ ops, encodeSlots slots arguments = .ok ops := by
  intro slots
  induction slots with
  | nil => exact fun _ => ⟨[], rfl⟩
  | cons s slots ih =>
    intro arguments hops
    cases arguments with
    | nil => exact ⟨[], rfl⟩
    | cons v arguments =>
      obtain ⟨piece, hpiece⟩ := hops 0 (Nat.succ_pos _) (Nat.succ_pos _)
      have hfirst : s.operandsOf v = .ok piece := hpiece
      obtain ⟨rest, hrest⟩ := ih fun i hi ha =>
        hops (i + 1) (Nat.succ_lt_succ hi) (Nat.succ_lt_succ ha)
      rw [encodeSlots, hfirst, hrest]
      exact ⟨piece ++ rest, rfl⟩

/-! ### Records -/

theorem equalAll_ofTexts_iff : ∀ {ss ts : List String},
    Value.equalAll (ofTexts ss) (ofTexts ts) ↔ ss = ts := by
  intro ss
  induction ss with
  | nil => intro ts; cases ts <;> simp [ofTexts, Value.equalAll]
  | cons s ss ih =>
    intro ts
    cases ts with
    | nil => simp [ofTexts, Value.equalAll]
    | cons t ts =>
      have hrest : Value.equalAll (ofTexts ss) (ofTexts ts) ↔ ss = ts := ih
      have hname : (Value.str s).equal (.str t) ↔ s = t := by
        rw [Value.equal_str_iff, Value.str.injEq, eq_comm]
      simp only [ofTexts, List.map_cons, Value.equalAll, Bool.and_eq_true, List.cons.injEq]
      exact and_congr hname hrest

theorem namesText_ofTexts (ss : List String) : namesText (ofTexts ss) = .ok ss := by
  induction ss with
  | nil => rfl
  | cons s ss ih =>
    have hcons : namesText (ofTexts (s :: ss)) =
        namesText (ofTexts ss) >>= fun texts => .ok (s :: texts) := rfl
    rw [hcons, ih]
    rfl

/-- **Encoding, exactly.**  The names of the slots are texts on both sides, and the event's name and
the arguments can be printed.  A record with another number of arguments than the schema has slots,
or with other names or the names in another order, is refused as a whole, and no other record is.  A
record with the schema's slots is refused in the name of the first slot that does not accept its
argument; and if every slot accepts its own, there are operands.  Arguments may otherwise be any
values at all. -/
theorem encode_exactly {schema : Schema} (record : Record) {expected actual : List String}
    (hranges : ∀ s ∈ schema.slots, s.Ranged)
    (hdecoders : ∀ s ∈ schema.slots, ∀ d ∈ s.decoder, d ∈ Decoder.all)
    (hexpected : schema.slotNames = ofTexts expected)
    (hactual : record.slotNames = ofTexts actual) (hname : schema.name.printable)
    (hshow : ∀ v ∈ record.arguments, v.showable) :
    (schema.encode record = .error (.refused (.schemaMismatch schema.name expected actual)) ↔
      record.arguments.length ≠ schema.slots.length ∨ actual ≠ expected) ∧
    (record.arguments.length = schema.slots.length → actual = expected →
      (∀ (i : Nat) (hi : i < schema.slots.length) (ha : i < record.arguments.length),
        (∀ (j : Nat) (hj : j < i), Slot.Accepts schema.slots[j] record.arguments[j]) →
        ¬ Slot.Accepts schema.slots[i] record.arguments[i] →
        ∃ reason, schema.encode record =
          .error (.refused (.slotEncode schema.slots[i].name reason))) ∧
      ((∀ (i : Nat) (hi : i < schema.slots.length) (ha : i < record.arguments.length),
          Slot.Accepts schema.slots[i] record.arguments[i]) →
        ∃ ops, schema.encode record = .ok ops)) := by
  have hsingle : ∀ s ∈ schema.slots, ∀ d ∈ s.decoder, d.Single :=
    fun s hs d hd => Decoder.single_of_mem_all (hdecoders s hs d hd)
  have hmismatch : (schema.mismatch record : Attempt (List Int)) =
      .error (.refused (.schemaMismatch schema.name expected actual)) := by
    rw [mismatch, hexpected, hactual, namesText_ofTexts, namesText_ofTexts,
      Value.print_eq_ok.mpr ⟨hname, rfl⟩]
    exact refuse_of_printable hname
  have hfits : schema.Fits record ↔
      actual = expected ∧ record.arguments.length = schema.slots.length := by
    rw [Fits, hexpected, hactual, equalAll_ofTexts_iff]
  constructor
  · rw [← hmismatch]
    constructor
    · intro h
      by_contra hn
      rw [not_or, Decidable.not_not, Decidable.not_not] at hn
      rw [encode_of_fits (hfits.mpr hn.symm)] at h
      exact encodeSlots_ne_mismatch hname h
    · intro h
      refine encode_of_not_fits fun hf => ?_
      obtain ⟨hnames, hlen⟩ := hfits.mp hf
      exact h.elim (· hlen) (· hnames)
  · intro hlen hnames
    rw [encode_of_fits (hfits.mpr ⟨hnames, hlen⟩)]
    constructor
    · intro i hi ha hbefore hnot
      have hmem : schema.slots[i] ∈ schema.slots := List.getElem_mem hi
      have hslot : schema.slots[i].name.printable := by
        have : schema.slots[i].name ∈ ofTexts expected := hexpected ▸ List.mem_map_of_mem hmem
        obtain ⟨s, hs⟩ := Value.exists_str_of_mem_ofTexts expected _ this
        rw [hs]
        rfl
      have hprint := Slot.prints_of_decoders hslot (hdecoders _ hmem)
        (hshow _ (List.getElem_mem ha))
      obtain ⟨reason, hreason⟩ :=
        Slot.operandsOf_of_not_accepts (hranges _ hmem) (hsingle _ hmem) hprint hnot
      refine ⟨reason, encodeSlots_of_first hi ha (fun j hj => ?_) hreason⟩
      exact (Slot.exists_operandsOf_iff (hsingle _ (List.getElem_mem _))).mpr (hbefore j hj)
    · intro haccepts
      refine exists_encodeSlots fun i hi ha => ?_
      exact (Slot.exists_operandsOf_iff (hsingle _ (List.getElem_mem hi))).mpr (haccepts i hi ha)

/-- A record of an ambush with a flag outside the family, and with a reference of another kind. -/
def unsoundAmbush : Record where
  revision := .null
  code := .int 7
  event := .str "Ambush"
  slotNames := ofTexts ["area", "outcome", "effect", "pad", "leader", "pad"]
  arguments := [.tuple [.int 0, .int (-1), .int 31, .int (-32768)],
    .set [.variant .battleFlag 128, .variant .battleFlag 96], .variant .spawnEffect 5, .int 100000,
    .ref .function (.int 65535), .null]

theorem encode_exactly_ambush :
    (∃ reason, ambush.encode unsoundAmbush =
        .error (.refused (.slotEncode (.str "outcome") reason))) ∧
      ambush.encode { unsoundAmbush with arguments := [] } =
        .error (.refused (.schemaMismatch (.str "Ambush")
          ["area", "outcome", "effect", "pad", "leader", "pad"]
          ["area", "outcome", "effect", "pad", "leader", "pad"])) := by
  have hranges : ∀ s ∈ ambush.slots, s.Ranged := by decide +kernel
  have hdecoders : ∀ s ∈ ambush.slots, ∀ d ∈ s.decoder, d ∈ Decoder.all := by decide +kernel
  have hsingle : ∀ s ∈ ambush.slots, ∀ d ∈ s.decoder, d.Single :=
    fun s hs d hd => Decoder.single_of_mem_all (hdecoders s hs d hd)
  constructor
  · refine ((encode_exactly unsoundAmbush hranges hdecoders rfl rfl rfl
      (by decide +kernel)).2 rfl rfl).1 1 (by decide) (by decide) ?_ ?_
    · intro j hj
      have hops : ∀ j : Fin 1,
          (ambush.slots[j].operandsOf unsoundAmbush.arguments[j]).toOption.isSome := by
        decide +kernel
      rw [← Slot.exists_operandsOf_iff (hsingle _ (List.getElem_mem _)),
        ← Attempt.isSome_toOption_iff]
      exact hops ⟨j, hj⟩
    · rw [← Slot.exists_operandsOf_iff (hsingle _ (List.getElem_mem _)),
        ← Attempt.isSome_toOption_iff]
      decide +kernel
  · exact (encode_exactly { unsoundAmbush with arguments := [] } hranges hdecoders rfl rfl rfl
      (fun _ hv => nomatch hv)).1.mpr (.inl (by decide))

end Schema

end EventDialects
