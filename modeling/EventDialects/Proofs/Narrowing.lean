import EventDialects.Proofs.Codec.Decoding
import EventDialects.Proofs.Codec.Encoding
import EventDialects.Proofs.Migration
import Mathlib.Data.List.Perm.Basic

/-!
# Migrating between widths

Two revisions often have the same event with slots of other widths.  A record of the one is migrated
to the other by name, and what becomes of its operands is simple: the operands of each slot stay
together, they come to stand where the other schema has the slot of that name, and every one of them
is checked against the width there.  No operand is ever cut down to a width.

Slots that are the same but for their widths (`Slot.SameButWidth`) have the same rules.  So the
operands of an argument are the same in both, and all that is left to ask is whether the new slot
takes them (`Slot.Takes`).

* `Slot.SameButWidth.encodes`, `Slot.SameButWidth.operandsOf_of_not_within`: **one slot** encodes the
  argument of another to the same operands, or refuses it for the first that does not fit.
* `Schema.operandsUnder_eq`, `Schema.Encodes.slice`: the operands under a name are the slice of its
  slot, and belong to the slot's argument.
* `Registry.encodeFor_eq_encodeSlots`: migrating encodes the arguments under the new slots' names.
* `Registry.encodeFor_exactly`: **narrowing never truncates, and widening never refuses**.  What is
  too long to be printed is not refused but ends in a misuse.
-/

namespace EventDialects

open List (Forall₂)
open Text (beyondPrint)
open Value (SameSorted ofTexts)

namespace Slot

/-! ### One slot -/

/-- Slots that are **the same but for their widths**: they may also differ in sign and in name. -/
structure SameButWidth (a b : Slot) : Prop where
  kind : a.kind = b.kind
  decoder : a.decoder = b.decoder
  fields : a.fields.equal b.fields

instance (a b : Slot) : Decidable (a.SameButWidth b) :=
  decidable_of_iff (a.kind = b.kind ∧ a.decoder = b.decoder ∧ a.fields.equal b.fields)
    ⟨fun h => ⟨h.1, h.2.1, h.2.2⟩, fun h => ⟨h.kind, h.decoder, h.fields⟩⟩

instance (s : Slot) : DecidablePred s.Within := fun n =>
  decidable_of_iff (s.checkWidth (.int n)).toOption.isSome (by
    rw [Attempt.isSome_toOption_iff, ← checkWidth_eq_ok_iff]
    exact ⟨fun ⟨_, h⟩ => h, fun h => ⟨_, h⟩⟩)

/-- A slot **takes** operands that are within its width.  An undocumented slot takes all. -/
def Takes (s : Slot) (ns : List Int) : Prop := s.kind ≠ .unknown → ∀ n ∈ ns, s.Within n

instance (s : Slot) (ns : List Int) : Decidable (s.Takes ns) :=
  inferInstanceAs (Decidable (s.kind ≠ .unknown → ∀ n ∈ ns, s.Within n))

theorem Encodes.takes {s : Slot} {v : Value} {ns : List Int} (h : s.Encodes v ns) :
    s.Takes ns := by
  intro hk
  cases h with
  | integer _ hw | reference _ hw | variant _ _ _ _ hw =>
    exact List.forall_mem_singleton.mpr (checkWidth_eq_ok_iff.mp hw)
  | coordinate _ _ hw => exact checkWidths_eq_ok_iff.mp hw
  | reserved hu => exact absurd hu hk

theorem checkWidth_of_not_within {s : Slot} (hrange : ∃ low high, s.range = .ok (low, high))
    {n : Int} (hn : ¬ s.Within n) : s.checkWidth (.int n) = refuse (s.misfit (.int n)) := by
  refine checkWidth_of_not_holds hrange rfl ?_
  rintro ⟨m, hm, hwithin⟩
  obtain rfl : n = m := Option.some.inj hm
  exact hn hwithin

/-- The failure for an operand that does not fit: the refusal has to name the operand, and where it
cannot, that is the failure. -/
def misfitFailure (s : Slot) (n : Int) : Failure :=
  if Text.writable n then (Failure.refused (.slotEncode s.name (s.misfit (.int n)).message)).raised
  else .misuse .tooLong

theorem misfitFailure_of_writable {s : Slot} (hname : s.name.printable) {n : Int}
    (hn : Text.writable n) :
    s.misfitFailure n = .refused (.slotEncode s.name (s.misfit (.int n)).message) := by
  rw [misfitFailure, if_pos hn]
  exact Failure.raised_of_printable hname

theorem misfitFailure_of_not_writable {s : Slot} {n : Int} (hn : ¬ Text.writable n) :
    s.misfitFailure n = .misuse .tooLong := if_neg hn

theorem integerOperand_of_not_within {s : Slot} (hrange : ∃ low high, s.range = .ok (low, high))
    {n : Int} (hn : ¬ s.Within n) : s.integerOperand (.int n) = .error (s.misfitFailure n) := by
  simp only [integerOperand, checkWidth_of_not_within hrange hn, misfitFailure]
  obtain ⟨low, high, hr⟩ := hrange
  cases hw : Text.writable n with
  | true =>
    have hprint : (s.misfit (.int n)).printable :=
      Bool.and_eq_true_iff.mpr ⟨hw, printable_bits_of_range hr⟩
    rw [refuse_of_printable hprint, if_pos rfl]
    rfl
  | false =>
    have hprint : (s.misfit (.int n)).printable = false := Bool.and_eq_false_iff.mpr (.inl hw)
    rw [refuse_of_not_printable hprint]
    rfl

theorem integerOperands_of_not_within {s : Slot} (hrange : ∃ low high, s.range = .ok (low, high))
    {before after : List Int} {n : Int} (hbefore : ∀ m ∈ before, s.Within m)
    (hn : ¬ s.Within n) :
    s.integerOperands ((before ++ n :: after).map .int) = .error (s.misfitFailure n) := by
  induction before with
  | nil =>
    rw [List.nil_append, List.map_cons, integerOperands, integerOperand_of_not_within hrange hn]
    rfl
  | cons m before ih =>
    obtain ⟨hm, hbefore⟩ := List.forall_mem_cons.mp hbefore
    have hfirst : s.integerOperand (.int m) = .ok [m] :=
      integerOperand_eq_ok.mpr ⟨m, rfl, rfl, checkWidth_eq_ok_iff.mpr hm⟩
    rw [List.cons_append, List.map_cons, integerOperands, hfirst, ih hbefore]
    rfl

namespace SameButWidth

theorem span_eq {a b : Slot} (h : a.SameButWidth b) : a.span = b.span := by
  by_cases hc : a.kind = .coordinate
  · have hfields : (Value.int a.span).equal a.fields := (equal_fields_iff hc).mpr rfl
    exact (equal_fields_iff (h.kind ▸ hc)).mp (Value.equal_trans hfields h.fields)
  · rw [span_of_ne_coordinate hc, span_of_ne_coordinate (h.kind ▸ hc)]

/-- **An argument has the same operands** in a slot of another width that takes them. -/
theorem encodes {a b : Slot} (hab : a.SameButWidth b) {v : Value} {ns : List Int}
    (h : a.Encodes v ns) (htakes : b.Takes ns) : b.Encodes v ns := by
  have hkind := hab.kind
  cases h with
  | @integer n hk =>
    rw [hk] at hkind
    have hn : b.Within n := htakes (by rw [← hkind]; decide) n (List.mem_singleton_self n)
    exact .integer hkind.symm (checkWidth_eq_ok_iff.mpr hn)
  | coordinate hk hlen =>
    have hns := htakes (by rw [← hkind, hk]; decide)
    exact .coordinate (hkind ▸ hk) (hab.span_eq ▸ hlen) (checkWidths_eq_ok_iff.mpr hns)
  | @reference kind n hk =>
    have hn : b.Within n := by
      refine htakes (fun hu => ?_) n (List.mem_singleton_self n)
      rw [hkind, hu] at hk
      cases hk
    exact .reference (hkind ▸ hk) (checkWidth_eq_ok_iff.mpr hn)
  | @variant d v n hk hd ha he =>
    have hn : b.Within n := by
      refine htakes (fun hu => ?_) n (List.mem_singleton_self n)
      rw [hkind, hu] at hk
      cases hk
    exact .variant (hkind ▸ hk) (hab.decoder ▸ hd) ha he (checkWidth_eq_ok_iff.mpr hn)
  | reserved hk => exact .reserved (hkind ▸ hk)

/-- **The argument is refused** by a slot that does not take its operands, for the first of them
that is not within the width. -/
theorem operandsOf_of_not_within {a b : Slot} (hab : a.SameButWidth b) (hb : b.Ranged) {v : Value}
    {before after : List Int} {n : Int} (h : a.Encodes v (before ++ n :: after))
    (hk : b.kind ≠ .unknown) (hbefore : ∀ m ∈ before, b.Within m) (hn : ¬ b.Within n) :
    b.operandsOf v = .error (b.misfitFailure n) := by
  have hrange := hb hk
  have hkind := hab.kind
  generalize hns : before ++ n :: after = ns at h
  -- Of a slot with one operand, that one is the misfit.
  have only {m : Int} (hm : before ++ n :: after = [m]) : m = n := by
    cases before with
    | nil => exact (List.cons.inj hm).1.symm
    | cons => simp at hm
  cases h with
  | integer hka =>
    obtain rfl := only hns
    rw [operandsOf, ← hkind, hka]
    exact integerOperand_of_not_within hrange hn
  | coordinate hka hlen =>
    have hcount : (Value.int (ns.map Value.int).length).equal b.fields := by
      rw [List.length_map, hlen, hab.span_eq]
      exact (equal_fields_iff (hkind ▸ hka)).mpr rfl
    rw [operandsOf, ← hkind, hka]
    simp only [coordinateOperands, if_pos hcount]
    rw [← hns]
    exact integerOperands_of_not_within hrange hbefore hn
  | reference hka =>
    obtain rfl := only hns
    rw [operandsOf_of_refKind? (hkind ▸ hka), refOperand, if_pos rfl]
    exact integerOperand_of_not_within hrange hn
  | variant hka hd ha he =>
    obtain rfl := only hns
    rw [operandsOf_of_needsDecoder (hkind ▸ hka), variantOperand, ← hab.decoder, hd]
    simp only [if_pos ha, he]
    exact integerOperand_of_not_within hrange hn
  | reserved hka => exact absurd (hkind ▸ hka) hk

/-- If the width of a slot contains that of another one, the slot takes what the other one does. -/
theorem takes {a b : Slot} (hab : a.SameButWidth b) (hwider : ∀ n, a.Within n → b.Within n)
    {ns : List Int} (h : a.Takes ns) : b.Takes ns := by
  intro hk n hn
  exact hwider n (h (hab.kind ▸ hk) n hn)

end SameButWidth

end Slot

/-! ### Operands by name -/

namespace Schema

/-- The operands that belong to a slot name. -/
def operandsUnder (schema : Schema) (ns : List Int) (name : Value) : List Int :=
  ((pieces schema.slots ns).find? fun piece => piece.1.name.equal name).elim [] (·.2)

theorem getElem?_pieces {slots : List Slot} : ∀ (ns : List Int) {i : Nat} (hi : i < slots.length),
    (pieces slots ns)[i]? = some (slots[i], slots[i].slice (slots.take i) ns) := by
  induction slots with
  | nil =>
    intro ns i hi
    exact absurd hi (Nat.not_lt_zero i)
  | cons s slots ih =>
    intro ns i hi
    cases i with
    | zero => rfl
    | succ i => simpa [pieces, Slot.slice_cons] using ih _ (Nat.lt_of_succ_lt_succ hi)

/-- The operands that belong to a name are the slice of the first slot with an equal one. -/
theorem operandsUnder_eq {schema : Schema} {ns : List Int} {name : Value} {i : Nat}
    (hi : i < schema.slots.length) (hname : schema.slots[i].name.equal name)
    (hfirst : ∀ (j : Nat) (hj : j < schema.slots.length), j < i →
      ¬ schema.slots[j].name.equal name) :
    schema.operandsUnder ns name = schema.slots[i].slice (schema.slots.take i) ns := by
  obtain ⟨hip, hpiece⟩ := List.getElem?_eq_some_iff.mp (getElem?_pieces ns hi)
  have hfound : (pieces schema.slots ns).find? (fun piece => piece.1.name.equal name) =
      some (schema.slots[i], schema.slots[i].slice (schema.slots.take i) ns) := by
    refine List.find?_eq_some_iff_getElem.mpr ⟨hname, i, hip, hpiece, fun j hj => ?_⟩
    obtain ⟨hjp, hbefore⟩ :=
      List.getElem?_eq_some_iff.mp (getElem?_pieces ns (Nat.lt_trans hj hi))
    rw [hbefore]
    simpa using hfirst j (Nat.lt_trans hj hi) hj
  rw [operandsUnder, hfound]
  rfl

theorem Encodes.slice {slots : List Slot} {arguments : List Value} {ns : List Int}
    (h : Encodes slots arguments ns) : ∀ (i : Nat) (hi : i < slots.length)
      (ha : i < arguments.length), slots[i].Encodes arguments[i] (slots[i].slice (slots.take i) ns)
    := by
  induction h with
  | nil =>
    intro i hi
    exact absurd hi (Nat.not_lt_zero i)
  | @cons s slots v arguments piece rest hs _ ih =>
    intro i hi ha
    cases i with
    | zero =>
      have hfirst : s.slice [] (piece ++ rest) = piece := by
        rw [Slot.slice, ← hs.length_eq]
        exact List.take_left
      simpa [hfirst] using hs
    | succ i =>
      have hrest : (piece ++ rest).drop s.span = rest := by rw [← hs.length_eq, List.drop_left]
      simpa [Slot.slice_cons, hrest] using
        ih i (Nat.lt_of_succ_lt_succ hi) (Nat.lt_of_succ_lt_succ ha)

theorem encodes_flatMap {operands : Slot → List Int} {slots : List Slot} {arguments : List Value}
    (h : Forall₂ (fun s v => s.Encodes v (operands s)) slots arguments) :
    Encodes slots arguments (slots.flatMap operands) := by
  induction h with
  | nil => exact .nil
  | cons hs _ ih => exact .cons hs ih

/-- **The argument under a name** has the operands that belong to the name. -/
theorem exists_argument_of_encodes {schema : Schema} {arguments : List Value} {ns : List Int}
    (h : Encodes schema.slots arguments ns) {name : Value}
    (hname : ∃ x ∈ schema.slotNames, x.equal name) :
    ∃ s ∈ schema.slots, ∃ v, s.name.equal name ∧
      (schema.recordOf arguments).argument name = .ok v ∧
      s.Encodes v (schema.operandsUnder ns name) := by
  obtain ⟨i, hi⟩ := Record.exists_position? (r := schema.recordOf arguments) hname
  obtain ⟨hlt, he, hfirst⟩ := Record.position?_eq_some_iff.mp hi
  have his : i < schema.slots.length := by simpa [recordOf, slotNames] using hlt
  have hia : i < arguments.length := by rwa [h.arguments_length]
  have hnamed : schema.slots[i].name.equal name := by simpa [recordOf, slotNames] using he
  have hunder : schema.operandsUnder ns name = schema.slots[i].slice (schema.slots.take i) ns := by
    refine operandsUnder_eq his hnamed fun j hjs hj => ?_
    simpa [recordOf, slotNames] using hfirst j hj
  refine ⟨schema.slots[i], List.getElem_mem his, arguments[i], hnamed, ?_, ?_⟩
  · exact Record.argument_eq_of_getElem? hi (List.getElem?_eq_getElem hia)
  · rw [hunder]
    exact h.slice i his hia

/-! ### Schemas -/

/-- Schemas are **the same but for the widths** of their slots: they have one name and the same slot
names, each once and in whatever order, and slots with one name are the same but for their
widths. -/
structure SameButWidths (s t : Schema) (names names' : List String) : Prop where
  name : s.name.equal t.name
  slotNames : s.slotNames = ofTexts names
  slotNames' : t.slotNames = ofTexts names'
  distinct : names.Nodup
  distinct' : names'.Nodup
  mem_iff : ∀ name, name ∈ names ↔ name ∈ names'
  slots : ∀ a ∈ s.slots, ∀ b ∈ t.slots, a.name.equal b.name → a.SameButWidth b

namespace SameButWidths

variable {s t : Schema} {names names' : List String} (h : s.SameButWidths t names names')

include h

theorem perm : names.Perm names' :=
  (List.perm_ext_iff_of_nodup h.distinct h.distinct').mpr h.mem_iff

theorem sameSorted : SameSorted s.slotNames t.slotNames := by
  rw [h.slotNames, h.slotNames']
  exact .of_perm h.perm

theorem printable_name (b : Slot) (hb : b ∈ t.slots) : b.name.printable := by
  have hmem : b.name ∈ ofTexts names' := h.slotNames' ▸ List.mem_map_of_mem hb
  obtain ⟨name, -, hname⟩ := List.mem_map.mp hmem
  rw [← hname]
  rfl

theorem exists_arguments {arguments : List Value} {ns : List Int}
    (hencodes : Encodes s.slots arguments ns) :
    ∃ vs, Forall₂ (fun b v => (s.recordOf arguments).argument b.name = .ok v ∧
      ∃ a ∈ s.slots, a.name.equal b.name ∧ a.SameButWidth b ∧
        a.Encodes v (s.operandsUnder ns b.name)) t.slots vs := by
  refine exists_forall₂_of_forall fun b hb => ?_
  obtain ⟨x, hx, hbx⟩ := h.sameSorted.symm.exists_equal b.name (List.mem_map_of_mem hb)
  obtain ⟨a, ha, v, hab, hv, hoperands⟩ :=
    exists_argument_of_encodes hencodes ⟨x, hx, Value.equal_symm hbx⟩
  exact ⟨v, hv, a, ha, hab, h.slots a ha b hb hab, hoperands⟩

end SameButWidths

end Schema

namespace Registry

/-! ### Records -/

/-- **Migrating** a record with the slot names of a schema encodes the arguments under them. -/
theorem encodeFor_eq_encodeSlots {g : Registry} {revision : Value} {schema : Schema}
    {record : Record} {vs : List Value}
    (hschema : g.resolveName revision record.event = .ok schema)
    (hnames : SameSorted record.slotNames schema.slotNames)
    (hvs : Forall₂ (fun s v => record.argument s.name = .ok v) schema.slots vs) :
    g.encodeFor revision record = Schema.encodeSlots schema.slots vs := by
  have hreorder := reorder_eq_ok_iff.mpr
    ⟨hnames, vs, List.forall₂_map_left_iff.mpr hvs, rfl⟩
  simp only [encodeFor, hschema, hreorder, bind, Except.bind]
  exact Schema.encode_of_fits ⟨Value.equalAll_self _, hvs.length_eq.symm⟩

/-- **Narrowing never truncates, and widening never refuses.**  A record that one of two schemas
decoded is migrated to the other one, which has the same slots in whatever order and with whatever
widths and signs.  If every slot there takes the operands that belong to its name, these are the
migrated ones, slot by slot.  Otherwise the first slot that does not take its operands refuses them,
for the first that is not within its width.  The refusal has to name that operand: if it is too long
to be printed, migrating ends in a misuse.  And if every slot's width contains that of the slot with
the same name, the migration succeeds. -/
theorem encodeFor_exactly {g : Registry} (hg : g.Reachable) {origin target : Value}
    {s t : Schema} {names names' : List String}
    (hs : g.resolve origin (.int s.code) = .ok s) (ht : g.resolve target (.int t.code) = .ok t)
    (hsame : s.SameButWidths t names names') (hranges : ∀ b ∈ t.slots, b.Ranged)
    {ns : List Int} {record : Record} (h : s.decode (.list (ns.map .int)) = .ok record) :
    ((∀ b ∈ t.slots, b.Takes (s.operandsUnder ns b.name)) → g.encodeFor target record =
      .ok (t.slots.flatMap fun b => s.operandsUnder ns b.name)) ∧
    (∀ (i : Nat) (hi : i < t.slots.length),
      (∀ (j : Nat) (hj : j < t.slots.length), j < i →
        Slot.Takes t.slots[j] (s.operandsUnder ns t.slots[j].name)) →
      ¬ Slot.Takes t.slots[i] (s.operandsUnder ns t.slots[i].name) →
      ∃ before n after, s.operandsUnder ns t.slots[i].name = before ++ n :: after ∧
        (∀ m ∈ before, Slot.Within t.slots[i] m) ∧ ¬ Slot.Within t.slots[i] n ∧
        (Text.writable n → g.encodeFor target record = .error (.refused (.slotEncode
          t.slots[i].name (Slot.misfit t.slots[i] (.int n)).message))) ∧
        (¬ Text.writable n → g.encodeFor target record = misused .tooLong)) ∧
    ((∀ a ∈ s.slots, ∀ b ∈ t.slots, a.name.equal b.name → ∀ n, a.Within n → b.Within n) →
      g.encodeFor target record = .ok (t.slots.flatMap fun b => s.operandsUnder ns b.name)) := by
  obtain ⟨hlen, arguments, hslots, rfl⟩ := Schema.decode_eq_ok_iff.mp h
  have hencodes := Schema.encodes_of_decodeSlots hlen hslots
  obtain ⟨vs, hvs⟩ := hsame.exists_arguments hencodes
  have htarget : g.resolveName target (s.recordOf arguments).event = .ok t :=
    resolveName_of_resolve hg ht (hashable_of_resolve hg hs) (Value.equal_symm hsame.name)
  have hencode : g.encodeFor target (s.recordOf arguments) = Schema.encodeSlots t.slots vs :=
    encodeFor_eq_encodeSlots htarget hsame.sameSorted (hvs.imp fun _ _ hv => hv.1)
  have htaken : (∀ b ∈ t.slots, b.Takes (s.operandsUnder ns b.name)) →
      g.encodeFor target (s.recordOf arguments) =
        .ok (t.slots.flatMap fun b => s.operandsUnder ns b.name) := by
    intro htakes
    rw [hencode, Schema.encodeSlots_eq_ok_iff hvs.length_eq.symm]
    refine Schema.encodes_flatMap (forall₂_of_mem hvs fun b hb v _ hv => ?_)
    obtain ⟨-, a, -, -, hab, hoperands⟩ := hv
    exact hab.encodes hoperands (htakes b hb)
  refine ⟨htaken, fun i hi hbefore hnot => ?_, fun hwider => htaken fun b hb => ?_⟩
  · have hiv : i < vs.length := hvs.length_eq ▸ hi
    obtain ⟨-, a, -, -, hab, hoperands⟩ := hvs.get hi hiv
    obtain ⟨hk, hnot⟩ := Classical.not_imp.mp hnot
    obtain ⟨before, n, after, hns, hfits, hn⟩ :=
      (forall_or_exists_first (Slot.Within t.slots[i]) _).resolve_left hnot
    have hfailed : g.encodeFor target (s.recordOf arguments) =
        .error (Slot.misfitFailure t.slots[i] n) := by
      rw [hencode]
      refine Schema.encodeSlots_of_first hi hiv (fun j hj => ?_) ?_
      · have hjs : j < t.slots.length := Nat.lt_trans hj hi
        obtain ⟨-, a', -, -, hab', hoperands'⟩ := hvs.get hjs (Nat.lt_trans hj hiv)
        exact ⟨_, Slot.operandsOf_eq_ok_iff.mpr (hab'.encodes hoperands' (hbefore j hjs hj))⟩
      · simp only [List.get_eq_getElem, hns] at hoperands
        exact hab.operandsOf_of_not_within (hranges _ (List.getElem_mem hi)) hoperands hk hfits hn
    have hname := hsame.printable_name _ (List.getElem_mem hi)
    refine ⟨before, n, after, hns, hfits, hn, fun hw => ?_, fun hw => ?_⟩
    · rw [hfailed, Slot.misfitFailure_of_writable hname hw]
    · rw [hfailed, Slot.misfitFailure_of_not_writable hw]
      rfl
  · obtain ⟨v, -, -, a, ha, hname, hab, hoperands⟩ := exists_mem_of_forall₂ hvs b hb
    exact hab.takes (hwider a ha b hb hname) hoperands.takes

def handheldRescue : Schema where
  code := 3
  name := .str "Rescue"
  slots := [
    ⟨.str "who", .characterId, none, .int 32, .bool false, .int 1, by decide +kernel⟩,
    ⟨.str "place", .coordinate, none, .int 32, .bool true, .int 2, by decide +kernel⟩,
    ⟨.str "result", .bitflags, some (.flagSet "battle_flags" .battleFlag), .int 16, .bool false,
      .int 1, by decide +kernel⟩,
    ⟨.str "spare", .unknown, none, .int 32, .bool true, .int 1, by decide +kernel⟩]
  revision := some ⟨"FE14", ""⟩

/-- A rescue as another revision has it, with narrow slots in another order. -/
def consoleRescue : Schema where
  code := 5
  name := .str "Rescue"
  slots := [
    ⟨.str "place", .coordinate, none, .int 16, .bool true, .int 2, by decide +kernel⟩,
    ⟨.str "spare", .unknown, none, .int 8, .bool true, .int 1, by decide +kernel⟩,
    ⟨.str "result", .bitflags, some (.flagSet "battle_flags" .battleFlag), .int 8, .bool true,
      .int 1, by decide +kernel⟩,
    ⟨.str "who", .characterId, none, .int 16, .bool false, .int 1, by decide +kernel⟩]
  revision := some ⟨"FE9", ""⟩

def rescues : Registry :=
  ⟨[⟨⟨"FE14", ""⟩, .null, .null, [handheldRescue], true⟩,
    ⟨⟨"FE9", ""⟩, .null, .null, [consoleRescue], true⟩]⟩

theorem rescues_reachable : rescues.Reachable := by
  have handheld := Reachable.empty.register (Table.reachable_singleton (s := handheldRescue) rfl rfl)
    (register_eq_ok_iff.mpr ⟨rfl, rfl, rfl⟩ : register _ (.revision ⟨"FE14", ""⟩) _ = _)
  exact handheld.register (Table.reachable_singleton (s := consoleRescue) rfl rfl)
    (register_eq_ok_iff.mpr ⟨rfl, rfl, rfl⟩ : register _ (.revision ⟨"FE9", ""⟩) _ = _)

/-- The operand of the undocumented slot is migrated as it is, and a flag that is outside the new
width is refused. -/
theorem encodeFor_exactly_rescue :
    (∃ record, handheldRescue.decode (.list ([40000, 5, -7, 65, 99999].map .int)) = .ok record ∧
      rescues.encodeFor (.str "FE9") record = .ok [5, -7, 99999, 65, 40000]) ∧
    ∃ record reason,
      handheldRescue.decode (.list ([70000, 5, -7, 129, 99999].map .int)) = .ok record ∧
      rescues.encodeFor (.str "FE9") record =
        .error (.refused (.slotEncode (.str "result") reason)) := by
  have hsame : handheldRescue.SameButWidths consoleRescue
      ["who", "place", "result", "spare"] ["place", "spare", "result", "who"] := by
    refine ⟨rfl, rfl, rfl, by decide, by decide, fun name => ?_, by decide +kernel⟩
    simp only [List.mem_cons, List.not_mem_nil, or_false]
    tauto
  have hname : rescues.resolveName (.str "FE14") (.str "Rescue") = .ok handheldRescue := rfl
  have hname' : rescues.resolveName (.str "FE9") (.str "Rescue") = .ok consoleRescue := rfl
  have hsource := resolve_of_resolveName rescues_reachable hname
  have htarget := resolve_of_resolveName rescues_reachable hname'
  have hranges : ∀ b ∈ consoleRescue.slots, b.Ranged := by decide +kernel
  have hdecode : ∀ ns ∈ [[40000, 5, -7, 65, 99999], [70000, 5, -7, 129, 99999]],
      (handheldRescue.decode (.list (ns.map .int))).toOption.isSome := by decide +kernel
  constructor
  · obtain ⟨record, hrecord⟩ := Attempt.isSome_toOption_iff.mp (hdecode _ List.mem_cons_self)
    have hexact := encodeFor_exactly rescues_reachable hsource htarget hsame hranges hrecord
    have hmoved : (consoleRescue.slots.flatMap fun b =>
        handheldRescue.operandsUnder [40000, 5, -7, 65, 99999] b.name) =
          [5, -7, 99999, 65, 40000] := by decide +kernel
    rw [hmoved] at hexact
    exact ⟨record, hrecord, hexact.1 (by decide +kernel)⟩
  · obtain ⟨record, hrecord⟩ :=
      Attempt.isSome_toOption_iff.mp (hdecode _ (List.mem_cons_of_mem _ List.mem_cons_self))
    have hexact := encodeFor_exactly rescues_reachable hsource htarget hsame hranges hrecord
    have hbefore : ∀ j : Fin 2, Slot.Takes consoleRescue.slots[j] (handheldRescue.operandsUnder
        [70000, 5, -7, 129, 99999] consoleRescue.slots[j].name) := by decide +kernel
    obtain ⟨before, n, after, hns, -, -, hrefused, -⟩ :=
      hexact.2.1 2 (by decide) (fun j _ hj => hbefore ⟨j, hj⟩) (by decide +kernel)
    have hslice : handheldRescue.operandsUnder [70000, 5, -7, 129, 99999] (.str "result") = [129] :=
      by decide +kernel
    have hn : n ∈ [129] := by
      rw [← hslice]
      exact hns ▸ List.mem_append_right before List.mem_cons_self
    obtain rfl := List.mem_singleton.mp hn
    exact ⟨record, _, hrecord, hrefused rfl⟩

/-- A counter as one revision has it, in a very wide slot. -/
def wideCounter : Schema where
  code := 1
  name := .str "Count"
  slots := [⟨.str "turns", .rawInteger, none, .int 20000, .bool false, .int 1, by decide +kernel⟩]
  revision := some ⟨"FE14", ""⟩

def narrowCounter : Schema where
  code := 1
  name := .str "Count"
  slots := [⟨.str "turns", .rawInteger, none, .int 32, .bool false, .int 1, by decide +kernel⟩]
  revision := some ⟨"FE9", ""⟩

def counters : Registry :=
  ⟨[⟨⟨"FE14", ""⟩, .null, .null, [wideCounter], true⟩,
    ⟨⟨"FE9", ""⟩, .null, .null, [narrowCounter], true⟩]⟩

/-- An operand that is too long to be printed is not refused by the narrow slot. -/
theorem encodeFor_misused_beyondPrint :
    wideCounter.SameButWidths narrowCounter ["turns"] ["turns"] ∧
      (∀ b ∈ narrowCounter.slots, b.Ranged ∧ ¬ b.Within beyondPrint) ∧
      ∃ record, wideCounter.decode (.list [.int beyondPrint]) = .ok record ∧
        counters.encodeFor (.str "FE9") record = misused .tooLong ∧
        ∀ reason, counters.encodeFor (.str "FE9") record ≠
          .error (.refused (.slotEncode (.str "turns") reason)) := by
  have hboth : ((wideCounter.decode (.list [.int beyondPrint])).toOption.bind fun record =>
      (counters.encodeFor (.str "FE9") record).misuse?) = some .tooLong := by decide +kernel
  obtain ⟨record, hrecord, hmisuse⟩ := Option.bind_eq_some_iff.mp hboth
  have hmisused := Attempt.eq_misused_of_misuse? hmisuse
  refine ⟨⟨rfl, rfl, rfl, by decide, by decide, fun name => Iff.rfl, by decide +kernel⟩,
    by decide +kernel, record, Attempt.eq_ok_of_toOption hrecord, hmisused, fun reason => ?_⟩
  rw [hmisused]
  exact fun h => nomatch h

end Registry

end EventDialects
