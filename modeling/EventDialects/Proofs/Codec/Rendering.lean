import EventDialects.Proofs.Codec.RoundTrip
import EventDialects.Proofs.Value.Entries
import EventDialects.Proofs.Value.Order

/-!
# The plain form of a record

For a document the arguments of a record are flattened: a variant becomes its name, a set the sorted
list of its members' names, a reference a mapping with one entry and a coordinate a list.  The kind
is lost, but the slot still says it, and within one slot nothing else is lost: a family is
**legible** if its members have names that tell them apart, and then a name stands for one member
and a sorted list of names for one set.

* `Value.IsPlain`: what a document can hold, of texts, integers, lists and mappings.
* `Value.exists_plain_flags`: **a set of flags becomes the names of its members**, and nothing else.
* `Slot.Encodes.exists_plain`: an argument that has operands has a plain form.
* `Slot.Encodes.alike_of_plain`: **arguments of one slot with equal plain forms are alike**.
* `Schema.toDocument_of_decode`: a decoded record becomes a document with one entry for each slot.
* `Schema.toDocument_lossless`: **rendering loses nothing**: equal documents come from the same
  operands.
-/

namespace EventDialects

open List (Forall₂)
open Value (variants ofTexts)

/-! ### Names that tell members apart -/

/-- A family is **legible** if every member has a name, and no two members have the same. -/
def Family.Legible (f : Family) : Prop :=
  (∀ raw ∈ f.raws, (f.label? raw).isSome) ∧
    ∀ raw ∈ f.raws, ∀ raw' ∈ f.raws, f.label? raw = f.label? raw' → raw = raw'

instance (f : Family) : Decidable f.Legible := inferInstanceAs (Decidable (_ ∧ _))

def Decoder.family : Decoder → Family
  | .choice _ family => family
  | .flagSet _ family => family

theorem Decoder.legible_of_mem_all {d : Decoder} (h : d ∈ Decoder.all) : d.family.Legible := by
  have hall : ∀ d ∈ Decoder.all, d.family.Legible := by decide +kernel
  exact hall d h

namespace Value

/-- A value is **plain** if a document can hold it: a text, an integer, a list of plain values, or a
mapping of texts to plain values. -/
inductive IsPlain : Value → Prop
  | str (s : String) : IsPlain (.str s)
  | int (n : Int) : IsPlain (.int n)
  | list {xs : List Value} (h : ∀ x ∈ xs, IsPlain x) : IsPlain (.list xs)
  | map {es : Entries} (hkeys : ∀ e ∈ es, ∃ s, e.1 = .str s) (hvalues : ∀ e ∈ es, IsPlain e.2) :
      IsPlain (.map es)

/-! ### Sets of flags -/

theorem plain_of_elements? {v : Value} {xs : List Value} (h : v.elements? = some xs) :
    v.plain = do return .list (← sort (← plainItems xs)) := by
  cases v <;> cases h <;> rw [plain]

theorem plainItems_variants {f : Family} {raws : List Int} {labels : List String}
    (h : Forall₂ (fun raw label => f.label? raw = some label) raws labels) :
    plainItems (variants f raws) = .ok (ofTexts labels) := by
  induction h with
  | nil => rfl
  | @cons raw label raws labels hraw _ ih =>
    have hplain : plain (.variant f raw) = .ok (.str label) := by rw [plain, hraw]
    change plainItems (.variant f raw :: variants f raws) = _
    rw [plainItems, hplain, ih]
    rfl

/-- **A set of flags becomes the names of its members**, in some order, and nothing else. -/
theorem exists_plain_flags {v : Value} {f : Family} {raws : List Int} (hf : f.Legible)
    (hv : v.elements? = some (variants f raws)) (hraws : ∀ raw ∈ raws, raw ∈ f.raws) :
    ∃ as, v.plain = .ok (.list as) ∧
      ∀ a, a ∈ as ↔ ∃ raw ∈ raws, ∃ label, f.label? raw = some label ∧ a = .str label := by
  obtain ⟨labels, hlabels⟩ := exists_forall₂_of_forall fun raw hraw =>
    Option.isSome_iff_exists.mp (hf.1 raw (hraws raw hraw))
  obtain ⟨as, has⟩ := exists_sort_of_texts labels
  refine ⟨as, ?_, fun a => ?_⟩
  · rw [plain_of_elements? hv, plainItems_variants hlabels]
    simp only [bind, Except.bind, has]
    rfl
  · rw [(sortOn_perm has).mem_iff, ofTexts, List.mem_map]
    constructor
    · rintro ⟨label, hlabel, rfl⟩
      obtain ⟨raw, hraw, h⟩ := exists_mem_of_forall₂ hlabels.flip label hlabel
      exact ⟨raw, hraw, label, h, rfl⟩
    · rintro ⟨raw, hraw, label, h, rfl⟩
      obtain ⟨label', hlabel', h'⟩ := exists_mem_of_forall₂ hlabels raw hraw
      rw [h] at h'
      exact ⟨label, Option.some.inj h' ▸ hlabel', rfl⟩

theorem mem_of_plain_flags {f : Family} (hf : f.Legible) {raws raws' : List Int} {as bs : List Value}
    (hraws : ∀ raw ∈ raws, raw ∈ f.raws) (hraws' : ∀ raw ∈ raws', raw ∈ f.raws)
    (has : ∀ a, a ∈ as ↔ ∃ raw ∈ raws, ∃ label, f.label? raw = some label ∧ a = .str label)
    (hbs : ∀ b, b ∈ bs ↔ ∃ raw ∈ raws', ∃ label, f.label? raw = some label ∧ b = .str label)
    (h : Forall₂ (fun a b => a.equal b) as bs) : ∀ raw ∈ raws, raw ∈ raws' := by
  intro raw hraw
  obtain ⟨label, hlabel⟩ := Option.isSome_iff_exists.mp (hf.1 raw (hraws raw hraw))
  obtain ⟨b, hb, hequal⟩ :=
    exists_mem_of_forall₂ h _ ((has (.str label)).mpr ⟨raw, hraw, label, hlabel, rfl⟩)
  obtain rfl := equal_str_iff.mp hequal
  obtain ⟨raw', hraw', label', hlabel', he⟩ := (hbs _).mp hb
  cases he
  rwa [hf.2 raw (hraws raw hraw) raw' (hraws' raw' hraw') (hlabel.trans hlabel'.symm)]

theorem exists_plain_variant {f : Family} {raw : Int} (hf : f.Legible) (hraw : raw ∈ f.raws) :
    ∃ label, f.label? raw = some label ∧ plain (.variant f raw) = .ok (.str label) := by
  obtain ⟨label, hlabel⟩ := Option.isSome_iff_exists.mp (hf.1 raw hraw)
  exact ⟨label, hlabel, by rw [plain, hlabel]⟩

end Value

namespace Decoder

theorem mem_raws_of_mem_bits {f : Family} {raw : Int} (h : raw ∈ f.bits) : raw ∈ f.raws :=
  (List.mem_filter.mp h).1

theorem exists_raw_of_accepts {name : String} {f : Family} {v : Value}
    (hsingle : f.combines = false) (h : (Decoder.choice name f).accepts v) :
    ∃ raw ∈ f.raws, v = .variant f raw := by
  obtain ⟨raw, rfl, hraw⟩ := accepts_choice_iff.mp h
  exact ⟨raw, hraw.resolve_left (by rw [hsingle]; decide), rfl⟩

theorem exists_plain_of_accepts {d : Decoder} (hd : d ∈ Decoder.all) {v : Value}
    (h : d.accepts v) : ∃ p, v.plain = .ok p ∧ p.IsPlain := by
  have hlegible := legible_of_mem_all hd
  have hsingle := single_of_mem_all hd
  cases d with
  | choice name family =>
    obtain ⟨raw, hraw, rfl⟩ := exists_raw_of_accepts hsingle h
    obtain ⟨label, -, hplain⟩ := Value.exists_plain_variant hlegible hraw
    exact ⟨.str label, hplain, .str label⟩
  | flagSet name family =>
    obtain ⟨raws, hv, hraws⟩ := accepts_flagSet_iff.mp h
    obtain ⟨as, hplain, has⟩ := Value.exists_plain_flags hlegible hv
      fun raw hraw => mem_raws_of_mem_bits (hraws raw hraw)
    refine ⟨.list as, hplain, .list fun a ha => ?_⟩
    obtain ⟨_, -, label, -, rfl⟩ := (has a).mp ha
    exact .str label

theorem alike_of_plain {d : Decoder} (hd : d ∈ Decoder.all) {v w p q : Value} (hv : d.accepts v)
    (hw : d.accepts w) (hp : v.plain = .ok p) (hq : w.plain = .ok q) (h : p.equal q) :
    v.Alike w := by
  have hlegible := legible_of_mem_all hd
  have hsingle := single_of_mem_all hd
  cases d with
  | choice name family =>
    obtain ⟨raw, hraw, rfl⟩ := exists_raw_of_accepts hsingle hv
    obtain ⟨raw', hraw', rfl⟩ := exists_raw_of_accepts hsingle hw
    obtain ⟨label, hlabel, hplain⟩ := Value.exists_plain_variant hlegible hraw
    obtain ⟨label', hlabel', hplain'⟩ := Value.exists_plain_variant hlegible hraw'
    obtain rfl := Except.ok.inj (hplain.symm.trans hp)
    obtain rfl := Except.ok.inj (hplain'.symm.trans hq)
    cases Value.equal_str_iff.mp h
    rw [hlegible.2 raw hraw raw' hraw' (hlabel.trans hlabel'.symm)]
    exact .same _
  | flagSet name family =>
    obtain ⟨raws, hvs, hraws⟩ := accepts_flagSet_iff.mp hv
    obtain ⟨raws', hws, hraws'⟩ := accepts_flagSet_iff.mp hw
    have hmem : ∀ raw ∈ raws, raw ∈ family.raws := fun raw hr => mem_raws_of_mem_bits (hraws raw hr)
    have hmem' : ∀ raw ∈ raws', raw ∈ family.raws :=
      fun raw hr => mem_raws_of_mem_bits (hraws' raw hr)
    obtain ⟨as, hplain, has⟩ := Value.exists_plain_flags hlegible hvs hmem
    obtain ⟨bs, hplain', hbs⟩ := Value.exists_plain_flags hlegible hws hmem'
    obtain rfl := Except.ok.inj (hplain.symm.trans hp)
    obtain rfl := Except.ok.inj (hplain'.symm.trans hq)
    obtain ⟨_, he, hequal⟩ := Value.equal_list_iff.mp h
    cases he
    have hsub := Value.mem_of_plain_flags hlegible hmem hmem' has hbs hequal
    have hsub' := Value.mem_of_plain_flags hlegible hmem' hmem hbs has
      (hequal.flip.imp fun _ _ he => Value.equal_symm he)
    refine .sets hvs hws fun x => ?_
    simp only [variants, List.mem_map]
    exact exists_congr fun raw => and_congr_left fun _ => ⟨hsub raw, hsub' raw⟩

end Decoder

/-! ### One slot -/

namespace Value

theorem isPlain_ints (ns : List Int) : IsPlain (.list (ns.map .int)) := by
  refine .list fun x hx => ?_
  obtain ⟨n, -, rfl⟩ := List.mem_map.mp hx
  exact .int n

theorem exists_plain_ref (kind : RefKind) (n : Int) : ∃ key,
    plain (.ref kind (.int n)) = .ok (.map [(.str key, .int n)]) := by
  cases kind <;> exact ⟨_, rfl⟩

theorem eq_of_plain_ref {kind : RefKind} {n m : Int} {p q : Value}
    (hp : plain (.ref kind (.int n)) = .ok p) (hq : plain (.ref kind (.int m)) = .ok q)
    (h : p.equal q) : n = m := by
  obtain ⟨key, hkey⟩ := exists_plain_ref kind n
  obtain ⟨key', hkey'⟩ := exists_plain_ref kind m
  obtain rfl := Except.ok.inj (hkey.symm.trans hp)
  obtain rfl := Except.ok.inj (hkey'.symm.trans hq)
  obtain ⟨es, he, hes, -⟩ := equal_map_iff.mp h
  cases he
  obtain ⟨e, he, -, hvalue⟩ := hes _ List.mem_cons_self
  rw [List.mem_singleton.mp he, equal_int, beq_iff_eq] at hvalue
  exact hvalue

end Value

namespace Slot.Encodes

variable {s : Slot} {v w p q : Value} {ops ops' : List Int}

/-- **An argument that has operands has a plain form.** -/
theorem exists_plain (hd : ∀ d ∈ s.decoder, d ∈ Decoder.all) (h : s.Encodes v ops) :
    ∃ p, v.plain = .ok p ∧ p.IsPlain := by
  cases h with
  | @integer n => exact ⟨.int n, rfl, .int n⟩
  | coordinate => exact ⟨_, rfl, Value.isPlain_ints _⟩
  | @reference kind n =>
    obtain ⟨key, hplain⟩ := Value.exists_plain_ref kind n
    refine ⟨_, hplain, .map ?_ ?_⟩
    · exact List.forall_mem_singleton.mpr ⟨key, rfl⟩
    · exact List.forall_mem_singleton.mpr (.int n)
  | variant _ hd' ha => exact Decoder.exists_plain_of_accepts (hd _ hd') ha
  | @reserved n => exact ⟨.int n, rfl, .int n⟩

/-- **Arguments of one slot with equal plain forms are alike.** -/
theorem alike_of_plain (hd : ∀ d ∈ s.decoder, d ∈ Decoder.all) (hv : s.Encodes v ops)
    (hw : s.Encodes w ops') (hp : v.plain = .ok p) (hq : w.plain = .ok q) (h : p.equal q) :
    v.Alike w := by
  have eq_of_int {n m : Int} (h : (Value.int n).equal (.int m)) : n = m := by
    rwa [Value.equal_int, beq_iff_eq] at h
  rw [← operandsOf_eq_ok_iff] at hw
  cases hv with
  | integer hk =>
    rw [operandsOf, hk] at hw
    obtain ⟨m, rfl, -⟩ := integerOperand_eq_ok.mp hw
    cases hp
    cases hq
    rw [eq_of_int h]
    exact .same _
  | coordinate hk =>
    rw [operandsOf, hk] at hw
    obtain ⟨rfl, -⟩ := (coordinateOperands_eq_ok hk).mp hw
    cases hp
    cases hq
    obtain ⟨_, he, hequal⟩ := Value.equal_list_iff.mp h
    cases he
    rw [Value.eq_of_forall₂_equal_int hequal]
    exact .same _
  | reference hk =>
    rw [operandsOf_of_refKind? hk] at hw
    obtain ⟨m, rfl, -⟩ := refOperand_eq_ok.mp hw
    rw [Value.eq_of_plain_ref hp hq h]
    exact .same _
  | variant hk hd' ha =>
    rw [operandsOf_of_needsDecoder hk] at hw
    obtain ⟨d, m, hd'', ha', -⟩ := variantOperand_eq_ok.mp hw
    obtain rfl := Option.some.inj (hd'.symm.trans hd'')
    exact Decoder.alike_of_plain (hd _ hd') ha ha' hp hq h
  | reserved hk =>
    rw [operandsOf, hk] at hw
    cases w with
    | int m =>
      cases hp
      cases hq
      rw [eq_of_int h]
      exact .same _
    | _ => cases hw

end Slot.Encodes

/-! ### Some slots -/

namespace Schema

/-- The arguments of some values and their plain forms, one for each. -/
def PlainForms (vs ps : List Value) : Prop :=
  Forall₂ (fun v p => v.plain = .ok p ∧ p.IsPlain) vs ps

theorem Encodes.exists_plainForms {slots : List Slot} {arguments : List Value} {ops : List Int}
    (hd : ∀ s ∈ slots, ∀ d ∈ s.decoder, d ∈ Decoder.all) (h : Encodes slots arguments ops) :
    ∃ ps, PlainForms arguments ps := by
  induction h with
  | nil => exact ⟨[], .nil⟩
  | cons hs _ ih =>
    obtain ⟨hd, hds⟩ := List.forall_mem_cons.mp hd
    obtain ⟨p, hp⟩ := hs.exists_plain hd
    obtain ⟨ps, hps⟩ := ih hds
    exact ⟨p :: ps, .cons hp hps⟩

theorem Encodes.alike_of_plainForms {slots : List Slot} {vs ws ps qs : List Value}
    {ops ops' : List Int} (hd : ∀ s ∈ slots, ∀ d ∈ s.decoder, d ∈ Decoder.all)
    (hv : Encodes slots vs ops) (hw : Encodes slots ws ops') (hps : PlainForms vs ps)
    (hqs : PlainForms ws qs) (h : Forall₂ (fun p q => p.equal q) ps qs) :
    Forall₂ Value.Alike vs ws := by
  induction hv generalizing ws ps qs ops' with
  | nil =>
    cases hw
    exact .nil
  | cons hs _ ih =>
    obtain ⟨hd, hds⟩ := List.forall_mem_cons.mp hd
    cases hw with
    | cons hs' hws =>
      cases hps with
      | cons hp hps =>
        cases hqs with
        | cons hq hqs =>
          cases h with
          | cons he h =>
            exact .cons (hs.alike_of_plain hd hs' hp.1 hq.1 he) (ih hds hws hps hqs h)

theorem Encodes.eq_of_alike {slots : List Slot} {vs ws : List Value} {ops ops' : List Int}
    (hv : Encodes slots vs ops) (hw : Encodes slots ws ops') (h : Forall₂ Value.Alike vs ws) :
    ops = ops' := by
  have hencode := (encodeSlots_eq_ok_iff hw.arguments_length).mpr (hv.congr h)
  have hencode' := (encodeSlots_eq_ok_iff hw.arguments_length).mpr hw
  exact Except.ok.inj (hencode.symm.trans hencode')

/-! ### Records -/

theorem plainPairs_zip {names : List Value} (hnames : ∀ name ∈ names, name.hashable)
    {vs ps : List Value} (h : PlainForms vs ps) :
    Record.plainPairs (names.zip vs) = .ok (names.zip ps) := by
  induction h generalizing names with
  | nil =>
    rw [List.zip_nil_right]
    rfl
  | @cons v p vs ps hv _ ih =>
    cases names with
    | nil => rfl
    | cons name names =>
      obtain ⟨hname, hnames⟩ := List.forall_mem_cons.mp hnames
      rw [List.zip_cons_cons, List.zip_cons_cons, Record.plainPairs, hv.1,
        Value.checkKey_eq_ok_iff.mpr hname, ih hnames]
      rfl

theorem distinct_zip {names : List String} (hnodup : names.Nodup) (ps : List Value) :
    Entries.Distinct ((ofTexts names).zip ps) := by
  induction names generalizing ps with
  | nil => exact .nil
  | cons name names ih =>
    obtain ⟨hname, hnodup⟩ := List.nodup_cons.mp hnodup
    cases ps with
    | nil => exact .nil
    | cons p ps =>
      refine .cons (fun e he hequal => hname ?_) (ih hnodup ps)
      obtain ⟨other, hother, hkey⟩ := List.mem_map.mp (List.of_mem_zip he).1
      rw [← hkey] at hequal
      cases Value.equal_str_iff.mp hequal
      exact hother

/-- The document of a record of a schema, with the plain forms of the arguments. -/
def document (schema : Schema) (ps : List Value) : Entries :=
  [(.str "revision", .str schema.revisionValue.text), (.str "event", schema.name),
    (.str "code", .int schema.code), (.str "arguments", .map (schema.slotNames.zip ps))]

theorem print_revisionValue (schema : Schema) :
    schema.revisionValue.print = .ok schema.revisionValue.text :=
  Value.print_eq_ok.mpr ⟨schema.printable_revisionValue, rfl⟩

variable {schema : Schema} {names : List String}

theorem toDocument_recordOf (hnames : schema.slotNames = ofTexts names) (hnodup : names.Nodup)
    {vs ps : List Value} (h : PlainForms vs ps) :
    (schema.recordOf vs).toDocument = .ok (schema.document ps) := by
  have hpairs : Record.plainPairs (schema.recordOf vs).named = .ok (schema.slotNames.zip ps) := by
    refine plainPairs_zip (fun name hname => ?_) h
    obtain ⟨_, rfl⟩ := Value.exists_str_of_mem_ofTexts names name (hnames ▸ hname)
    rfl
  have hentries : Entries.ofPairs (schema.slotNames.zip ps) = schema.slotNames.zip ps := by
    rw [hnames]
    exact Entries.ofPairs_of_distinct (distinct_zip hnodup ps)
  have hrevision : (schema.recordOf vs).revision.print = .ok schema.revisionValue.text :=
    print_revisionValue schema
  rw [Record.toDocument, Record.plainArguments, hpairs, hrevision]
  simp only [bind, Except.bind, pure, Except.pure, hentries]
  rfl

theorem forall₂_of_zip {names : List String} (hnodup : names.Nodup) {ps qs : List Value}
    (hps : ps.length = names.length) (hqs : qs.length = names.length)
    (h : ∀ e ∈ (ofTexts names).zip ps, ∃ f ∈ (ofTexts names).zip qs,
      e.1.equal f.1 ∧ e.2.equal f.2) : Forall₂ (fun p q => p.equal q) ps qs := by
  induction names generalizing ps qs with
  | nil =>
    rw [List.eq_nil_of_length_eq_zero hps, List.eq_nil_of_length_eq_zero hqs]
    exact .nil
  | cons name names ih =>
    obtain ⟨hname, hnodup⟩ := List.nodup_cons.mp hnodup
    obtain ⟨p, ps, rfl⟩ := List.exists_cons_of_length_eq_add_one hps
    obtain ⟨q, qs, rfl⟩ := List.exists_cons_of_length_eq_add_one hqs
    have other {rs : List Value} {e : Value × Value} (he : e ∈ (ofTexts names).zip rs) :
        e.1 ≠ .str name := by
      obtain ⟨other, hother, hkey⟩ := List.mem_map.mp (List.of_mem_zip he).1
      intro hsame
      cases hkey.trans hsame
      exact hname hother
    obtain ⟨⟨f, hf, hkey, hvalue⟩, hrest⟩ := List.forall_mem_cons.mp h
    refine .cons ?_ (ih hnodup (Nat.succ.inj hps) (Nat.succ.inj hqs) fun e he => ?_)
    · rcases List.mem_cons.mp hf with rfl | hf
      · exact hvalue
      · exact absurd (Value.equal_str_iff.mp hkey) (other hf)
    · obtain ⟨f, hf, hkey, hvalue⟩ := hrest e he
      rcases List.mem_cons.mp hf with rfl | hf
      · exact absurd (Value.equal_str_iff.mp (Value.equal_symm hkey)) (other he)
      · exact ⟨f, hf, hkey, hvalue⟩

theorem forall₂_of_document {names : List String} (hnames : schema.slotNames = ofTexts names)
    (hnodup : names.Nodup) {ps qs : List Value} (hps : ps.length = schema.slotNames.length)
    (hqs : qs.length = schema.slotNames.length)
    (h : (Value.map (schema.document ps)).equal (.map (schema.document qs))) :
    Forall₂ (fun p q => p.equal q) ps qs := by
  obtain ⟨_, he, hes, -⟩ := Value.equal_map_iff.mp h
  cases he
  have hlast : (Value.map (schema.slotNames.zip ps)).equal (.map (schema.slotNames.zip qs)) := by
    obtain ⟨f, hf, hkey, hvalue⟩ := hes (.str "arguments", .map (schema.slotNames.zip ps))
      (by simp [document])
    have hf' := Value.equal_str_iff.mp hkey
    simp only [document, List.mem_cons, List.not_mem_nil, or_false] at hf
    rcases hf with rfl | rfl | rfl | rfl
    · simp at hf'
    · simp at hf'
    · simp at hf'
    · exact hvalue
  rw [hnames] at hlast
  rw [hnames, Value.ofTexts, List.length_map] at hps hqs
  obtain ⟨_, he, hes, -⟩ := Value.equal_map_iff.mp hlast
  cases he
  exact forall₂_of_zip hnodup hps hqs hes

/-- A document of plain arguments is plain, unless the name of the event is not. -/
theorem isPlain_document_iff {names : List String} (hnames : schema.slotNames = ofTexts names)
    {ps : List Value} (hps : ∀ p ∈ ps, p.IsPlain) :
    (Value.map (schema.document ps)).IsPlain ↔ schema.name.IsPlain := by
  constructor
  · intro h
    cases h with
    | map _ hvalues => exact hvalues (.str "event", schema.name) (by simp [document])
  · intro hname
    have harguments : (Value.map (schema.slotNames.zip ps)).IsPlain := by
      refine .map (fun e he => ?_) fun e he => hps e.2 (List.of_mem_zip he).2
      exact Value.exists_str_of_mem_ofTexts names e.1 (hnames ▸ (List.of_mem_zip he).1)
    refine .map ?_ ?_
    · simp [document]
    · simp only [document, List.forall_mem_cons]
      exact ⟨.str _, hname, .int _, harguments, fun _ h => absurd h List.not_mem_nil⟩

theorem exists_encodes_of_decode {ops : List Int} {record : Record}
    (h : schema.decode (.list (ops.map .int)) = .ok record) :
    ∃ arguments, record = schema.recordOf arguments ∧ Encodes schema.slots arguments ops := by
  obtain ⟨hlen, arguments, hslots, rfl⟩ := decode_eq_ok_iff.mp h
  exact ⟨arguments, rfl, encodes_of_decodeSlots hlen hslots⟩

theorem length_of_plainForms {arguments ps : List Value} {ops : List Int}
    (h : Encodes schema.slots arguments ops) (hps : PlainForms arguments ps) :
    ps.length = schema.slotNames.length := by
  rw [slotNames, List.length_map, ← h.arguments_length]
  exact hps.length_eq.symm

/-- **A decoded record becomes a document** with one entry for each slot, in the order of the slots,
and the plain form of the slot's argument under its name. -/
theorem toDocument_of_decode (hnames : schema.slotNames = ofTexts names) (hnodup : names.Nodup)
    (hdecoders : ∀ s ∈ schema.slots, ∀ d ∈ s.decoder, d ∈ Decoder.all) {ops : List Int}
    {record : Record} (h : schema.decode (.list (ops.map .int)) = .ok record) :
    ∃ ps, record.toDocument = .ok (schema.document ps) ∧ PlainForms record.arguments ps ∧
      (schema.slotNames.zip ps).map (·.1) = schema.slotNames ∧
      ((Value.map (schema.document ps)).IsPlain ↔ schema.name.IsPlain) := by
  obtain ⟨arguments, rfl, hencodes⟩ := exists_encodes_of_decode h
  obtain ⟨ps, hps⟩ := hencodes.exists_plainForms hdecoders
  refine ⟨ps, toDocument_recordOf hnames hnodup hps, hps, ?_, ?_⟩
  · exact List.map_fst_zip (length_of_plainForms hencodes hps).ge
  · refine isPlain_document_iff hnames fun p hp => ?_
    obtain ⟨_, -, -, hplain⟩ := exists_mem_of_forall₂ hps.flip p hp
    exact hplain

/-- **Rendering loses nothing**: what a schema with different slot names decodes becomes a document
of texts, integers, lists and mappings of texts, with one entry for each slot in their order, and
equal documents come from the same operands.  The name of the event is taken over as it is; it alone
can be something else, if the schema calls the event by something that is not plain. -/
theorem toDocument_lossless (hnames : schema.slotNames = ofTexts names) (hnodup : names.Nodup)
    (hdecoders : ∀ s ∈ schema.slots, ∀ d ∈ s.decoder, d ∈ Decoder.all) {ops ops' : List Int}
    {record record' : Record} (h : schema.decode (.list (ops.map .int)) = .ok record)
    (h' : schema.decode (.list (ops'.map .int)) = .ok record') :
    ∃ ps ps', record.toDocument = .ok (schema.document ps) ∧
      record'.toDocument = .ok (schema.document ps') ∧ PlainForms record.arguments ps ∧
      (schema.slotNames.zip ps).map (·.1) = schema.slotNames ∧
      ((Value.map (schema.document ps)).IsPlain ↔ schema.name.IsPlain) ∧
      ((Value.map (schema.document ps)).equal (.map (schema.document ps')) → ops = ops') := by
  obtain ⟨ps, hdocument, hps, hfields, hplain⟩ := toDocument_of_decode hnames hnodup hdecoders h
  obtain ⟨ps', hdocument', hps', -⟩ := toDocument_of_decode hnames hnodup hdecoders h'
  refine ⟨ps, ps', hdocument, hdocument', hps, hfields, hplain, fun hequal => ?_⟩
  obtain ⟨arguments, rfl, hencodes⟩ := exists_encodes_of_decode h
  obtain ⟨arguments', rfl, hencodes'⟩ := exists_encodes_of_decode h'
  have halike := hencodes.alike_of_plainForms hdecoders hencodes' hps hps'
    (forall₂_of_document hnames hnodup (length_of_plainForms hencodes hps)
      (length_of_plainForms hencodes' hps') hequal)
  exact hencodes.eq_of_alike hencodes' halike

def siege : Schema where
  code := 9
  name := .str "Siege"
  slots := [
    ⟨.str "field", .coordinate, none, .int 16, .bool true, .int 4, by decide +kernel⟩,
    ⟨.str "victory", .bitflags, some (.flagSet "battle_flags" .battleFlag), .int 8, .bool false,
      .int 1, by decide +kernel⟩,
    ⟨.str "weapon", .enumValue, some (.choice "cannon_types" .cannonType), .int 4, .bool true,
      .int 1, by decide +kernel⟩,
    ⟨.str "gap", .unknown, none, .int 0, .bool true, .int 1, by decide +kernel⟩,
    ⟨.str "captain", .characterId, none, .int 16, .bool false, .int 1, by decide +kernel⟩,
    ⟨.str "then", .functionRef, none, .int 16, .bool false, .int 1, by decide +kernel⟩,
    ⟨.str "label", .stringRef, none, .int 16, .bool false, .int 1, by decide +kernel⟩,
    ⟨.str "rounds", .rawInteger, none, .int 8, .bool true, .int 1, by decide +kernel⟩]
  revision := some ⟨"FE14", "JP"⟩

/-- With two sets of flags that have a member in common. -/
theorem toDocument_lossless_siege : ∃ record record',
    siege.decode (.list ([0, -1, 31, -32768, 129, 4, 100000, 7, 7, 7, -128].map .int)) = .ok record ∧
    siege.decode (.list ([0, -1, 31, -32768, 130, 4, 100000, 7, 7, 7, -128].map .int)) =
      .ok record' ∧
    ∃ ps ps', record.toDocument = .ok (siege.document ps) ∧
      record'.toDocument = .ok (siege.document ps') ∧ PlainForms record.arguments ps ∧
      (siege.slotNames.zip ps).map (·.1) = siege.slotNames ∧
      ((Value.map (siege.document ps)).IsPlain ↔ siege.name.IsPlain) ∧
      ((Value.map (siege.document ps)).equal (.map (siege.document ps')) →
        [0, -1, 31, -32768, 129, 4, 100000, 7, 7, 7, -128] =
          ([0, -1, 31, -32768, 130, 4, 100000, 7, 7, 7, -128] : List Int)) := by
  have hok : (siege.decode (.list ([0, -1, 31, -32768, 129, 4, 100000, 7, 7, 7, -128].map
      .int))).toOption.isSome := by decide +kernel
  have hok' : (siege.decode (.list ([0, -1, 31, -32768, 130, 4, 100000, 7, 7, 7, -128].map
      .int))).toOption.isSome := by decide +kernel
  obtain ⟨record, h⟩ := Option.isSome_iff_exists.mp hok
  obtain ⟨record', h'⟩ := Option.isSome_iff_exists.mp hok'
  have hdecode := Attempt.eq_ok_of_toOption h
  have hdecode' := Attempt.eq_ok_of_toOption h'
  have hnames : siege.slotNames =
    ofTexts ["field", "victory", "weapon", "gap", "captain", "then", "label", "rounds"] := rfl
  exact ⟨record, record', hdecode, hdecode',
    toDocument_lossless hnames (by decide) (by decide +kernel) hdecode hdecode'⟩

end Schema

end EventDialects
