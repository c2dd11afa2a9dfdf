import EventDialects.Proofs.Value.Entries
import EventDialects.Proofs.Value.Normal

/-!
# What countable forms tell apart

Arguments are counted by their countable forms, which do not keep the sort of a sequence or of a
set: lists are counted as tuples, and sets as frozen sets.  Up to these sorts, which `fixed` removes
and which leaves mappings as they are, a countable form determines its value, with one exception: a
mapping is counted as the frozen set of its entries, and this is the countable form of a set, too.

* `Composed`: the values that are built of scalars by sequences, sets and mappings.
* `Composed.countable`: all of them can be counted.
* `Clashes`: a mapping stands in one value where the other has a set.
* `fixed_equal_iff_normal_equal`: **values are equal exactly if their countable forms are**, up to
  the sorts of their sequences and sets, unless the values clash.
* `normal_oneEntry_equal_normal_onePair`: a mapping and the set of its entries count as the same.
-/

namespace EventDialects

open List (Forall₂)

namespace Value

/-! ### One sort of sequence and one of set -/

mutual

/-- A value with its lists read as tuples and its sets as frozen sets, at every depth. -/
def fixed : Value → Value
  | .list xs => .tuple (fixedItems xs)
  | .tuple xs => .tuple (fixedItems xs)
  | .set xs => .frozenset (fixedItems xs)
  | .frozenset xs => .frozenset (fixedItems xs)
  | .map es => .map (fixedEntries es)
  | v => v
termination_by structural x => x

def fixedItems : List Value → List Value
  | [] => []
  | x :: xs => fixed x :: fixedItems xs
termination_by structural x => x

def fixedEntry : Value × Value → Value × Value
  | (k, v) => (fixed k, fixed v)
termination_by structural x => x

def fixedEntries : List (Value × Value) → List (Value × Value)
  | [] => []
  | e :: es => fixedEntry e :: fixedEntries es
termination_by structural x => x

end

/-- The elements of a sequence of either sort. -/
def items? : Value → Option (List Value)
  | .list xs => some xs
  | .tuple xs => some xs
  | _ => none

theorem fixedItems_eq_map (xs : List Value) : fixedItems xs = xs.map fixed := by
  induction xs with
  | nil => rfl
  | cons x xs ih => rw [fixedItems, ih, List.map_cons]

theorem fixedEntries_eq_map (es : List (Value × Value)) :
    fixedEntries es = es.map fun e => (e.1.fixed, e.2.fixed) := by
  induction es with
  | nil => rfl
  | cons e es ih => rw [fixedEntries, ih, List.map_cons, fixedEntry]

theorem fixed_of_items? {v : Value} {xs : List Value} (h : v.items? = some xs) :
    v.fixed = .tuple (xs.map fixed) := by
  cases v <;> simp only [items?, Option.some.injEq, reduceCtorEq] at h
  all_goals
    subst h
    rw [fixed, fixedItems_eq_map]

theorem fixed_of_elements? {v : Value} {xs : List Value} (h : v.elements? = some xs) :
    v.fixed = .frozenset (xs.map fixed) := by
  cases v <;> simp only [elements?, Option.some.injEq, reduceCtorEq] at h
  all_goals
    subst h
    rw [fixed, fixedItems_eq_map]

theorem fixed_map (es : List (Value × Value)) :
    (Value.map es).fixed = .map (es.map fun e => (e.1.fixed, e.2.fixed)) := by
  rw [fixed, fixedEntries_eq_map]

theorem fixed_of_hashable {v : Value} (h : v.hashable) : v.fixed = v := by
  have parts {xs : List Value} (ih : ∀ x ∈ xs, x.hashable → x.fixed = x) (h : allHashable xs) :
      xs.map fixed = xs := by
    rw [List.map_congr_left fun x hx => ih x hx (allHashable_iff.mp h x hx), List.map_id']
  induction v with
  | tuple xs ih => rw [fixed_of_items? rfl, parts ih h]
  | frozenset xs ih => rw [fixed_of_elements? rfl, parts ih h]
  | list | set | map => cases h
  | _ => rfl

theorem fixed_of_hashable_elements {v : Value} {xs : List Value} (hv : v.elements? = some xs)
    (h : ∀ x ∈ xs, x.hashable) : v.fixed = .frozenset xs := by
  rw [fixed_of_elements? hv, List.map_congr_left fun x hx => fixed_of_hashable (h x hx),
    List.map_id']

/-! ### Composed values -/

/-- Whether a value is null, a number without fraction, a text, a variant, a revision, or a
reference with such a number as its offset. -/
def isScalar : Value → Bool
  | .null | .bool _ | .int _ | .str _ | .variant _ _ | .revision _ => true
  | .ref _ offset => offset.integer?.isSome
  | _ => false

/-- A value is **composed** if it is built of scalars by sequences, sets and mappings.  The elements
of a set and the keys of a mapping can be keys, and no two keys of a mapping are equal. -/
inductive Composed : Value → Prop
  | scalar {v : Value} (hv : v.isScalar) : Composed v
  | sequence {v : Value} {xs : List Value} (hv : v.items? = some xs)
      (hxs : ∀ x ∈ xs, Composed x) : Composed v
  | collection {v : Value} {xs : List Value} (hv : v.elements? = some xs)
      (hkeys : ∀ x ∈ xs, x.hashable) (hxs : ∀ x ∈ xs, Composed x) : Composed v
  | mapping {es : Entries} (hdistinct : es.Distinct) (hkeys : ∀ e ∈ es, e.1.hashable)
      (hes : ∀ e ∈ es, Composed e.1) (hvalues : ∀ e ∈ es, Composed e.2) : Composed (.map es)

theorem hashable_of_isScalar {v : Value} (h : v.isScalar) : v.hashable := by
  cases v with
  | ref kind offset =>
    cases offset with
    | bool | int => rfl
    | _ => cases h
  | list | tuple | set | frozenset | map | float => cases h
  | _ => rfl

theorem normal_of_items? {v : Value} {xs : List Value} (h : v.items? = some xs) {w : Value} :
    v.normal = .ok w ↔ ∃ ys, w = .tuple ys ∧ Forall₂ (fun x y => x.normal = .ok y) xs ys := by
  cases v <;> cases h
  · exact normal_list_eq_ok
  · exact normal_tuple_eq_ok

/-- **Composed values can be counted.** -/
theorem Composed.countable {v : Value} (h : v.Composed) : v.Countable := by
  induction h with
  | scalar hv => exact countable_of_hashable (hashable_of_isScalar hv)
  | sequence hv _ ih =>
    obtain ⟨ys, hys, hkeys⟩ := exists_forall₂_normal ih
    exact ⟨_, (normal_of_items? hv).mpr ⟨ys, rfl, hys⟩, hkeys⟩
  | collection hv hkeys => exact countable_of_hashable_elements hv hkeys
  | @mapping es _ hkeys _ _ _ ih =>
    have hentry : ∀ e ∈ es, ∃ item, NormalEntry e item ∧ item.hashable := by
      intro e he
      obtain ⟨w, hw, hwkey⟩ := ih e he
      exact ⟨_, ⟨w, hw, rfl⟩, allHashable_iff.mpr (by simp [hkeys e he, hwkey])⟩
    obtain ⟨items, hitems⟩ := exists_forall₂_of_forall hentry
    have hall : ∀ item ∈ items, item.hashable := by
      intro item hitem
      obtain ⟨e, -, -, hkey⟩ := exists_mem_of_forall₂ hitems.flip item hitem
      exact hkey
    exact ⟨_, normal_map_eq_ok.mpr ⟨items, rfl, hitems.imp fun _ _ h => h.1,
      checkKeys_eq_ok_iff.mpr hall⟩, allHashable_iff.mpr hall⟩

/-! ### Equal countable forms -/

/-- Two values count as the same one if their countable forms are equal. -/
def CountsAs (x y : Value) : Prop := ∃ u w, x.normal = .ok u ∧ y.normal = .ok w ∧ u.equal w

theorem countsAs_iff_of_normal {x y u w : Value} (hx : x.normal = .ok u) (hy : y.normal = .ok w) :
    x.CountsAs y ↔ u.equal w := by
  constructor
  · rintro ⟨u', w', hx', hy', h⟩
    rw [hx] at hx'
    rw [hy] at hy'
    cases hx'
    cases hy'
    exact h
  · exact fun h => ⟨u, w, hx, hy, h⟩

theorem countsAs_iff_of_hashable {x y : Value} (hx : x.hashable) (hy : y.hashable) :
    x.CountsAs y ↔ x.equal y :=
  countsAs_iff_of_normal (normal_of_hashable hx) (normal_of_hashable hy)

theorem countsAs_iff_of_items? {x y : Value} {xs ys : List Value} (hx : x.items? = some xs)
    (hy : y.items? = some ys) : x.CountsAs y ↔ Forall₂ CountsAs xs ys := by
  constructor
  · rintro ⟨u, w, hu, hw, h⟩
    obtain ⟨us, rfl, hus⟩ := (normal_of_items? hx).mp hu
    obtain ⟨ws, rfl, hws⟩ := (normal_of_items? hy).mp hw
    obtain ⟨_, hw, huw⟩ := equal_tuple_iff.mp h
    cases hw
    refine (forall₂_comp (forall₂_comp hus huw) hws.flip).imp ?_
    rintro a b ⟨w, ⟨u, ha, huw⟩, hb⟩
    exact ⟨u, w, ha, hb, huw⟩
  · intro h
    obtain ⟨us, hus, hrest⟩ := exists_forall₂ (Q := fun a u => a.normal = .ok u)
      (R := fun b u => ∃ w, b.normal = .ok w ∧ u.equal w) h fun _ _ _ ⟨u, w, ha, hb⟩ => ⟨u, ha, w, hb⟩
    obtain ⟨ws, hws, huw⟩ := exists_forall₂ (Q := fun b w => b.normal = .ok w)
      (R := fun u w => u.equal w) hrest fun _ _ _ hb => hb
    exact ⟨_, _, (normal_of_items? hx).mpr ⟨us, rfl, hus⟩, (normal_of_items? hy).mpr ⟨ws, rfl, hws⟩,
      equal_tuple_iff.mpr ⟨ws, rfl, huw⟩⟩

theorem equal_frozenset_iff_of_forall₂ {α β : Type} {P : α → Value → Prop} {Q : β → Value → Prop}
    {R : α → β → Prop} {as : List α} {bs : List β} {xs ys : List Value} (hx : Forall₂ P as xs)
    (hy : Forall₂ Q bs ys) (h : ∀ {a b x y}, P a x → Q b y → (x.equal y ↔ R a b)) :
    (Value.frozenset xs).equal (.frozenset ys) ↔
      (∀ a ∈ as, ∃ b ∈ bs, R a b) ∧ ∀ b ∈ bs, ∃ a ∈ as, R a b := by
  constructor
  · intro hequal
    obtain ⟨_, hys, hleft, hright⟩ := (equal_iff_of_elements? rfl).mp hequal
    cases hys
    refine ⟨fun a ha => ?_, fun b hb => ?_⟩
    · obtain ⟨x, hxmem, hax⟩ := exists_mem_of_forall₂ hx a ha
      obtain ⟨y, hymem, hxy⟩ := hleft x hxmem
      obtain ⟨b, hb, hby⟩ := exists_mem_of_forall₂ hy.flip y hymem
      exact ⟨b, hb, (h hax hby).mp hxy⟩
    · obtain ⟨y, hymem, hby⟩ := exists_mem_of_forall₂ hy b hb
      obtain ⟨x, hxmem, hxy⟩ := hright y hymem
      obtain ⟨a, ha, hax⟩ := exists_mem_of_forall₂ hx.flip x hxmem
      exact ⟨a, ha, (h hax hby).mp hxy⟩
  · rintro ⟨hleft, hright⟩
    refine equal_frozenset_of_forall₂ hx hy (fun a ha => ?_) (fun b hb => ?_)
    · obtain ⟨b, hb, hab⟩ := hleft a ha
      exact ⟨b, hb, fun _ _ hax hby => (h hax hby).mpr hab⟩
    · obtain ⟨a, ha, hab⟩ := hright b hb
      exact ⟨a, ha, fun _ _ hax hby => (h hax hby).mpr hab⟩

theorem equal_normalEntry_iff {e f : Value × Value} {x y : Value} (hx : NormalEntry e x)
    (hy : NormalEntry f y) : x.equal y ↔ e.1.equal f.1 ∧ e.2.CountsAs f.2 := by
  obtain ⟨v, hv, rfl⟩ := hx
  obtain ⟨w, hw, rfl⟩ := hy
  rw [equal_tuple_iff, countsAs_iff_of_normal hv hw]
  simp

/-- Mappings count as the same one if each entry has a counterpart: an equal key, and a value that
counts as the same one. -/
theorem countsAs_map_iff {es fs : Entries} (hes : (Value.map es).Countable)
    (hfs : (Value.map fs).Countable) : (Value.map es).CountsAs (.map fs) ↔
      (∀ e ∈ es, ∃ f ∈ fs, e.1.equal f.1 ∧ e.2.CountsAs f.2) ∧
        ∀ f ∈ fs, ∃ e ∈ es, e.1.equal f.1 ∧ e.2.CountsAs f.2 := by
  obtain ⟨u, hu, -⟩ := hes
  obtain ⟨w, hw, -⟩ := hfs
  rw [countsAs_iff_of_normal hu hw]
  obtain ⟨us, rfl, hus, -⟩ := normal_map_eq_ok.mp hu
  obtain ⟨ws, rfl, hws, -⟩ := normal_map_eq_ok.mp hw
  exact equal_frozenset_iff_of_forall₂ hus hws equal_normalEntry_iff

/-! ### Forms -/

/-- The form of a value, in which sequences of both sorts are one, and so are sets. -/
inductive Form
  | scalar
  | sequence
  | collection
  | mapping
  deriving DecidableEq

def form : Value → Form
  | .list _ | .tuple _ => .sequence
  | .set _ | .frozenset _ => .collection
  | .map _ => .mapping
  | _ => .scalar

/-- The form in which a value of this form is counted. -/
def Form.counted : Form → Form
  | .mapping => .collection
  | form => form

theorem form_of_isScalar {v : Value} (h : v.isScalar) : v.form = .scalar := by
  cases v with
  | list | tuple | set | frozenset | map => cases h
  | _ => rfl

theorem form_of_items? {v : Value} {xs : List Value} (h : v.items? = some xs) :
    v.form = .sequence := by
  cases v <;> cases h <;> rfl

theorem form_of_elements? {v : Value} {xs : List Value} (h : v.elements? = some xs) :
    v.form = .collection := by
  cases v <;> cases h <;> rfl

theorem form_fixed (v : Value) : v.fixed.form = v.form := by
  cases v <;> rfl

theorem form_of_number? {v : Value} {a : Number} (h : v.number? = some a) : v.form = .scalar := by
  cases v with
  | bool | int | float => rfl
  | _ => cases h

theorem form_eq_of_equal {x y : Value} (h : x.equal y) : x.form = y.form := by
  have number {a : Number} (hx : x.number? = some a) : x.form = y.form := by
    obtain ⟨b, hy, -⟩ := (equal_iff_of_number? hx).mp h
    rw [form_of_number? hx, form_of_number? hy]
  have collection {xs : List Value} (hx : x.elements? = some xs) : x.form = y.form := by
    obtain ⟨ys, hy, -⟩ := (equal_iff_of_elements? hx).mp h
    rw [form_of_elements? hx, form_of_elements? hy]
  cases x with
  | null => rw [equal_null_iff.mp h]
  | bool | int | float => exact number rfl
  | str => rw [equal_str_iff.mp h]
  | list =>
    obtain ⟨_, rfl, -⟩ := equal_list_iff.mp h
    rfl
  | tuple =>
    obtain ⟨_, rfl, -⟩ := equal_tuple_iff.mp h
    rfl
  | set | frozenset => exact collection rfl
  | map =>
    obtain ⟨_, rfl, -⟩ := equal_map_iff.mp h
    rfl
  | ref =>
    obtain ⟨_, rfl, -⟩ := equal_ref_iff.mp h
    rfl
  | variant => rw [equal_variant_iff.mp h]
  | revision => rw [equal_revision_iff.mp h]

theorem form_of_normal {v w : Value} (h : v.normal = .ok w) : w.form = v.form.counted := by
  cases v with
  | list =>
    obtain ⟨_, rfl, -⟩ := normal_list_eq_ok.mp h
    rfl
  | tuple =>
    obtain ⟨_, rfl, -⟩ := normal_tuple_eq_ok.mp h
    rfl
  | set | frozenset =>
    obtain ⟨_, rfl, -⟩ := (normal_of_elements? rfl).mp h
    rfl
  | map =>
    obtain ⟨_, rfl, -⟩ := normal_map_eq_ok.mp h
    rfl
  | _ =>
    cases h
    rfl

/-! ### Clashes -/

/-- Two values **clash** if, at the same place of both, one has a mapping and the other a set.  The
places of a sequence are its items, those of a mapping the values under its keys. -/
inductive Clashes : Value → Value → Prop
  | left {x y : Value} (hx : x.form = .mapping) (hy : y.form = .collection) : Clashes x y
  | right {x y : Value} (hx : x.form = .collection) (hy : y.form = .mapping) : Clashes x y
  | item {x y : Value} {xs ys : List Value} (hx : x.items? = some xs) (hy : y.items? = some ys)
      {a b : Value} (hab : (a, b) ∈ xs.zip ys) (h : Clashes a b) : Clashes x y
  | entry {es fs : Entries} {e f : Value × Value} (he : e ∈ es) (hf : f ∈ fs)
      (hkey : e.1.equal f.1) (h : Clashes e.2 f.2) : Clashes (.map es) (.map fs)

theorem not_clashes_of_isScalar {x y : Value} (hx : x.isScalar) : ¬ x.Clashes y := by
  have hform := form_of_isScalar hx
  intro h
  cases h with
  | left hx | right hx => cases hform.symm.trans hx
  | item hx => cases hform.symm.trans (form_of_items? hx)
  | entry => cases hform

theorem clashes_iff_of_items? {x y : Value} {xs ys : List Value} (hx : x.items? = some xs)
    (hy : y.items? = some ys) : x.Clashes y ↔ ∃ p ∈ xs.zip ys, p.1.Clashes p.2 := by
  have hform := form_of_items? hx
  constructor
  · intro h
    cases h with
    | left hx' | right hx' => cases hform.symm.trans hx'
    | item hx' hy' hab h =>
      obtain rfl := Option.some.inj (hx.symm.trans hx')
      obtain rfl := Option.some.inj (hy.symm.trans hy')
      exact ⟨_, hab, h⟩
    | entry => cases hform
  · rintro ⟨_, hab, h⟩
    exact .item hx hy hab h

/-- Sets do not clash: what their elements hold has no place that both sets share. -/
theorem not_clashes_of_elements? {x y : Value} {xs ys : List Value} (hx : x.elements? = some xs)
    (hy : y.elements? = some ys) : ¬ x.Clashes y := by
  have hformx := form_of_elements? hx
  have hformy := form_of_elements? hy
  intro h
  cases h with
  | left hx => cases hformx.symm.trans hx
  | right _ hy => cases hformy.symm.trans hy
  | item hx => cases hformx.symm.trans (form_of_items? hx)
  | entry => cases hformx

theorem clashes_map_iff {es fs : Entries} : (Value.map es).Clashes (.map fs) ↔
    ∃ e ∈ es, ∃ f ∈ fs, e.1.equal f.1 ∧ e.2.Clashes f.2 := by
  constructor
  · intro h
    cases h with
    | left _ hy => cases hy
    | right hx => cases hx
    | item hx => cases hx
    | entry he hf hkey h => exact ⟨_, he, _, hf, hkey, h⟩
  · rintro ⟨e, he, f, hf, hkey, h⟩
    exact .entry he hf hkey h

theorem clashes_of_form_ne {x y : Value} (hform : x.form ≠ y.form) (h : x.CountsAs y) :
    x.Clashes y := by
  obtain ⟨u, w, hu, hw, huw⟩ := h
  have hcounted : x.form.counted = y.form.counted := by
    rw [← form_of_normal hu, ← form_of_normal hw, form_eq_of_equal huw]
  cases hx : x.form <;> cases hy : y.form <;> simp_all [Form.counted]
  · exact .right hx hy
  · exact .left hx hy

/-! ### Equal countable forms of equal values alone

The counterparts of two composed values are compared by the form of both, and the induction is on
one of them. -/

section

variable {x y : Value}

/-- The countable forms of two values **tell them apart** if they are equal exactly for equal values
that do not clash. -/
def ToldApart (x y : Value) : Prop := x.fixed.equal y.fixed ↔ x.CountsAs y ∧ ¬ x.Clashes y

theorem toldApart_of_form_ne {a b : Form} (hx : x.form = a) (hy : y.form = b) (hab : a ≠ b) :
    ToldApart x y := by
  have hform : x.form ≠ y.form := by rwa [hx, hy]
  refine iff_of_false (fun h => hform ?_) (fun h => h.2 (clashes_of_form_ne hform h.1))
  rw [← form_fixed x, ← form_fixed y, form_eq_of_equal h]

theorem toldApart_of_isScalar (hx : x.isScalar) (hy : y.isScalar) : ToldApart x y := by
  have hxkey := hashable_of_isScalar hx
  have hykey := hashable_of_isScalar hy
  rw [ToldApart, fixed_of_hashable hxkey, fixed_of_hashable hykey,
    countsAs_iff_of_hashable hxkey hykey, and_iff_left (not_clashes_of_isScalar hx)]

theorem toldApart_of_items? {xs ys : List Value} (hx : x.items? = some xs) (hy : y.items? = some ys)
    (ih : ∀ a ∈ xs, ∀ b ∈ ys, ToldApart a b) : ToldApart x y := by
  have hfixed : x.fixed.equal y.fixed ↔ Forall₂ (fun a b => a.fixed.equal b.fixed) xs ys := by
    rw [fixed_of_items? hx, fixed_of_items? hy, equal_tuple_iff]
    simp
  rw [ToldApart, hfixed, countsAs_iff_of_items? hx hy, clashes_iff_of_items? hx hy,
    List.forall₂_iff_zip, List.forall₂_iff_zip]
  constructor
  · rintro ⟨hlen, h⟩
    have hboth {a b : Value} (hab : (a, b) ∈ xs.zip ys) : a.CountsAs b ∧ ¬ a.Clashes b :=
      (ih a (List.of_mem_zip hab).1 b (List.of_mem_zip hab).2).mp (h hab)
    exact ⟨⟨hlen, fun hab => (hboth hab).1⟩, fun ⟨_, hab, hclash⟩ => (hboth hab).2 hclash⟩
  · rintro ⟨⟨hlen, h⟩, hclash⟩
    refine ⟨hlen, fun {a b} hab => ?_⟩
    exact (ih a (List.of_mem_zip hab).1 b (List.of_mem_zip hab).2).mpr
      ⟨h hab, fun hc => hclash ⟨_, hab, hc⟩⟩

theorem toldApart_of_elements? {xs ys : List Value} (hx : x.elements? = some xs)
    (hy : y.elements? = some ys) (hxs : ∀ a ∈ xs, a.hashable) (hys : ∀ b ∈ ys, b.hashable) :
    ToldApart x y := by
  rw [ToldApart, fixed_of_hashable_elements hx hxs, fixed_of_hashable_elements hy hys,
    countsAs_iff_of_normal (normal_of_hashable_elements hx hxs)
      (normal_of_hashable_elements hy hys), and_iff_left (not_clashes_of_elements? hx hy)]

theorem fixed_equal_map_iff {es fs : Entries} (hes : ∀ e ∈ es, e.1.hashable)
    (hfs : ∀ f ∈ fs, f.1.hashable) : (Value.map es).fixed.equal (Value.map fs).fixed ↔
      (∀ e ∈ es, ∃ f ∈ fs, e.1.equal f.1 ∧ e.2.fixed.equal f.2.fixed) ∧
        ∀ f ∈ fs, ∃ e ∈ es, e.1.equal f.1 ∧ e.2.fixed.equal f.2.fixed := by
  have hself {gs : Entries} (hgs : ∀ e ∈ gs, e.1.hashable) :
      (gs.map fun e => (e.1.fixed, e.2.fixed)) = gs.map fun e => (e.1, e.2.fixed) :=
    List.map_congr_left fun e he => by rw [fixed_of_hashable (hgs e he)]
  rw [fixed_map, fixed_map, hself hes, hself hfs, equal_map_iff]
  simp only [map.injEq, exists_eq_left', List.forall_mem_map]
  simp only [List.mem_map, exists_exists_and_eq_and]

theorem toldApart_map {es fs : Entries} (hes : (Value.map es).Composed)
    (hfs : (Value.map fs).Composed) (heskeys : ∀ e ∈ es, e.1.hashable)
    (hfskeys : ∀ f ∈ fs, f.1.hashable) (hdistinct : fs.Distinct)
    (ih : ∀ e ∈ es, ∀ f ∈ fs, ToldApart e.2 f.2) : ToldApart (.map es) (.map fs) := by
  rw [ToldApart, fixed_equal_map_iff heskeys hfskeys, countsAs_map_iff hes.countable hfs.countable,
    clashes_map_iff]
  constructor
  · rintro ⟨hleft, hright⟩
    refine ⟨⟨fun e he => ?_, fun f hf => ?_⟩, ?_⟩
    · obtain ⟨f, hf, hkey, hvalue⟩ := hleft e he
      exact ⟨f, hf, hkey, ((ih e he f hf).mp hvalue).1⟩
    · obtain ⟨e, he, hkey, hvalue⟩ := hright f hf
      exact ⟨e, he, hkey, ((ih e he f hf).mp hvalue).1⟩
    · -- The clash is at a key that only one entry of the other mapping has: the counterpart.
      rintro ⟨e, he, f, hf, hkey, hclash⟩
      obtain ⟨f', hf', hkey', hvalue⟩ := hleft e he
      obtain rfl : f' = f := hdistinct.eq_of_equal hf' hf (equal_trans (equal_symm hkey') hkey)
      exact ((ih e he f' hf).mp hvalue).2 hclash
  · rintro ⟨⟨hleft, hright⟩, hclash⟩
    have hfixed {e f : Value × Value} (he : e ∈ es) (hf : f ∈ fs) (hkey : e.1.equal f.1)
        (h : e.2.CountsAs f.2) : e.2.fixed.equal f.2.fixed :=
      (ih e he f hf).mpr ⟨h, fun hc => hclash ⟨e, he, f, hf, hkey, hc⟩⟩
    refine ⟨fun e he => ?_, fun f hf => ?_⟩
    · obtain ⟨f, hf, hkey, hvalue⟩ := hleft e he
      exact ⟨f, hf, hkey, hfixed he hf hkey hvalue⟩
    · obtain ⟨e, he, hkey, hvalue⟩ := hright f hf
      exact ⟨e, he, hkey, hfixed he hf hkey hvalue⟩

/-- **The countable forms of composed values tell them apart.**  The induction is on one of the
values; the case split on the other one leaves, beside the pairs of one form, pairs whose countable
forms differ in form unless the values clash. -/
theorem Composed.toldApart (hx : x.Composed) (hy : y.Composed) : ToldApart x y := by
  induction hx generalizing y with
  | scalar hx =>
    have hform := form_of_isScalar hx
    cases hy with
    | scalar hy => exact toldApart_of_isScalar hx hy
    | sequence hy => exact toldApart_of_form_ne hform (form_of_items? hy) nofun
    | collection hy => exact toldApart_of_form_ne hform (form_of_elements? hy) nofun
    | mapping => exact toldApart_of_form_ne hform rfl nofun
  | sequence hx _ ih =>
    have hform := form_of_items? hx
    cases hy with
    | scalar hy => exact toldApart_of_form_ne hform (form_of_isScalar hy) nofun
    | sequence hy hys => exact toldApart_of_items? hx hy fun a ha b hb => ih a ha (hys b hb)
    | collection hy => exact toldApart_of_form_ne hform (form_of_elements? hy) nofun
    | mapping => exact toldApart_of_form_ne hform rfl nofun
  | collection hx hxs =>
    have hform := form_of_elements? hx
    cases hy with
    | scalar hy => exact toldApart_of_form_ne hform (form_of_isScalar hy) nofun
    | sequence hy => exact toldApart_of_form_ne hform (form_of_items? hy) nofun
    | collection hy hys => exact toldApart_of_elements? hx hy hxs hys
    | mapping => exact toldApart_of_form_ne hform rfl nofun
  | mapping hes heskeys hesc hesvalues _ ih =>
    cases hy with
    | scalar hy => exact toldApart_of_form_ne rfl (form_of_isScalar hy) nofun
    | sequence hy => exact toldApart_of_form_ne rfl (form_of_items? hy) nofun
    | collection hy => exact toldApart_of_form_ne rfl (form_of_elements? hy) nofun
    | mapping hfs hfskeys hfsc hfsvalues =>
      exact toldApart_map (.mapping hes heskeys hesc hesvalues) (.mapping hfs hfskeys hfsc hfsvalues)
        heskeys hfskeys hfs fun e he f hf => ih e he (hfsvalues f hf)

/-- Composed values have countable forms that can be keys, and **these are equal exactly for equal
values**, lists being read as tuples and sets as frozen sets, unless the values clash. -/
theorem fixed_equal_iff_normal_equal (hx : x.Composed) (hy : y.Composed) :
    ∃ u w, x.normal = .ok u ∧ u.hashable ∧ y.normal = .ok w ∧ w.hashable ∧
      (x.fixed.equal y.fixed ↔ u.equal w ∧ ¬ x.Clashes y) := by
  obtain ⟨u, hu, hukey⟩ := hx.countable
  obtain ⟨w, hw, hwkey⟩ := hy.countable
  refine ⟨u, w, hu, hukey, hw, hwkey, ?_⟩
  rw [← countsAs_iff_of_normal hu hw]
  exact hx.toldApart hy

end

def nestedLists : Value := .list [.int 1, .set [.str "a"], .map [(.str "k", .list [.null])]]

/-- The same values with tuples for the lists and a frozen set for the set. -/
def nestedTuples : Value :=
  .tuple [.bool true, .frozenset [.str "a"], .map [(.str "k", .tuple [.null])]]

theorem fixed_equal_iff_normal_equal_nested :
    nestedLists.Composed ∧ nestedTuples.Composed ∧ nestedLists.fixed.equal nestedTuples.fixed ∧
      ∃ u w, nestedLists.normal = .ok u ∧ u.hashable ∧ nestedTuples.normal = .ok w ∧ w.hashable ∧
        (nestedLists.fixed.equal nestedTuples.fixed ↔
          u.equal w ∧ ¬ nestedLists.Clashes nestedTuples) := by
  have hmap {v : Value} (hv : v.items? = some [.null]) : (Value.map [(.str "k", v)]).Composed :=
    .mapping (List.pairwise_singleton _ _) (List.forall_mem_singleton.mpr rfl)
      (List.forall_mem_singleton.mpr (.scalar rfl))
      (List.forall_mem_singleton.mpr (.sequence hv (List.forall_mem_singleton.mpr (.scalar rfl))))
  have hset {s : Value} (hs : s.elements? = some [.str "a"]) : s.Composed :=
    .collection hs (List.forall_mem_singleton.mpr rfl)
      (List.forall_mem_singleton.mpr (.scalar rfl))
  have hlists : nestedLists.Composed := by
    refine .sequence rfl (List.forall_mem_cons.mpr ⟨.scalar rfl, List.forall_mem_cons.mpr ?_⟩)
    exact ⟨hset rfl, List.forall_mem_singleton.mpr (hmap rfl)⟩
  have htuples : nestedTuples.Composed := by
    refine .sequence rfl (List.forall_mem_cons.mpr ⟨.scalar rfl, List.forall_mem_cons.mpr ?_⟩)
    exact ⟨hset rfl, List.forall_mem_singleton.mpr (hmap rfl)⟩
  exact ⟨hlists, htuples, by decide +kernel, fixed_equal_iff_normal_equal hlists htuples⟩

def oneEntry : Value := .map [(.str "a", .int 1)]

def onePair : Value := .set [.tuple [.str "a", .int 1]]

/-- A mapping and the set of its entries cannot be told apart by their countable forms. -/
theorem normal_oneEntry_equal_normal_onePair :
    oneEntry.Composed ∧ onePair.Composed ∧
      (∃ u w, oneEntry.normal = .ok u ∧ onePair.normal = .ok w ∧ u.equal w) ∧
      ¬ oneEntry.fixed.equal onePair.fixed := by
  have hpair : ∀ x ∈ [Value.str "a", .int 1], x.Composed :=
    List.forall_mem_cons.mpr ⟨.scalar rfl, List.forall_mem_singleton.mpr (.scalar rfl)⟩
  refine ⟨?_, ?_, ⟨_, _, rfl, rfl, by decide +kernel⟩, by decide +kernel⟩
  · exact .mapping (List.pairwise_singleton _ _) (List.forall_mem_singleton.mpr rfl)
      (List.forall_mem_singleton.mpr (.scalar rfl)) (List.forall_mem_singleton.mpr (.scalar rfl))
  · exact .collection rfl (List.forall_mem_singleton.mpr rfl)
      (List.forall_mem_singleton.mpr (.sequence rfl hpair))

end Value

end EventDialects
