import EventDialects.Proofs.Value.Multiset

/-!
# Countable forms

The countable form of a value, in which lists have become tuples, sets frozen sets and mappings the
frozen sets of their entries, is the same for equal values.

* `normal_of_elements?`, `normal_map_eq_ok`, …: what the countable form of a container is.
* `normal_of_hashable`: what can be a key is its own countable form.
* `equal_of_normal`: **equal values have equal countable forms**.
-/

namespace EventDialects

open List (Forall₂)

namespace Value

/-! ### Countable forms -/

theorem normal_list_eq_ok {xs : List Value} {w : Value} :
    (Value.list xs).normal = .ok w ↔
      ∃ ys, w = .tuple ys ∧ Forall₂ (fun x y => x.normal = .ok y) xs ys := by
  simp only [normal, Attempt.bind_eq_ok, normalItems_eq_ok_iff, pure, Except.pure,
    Except.ok.injEq]
  exact exists_congr fun ys => ⟨fun h => ⟨h.2.symm, h.1⟩, fun h => ⟨h.2, h.1.symm⟩⟩

theorem normal_tuple_eq_ok {xs : List Value} {w : Value} :
    (Value.tuple xs).normal = .ok w ↔
      ∃ ys, w = .tuple ys ∧ Forall₂ (fun x y => x.normal = .ok y) xs ys := by
  rw [← normal_list_eq_ok]
  simp only [normal]

theorem normal_of_elements? {v : Value} {xs : List Value} (h : v.elements? = some xs) {w : Value} :
    v.normal = .ok w ↔
      ∃ ys, w = .frozenset ys ∧ Forall₂ (fun x y => x.normal = .ok y) xs ys := by
  cases v <;> simp only [elements?, Option.some.injEq, reduceCtorEq] at h
  all_goals
    subst h
    simp only [normal, Attempt.bind_eq_ok, normalItems_eq_ok_iff, pure, Except.pure,
      Except.ok.injEq]
    exact exists_congr fun ys => ⟨fun h => ⟨h.2.symm, h.1⟩, fun h => ⟨h.2, h.1.symm⟩⟩

/-- The countable form of an entry is the pair of its key and the countable form of its value. -/
def NormalEntry (e : Value × Value) (item : Value) : Prop :=
  ∃ w, e.2.normal = .ok w ∧ item = .tuple [e.1, w]

theorem normalEntries_eq_ok_iff {es : List (Value × Value)} : ∀ {items : List Value},
    normalEntries es = .ok items ↔ Forall₂ NormalEntry es items := by
  induction es with
  | nil => intro items; simp [normalEntries, eq_comm]
  | cons e es ih =>
    intro items
    obtain ⟨k, v⟩ := e
    simp only [normalEntries, normalEntry, Attempt.bind_eq_ok, ih, pure, Except.pure,
      Except.ok.injEq, List.forall₂_cons_left_iff, NormalEntry]
    constructor
    · rintro ⟨item, ⟨w, hw, rfl⟩, items, hitems, rfl⟩
      exact ⟨_, items, ⟨w, hw, rfl⟩, hitems, rfl⟩
    · rintro ⟨item, items, ⟨w, hw, rfl⟩, hitems, rfl⟩
      exact ⟨_, ⟨w, hw, rfl⟩, items, hitems, rfl⟩

theorem normal_map_eq_ok {es : List (Value × Value)} {w : Value} :
    (Value.map es).normal = .ok w ↔ ∃ items, w = .frozenset items ∧ Forall₂ NormalEntry es items ∧
      checkKeys items = .ok () := by
  simp only [normal, Attempt.bind_eq_ok, normalEntries_eq_ok_iff, pure, Except.pure,
    Except.ok.injEq]
  constructor
  · rintro ⟨items, hitems, _, hkeys, rfl⟩
    exact ⟨items, rfl, hitems, hkeys⟩
  · rintro ⟨items, rfl, hitems, hkeys⟩
    exact ⟨items, hitems, (), hkeys, rfl⟩

/-! ### Keys -/

theorem allHashable_iff {xs : List Value} : allHashable xs ↔ ∀ x ∈ xs, x.hashable := by
  induction xs with
  | nil => simp [allHashable]
  | cons x xs ih => rw [allHashable, Bool.and_eq_true, ih, List.forall_mem_cons]

theorem normal_of_hashable {v : Value} (h : v.hashable) : v.normal = .ok v := by
  have parts {xs : List Value} (ih : ∀ x ∈ xs, x.hashable → x.normal = .ok x)
      (h : allHashable xs) : Forall₂ (fun x y => x.normal = .ok y) xs xs :=
    List.forall₂_same.mpr fun x hx => ih x hx (allHashable_iff.mp h x hx)
  induction v with
  | tuple xs ih => exact normal_tuple_eq_ok.mpr ⟨xs, rfl, parts ih h⟩
  | frozenset xs ih => exact (normal_of_elements? rfl).mpr ⟨xs, rfl, parts ih h⟩
  | list | set | map => cases h
  | _ => rfl

theorem countable_of_hashable {v : Value} (h : v.hashable) : v.Countable :=
  ⟨v, normal_of_hashable h, h⟩

/-- The elements of a set can be keys, and so they are those of its countable form. -/
theorem normal_of_hashable_elements {v : Value} {xs : List Value} (hv : v.elements? = some xs)
    (h : ∀ x ∈ xs, x.hashable) : v.normal = .ok (.frozenset xs) :=
  (normal_of_elements? hv).mpr
    ⟨xs, rfl, List.forall₂_same.mpr fun x hx => normal_of_hashable (h x hx)⟩

theorem countable_of_hashable_elements {v : Value} {xs : List Value} (hv : v.elements? = some xs)
    (h : ∀ x ∈ xs, x.hashable) : v.Countable :=
  ⟨_, normal_of_hashable_elements hv h, allHashable_iff.mpr h⟩

theorem exists_forall₂_normal {vs : List Value} (h : ∀ v ∈ vs, v.Countable) :
    ∃ xs, Forall₂ (fun v x => v.normal = .ok x) vs xs ∧ allHashable xs := by
  obtain ⟨xs, hxs⟩ := exists_forall₂_of_forall h
  refine ⟨xs, hxs.imp fun _ _ hvx => hvx.1, allHashable_iff.mpr fun x hx => ?_⟩
  obtain ⟨v, -, -, hkey⟩ := exists_mem_of_forall₂ hxs.flip x hx
  exact hkey

theorem exists_normalItems {vs : List Value} (h : ∀ v ∈ vs, v.Countable) :
    ∃ xs, normalItems vs = .ok xs := by
  obtain ⟨xs, hxs, -⟩ := exists_forall₂_normal h
  exact ⟨xs, normalItems_eq_ok_iff.mpr hxs⟩

/-! ### Equal values -/

theorem forall₂_equal_of_normal {vs ws xs ys : List Value}
    (ih : ∀ v ∈ vs, ∀ w x y, v.equal w → v.normal = .ok x → w.normal = .ok y → x.equal y)
    (h : Forall₂ (fun v w => v.equal w) vs ws) (hx : Forall₂ (fun v x => v.normal = .ok x) vs xs)
    (hy : Forall₂ (fun w y => w.normal = .ok y) ws ys) :
    Forall₂ (fun x y => x.equal y) xs ys := by
  induction h generalizing xs ys with
  | nil =>
    cases hx
    cases hy
    exact .nil
  | @cons v w vs ws hvw _ ihs =>
    obtain ⟨ihv, ihvs⟩ := List.forall_mem_cons.mp ih
    cases hx with
    | cons hvx hxs =>
      cases hy with
      | cons hwy hys => exact .cons (ihv _ _ _ hvw hvx hwy) (ihs ihvs hxs hys)

/-- Two sets of countable forms are equal if every value of either set has an equal one in the
other. -/
theorem equal_frozenset_of_forall₂ {α β : Type} {P : α → Value → Prop} {Q : β → Value → Prop}
    {as : List α} {bs : List β} {xs ys : List Value} (hx : Forall₂ P as xs) (hy : Forall₂ Q bs ys)
    (hab : ∀ a ∈ as, ∃ b ∈ bs, ∀ x y, P a x → Q b y → x.equal y)
    (hba : ∀ b ∈ bs, ∃ a ∈ as, ∀ x y, P a x → Q b y → x.equal y) :
    (Value.frozenset xs).equal (.frozenset ys) := by
  refine (equal_iff_of_elements? rfl).mpr ⟨ys, rfl, fun x hxmem => ?_, fun y hymem => ?_⟩
  · obtain ⟨a, ha, hax⟩ := exists_mem_of_forall₂ hx.flip x hxmem
    obtain ⟨b, hb, hequal⟩ := hab a ha
    obtain ⟨y, hymem, hby⟩ := exists_mem_of_forall₂ hy b hb
    exact ⟨y, hymem, hequal x y hax hby⟩
  · obtain ⟨b, hb, hby⟩ := exists_mem_of_forall₂ hy.flip y hymem
    obtain ⟨a, ha, hequal⟩ := hba b hb
    obtain ⟨x, hxmem, hax⟩ := exists_mem_of_forall₂ hx a ha
    exact ⟨x, hxmem, hequal x y hax hby⟩

theorem normal_of_number? {v : Value} {a : Number} (h : v.number? = some a) : v.normal = .ok v := by
  cases v with
  | bool | int | float => rfl
  | _ => cases h

theorem equal_of_normal_of_number? {v w x y : Value} {a : Number} (hv : v.number? = some a)
    (h : v.equal w) (hx : v.normal = .ok x) (hy : w.normal = .ok y) : x.equal y := by
  obtain ⟨b, hw, -⟩ := (equal_iff_of_number? hv).mp h
  obtain rfl : v = x := Except.ok.inj ((normal_of_number? hv).symm.trans hx)
  obtain rfl : w = y := Except.ok.inj ((normal_of_number? hw).symm.trans hy)
  exact h

theorem equal_of_normal_of_elements? {v w x y : Value} {vs : List Value}
    (hv : v.elements? = some vs)
    (ih : ∀ a ∈ vs, ∀ b x y, a.equal b → a.normal = .ok x → b.normal = .ok y → x.equal y)
    (h : v.equal w) (hx : v.normal = .ok x) (hy : w.normal = .ok y) : x.equal y := by
  obtain ⟨ws, hw, hvs, hws⟩ := (equal_iff_of_elements? hv).mp h
  obtain ⟨xs, rfl, hxs⟩ := (normal_of_elements? hv).mp hx
  obtain ⟨ys, rfl, hys⟩ := (normal_of_elements? hw).mp hy
  refine equal_frozenset_of_forall₂ hxs hys (fun a ha => ?_) (fun b hb => ?_)
  · obtain ⟨b, hb, hab⟩ := hvs a ha
    exact ⟨b, hb, fun x y => ih a ha b x y hab⟩
  · obtain ⟨a, ha, hab⟩ := hws b hb
    exact ⟨a, ha, fun x y => ih a ha b x y hab⟩

theorem equal_of_normalEntry {e f : Value × Value} {x y : Value}
    (ih : ∀ w x y, e.2.equal w → e.2.normal = .ok x → w.normal = .ok y → x.equal y)
    (hk : e.1.equal f.1) (hv : e.2.equal f.2) (hx : NormalEntry e x) (hy : NormalEntry f y) :
    x.equal y := by
  obtain ⟨w, hw, rfl⟩ := hx
  obtain ⟨w', hw', rfl⟩ := hy
  exact equal_tuple_iff.mpr ⟨_, rfl, .cons hk (.cons (ih f.2 w w' hv hw hw') .nil)⟩

/-- **Equal values have equal countable forms.** -/
theorem equal_of_normal {v w x y : Value} (h : v.equal w) (hx : v.normal = .ok x)
    (hy : w.normal = .ok y) : x.equal y := by
  induction v generalizing w x y with
  | null =>
    obtain rfl := equal_null_iff.mp h
    cases hx
    cases hy
    exact h
  | bool b => exact equal_of_normal_of_number? rfl h hx hy
  | int n => exact equal_of_normal_of_number? rfl h hx hy
  | float x => exact equal_of_normal_of_number? rfl h hx hy
  | str s =>
    rw [equal_str_iff] at h
    subst h
    cases hx
    cases hy
    exact equal_str_iff.mpr rfl
  | list vs ih =>
    obtain ⟨ws, rfl, hvs⟩ := equal_list_iff.mp h
    obtain ⟨xs, rfl, hxs⟩ := normal_list_eq_ok.mp hx
    obtain ⟨ys, rfl, hys⟩ := normal_list_eq_ok.mp hy
    exact equal_tuple_iff.mpr ⟨ys, rfl,
      forall₂_equal_of_normal (fun a ha _ _ _ => ih a ha) hvs hxs hys⟩
  | tuple vs ih =>
    obtain ⟨ws, rfl, hvs⟩ := equal_tuple_iff.mp h
    obtain ⟨xs, rfl, hxs⟩ := normal_tuple_eq_ok.mp hx
    obtain ⟨ys, rfl, hys⟩ := normal_tuple_eq_ok.mp hy
    exact equal_tuple_iff.mpr ⟨ys, rfl,
      forall₂_equal_of_normal (fun a ha _ _ _ => ih a ha) hvs hxs hys⟩
  | set vs ih => exact equal_of_normal_of_elements? rfl (fun a ha _ _ _ => ih a ha) h hx hy
  | frozenset vs ih => exact equal_of_normal_of_elements? rfl (fun a ha _ _ _ => ih a ha) h hx hy
  | map es ih =>
    obtain ⟨fs, rfl, hes, hfs⟩ := equal_map_iff.mp h
    obtain ⟨xs, rfl, hxs, -⟩ := normal_map_eq_ok.mp hx
    obtain ⟨ys, rfl, hys, -⟩ := normal_map_eq_ok.mp hy
    refine equal_frozenset_of_forall₂ hxs hys (fun e he => ?_) (fun f hf => ?_)
    · obtain ⟨f, hf, hk, hv⟩ := hes e he
      exact ⟨f, hf, fun x y => equal_of_normalEntry (fun _ _ _ => (ih e he).2) hk hv⟩
    · obtain ⟨e, he, hk, hv⟩ := hfs f hf
      exact ⟨e, he, fun x y => equal_of_normalEntry (fun _ _ _ => (ih e he).2) hk hv⟩
  | ref kind offset =>
    obtain ⟨offset', rfl, -⟩ := equal_ref_iff.mp h
    cases hx
    cases hy
    exact h
  | variant family raw =>
    obtain rfl := equal_variant_iff.mp h
    cases hx
    cases hy
    exact h
  | revision r =>
    obtain rfl := equal_revision_iff.mp h
    cases hx
    cases hy
    exact h

end Value

end EventDialects
