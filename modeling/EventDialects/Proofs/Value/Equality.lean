import EventDialects.Proofs.List
import EventDialects.Value.Equal

/-!
# Equality of values is an equivalence

`Value.equal` decides when two values count as one: it is how keys are found, names matched and
arguments compared.  It is not the equality of Lean, since a boolean equals a number and a set
equals a frozen set.  This file shows that it is reflexive, symmetric and transitive on all values.

* `Value.ind`: the induction principle of values, with the parts of a container as hypotheses.
* `equalAll_iff`, `allWithin_iff`, …: what the list functions behind `equal` say, by quantifiers.
* `equal_self`, `equal_symm`, `equal_trans`: **equality is an equivalence**.
* `equal_congr_left`, `equal_congr_right`: equal values are equal to the same values.
-/

namespace EventDialects

open List (Forall₂)

namespace Number

@[simp] theorem equal_self (a : Number) : a.equal a := by cases a <;> simp [equal]

theorem equal_symm {a b : Number} (h : a.equal b) : b.equal a := by
  cases a <;> cases b <;> simp_all [equal]

theorem eq_of_equal {a b : Number} (h : a.equal b) : a = b := by
  cases a <;> cases b <;> simp_all [equal]

theorem equal_trans {a b c : Number} (hab : a.equal b) (hbc : b.equal c) : a.equal c := by
  cases a <;> cases b <;> cases c <;> simp_all [equal]

end Number

namespace Value

/-- **Induction on values**: what holds of a container whenever it holds of its parts, and of every
value without parts, holds of all values. -/
@[induction_eliminator]
theorem ind {motive : Value → Prop}
    (null : motive .null) (bool : ∀ b, motive (.bool b)) (int : ∀ n, motive (.int n))
    (float : ∀ x, motive (.float x)) (str : ∀ s, motive (.str s))
    (list : ∀ xs, (∀ x ∈ xs, motive x) → motive (.list xs))
    (tuple : ∀ xs, (∀ x ∈ xs, motive x) → motive (.tuple xs))
    (set : ∀ xs, (∀ x ∈ xs, motive x) → motive (.set xs))
    (frozenset : ∀ xs, (∀ x ∈ xs, motive x) → motive (.frozenset xs))
    (map : ∀ es, (∀ e ∈ es, motive e.1 ∧ motive e.2) → motive (.map es))
    (ref : ∀ kind offset, motive offset → motive (.ref kind offset))
    (variant : ∀ family raw, motive (.variant family raw))
    (revision : ∀ r, motive (.revision r)) (x : Value) : motive x :=
  @Value.rec motive (fun xs => ∀ x ∈ xs, motive x) (fun es => ∀ e ∈ es, motive e.1 ∧ motive e.2)
    (fun e => motive e.1 ∧ motive e.2)
    null bool int float str list tuple set frozenset map ref variant revision
    (fun _ h => nomatch h)
    (fun _ _ ihx ihxs => List.forall_mem_cons.mpr ⟨ihx, ihxs⟩)
    (fun _ h => nomatch h)
    (fun _ _ ihe ihes => List.forall_mem_cons.mpr ⟨ihe, ihes⟩)
    (fun _ _ ihk ihv => ⟨ihk, ihv⟩)
    x

/-! ### What the list functions say -/

theorem equalAll_iff : ∀ {xs ys : List Value},
    equalAll xs ys ↔ Forall₂ (fun x y => x.equal y) xs ys := by
  intro xs
  induction xs with
  | nil => intro ys; cases ys <;> simp [equalAll]
  | cons x xs ih => intro ys; cases ys <;> simp [equalAll, ih]

theorem allWithin_iff {xs ys : List Value} :
    allWithin xs ys ↔ ∀ x ∈ xs, ∃ y ∈ ys, x.equal y := by
  induction xs with
  | nil => simp [allWithin]
  | cons x xs ih => simp [allWithin, ih]

theorem someEqual_iff {xs : List Value} {y : Value} :
    someEqual xs y ↔ ∃ x ∈ xs, x.equal y := by
  induction xs with
  | nil => simp [someEqual]
  | cons x xs ih => simp [someEqual, ih]

theorem equalEntry_iff {e f : Value × Value} :
    equalEntry e f ↔ e.1.equal f.1 ∧ e.2.equal f.2 := by
  rw [equalEntry, Bool.and_eq_true]

theorem entriesWithin_iff {es fs : List (Value × Value)} :
    entriesWithin es fs ↔ ∀ e ∈ es, ∃ f ∈ fs, e.1.equal f.1 ∧ e.2.equal f.2 := by
  induction es with
  | nil => simp [entriesWithin]
  | cons e es ih => simp [entriesWithin, equalEntry_iff, ih]

theorem someEqualEntry_iff {es : List (Value × Value)} {f : Value × Value} :
    someEqualEntry es f ↔ ∃ e ∈ es, e.1.equal f.1 ∧ e.2.equal f.2 := by
  induction es with
  | nil => simp [someEqualEntry]
  | cons e es ih => simp [someEqualEntry, equalEntry_iff, ih]

/-! ### Equality by the sort of value

Numbers of all types are compared alike, and so are sets of both sorts; every other value is equal
to values built by its own constructor alone. -/

theorem equal_iff_of_number? {x : Value} {a : Number} (h : x.number? = some a) {y : Value} :
    x.equal y ↔ ∃ b, y.number? = some b ∧ a.equal b := by
  cases x <;> simp only [number?, Option.some.injEq, reduceCtorEq] at h
  all_goals subst h; simp [equal, isNumber, Option.any_eq_true]

theorem number?_of_integer? {v : Value} {n : Int} (h : v.integer? = some n) :
    v.number? = some (.ofInt n) := by
  cases v <;> cases h <;> rfl

theorem equal_iff_of_elements? {x : Value} {xs : List Value} (h : x.elements? = some xs)
    {y : Value} : x.equal y ↔ ∃ ys, y.elements? = some ys ∧
      (∀ a ∈ xs, ∃ b ∈ ys, a.equal b) ∧ ∀ b ∈ ys, ∃ a ∈ xs, a.equal b := by
  cases x <;> simp only [elements?, Option.some.injEq, reduceCtorEq] at h
  all_goals
    subst h
    rw [equal]
    split <;> simp_all [allWithin_iff, someEqual_iff]

theorem equal_list_iff {xs : List Value} {y : Value} :
    (Value.list xs).equal y ↔ ∃ ys, y = .list ys ∧ Forall₂ (fun a b => a.equal b) xs ys := by
  cases y <;> simp [equal, equalAll_iff]

theorem equal_tuple_iff {xs : List Value} {y : Value} :
    (Value.tuple xs).equal y ↔ ∃ ys, y = .tuple ys ∧ Forall₂ (fun a b => a.equal b) xs ys := by
  cases y <;> simp [equal, equalAll_iff]

theorem equal_map_iff {es : List (Value × Value)} {y : Value} :
    (Value.map es).equal y ↔ ∃ fs, y = .map fs ∧
      (∀ e ∈ es, ∃ f ∈ fs, e.1.equal f.1 ∧ e.2.equal f.2) ∧
      ∀ f ∈ fs, ∃ e ∈ es, e.1.equal f.1 ∧ e.2.equal f.2 := by
  cases y <;> simp [equal, entriesWithin_iff, someEqualEntry_iff]

theorem equal_ref_iff {kind : RefKind} {offset y : Value} :
    (Value.ref kind offset).equal y ↔ ∃ offset', y = .ref kind offset' ∧ offset.equal offset' := by
  cases y with
  | ref kind' offset' =>
    rw [equal, Bool.and_eq_true, beq_iff_eq]
    constructor
    · rintro ⟨rfl, h⟩; exact ⟨offset', rfl, h⟩
    · rintro ⟨_, he, h⟩; cases he; exact ⟨rfl, h⟩
  | _ => simp [equal]

theorem equal_variant_iff {family : Family} {raw : Int} {y : Value} :
    (Value.variant family raw).equal y ↔ y = .variant family raw := by
  cases y with
  | variant family' raw' =>
    rw [equal, Bool.and_eq_true, beq_iff_eq, beq_iff_eq]
    constructor
    · rintro ⟨rfl, rfl⟩; rfl
    · intro he; cases he; exact ⟨rfl, rfl⟩
  | _ => simp [equal]

theorem equal_revision_iff {r : Revision} {y : Value} :
    (Value.revision r).equal y ↔ y = .revision r := by
  cases y with
  | revision r' =>
    rw [equal, beq_iff_eq]
    constructor
    · rintro rfl; rfl
    · intro he; cases he; rfl
  | _ => simp [equal]

theorem equal_null_iff {y : Value} : Value.null.equal y ↔ y = .null := by
  cases y <;> simp [equal]

/-! ### Reflexivity -/

/-- **A value is equal to itself.** -/
@[simp] theorem equal_self (x : Value) : x.equal x := by
  have items {xs : List Value} (ih : ∀ a ∈ xs, a.equal a) :
      (∀ a ∈ xs, ∃ b ∈ xs, a.equal b) ∧ ∀ b ∈ xs, ∃ a ∈ xs, a.equal b :=
    ⟨fun a ha => ⟨a, ha, ih a ha⟩, fun b hb => ⟨b, hb, ih b hb⟩⟩
  induction x with
  | null => exact equal_null_iff.mpr rfl
  | bool b => exact (equal_iff_of_number? rfl).mpr ⟨_, rfl, Number.equal_self _⟩
  | int n => exact (equal_iff_of_number? rfl).mpr ⟨_, rfl, Number.equal_self _⟩
  | float x => exact (equal_iff_of_number? rfl).mpr ⟨_, rfl, Number.equal_self _⟩
  | str s => exact equal_str_iff.mpr rfl
  | list xs ih => exact equal_list_iff.mpr ⟨xs, rfl, List.forall₂_same.mpr ih⟩
  | tuple xs ih => exact equal_tuple_iff.mpr ⟨xs, rfl, List.forall₂_same.mpr ih⟩
  | set xs ih => exact (equal_iff_of_elements? rfl).mpr ⟨xs, rfl, items ih⟩
  | frozenset xs ih => exact (equal_iff_of_elements? rfl).mpr ⟨xs, rfl, items ih⟩
  | map es ih =>
    exact equal_map_iff.mpr ⟨es, rfl, fun e he => ⟨e, he, ih e he⟩, fun e he => ⟨e, he, ih e he⟩⟩
  | ref kind offset ih => exact equal_ref_iff.mpr ⟨offset, rfl, ih⟩
  | variant family raw => exact equal_variant_iff.mpr rfl
  | revision r => exact equal_revision_iff.mpr rfl

@[simp] theorem equalAll_self (xs : List Value) : equalAll xs xs :=
  equalAll_iff.mpr (List.forall₂_same.mpr fun x _ => equal_self x)

/-! ### Symmetry -/

theorem equal_symm_of_number? {x y : Value} {a : Number} (h : x.number? = some a)
    (hxy : x.equal y) : y.equal x := by
  obtain ⟨b, hb, hab⟩ := (equal_iff_of_number? h).mp hxy
  exact (equal_iff_of_number? hb).mpr ⟨a, h, Number.equal_symm hab⟩

theorem equal_symm_of_elements? {x y : Value} {xs : List Value} (h : x.elements? = some xs)
    (ih : ∀ a ∈ xs, ∀ b, a.equal b → b.equal a) (hxy : x.equal y) : y.equal x := by
  obtain ⟨ys, hy, hxs, hys⟩ := (equal_iff_of_elements? h).mp hxy
  refine (equal_iff_of_elements? hy).mpr ⟨xs, h, fun b hb => ?_, fun a ha => ?_⟩
  · obtain ⟨a, ha, hab⟩ := hys b hb
    exact ⟨a, ha, ih a ha b hab⟩
  · obtain ⟨b, hb, hab⟩ := hxs a ha
    exact ⟨b, hb, ih a ha b hab⟩

theorem forall₂_equal_symm {xs ys : List Value} (ih : ∀ a ∈ xs, ∀ b, a.equal b → b.equal a)
    (h : Forall₂ (fun a b => a.equal b) xs ys) : Forall₂ (fun a b => a.equal b) ys xs := by
  induction h with
  | nil => exact .nil
  | @cons a b xs ys hab _ ihs =>
    obtain ⟨iha, ihxs⟩ := List.forall_mem_cons.mp ih
    exact .cons (iha b hab) (ihs ihxs)

/-- **Equality is symmetric.** -/
theorem equal_symm {x y : Value} (h : x.equal y) : y.equal x := by
  induction x generalizing y with
  | null => rw [equal_null_iff] at h; rw [h]; rfl
  | bool b => exact equal_symm_of_number? rfl h
  | int n => exact equal_symm_of_number? rfl h
  | float x => exact equal_symm_of_number? rfl h
  | str s => rw [equal_str_iff] at h; rw [h, equal_str_iff]
  | list xs ih =>
    obtain ⟨ys, rfl, hxs⟩ := equal_list_iff.mp h
    exact equal_list_iff.mpr ⟨xs, rfl, forall₂_equal_symm (fun a ha _ => ih a ha) hxs⟩
  | tuple xs ih =>
    obtain ⟨ys, rfl, hxs⟩ := equal_tuple_iff.mp h
    exact equal_tuple_iff.mpr ⟨xs, rfl, forall₂_equal_symm (fun a ha _ => ih a ha) hxs⟩
  | set xs ih => exact equal_symm_of_elements? rfl (fun a ha _ => ih a ha) h
  | frozenset xs ih => exact equal_symm_of_elements? rfl (fun a ha _ => ih a ha) h
  | map es ih =>
    obtain ⟨fs, rfl, hes, hfs⟩ := equal_map_iff.mp h
    refine equal_map_iff.mpr ⟨es, rfl, fun f hf => ?_, fun e he => ?_⟩
    · obtain ⟨e, he, hk, hv⟩ := hfs f hf
      exact ⟨e, he, (ih e he).1 hk, (ih e he).2 hv⟩
    · obtain ⟨f, hf, hk, hv⟩ := hes e he
      exact ⟨f, hf, (ih e he).1 hk, (ih e he).2 hv⟩
  | ref kind offset ih =>
    obtain ⟨offset', rfl, ho⟩ := equal_ref_iff.mp h
    exact equal_ref_iff.mpr ⟨offset, rfl, ih ho⟩
  | variant family raw => rw [equal_variant_iff] at h; rw [h, equal_variant_iff]
  | revision r => rw [equal_revision_iff] at h; rw [h, equal_revision_iff]

theorem equalAll_symm {xs ys : List Value} (h : equalAll xs ys) : equalAll ys xs :=
  equalAll_iff.mpr (forall₂_equal_symm (fun _ _ _ => equal_symm) (equalAll_iff.mp h))

/-! ### Transitivity -/

theorem equal_trans_of_number? {x y z : Value} {a : Number} (h : x.number? = some a)
    (hxy : x.equal y) (hyz : y.equal z) : x.equal z := by
  obtain ⟨b, hb, hab⟩ := (equal_iff_of_number? h).mp hxy
  obtain ⟨c, hc, hbc⟩ := (equal_iff_of_number? hb).mp hyz
  exact (equal_iff_of_number? h).mpr ⟨c, hc, Number.equal_trans hab hbc⟩

theorem equal_trans_of_elements? {x y z : Value} {xs : List Value} (h : x.elements? = some xs)
    (ih : ∀ a ∈ xs, ∀ b c, a.equal b → b.equal c → a.equal c)
    (hxy : x.equal y) (hyz : y.equal z) : x.equal z := by
  obtain ⟨ys, hy, hxs, hys⟩ := (equal_iff_of_elements? h).mp hxy
  obtain ⟨zs, hz, hys', hzs⟩ := (equal_iff_of_elements? hy).mp hyz
  refine (equal_iff_of_elements? h).mpr ⟨zs, hz, fun a ha => ?_, fun c hc => ?_⟩
  · obtain ⟨b, hb, hab⟩ := hxs a ha
    obtain ⟨c, hc, hbc⟩ := hys' b hb
    exact ⟨c, hc, ih a ha b c hab hbc⟩
  · obtain ⟨b, hb, hbc⟩ := hzs c hc
    obtain ⟨a, ha, hab⟩ := hys b hb
    exact ⟨a, ha, ih a ha b c hab hbc⟩

theorem forall₂_equal_trans {xs ys zs : List Value}
    (ih : ∀ a ∈ xs, ∀ b c, a.equal b → b.equal c → a.equal c)
    (hxy : Forall₂ (fun a b => a.equal b) xs ys) (hyz : Forall₂ (fun a b => a.equal b) ys zs) :
    Forall₂ (fun a b => a.equal b) xs zs := by
  induction hxy generalizing zs with
  | nil => exact hyz
  | @cons a b xs ys hab _ ihs =>
    obtain ⟨iha, ihxs⟩ := List.forall_mem_cons.mp ih
    cases hyz with
    | @cons _ c _ zs hbc hyz => exact .cons (iha b c hab hbc) (ihs ihxs hyz)

/-- **Equality is transitive.** -/
theorem equal_trans {x y z : Value} (hxy : x.equal y) (hyz : y.equal z) : x.equal z := by
  induction x generalizing y z with
  | null => rw [equal_null_iff] at hxy; rwa [hxy] at hyz
  | bool b => exact equal_trans_of_number? rfl hxy hyz
  | int n => exact equal_trans_of_number? rfl hxy hyz
  | float x => exact equal_trans_of_number? rfl hxy hyz
  | str s => rw [equal_str_iff] at hxy; rwa [hxy] at hyz
  | list xs ih =>
    obtain ⟨ys, rfl, hxs⟩ := equal_list_iff.mp hxy
    obtain ⟨zs, rfl, hys⟩ := equal_list_iff.mp hyz
    exact equal_list_iff.mpr ⟨zs, rfl, forall₂_equal_trans (fun a ha _ _ => ih a ha) hxs hys⟩
  | tuple xs ih =>
    obtain ⟨ys, rfl, hxs⟩ := equal_tuple_iff.mp hxy
    obtain ⟨zs, rfl, hys⟩ := equal_tuple_iff.mp hyz
    exact equal_tuple_iff.mpr ⟨zs, rfl, forall₂_equal_trans (fun a ha _ _ => ih a ha) hxs hys⟩
  | set xs ih => exact equal_trans_of_elements? rfl (fun a ha _ _ => ih a ha) hxy hyz
  | frozenset xs ih => exact equal_trans_of_elements? rfl (fun a ha _ _ => ih a ha) hxy hyz
  | map es ih =>
    obtain ⟨fs, rfl, hes, hfs⟩ := equal_map_iff.mp hxy
    obtain ⟨gs, rfl, hfs', hgs⟩ := equal_map_iff.mp hyz
    refine equal_map_iff.mpr ⟨gs, rfl, fun e he => ?_, fun g hg => ?_⟩
    · obtain ⟨f, hf, hk, hv⟩ := hes e he
      obtain ⟨g, hg, hk', hv'⟩ := hfs' f hf
      exact ⟨g, hg, (ih e he).1 hk hk', (ih e he).2 hv hv'⟩
    · obtain ⟨f, hf, hk', hv'⟩ := hgs g hg
      obtain ⟨e, he, hk, hv⟩ := hfs f hf
      exact ⟨e, he, (ih e he).1 hk hk', (ih e he).2 hv hv'⟩
  | ref kind offset ih =>
    obtain ⟨offset', rfl, ho⟩ := equal_ref_iff.mp hxy
    obtain ⟨offset'', rfl, ho'⟩ := equal_ref_iff.mp hyz
    exact equal_ref_iff.mpr ⟨offset'', rfl, ih ho ho'⟩
  | variant family raw => rw [equal_variant_iff] at hxy; rwa [hxy] at hyz
  | revision r => rw [equal_revision_iff] at hxy; rwa [hxy] at hyz

theorem equal_congr_left {x y : Value} (h : x.equal y) (z : Value) : x.equal z = y.equal z :=
  Bool.eq_iff_iff.mpr ⟨equal_trans (equal_symm h), equal_trans h⟩

theorem equal_congr_right {x y : Value} (h : x.equal y) (z : Value) : z.equal x = z.equal y :=
  Bool.eq_iff_iff.mpr ⟨fun hz => equal_trans hz h, fun hz => equal_trans hz (equal_symm h)⟩

/-! ### Direct comparison -/

theorem comparesEqual_iff {x y : Value} : x.comparesEqual y ↔ x.equal y ∧ x.isNaN = false := by
  simp [comparesEqual]

theorem isNaN_iff {x : Value} : x.isNaN ↔ x.number? = some .nan := by
  rw [isNaN, beq_iff_eq]

theorem isNaN_congr {x y : Value} (h : x.equal y) : x.isNaN = y.isNaN := by
  have forward {x y : Value} (h : x.equal y) (hx : x.isNaN) : y.isNaN := by
    obtain ⟨b, hb, he⟩ := (equal_iff_of_number? (isNaN_iff.mp hx)).mp h
    exact isNaN_iff.mpr (Number.eq_of_equal he ▸ hb)
  exact Bool.eq_iff_iff.mpr ⟨forward h, forward (equal_symm h)⟩

theorem comparesEqual_symm {x y : Value} (h : x.comparesEqual y) : y.comparesEqual x := by
  obtain ⟨he, hx⟩ := comparesEqual_iff.mp h
  exact comparesEqual_iff.mpr ⟨equal_symm he, isNaN_congr he ▸ hx⟩

theorem comparesEqual_trans {x y z : Value} (hxy : x.comparesEqual y) (hyz : y.comparesEqual z) :
    x.comparesEqual z := by
  obtain ⟨he, hx⟩ := comparesEqual_iff.mp hxy
  exact comparesEqual_iff.mpr ⟨equal_trans he (comparesEqual_iff.mp hyz).1, hx⟩

end Value

end EventDialects
