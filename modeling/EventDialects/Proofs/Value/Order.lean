import EventDialects.Proofs.Value.Equality
import EventDialects.Value.Order
import Mathlib.Data.String.Basic

/-!
# Sorting values

`Value.sort` puts one value after the other in its place, and fails if two values have no order.
Whatever the order is, a sorted list has the values of the list it was made of.  Two lists that are
equal once sorted therefore hold the same values up to equality, and this is how the slots of two
schemas are compared.

* `sortOn_perm`: **sorting permutes**.
* `sortOn_eq_error`: **sorting fails only over two values without an order**.
* `before_congr`: **the order respects equality**: equal values come before equal values.
* `SameSorted.exists_equal`: of two lists that are equal once sorted, each value of the one has an
  equal one in the other; `SameSorted.pairwise_not_equal`: and it has no more of them.
* `SameSorted.of_equalAll`: lists that are equal in order are equal once sorted, if they can be
  sorted at all.
* `exists_sortOn`: **items whose keys compare like the elements of a linear order can be sorted**,
  and texts are such (`exists_sorted_texts`).
* `SameSorted.of_perm`: the same texts in another order are the same once sorted.
-/

namespace EventDialects

open List (Forall₂)

namespace Value

theorem perm_of_placeOn {α : Type} {key : α → Value} {x : α} {xs : List α} :
    ∀ {ys : List α}, placeOn key x xs = .ok ys → ys.Perm (x :: xs) := by
  induction xs with
  | nil =>
    intro ys h
    cases h
    exact .refl _
  | cons y xs ih =>
    intro zs h
    rw [placeOn, Attempt.bind_eq_ok] at h
    obtain ⟨first, -, h⟩ := h
    cases first with
    | true => cases h; exact .refl _
    | false =>
      obtain ⟨ys, hys, h⟩ := Attempt.bind_eq_ok.mp h
      cases h
      exact ((ih hys).cons y).trans (.swap x y xs)

theorem perm_of_foldlM_placeOn {α : Type} {key : α → Value} {xs : List α} :
    ∀ {sorted ys : List α}, xs.foldlM (fun sorted x => placeOn key x sorted) sorted = .ok ys →
      ys.Perm (xs ++ sorted) := by
  induction xs with
  | nil =>
    intro sorted ys h
    cases h
    exact .refl _
  | cons x xs ih =>
    intro sorted ys h
    rw [List.foldlM_cons, Attempt.bind_eq_ok] at h
    obtain ⟨sorted', hplace, h⟩ := h
    have hmoved : (xs ++ sorted').Perm (xs ++ x :: sorted) :=
      (perm_of_placeOn hplace).append_left xs
    exact ((ih h).trans hmoved).trans List.perm_middle

/-- **Sorting permutes**: a sorted list has the items of the list that it was made of. -/
theorem sortOn_perm {α : Type} {key : α → Value} {xs ys : List α} (h : sortOn key xs = .ok ys) :
    ys.Perm xs := by
  have hperm := perm_of_foldlM_placeOn h
  rwa [List.append_nil] at hperm

/-- Two lists are equal once they are sorted. -/
def SameSorted (xs ys : List Value) : Prop :=
  ∃ as bs, sort xs = .ok as ∧ sort ys = .ok bs ∧ equalAll as bs

namespace SameSorted

theorem symm {xs ys : List Value} (h : SameSorted xs ys) : SameSorted ys xs := by
  obtain ⟨as, bs, has, hbs, he⟩ := h
  exact ⟨bs, as, hbs, has, equalAll_symm he⟩

theorem exists_equal {xs ys : List Value} (h : SameSorted xs ys) :
    ∀ x ∈ xs, ∃ y ∈ ys, x.equal y := by
  obtain ⟨as, bs, has, hbs, he⟩ := h
  intro x hx
  obtain ⟨y, hy, hxy⟩ :=
    exists_mem_of_forall₂ (equalAll_iff.mp he) x ((sortOn_perm has).mem_iff.mpr hx)
  exact ⟨y, (sortOn_perm hbs).mem_iff.mp hy, hxy⟩

end SameSorted

/-! ### Values without an order -/

/-- The failure of comparing two values that have no order. -/
def IsUnordered (e : Failure) : Prop := ∃ left right, e = .misuse (.unordered left right)

theorem numberBefore_eq_error {a : Number} {x y : Value} {e : Failure}
    (h : numberBefore a x y = .error e) : IsUnordered e := by
  rw [numberBefore] at h
  split at h <;> cases h
  exact ⟨_, _, rfl⟩

theorem properlyWithin_eq_error {xs : List Value} {x y : Value} {e : Failure}
    (h : properlyWithin xs x y = .error e) : IsUnordered e := by
  rw [properlyWithin] at h
  split at h <;> cases h
  exact ⟨_, _, rfl⟩

theorem beforeAll_eq_error {xs : List Value} {e : Failure}
    (ih : ∀ x ∈ xs, ∀ y : Value, before x y = .error e → IsUnordered e) :
    ∀ {ys : List Value}, beforeAll xs ys = .error e → IsUnordered e := by
  induction xs with
  | nil => intro ys h; cases h
  | cons x xs ihs =>
    intro ys h
    obtain ⟨ihx, ihxs⟩ := List.forall_mem_cons.mp ih
    cases ys with
    | nil => cases h
    | cons y ys =>
      rw [beforeAll] at h
      split at h
      · exact ihs ihxs h
      · exact ihx y h

theorem before_eq_error {x : Value} {e : Failure} : ∀ {y : Value},
    before x y = .error e → IsUnordered e := by
  induction x with
  | null | map _ | ref _ _ | variant _ _ => intro y h; cases h; exact ⟨_, _, rfl⟩
  | bool _ | int _ | float _ => intro y h; exact numberBefore_eq_error h
  | set _ | frozenset _ => intro y h; exact properlyWithin_eq_error h
  | str _ | revision _ => intro y h; cases y <;> cases h <;> exact ⟨_, _, rfl⟩
  | list xs ih =>
    intro y h
    cases y with
    | list ys =>
      rw [before] at h
      exact beforeAll_eq_error (fun x hx _ => ih x hx) h
    | _ => cases h; exact ⟨_, _, rfl⟩
  | tuple xs ih =>
    intro y h
    cases y with
    | tuple ys =>
      rw [before] at h
      exact beforeAll_eq_error (fun x hx _ => ih x hx) h
    | _ => cases h; exact ⟨_, _, rfl⟩

theorem placeOn_eq_error {α : Type} {key : α → Value} {x : α} {xs : List α} {e : Failure}
    (h : placeOn key x xs = .error e) : IsUnordered e := by
  induction xs with
  | nil => cases h
  | cons y xs ih =>
    rw [placeOn] at h
    rcases Attempt.bind_eq_error.mp h with h | ⟨first, -, h⟩
    · exact before_eq_error h
    · cases first with
      | true => cases h
      | false =>
        rcases Attempt.bind_eq_error.mp h with h | ⟨_, -, h⟩
        · exact ih h
        · cases h

/-- **Sorting fails only over two values without an order.** -/
theorem sortOn_eq_error {α : Type} {key : α → Value} {xs : List α} {e : Failure}
    (h : sortOn key xs = .error e) : IsUnordered e := by
  suffices hfold : ∀ sorted : List α,
      xs.foldlM (fun sorted x => placeOn key x sorted) sorted = .error e → IsUnordered e from
    hfold [] h
  clear h
  induction xs with
  | nil => intro sorted h; cases h
  | cons x xs ih =>
    intro sorted h
    rw [List.foldlM_cons] at h
    rcases Attempt.bind_eq_error.mp h with h | ⟨sorted', -, h⟩
    · exact placeOn_eq_error h
    · exact ih sorted' h

/-! ### The order respects equality -/

theorem before_of_number? {x y : Value} {a : Number} (h : x.number? = some a) {first : Bool} :
    before x y = .ok first ↔ ∃ b, y.number? = some b ∧ first = a.less b := by
  have hrule : before x y = numberBefore a x y := by
    cases x <;> simp only [number?, Option.some.injEq, reduceCtorEq] at h <;> subst h <;>
      rw [before]
  rw [hrule, numberBefore]
  cases y.number? with
  | none => simp [unordered, misused]
  | some b => simp [eq_comm]

theorem before_of_elements? {x y : Value} {xs : List Value} (h : x.elements? = some xs)
    {first : Bool} : before x y = .ok first ↔
      ∃ ys, y.elements? = some ys ∧ first = (allWithin xs ys && !allWithin ys xs) := by
  have hrule : before x y = properlyWithin xs x y := by
    cases x <;> simp only [elements?, Option.some.injEq, reduceCtorEq] at h <;> subst h <;>
      rw [before]
  rw [hrule, properlyWithin]
  cases y.elements? with
  | none => simp [unordered, misused]
  | some ys => simp [eq_comm]

theorem before_congr_of_number? {x x' y y' : Value} {a : Number} (h : x.number? = some a)
    (hx : x.equal x') (hy : y.equal y') {first : Bool} (hb : before x y = .ok first) :
    before x' y' = .ok first := by
  obtain ⟨a', ha', haa⟩ := (equal_iff_of_number? h).mp hx
  obtain ⟨b, hyb, rfl⟩ := (before_of_number? h).mp hb
  obtain ⟨b', hyb', hbb⟩ := (equal_iff_of_number? hyb).mp hy
  rw [Number.eq_of_equal haa, Number.eq_of_equal hbb]
  exact (before_of_number? ha').mpr ⟨b', hyb', rfl⟩

theorem allWithin_trans {xs ys zs : List Value} (hxy : allWithin xs ys) (hyz : allWithin ys zs) :
    allWithin xs zs := by
  rw [allWithin_iff] at hxy hyz ⊢
  intro x hx
  obtain ⟨y, hy, hxy⟩ := hxy x hx
  obtain ⟨z, hz, hyz⟩ := hyz y hy
  exact ⟨z, hz, equal_trans hxy hyz⟩

theorem exists_within_of_equal {x y : Value} {xs : List Value} (h : x.elements? = some xs)
    (hxy : x.equal y) : ∃ ys, y.elements? = some ys ∧ allWithin xs ys ∧ allWithin ys xs := by
  obtain ⟨ys, hy, hxs, hys⟩ := (equal_iff_of_elements? h).mp hxy
  refine ⟨ys, hy, allWithin_iff.mpr hxs, allWithin_iff.mpr fun b hb => ?_⟩
  obtain ⟨a, ha, hab⟩ := hys b hb
  exact ⟨a, ha, equal_symm hab⟩

theorem before_congr_of_elements? {x x' y y' : Value} {xs : List Value}
    (h : x.elements? = some xs) (hx : x.equal x') (hy : y.equal y') {first : Bool}
    (hb : before x y = .ok first) : before x' y' = .ok first := by
  obtain ⟨xs', hxs', hxx', hx'x⟩ := exists_within_of_equal h hx
  obtain ⟨ys, hys, rfl⟩ := (before_of_elements? h).mp hb
  obtain ⟨ys', hys', hyy', hy'y⟩ := exists_within_of_equal hys hy
  have hthere : allWithin xs ys = allWithin xs' ys' := Bool.eq_iff_iff.mpr
    ⟨fun h => allWithin_trans hx'x (allWithin_trans h hyy'),
      fun h => allWithin_trans hxx' (allWithin_trans h hy'y)⟩
  have hback : allWithin ys xs = allWithin ys' xs' := Bool.eq_iff_iff.mpr
    ⟨fun h => allWithin_trans hy'y (allWithin_trans h hxx'),
      fun h => allWithin_trans hyy' (allWithin_trans h hx'x)⟩
  rw [hthere, hback]
  exact (before_of_elements? hxs').mpr ⟨ys', hys', rfl⟩

/-- The induction is on the elements of one side; `ih` is the order of its elements. -/
theorem beforeAll_congr {xs : List Value} (ih : ∀ x ∈ xs, ∀ x' y y' : Value, x.equal x' →
    y.equal y' → ∀ first, before x y = .ok first → before x' y' = .ok first) :
    ∀ {xs' ys ys' : List Value}, Forall₂ (fun x y => x.equal y) xs xs' →
      Forall₂ (fun x y => x.equal y) ys ys' → ∀ {first : Bool},
        beforeAll xs ys = .ok first → beforeAll xs' ys' = .ok first := by
  induction xs with
  | nil =>
    intro xs' ys ys' hxs hys first h
    cases hxs
    cases hys <;> exact h
  | cons x xs ihs =>
    intro xs' ys ys' hxs hys first h
    obtain ⟨ihx, ihxs⟩ := List.forall_mem_cons.mp ih
    cases hxs with
    | @cons _ x' _ xs' hx hxs =>
      cases hys with
      | nil => exact h
      | @cons y y' ys ys' hy hys =>
        rw [beforeAll] at h ⊢
        rw [← equal_congr_left hx y', ← equal_congr_right hy x]
        split at h
        · rename_i he
          rw [if_pos he]
          exact ihs ihxs hxs hys h
        · rename_i he
          rw [if_neg he]
          exact ihx x' y y' hx hy first h

/-- **The order respects equality.** -/
theorem before_congr {x x' y y' : Value} (hx : x.equal x') (hy : y.equal y') {first : Bool}
    (h : before x y = .ok first) : before x' y' = .ok first := by
  induction x generalizing x' y y' first with
  | null => cases h
  | bool b => exact before_congr_of_number? rfl hx hy h
  | int n => exact before_congr_of_number? rfl hx hy h
  | float x => exact before_congr_of_number? rfl hx hy h
  | str s =>
    cases y with
    | str t => rw [equal_str_iff] at hx hy; rw [hx, hy]; exact h
    | _ => cases h
  | list xs ih =>
    obtain ⟨xs', rfl, hxs⟩ := equal_list_iff.mp hx
    cases y with
    | list ys =>
      obtain ⟨ys', rfl, hys⟩ := equal_list_iff.mp hy
      rw [before] at h ⊢
      exact beforeAll_congr (fun x hx _ _ _ he he' _ => ih x hx he he') hxs hys h
    | _ => cases h
  | tuple xs ih =>
    obtain ⟨xs', rfl, hxs⟩ := equal_tuple_iff.mp hx
    cases y with
    | tuple ys =>
      obtain ⟨ys', rfl, hys⟩ := equal_tuple_iff.mp hy
      rw [before] at h ⊢
      exact beforeAll_congr (fun x hx _ _ _ he he' _ => ih x hx he he') hxs hys h
    | _ => cases h
  | set xs => exact before_congr_of_elements? rfl hx hy h
  | frozenset xs => exact before_congr_of_elements? rfl hx hy h
  | map es => cases h
  | ref kind offset => cases h
  | variant family raw => cases h
  | revision r =>
    cases y with
    | revision r' => rw [equal_revision_iff] at hx hy; rw [hx, hy]; exact h
    | _ => cases h

theorem placeOn_congr {x x' : Value} (hx : x.equal x') {xs xs' : List Value}
    (hxs : Forall₂ (fun x y => x.equal y) xs xs') : ∀ {ys : List Value},
      placeOn id x xs = .ok ys →
        ∃ ys', placeOn id x' xs' = .ok ys' ∧ Forall₂ (fun x y => x.equal y) ys ys' := by
  induction hxs with
  | nil =>
    intro ys h
    cases h
    exact ⟨[x'], rfl, .cons hx .nil⟩
  | @cons y y' xs xs' hy hxs ih =>
    intro ys h
    rw [placeOn, Attempt.bind_eq_ok] at h
    obtain ⟨first, hfirst, h⟩ := h
    have hfirst' := before_congr hx hy hfirst
    cases first with
    | true =>
      cases h
      exact ⟨_, Attempt.bind_eq_ok.mpr ⟨_, hfirst', rfl⟩, .cons hx (.cons hy hxs)⟩
    | false =>
      obtain ⟨zs, hzs, h⟩ := Attempt.bind_eq_ok.mp h
      cases h
      obtain ⟨zs', hzs', he⟩ := ih hzs
      refine ⟨y' :: zs', ?_, .cons hy he⟩
      exact Attempt.bind_eq_ok.mpr ⟨_, hfirst', Attempt.bind_eq_ok.mpr ⟨zs', hzs', rfl⟩⟩

theorem foldlM_placeOn_congr {xs xs' : List Value}
    (hxs : Forall₂ (fun x y => x.equal y) xs xs') : ∀ {sorted sorted' ys : List Value},
      Forall₂ (fun x y => x.equal y) sorted sorted' →
        xs.foldlM (fun sorted x => placeOn id x sorted) sorted = .ok ys →
          ∃ ys', xs'.foldlM (fun sorted x => placeOn id x sorted) sorted' = .ok ys' ∧
            Forall₂ (fun x y => x.equal y) ys ys' := by
  induction hxs with
  | nil =>
    intro sorted sorted' ys hs h
    cases h
    exact ⟨sorted', rfl, hs⟩
  | cons hx _ ih =>
    intro sorted sorted' ys hs h
    rw [List.foldlM_cons, Attempt.bind_eq_ok] at h
    obtain ⟨placed, hplaced, h⟩ := h
    obtain ⟨placed', hplaced', he⟩ := placeOn_congr hx hs hplaced
    obtain ⟨ys', hys', hys⟩ := ih he h
    exact ⟨ys', Attempt.bind_eq_ok.mpr ⟨placed', hplaced', hys'⟩, hys⟩

theorem SameSorted.of_equalAll {xs ys as : List Value} (h : equalAll xs ys)
    (hsort : sort ys = .ok as) : SameSorted xs ys := by
  obtain ⟨bs, hbs, he⟩ :=
    foldlM_placeOn_congr (equalAll_iff.mp (equalAll_symm h)) .nil hsort
  exact ⟨bs, as, hbs, hsort, equalAll_symm (equalAll_iff.mpr he)⟩

/-! ### Keys that all compare -/

section Compared

variable {α β : Type} [LinearOrder β] {key : α → Value} {place : α → β}

theorem exists_placeOn {x : α} {xs : List α}
    (hkeys : ∀ y ∈ xs, before (key x) (key y) = .ok (decide (place x < place y)))
    (hsorted : xs.Pairwise fun a b => place a ≤ place b) :
    ∃ ys, placeOn key x xs = .ok ys ∧ ys.Pairwise fun a b => place a ≤ place b := by
  induction xs with
  | nil => exact ⟨[x], rfl, List.pairwise_singleton _ _⟩
  | cons y xs ih =>
    obtain ⟨hy, hxs⟩ := List.forall_mem_cons.mp hkeys
    obtain ⟨hfirst, hrest⟩ := List.pairwise_cons.mp hsorted
    by_cases hlt : place x < place y
    · refine ⟨x :: y :: xs, ?_, List.pairwise_cons.mpr ⟨fun z hz => ?_, hsorted⟩⟩
      · rw [placeOn, hy, decide_eq_true hlt]
        rfl
      · rcases List.mem_cons.mp hz with rfl | hz
        · exact le_of_lt hlt
        · exact le_trans (le_of_lt hlt) (hfirst z hz)
    · obtain ⟨ys, hys, hsorted'⟩ := ih hxs hrest
      refine ⟨y :: ys, ?_, List.pairwise_cons.mpr ⟨fun z hz => ?_, hsorted'⟩⟩
      · rw [placeOn, hy, decide_eq_false hlt, hys]
        rfl
      · rcases List.mem_cons.mp ((perm_of_placeOn hys).mem_iff.mp hz) with rfl | hz
        · exact not_lt.mp hlt
        · exact hfirst z hz

/-- **Items whose keys compare can be sorted.** -/
theorem exists_sortOn {xs : List α}
    (hkeys : ∀ a ∈ xs, ∀ b ∈ xs, before (key a) (key b) = .ok (decide (place a < place b))) :
    ∃ ys, sortOn key xs = .ok ys ∧ ys.Pairwise fun a b => place a ≤ place b := by
  suffices h : ∀ rest sorted : List α, (∀ x ∈ rest, x ∈ xs) → (∀ x ∈ sorted, x ∈ xs) →
      (sorted.Pairwise fun a b => place a ≤ place b) →
      ∃ ys, rest.foldlM (fun sorted x => placeOn key x sorted) sorted = Except.ok ys ∧
        ys.Pairwise fun a b => place a ≤ place b from
    h xs [] (fun _ hx => hx) (fun _ hx => absurd hx List.not_mem_nil) .nil
  intro rest
  induction rest with
  | nil =>
    intro sorted _ _ hsorted
    exact ⟨sorted, rfl, hsorted⟩
  | cons x rest ih =>
    intro sorted hrest hmem hsorted
    obtain ⟨hx, hrest⟩ := List.forall_mem_cons.mp hrest
    obtain ⟨placed, hplaced, hsorted'⟩ :=
      exists_placeOn (fun y hy => hkeys x hx y (hmem y hy)) hsorted
    have hmem' : ∀ y ∈ placed, y ∈ xs := by
      intro y hy
      rcases List.mem_cons.mp ((perm_of_placeOn hplaced).mem_iff.mp hy) with rfl | hy
      · exact hx
      · exact hmem y hy
    obtain ⟨ys, hys, hall⟩ := ih placed hrest hmem' hsorted'
    refine ⟨ys, ?_, hall⟩
    rw [List.foldlM_cons, hplaced]
    exact hys

end Compared

theorem exists_sorted_texts {xs : List Value} (htexts : ∀ x ∈ xs, ∃ s, x = .str s) :
    ∃ as, sort xs = .ok as ∧ as.Pairwise fun a b => a.text ≤ b.text := by
  have hkeys : ∀ a ∈ xs, ∀ b ∈ xs, before (id a) (id b) = .ok (decide (a.text < b.text)) := by
    intro a ha b hb
    obtain ⟨s, rfl⟩ := htexts a ha
    obtain ⟨t, rfl⟩ := htexts b hb
    simp [before, text]
  exact exists_sortOn hkeys

theorem exists_str_of_mem_ofTexts (ss : List String) : ∀ x ∈ ofTexts ss, ∃ s, x = .str s := by
  intro x hx
  obtain ⟨s, -, rfl⟩ := List.mem_map.mp hx
  exact ⟨s, rfl⟩

theorem exists_sort_of_texts (ss : List String) : ∃ as, sort (ofTexts ss) = .ok as := by
  obtain ⟨as, has, -⟩ := exists_sorted_texts (exists_str_of_mem_ofTexts ss)
  exact ⟨as, has⟩

theorem SameSorted.of_perm {ss ts : List String} (h : ss.Perm ts) :
    SameSorted (ofTexts ss) (ofTexts ts) := by
  obtain ⟨as, has, hsorted⟩ := exists_sorted_texts (exists_str_of_mem_ofTexts ss)
  obtain ⟨bs, hbs, hsorted'⟩ := exists_sorted_texts (exists_str_of_mem_ofTexts ts)
  have hperm : as.Perm bs :=
    ((sortOn_perm has).trans (h.map Value.str)).trans (sortOn_perm hbs).symm
  have htext : ∀ a ∈ as, ∃ s, a = .str s :=
    fun a ha => exists_str_of_mem_ofTexts ss a ((sortOn_perm has).mem_iff.mp ha)
  have heq : as = bs := by
    refine hperm.eq_of_pairwise (fun a b ha hb hab hba => ?_) hsorted hsorted'
    obtain ⟨s, rfl⟩ := htext a ha
    obtain ⟨t, rfl⟩ := htext b (hperm.mem_iff.mpr hb)
    exact congrArg Value.str (le_antisymm hab hba)
  refine ⟨as, bs, has, hbs, equalAll_iff.mpr ?_⟩
  rw [← heq]
  refine List.forall₂_same.mpr fun a ha => ?_
  obtain ⟨s, rfl⟩ := htext a ha
  rw [equal_str_iff]

end Value

end EventDialects
