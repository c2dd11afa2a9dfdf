import EventDialects.Proofs.Value.Equality
import EventDialects.Value.Key
import Mathlib.Data.List.Perm.Basic

/-!
# Lists of values as multisets

`Value.sameMultiset` compares two lists by counting: every value of either list must have equally
many equal ones in both.  `Value.SameMultiset` says what this decides: one list can be put into an
order in which it equals the other, element by element.

* `countEqual_congr`: equal values occur equally often in a list.
* `sameMultiset_iff`: **counting decides whether two lists are the same multiset**.
* `normalItems_eq_ok_iff`: the countable forms of a list are those of its values.
-/

namespace EventDialects.Value

open List (Forall₂)

/-! ### Counting -/

theorem countEqual_congr {x y : Value} (h : x.equal y) (xs : List Value) :
    countEqual xs x = countEqual xs y := by
  rw [countEqual, countEqual, funext fun z => equal_congr_right h z]

theorem countEqual_cons (x : Value) (xs : List Value) (v : Value) :
    countEqual (x :: xs) v = countEqual xs v + if x.equal v then 1 else 0 := List.countP_cons

theorem countEqual_eq_of_perm {xs ys : List Value} (h : xs.Perm ys) (v : Value) :
    countEqual xs v = countEqual ys v := h.countP_eq _

theorem countEqual_eq_of_forall₂ {xs ys : List Value} (h : Forall₂ (fun x y => x.equal y) xs ys)
    (v : Value) : countEqual xs v = countEqual ys v := by
  induction h with
  | nil => rfl
  | cons hxy _ ih => rw [countEqual_cons, countEqual_cons, ih, equal_congr_left hxy]

theorem countEqual_eq_of_mem {xs ys : List Value}
    (h : ∀ x ∈ xs ++ ys, countEqual xs x = countEqual ys x) (v : Value) :
    countEqual xs v = countEqual ys v := by
  by_cases hv : ∃ x ∈ xs ++ ys, x.equal v
  · obtain ⟨x, hx, he⟩ := hv
    rw [← countEqual_congr he, ← countEqual_congr he, h x hx]
  · have hnone : ∀ x ∈ xs ++ ys, ¬ x.equal v := fun x hx he => hv ⟨x, hx, he⟩
    rw [countEqual, countEqual, List.countP_eq_zero.mpr, List.countP_eq_zero.mpr]
    · exact fun y hy => hnone y (List.mem_append_right xs hy)
    · exact fun x hx => hnone x (List.mem_append_left ys hx)

/-! ### Multisets -/

/-- Two lists are the **same multiset** if one can be put into an order in which they are equal,
element by element. -/
def SameMultiset (xs ys : List Value) : Prop :=
  ∃ zs, zs.Perm ys ∧ Forall₂ (fun x z => x.equal z) xs zs

theorem SameMultiset.of_perm {xs xs' ys ys' : List Value} (h : SameMultiset xs ys)
    (hx : xs.Perm xs') (hy : ys.Perm ys') : SameMultiset xs' ys' := by
  obtain ⟨zs, hzs, he⟩ := h
  obtain ⟨zs', he', hzs'⟩ := List.perm_comp_forall₂ hx.symm he
  exact ⟨zs', (hzs'.trans hzs).trans hy, he'⟩

/-- The induction is on one of the lists: its first value is counted in the other one too, so it has
an equal one there, and without the two the counts still agree. -/
theorem sameMultiset_of_countEqual {xs : List Value} : ∀ {ys : List Value},
    (∀ v, countEqual xs v = countEqual ys v) → SameMultiset xs ys := by
  induction xs with
  | nil =>
    intro ys hcount
    cases ys with
    | nil => exact ⟨[], .refl _, .nil⟩
    | cons y ys =>
      have hzero := hcount y
      rw [countEqual_cons, if_pos (equal_self y)] at hzero
      exact absurd hzero (Nat.succ_ne_zero _).symm
  | cons x xs ih =>
    intro ys hcount
    obtain ⟨y, hy, hyx⟩ : ∃ y ∈ ys, y.equal x := by
      rw [← List.countP_pos_iff, ← countEqual, ← hcount x, countEqual_cons, if_pos (equal_self x)]
      exact Nat.succ_pos _
    obtain ⟨s, t, rfl⟩ := List.append_of_mem hy
    have hmoved : (y :: (s ++ t)).Perm (s ++ y :: t) := List.perm_middle.symm
    have hrest : ∀ v, countEqual xs v = countEqual (s ++ t) v := by
      intro v
      have hv := hcount v
      rw [← countEqual_eq_of_perm hmoved, countEqual_cons, countEqual_cons,
        equal_congr_left hyx] at hv
      exact Nat.add_right_cancel hv
    obtain ⟨zs, hzs, he⟩ := ih hrest
    exact ⟨y :: zs, (hzs.cons y).trans hmoved, .cons (equal_symm hyx) he⟩

/-- **Counting decides whether two lists are the same multiset.** -/
theorem sameMultiset_iff {xs ys : List Value} : sameMultiset xs ys ↔ SameMultiset xs ys := by
  simp only [sameMultiset, List.all_eq_true, beq_iff_eq]
  constructor
  · exact fun h => sameMultiset_of_countEqual (countEqual_eq_of_mem h)
  · rintro ⟨zs, hzs, he⟩ x -
    rw [countEqual_eq_of_forall₂ he, countEqual_eq_of_perm hzs]

/-! ### Countable forms -/

/-- A value is **countable** if it has a countable form and that can be a key. -/
def Countable (v : Value) : Prop := ∃ w, v.normal = .ok w ∧ w.hashable

instance (v : Value) : Decidable v.Countable :=
  match h : v.normal with
  | .ok w => decidable_of_iff (w.hashable = true)
      ⟨fun hw => ⟨w, h, hw⟩, fun ⟨_, hw, hkey⟩ => Except.ok.inj (h.symm.trans hw) ▸ hkey⟩
  | .error _ => .isFalse fun ⟨_, hw, _⟩ => nomatch h.symm.trans hw

theorem normalItems_eq_ok_iff {vs : List Value} : ∀ {xs : List Value},
    normalItems vs = .ok xs ↔ Forall₂ (fun v x => v.normal = .ok x) vs xs := by
  induction vs with
  | nil => intro xs; simp [normalItems, eq_comm]
  | cons v vs ih =>
    intro xs
    simp only [normalItems, Attempt.bind_eq_ok, ih, pure, Except.pure, Except.ok.injEq,
      List.forall₂_cons_left_iff]
    constructor
    · rintro ⟨x, hx, xs, hxs, rfl⟩
      exact ⟨x, xs, hx, hxs, rfl⟩
    · rintro ⟨x, xs, hx, hxs, rfl⟩
      exact ⟨x, hx, xs, hxs, rfl⟩

theorem exists_normalItems_of_perm {vs vs' xs : List Value} (h : normalItems vs = .ok xs)
    (hperm : vs'.Perm vs) : ∃ xs', normalItems vs' = .ok xs' ∧ xs'.Perm xs := by
  obtain ⟨xs', hxs', hp⟩ := List.perm_comp_forall₂ hperm (normalItems_eq_ok_iff.mp h)
  exact ⟨xs', normalItems_eq_ok_iff.mpr hxs', hp⟩

end EventDialects.Value
