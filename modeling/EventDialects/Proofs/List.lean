import Mathlib.Data.List.Forall2
import Mathlib.Data.List.Pairwise

/-!
# Lists whose elements are told apart by a relation

Names, codes and keys are compared by equality of values and not by the equality of Lean.  These
lemmas are about lists in which no two elements are related, about lists that are related place by
place, and about the first element of a list that is not as it should be.
-/

namespace EventDialects

open List (Forall₂)

variable {α β γ : Type}

/-- Related elements of a list in which no two are related are one and the same. -/
theorem eq_of_pairwise_not {r : α → α → Prop} (hsymm : ∀ x y, r x y → r y x) {l : List α}
    (h : l.Pairwise fun x y => ¬ r x y) {x y : α} (hx : x ∈ l) (hy : y ∈ l) (hxy : r x y) :
    x = y := by
  have : Std.Symm fun x y : α => ¬ r x y := ⟨fun x y hn hyx => hn (hsymm y x hyx)⟩
  by_contra hne
  exact h.forall hx hy hne hxy

theorem find?_eq_some_of_unique {p : α → Bool} {l : List α} {a : α} (ha : a ∈ l)
    (hp : p a) (hunique : ∀ x ∈ l, p x → x = a) : l.find? p = some a := by
  cases h : l.find? p with
  | none => exact absurd hp (List.find?_eq_none.mp h a ha)
  | some x => rw [hunique x (List.mem_of_find?_eq_some h) (List.find?_some h)]

theorem exists_mem_of_forall₂ {R : α → β → Prop} {xs : List α} {ys : List β}
    (h : Forall₂ R xs ys) : ∀ x ∈ xs, ∃ y ∈ ys, R x y := by
  induction h with
  | nil => intro x hx; cases hx
  | @cons a b xs ys hab _ ih =>
    refine List.forall_mem_cons.mpr ⟨⟨b, List.mem_cons_self, hab⟩, fun x hx => ?_⟩
    obtain ⟨y, hy, hxy⟩ := ih x hx
    exact ⟨y, List.mem_cons_of_mem _ hy, hxy⟩

theorem exists_forall₂ {P : α → β → Prop} {Q : α → γ → Prop} {R : β → γ → Prop}
    {xs : List α} {ys : List β} (h : Forall₂ P xs ys)
    (hstep : ∀ x ∈ xs, ∀ y, P x y → ∃ z, Q x z ∧ R y z) :
    ∃ zs, Forall₂ Q xs zs ∧ Forall₂ R ys zs := by
  induction h with
  | nil => exact ⟨[], .nil, .nil⟩
  | @cons x y xs ys hxy _ ih =>
    obtain ⟨hx, hxs⟩ := List.forall_mem_cons.mp hstep
    obtain ⟨z, hq, hr⟩ := hx y hxy
    obtain ⟨zs, hqs, hrs⟩ := ih hxs
    exact ⟨z :: zs, .cons hq hqs, .cons hr hrs⟩

theorem exists_forall₂_of_forall {R : α → β → Prop} {xs : List α} (h : ∀ x ∈ xs, ∃ y, R x y) :
    ∃ ys, Forall₂ R xs ys := by
  induction xs with
  | nil => exact ⟨[], .nil⟩
  | cons x xs ih =>
    obtain ⟨hx, hxs⟩ := List.forall_mem_cons.mp h
    obtain ⟨y, hy⟩ := hx
    obtain ⟨ys, hys⟩ := ih hxs
    exact ⟨y :: ys, .cons hy hys⟩

theorem forall₂_comp {P : α → β → Prop} {Q : β → γ → Prop} {xs : List α} {ys : List β}
    {zs : List γ} (hxy : Forall₂ P xs ys) (hyz : Forall₂ Q ys zs) :
    Forall₂ (fun x z => ∃ y, P x y ∧ Q y z) xs zs := by
  induction hxy generalizing zs with
  | nil => cases hyz; exact .nil
  | cons hp _ ih =>
    cases hyz with
    | cons hq hyz => exact .cons ⟨_, hp, hq⟩ (ih hyz)

theorem forall₂_of_mem {R S : α → β → Prop} {xs : List α} {ys : List β} (h : Forall₂ R xs ys)
    (himp : ∀ x ∈ xs, ∀ y ∈ ys, R x y → S x y) : Forall₂ S xs ys := by
  refine List.forall₂_iff_zip.mpr ⟨h.length_eq, fun hxy => ?_⟩
  obtain ⟨hx, hy⟩ := List.of_mem_zip hxy
  exact himp _ hx _ hy (List.forall₂_zip h hxy)

/-- Either something holds of a whole list, or there is a first element of which it does not. -/
theorem forall_or_exists_first (p : α → Prop) (l : List α) :
    (∀ x ∈ l, p x) ∨ ∃ before x after, l = before ++ x :: after ∧ (∀ y ∈ before, p y) ∧ ¬ p x := by
  induction l with
  | nil => exact .inl fun _ hx => absurd hx List.not_mem_nil
  | cons x l ih =>
    by_cases hx : p x
    · rcases ih with hl | ⟨before, y, after, rfl, hbefore, hy⟩
      · exact .inl (List.forall_mem_cons.mpr ⟨hx, hl⟩)
      · exact .inr ⟨x :: before, y, after, rfl, List.forall_mem_cons.mpr ⟨hx, hbefore⟩, hy⟩
    · exact .inr ⟨[], x, l, rfl, fun _ hy => absurd hy List.not_mem_nil, hx⟩

end EventDialects
