import EventDialects.Text.Blank
import Mathlib.Data.List.DropRight

/-!
# Blanks around a text

Reading a revision or a number begins with taking the blanks around the text away.  What is left is
**bare**: it neither begins nor ends with a blank.  A bare text stays as it is, and what is taken
away are blanks before and after.

* `Bare.trimBy_eq`, `bare_trimBy`: what is left is bare, and stays as it is.
* `trimBy_eq_self_iff`: **only a bare text stays as it is**.
* `exists_trimBy`: **what is taken away** are characters before and after.
-/

namespace EventDialects.Text

variable {p q : Char → Bool} {s : List Char}

/-- A text is **bare** of some characters if it neither begins nor ends with one of them. -/
structure Bare (p : Char → Bool) (s : List Char) : Prop where
  head : ∀ c ∈ s.head?, ¬ p c
  last : ∀ c ∈ s.getLast?, ¬ p c

theorem Bare.mono (h : Bare p s) (hqp : ∀ c, q c → p c) : Bare q s :=
  ⟨fun c hc hq => h.head c hc (hqp c hq), fun c hc hq => h.last c hc (hqp c hq)⟩

theorem bare_of_forall (h : ∀ c ∈ s, ¬ p c) : Bare p s :=
  ⟨fun c hc => h c (List.mem_of_head? hc), fun c hc => h c (List.mem_of_getLast? hc)⟩

theorem dropWhile_of_head? (h : ∀ c ∈ s.head?, ¬ p c) : s.dropWhile p = s := by
  cases s with
  | nil => rfl
  | cons c s => exact List.dropWhile_cons_of_neg (h c rfl)

theorem Bare.trimBy_append (h : Bare p s) {before after : List Char}
    (hbefore : ∀ c ∈ before, p c) (hafter : ∀ c ∈ after, p c) :
    trimBy p (before ++ s ++ after) = s := by
  rw [trimBy, List.append_assoc, List.dropWhile_append_of_pos hbefore]
  by_cases hne : s = []
  · rw [hne, List.nil_append, List.dropWhile_eq_nil_iff.mpr hafter]
    rfl
  · have hhead : ∀ c ∈ (s ++ after).head?, ¬ p c := by
      rw [List.head?_append_of_ne_nil _ hne]
      exact h.head
    have hlast : ∀ c ∈ (s.reverse).head?, ¬ p c := by
      rw [List.head?_reverse]
      exact h.last
    rw [dropWhile_of_head? hhead, List.reverse_append,
      List.dropWhile_append_of_pos (by simpa using hafter), dropWhile_of_head? hlast,
      List.reverse_reverse]

/-- **A bare text** stays as it is. -/
theorem Bare.trimBy_eq (h : Bare p s) : trimBy p s = s := by
  have htrim : trimBy p ([] ++ s ++ []) = s := h.trimBy_append (by simp) (by simp)
  rwa [List.nil_append, List.append_nil] at htrim

theorem bare_trimBy (p : Char → Bool) (s : List Char) : Bare p (trimBy p s) := by
  have hlast : ∀ c ∈ ((s.dropWhile p).rdropWhile p).getLast?, ¬ p c := by
    intro c hc
    obtain ⟨hne, rfl⟩ := List.mem_getLast?_eq_getLast hc
    exact List.rdropWhile_last_not p (s.dropWhile p) hne
  refine ⟨fun c hc => ?_, hlast⟩
  obtain ⟨rest, hrest⟩ := List.rdropWhile_prefix p (s.dropWhile p)
  have hc' : c ∈ (s.dropWhile p).head? := by
    rw [← hrest]
    exact List.mem_head?_append_of_mem_head? hc
  have hnot := List.head?_dropWhile_not p s
  rw [Option.mem_def.mp hc'] at hnot
  simpa using hnot

theorem strip_strip (s : List Char) : strip (strip s) = strip s :=
  (bare_trimBy isBlank s).trimBy_eq

/-- **Only a bare text** stays as it is. -/
theorem trimBy_eq_self_iff : trimBy p s = s ↔ Bare p s := by
  constructor
  · intro h
    rw [← h]
    exact bare_trimBy p s
  · exact Bare.trimBy_eq

/-- **What is stripped** are characters before and after. -/
theorem exists_trimBy (p : Char → Bool) (s : List Char) : ∃ before after,
    s = before ++ trimBy p s ++ after ∧ (∀ c ∈ before, p c) ∧ ∀ c ∈ after, p c := by
  refine ⟨s.takeWhile p, (s.dropWhile p).rtakeWhile p, ?_, fun c => List.mem_takeWhile_imp,
    fun c => List.mem_rtakeWhile_imp⟩
  have hback : trimBy p s ++ (s.dropWhile p).rtakeWhile p = s.dropWhile p :=
    List.rdropWhile_append_rtakeWhile
  rw [List.append_assoc, hback, List.takeWhile_append_dropWhile]

theorem trimBy_sublist (p : Char → Bool) (s : List Char) : (trimBy p s).Sublist s := by
  have hback : (trimBy p s).reverse.Sublist (s.dropWhile p).reverse := by
    rw [trimBy, List.reverse_reverse]
    exact List.dropWhile_sublist p
  exact (List.reverse_sublist.mp hback).trans (List.dropWhile_sublist p)

end EventDialects.Text
