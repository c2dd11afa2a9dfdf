import EventDialects.Equivalence.Verdict
import EventDialects.Proofs.Value.Entries
import EventDialects.Proofs.Value.Multiset

/-!
# When canonical arguments agree

`EquivalenceClass.agree` compares two mappings from canonical names to values.  It goes once through
the names of the first one: a name that is not order-insensitive must have equal values on both
sides, and the values of the order-insensitive ones are gathered from both sides and counted in the
end.  `EquivalenceClass.Agrees` says what this comes to, without a loop and without preferring one
side.

The loop looks up the second mapping's values in the order of the first one's names.  Laid side by
side in that order, the second mapping is a permutation of itself, and permutations do not change
what is gathered from it as a multiset.

* `compareValues_of_aligned`: what one loop gathers, and when it stops early.
* `agree_eq_ok`: **the comparison decides whether two mappings agree**, and never fails.
* `matches_of_agree`: what its success says of values that may have no countable forms.
-/

namespace EventDialects.EquivalenceClass

open List (Forall₂)
open Value (Countable SameMultiset normalItems)

/-- Whether the values under a name are compared as a group. -/
def groups (c : EquivalenceClass) (name : Value) : Bool := c.orderInsensitive.any (·.equal name)

def grouped (c : EquivalenceClass) (es : Entries) : List Value :=
  (es.filter fun e => c.groups e.1).map (·.2)

/-- Two mappings from canonical names to values **agree** if they have the same names, equal values
under each name that is not order-insensitive, and under the order-insensitive names the same
multiset of values in their countable forms. -/
structure Agrees (c : EquivalenceClass) (es fs : Entries) : Prop where
  left : ∀ e ∈ es, ∃ f ∈ fs, f.1.equal e.1
  right : ∀ f ∈ fs, ∃ e ∈ es, e.1.equal f.1
  values : ∀ e ∈ es, ∀ f ∈ fs, f.1.equal e.1 → ¬ c.groups e.1 → e.2.comparesEqual f.2
  multisets : ∃ xs ys, normalItems (c.grouped es) = .ok xs ∧ normalItems (c.grouped fs) = .ok ys ∧
    SameMultiset xs ys

/-- Two mappings **match** if they have the same names and equal values under each name that is not
order-insensitive. -/
structure Matches (c : EquivalenceClass) (es fs : Entries) : Prop where
  left : ∀ e ∈ es, ∃ f ∈ fs, f.1.equal e.1
  right : ∀ f ∈ fs, ∃ e ∈ es, e.1.equal f.1
  values : ∀ e ∈ es, ∀ f ∈ fs, f.1.equal e.1 → ¬ c.groups e.1 → e.2.comparesEqual f.2

variable {c : EquivalenceClass}

theorem keysWithin_iff {es fs : Entries} :
    es.keysWithin fs ↔ ∀ e ∈ es, ∃ f ∈ fs, f.1.equal e.1 := by
  simp only [Entries.keysWithin, List.all_eq_true, List.any_eq_true]

theorem groups_congr {x y : Value} (h : x.equal y) : c.groups x = c.groups y := by
  rw [groups, groups, funext fun z => Value.equal_congr_right h z]

theorem Agrees.toMatches {es fs : Entries} (h : c.Agrees es fs) : c.Matches es fs :=
  ⟨h.left, h.right, h.values⟩

theorem Matches.symm {es fs : Entries} (h : c.Matches es fs) : c.Matches fs es := by
  refine ⟨h.right, h.left, fun f hf e he hef hgroups => ?_⟩
  have hfe := Value.equal_symm hef
  rw [groups_congr hfe] at hgroups
  exact Value.comparesEqual_symm (h.values e he f hf hfe hgroups)

theorem grouped_cons (c : EquivalenceClass) (e : Value × Value) (es : Entries) :
    c.grouped (e :: es) = if c.groups e.1 then e.2 :: c.grouped es else c.grouped es := by
  rw [grouped, List.filter_cons]
  cases c.groups e.1 <;> rfl

theorem normalItems_cons {v x : Value} {vs xs : List Value} (hv : v.normal = .ok x)
    (hvs : normalItems vs = .ok xs) : normalItems (v :: vs) = .ok (x :: xs) := by
  rw [normalItems, hv, hvs]
  rfl

/-- An entry and its counterpart: the value that is looked up for it. -/
structure Aligned (fs : Entries) (e g : Value × Value) : Prop where
  lookup : fs.lookup? e.1 = some g.2
  key : g.1.equal e.1
  left : e.2.Countable
  right : g.2.Countable

/-- **One loop** over entries laid beside their counterparts gathers the countable forms of both
sides, unless it meets values that must be equal and are not. -/
theorem compareValues_of_aligned {fs es gs : Entries} (h : Forall₂ (Aligned fs) es gs) :
    ∃ xs ys, normalItems (c.grouped es) = .ok xs ∧ normalItems (c.grouped gs) = .ok ys ∧
      (c.compareValues fs es = .ok (some (xs, ys)) ∧
          Forall₂ (fun e g => ¬ c.groups e.1 → e.2.comparesEqual g.2) es gs ∨
        c.compareValues fs es = .ok none ∧
          ¬ Forall₂ (fun e g => ¬ c.groups e.1 → e.2.comparesEqual g.2) es gs) := by
  induction h with
  | nil => exact ⟨[], [], rfl, rfl, Or.inl ⟨rfl, .nil⟩⟩
  | @cons e g es gs heg _ ih =>
    obtain ⟨xs, ys, hxs, hys, ih⟩ := ih
    obtain ⟨name, v⟩ := e
    obtain ⟨hlookup, hkey, ⟨x, hx, hxkey⟩, ⟨y, hy, hykey⟩⟩ := heg
    have hgroups : c.groups g.1 = c.groups name := groups_congr hkey
    have hxcheck := Value.checkKey_eq_ok_iff.mpr hxkey
    have hycheck := Value.checkKey_eq_ok_iff.mpr hykey
    rw [grouped_cons, grouped_cons, hgroups, compareValues, hlookup, ← groups]
    by_cases hg : c.groups name
    · have hnone : ¬ c.groups name → v.comparesEqual g.2 := fun hn => absurd hg hn
      rw [if_pos hg, if_pos hg, if_pos hg]
      refine ⟨x :: xs, y :: ys, normalItems_cons hx hxs, normalItems_cons hy hys, ?_⟩
      simp only [hx, hxcheck, Option.getD_some, hy, hycheck, bind, Except.bind]
      rcases ih with ⟨hloop, hequal⟩ | ⟨hloop, hequal⟩
      · rw [hloop]
        exact Or.inl ⟨rfl, .cons hnone hequal⟩
      · rw [hloop]
        refine Or.inr ⟨rfl, fun h => hequal ?_⟩
        exact (List.forall₂_cons.mp h).2
    · rw [if_neg hg, if_neg hg, if_neg hg]
      refine ⟨xs, ys, hxs, hys, ?_⟩
      by_cases hv : v.comparesEqual g.2
      · rw [Option.getD_some, if_pos hv]
        rcases ih with ⟨hloop, hequal⟩ | ⟨hloop, hequal⟩
        · exact Or.inl ⟨hloop, .cons (fun _ => hv) hequal⟩
        · exact Or.inr ⟨hloop, fun h => hequal (List.forall₂_cons.mp h).2⟩
      · rw [Option.getD_some, if_neg hv]
        exact Or.inr ⟨rfl, fun h => hv ((List.forall₂_cons.mp h).1 hg)⟩

/-- Laid side by side, the values that must be equal are those under equal names. -/
theorem forall₂_equal_iff {es fs gs : Entries} (hgs : gs.Distinct) (hperm : gs.Perm fs)
    (h : Forall₂ (fun e g => g.1.equal e.1) es gs) :
    Forall₂ (fun e g => ¬ c.groups e.1 → e.2.comparesEqual g.2) es gs ↔
      ∀ e ∈ es, ∀ f ∈ fs, f.1.equal e.1 → ¬ c.groups e.1 → e.2.comparesEqual f.2 := by
  constructor
  · intro hequal e he f hf hfe hg
    have hpairs := List.Forall₂.mp (fun _ _ => And.intro) h hequal
    obtain ⟨g, hgmem, hge, hvalue⟩ := exists_mem_of_forall₂ hpairs e he
    have hfg : f.1.equal g.1 := Value.equal_trans hfe (Value.equal_symm hge)
    rw [hgs.eq_of_equal (hperm.mem_iff.mpr hf) hgmem hfg]
    exact hvalue hg
  · intro hvalues
    exact forall₂_of_mem h fun e he g hg => hvalues e he g (hperm.mem_iff.mp hg)

theorem aligned_of_mem {es fs gs : Entries} (hfs : fs.Distinct) (hperm : gs.Perm fs)
    (hes : ∀ e ∈ es, e.2.Countable) (hcf : ∀ f ∈ fs, f.2.Countable)
    (h : Forall₂ (fun e g => g.1.equal e.1) es gs) : Forall₂ (Aligned fs) es gs := by
  refine forall₂_of_mem h fun e he g hg hge => ?_
  have hgmem := hperm.mem_iff.mp hg
  exact ⟨Entries.lookup?_eq_some_of_mem hfs hgmem hge, hge, hes e he, hcf g hgmem⟩

/-- **The comparison decides whether two mappings agree**, and never fails. -/
theorem agree_eq_ok {es fs : Entries} (hes : es.Distinct) (hfs : fs.Distinct)
    (hce : ∀ e ∈ es, e.2.Countable) (hcf : ∀ f ∈ fs, f.2.Countable) :
    ∃ verdict, c.agree es fs = .ok verdict ∧ (verdict = true ↔ c.Agrees es fs) := by
  rw [agree]
  by_cases hkeys : es.keysWithin fs && fs.keysWithin es
  · rw [if_neg (by rw [hkeys]; decide)]
    rw [Bool.and_eq_true, keysWithin_iff, keysWithin_iff] at hkeys
    obtain ⟨gs, hperm, haligned⟩ := Entries.exists_aligned hes hfs hkeys.1 hkeys.2
    have hgs : gs.Distinct := hperm.symm.pairwise hfs fun h he => h (Value.equal_symm he)
    obtain ⟨xs, ys, hxs, hys, hloop⟩ :=
      compareValues_of_aligned (c := c) (aligned_of_mem hfs hperm hce hcf haligned)
    rw [forall₂_equal_iff hgs hperm haligned] at hloop
    -- What is gathered from the second mapping, in its own order.
    have hgrouped : (c.grouped fs).Perm (c.grouped gs) := ((hperm.filter _).map _).symm
    obtain ⟨zs, hzs, hyz⟩ := Value.exists_normalItems_of_perm hys hgrouped
    rcases hloop with ⟨hloop, hvalues⟩ | ⟨hloop, hvalues⟩
    · refine ⟨Value.sameMultiset xs ys, by rw [hloop]; rfl, ?_⟩
      rw [Value.sameMultiset_iff]
      constructor
      · intro h
        exact ⟨hkeys.1, hkeys.2, hvalues, xs, zs, hxs, hzs, h.of_perm (.refl _) hyz.symm⟩
      · rintro ⟨-, -, -, xs', zs', hxs', hzs', h⟩
        obtain rfl : xs = xs' := Except.ok.inj (hxs.symm.trans hxs')
        obtain rfl : zs = zs' := Except.ok.inj (hzs.symm.trans hzs')
        exact h.of_perm (.refl _) hyz
    · refine ⟨false, by rw [hloop]; rfl, ?_⟩
      constructor
      · intro h
        cases h
      · intro h
        exact absurd h.values hvalues
  · refine ⟨false, by rw [Bool.eq_false_iff.mpr hkeys]; rfl, ?_⟩
    constructor
    · intro h
      cases h
    · intro h
      rw [Bool.and_eq_true, keysWithin_iff, keysWithin_iff] at hkeys
      exact absurd ⟨h.left, h.right⟩ hkeys

/-! ### Success alone -/

theorem compareValues_eq_ok_some {fs es : Entries} : ∀ {gathered : List Value × List Value},
    c.compareValues fs es = .ok (some gathered) →
      ∀ e ∈ es, ¬ c.groups e.1 → e.2.comparesEqual ((fs.lookup? e.1).getD .null) := by
  induction es with
  | nil => exact fun _ _ he => absurd he List.not_mem_nil
  | cons e es ih =>
    intro gathered h
    obtain ⟨name, v⟩ := e
    rw [compareValues, ← groups] at h
    by_cases hg : c.groups name
    · -- Both values are counted, each as a key, and the rest was compared with success.
      rw [if_pos hg] at h
      obtain ⟨x, -, h⟩ := Attempt.bind_eq_ok.mp h
      obtain ⟨_, -, h⟩ := Attempt.bind_eq_ok.mp h
      obtain ⟨y, -, h⟩ := Attempt.bind_eq_ok.mp h
      obtain ⟨_, -, h⟩ := Attempt.bind_eq_ok.mp h
      obtain ⟨rest, hrest, h⟩ := Attempt.bind_eq_ok.mp h
      cases rest with
      | none => cases h
      | some gathered' => exact List.forall_mem_cons.mpr ⟨fun hn => absurd hg hn, ih hrest⟩
    · rw [if_neg hg] at h
      split at h
      · rename_i hv
        exact List.forall_mem_cons.mpr ⟨fun _ => hv, ih h⟩
      · cases h

/-- Mappings that are found to agree match, whether all their values could be counted or not. -/
theorem matches_of_agree {es fs : Entries} (hfs : fs.Distinct) (h : c.agree es fs = .ok true) :
    c.Matches es fs := by
  rw [agree] at h
  split at h
  · cases h
  · rename_i hkeys
    rw [Bool.not_eq_true', Bool.not_eq_false, Bool.and_eq_true, keysWithin_iff, keysWithin_iff]
      at hkeys
    obtain ⟨found, hfound, h⟩ := Attempt.bind_eq_ok.mp h
    cases found with
    | none => cases h
    | some gathered =>
      refine ⟨hkeys.1, hkeys.2, fun e he f hf hfe hg => ?_⟩
      have hvalue := compareValues_eq_ok_some hfound e he hg
      rwa [Entries.lookup?_eq_some_of_mem hfs hf hfe, Option.getD_some] at hvalue

end EventDialects.EquivalenceClass
