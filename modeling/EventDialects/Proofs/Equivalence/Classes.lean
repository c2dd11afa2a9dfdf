import EventDialects.Equivalence.Table
import EventDialects.Proofs.Value.Equality

/-!
# The classes of an equivalence table

A table is built by adding classes.  A class is refused if one of its members is an event of a class
that is there already, so an event belongs to at most one class, and the place of that class is all
that has to be compared to see whether two events belong to the same one.

* `add_eq_ok_iff`: what `add` checks and what it does.
* `Reachable.disjoint`: **no event belongs to two classes** of a table built by adding.
* `indexAt?_eq_some_iff`: the place of an event's class is the only place of a class with it.
-/

namespace EventDialects

theorem Member.isAt_iff {m : Member} {revision : Revision} {code : Value} :
    m.isAt revision code ↔ m.revision = revision ∧ (Value.int m.code).equal code := by
  rw [Member.isAt, Bool.and_eq_true, decide_eq_true_iff]

namespace EquivalenceClass

theorem isAt_iff {c : EquivalenceClass} {revision : Revision} {code : Value} :
    c.isAt revision code ↔
      ∃ m ∈ c.members, m.revision = revision ∧ (Value.int m.code).equal code := by
  simp only [isAt, List.any_eq_true, Member.isAt_iff]

/-- The member for a record, its revision being taken as if it could be printed. -/
def memberFor? (c : EquivalenceClass) (r : Record) : Option Member :=
  c.memberAt? (.ofValue r.revision) r.code r.event

theorem memberFor_eq {c : EquivalenceClass} {r : Record} (h : r.revision.printable) :
    c.memberFor r = .ok (c.memberFor? r) := by
  rw [memberFor, Revision.read_eq_ok.mpr ⟨h, rfl⟩]
  rfl

theorem memberFor?_of_memberFor {c : EquivalenceClass} {r : Record} {found : Option Member}
    (h : c.memberFor r = .ok found) : c.memberFor? r = found := by
  obtain ⟨revision, hread, h⟩ := Attempt.bind_eq_ok.mp h
  obtain ⟨-, rfl⟩ := Revision.read_eq_ok.mp hread
  exact Except.ok.inj h

theorem mem_of_memberFor? {c : EquivalenceClass} {r : Record} {m : Member}
    (h : c.memberFor? r = some m) : m ∈ c.members := List.mem_of_find?_eq_some h

theorem isAt_of_memberFor? {c : EquivalenceClass} {r : Record} {m : Member}
    (h : c.memberFor? r = some m) : c.isAt (.ofValue r.revision) r.code := by
  have hp := List.find?_some h
  rw [Bool.and_eq_true, Member.isAt_iff] at hp
  exact isAt_iff.mpr ⟨m, mem_of_memberFor? h, hp.1⟩

/-- A class has a member for a record if one of its members has the record's revision, code and
event name. -/
theorem exists_memberFor?_iff {c : EquivalenceClass} {r : Record} :
    (∃ m, c.memberFor? r = some m) ↔
      ∃ m ∈ c.members, m.isAt (.ofValue r.revision) r.code ∧ m.event.comparesEqual r.event := by
  simp only [memberFor?, memberAt?, ← Option.isSome_iff_exists, List.find?_isSome,
    Bool.and_eq_true]

/-- Two classes **share** an event. -/
def Shares (c d : EquivalenceClass) : Prop :=
  ∃ revision code, c.isAt revision code ∧ d.isAt revision code

/-- Classes that share an event share a member's own: its revision with its code. -/
theorem Shares.exists_member {c d : EquivalenceClass} (h : c.Shares d) :
    ∃ m ∈ d.members, c.isAt m.revision (.int m.code) := by
  obtain ⟨revision, code, hc, hd⟩ := h
  obtain ⟨m, hm, hr, hcode⟩ := isAt_iff.mp hc
  obtain ⟨m', hm', hr', hcode'⟩ := isAt_iff.mp hd
  have hcodes := Value.equal_trans hcode (Value.equal_symm hcode')
  exact ⟨m', hm', isAt_iff.mpr ⟨m, hm, hr.trans hr'.symm, hcodes⟩⟩

end EquivalenceClass

namespace EquivalenceTable

/-! ### One step -/

theorem checkFree_eq_ok_iff {t : EquivalenceTable} {ms : List Member} :
    t.checkFree ms = .ok () ↔ ∀ m ∈ ms, t.classAt? m.revision (.int m.code) = none := by
  induction ms with
  | nil => simp [checkFree]
  | cons m ms ih =>
    rw [checkFree, List.forall_mem_cons]
    cases h : t.classAt? m.revision (.int m.code) with
    | some c => simp [refuse]
    | none => simp [ih]

/-- **Adding a class** succeeds exactly if none of its members is an event of a class that is there;
it then comes last. -/
theorem add_eq_ok_iff {t t' : EquivalenceTable} {c : EquivalenceClass} :
    t.add c = .ok t' ↔ (∀ m ∈ c.members, t.classAt? m.revision (.int m.code) = none) ∧
      t' = ⟨t.classes ++ [c]⟩ := by
  rw [add, Attempt.bind_eq_ok, ← checkFree_eq_ok_iff]
  constructor
  · rintro ⟨_, hfree, h⟩
    cases h
    exact ⟨hfree, rfl⟩
  · rintro ⟨hfree, rfl⟩
    exact ⟨(), hfree, rfl⟩

/-! ### All tables -/

/-- The tables that come about by adding classes. -/
inductive Reachable : EquivalenceTable → Prop
  | empty : Reachable EquivalenceTable.empty
  | add {t t' : EquivalenceTable} {c : EquivalenceClass} (ht : Reachable t)
      (h : t.add c = .ok t') : Reachable t'

/-- No two classes share an event. -/
def Disjoint (t : EquivalenceTable) : Prop := t.classes.Pairwise fun c d => ¬ c.Shares d

theorem Disjoint.add {t t' : EquivalenceTable} {c : EquivalenceClass} (ht : t.Disjoint)
    (h : t.add c = .ok t') : t'.Disjoint := by
  obtain ⟨hfree, rfl⟩ := add_eq_ok_iff.mp h
  refine List.pairwise_append.mpr ⟨ht, List.pairwise_singleton _ _, fun d hd c' hc' => ?_⟩
  rw [List.mem_singleton.mp hc']
  intro hshares
  obtain ⟨m, hm, hat⟩ := hshares.exists_member
  exact List.find?_eq_none.mp (hfree m hm) d hd hat

/-- **No event belongs to two classes** of a table built by adding. -/
theorem Reachable.disjoint {t : EquivalenceTable} (h : t.Reachable) : t.Disjoint := by
  induction h with
  | empty => exact .nil
  | add _ h ih => exact ih.add h

theorem indexAt?_eq_some_iff {t : EquivalenceTable} (ht : t.Disjoint) {revision : Revision}
    {code : Value} {i : Nat} : t.indexAt? revision code = some i ↔
      ∃ c, t.classes[i]? = some c ∧ c.isAt revision code := by
  rw [indexAt?, List.findIdx?_eq_some_iff_getElem]
  constructor
  · rintro ⟨hi, hat, -⟩
    exact ⟨t.classes[i], List.getElem?_eq_getElem hi, hat⟩
  · rintro ⟨c, hc, hat⟩
    obtain ⟨hi, rfl⟩ := List.getElem?_eq_some_iff.mp hc
    refine ⟨hi, hat, fun j hj hat' => ?_⟩
    have hdisjoint := List.pairwise_iff_getElem.mp ht j i (Nat.lt_trans hj hi) hi hj
    exact hdisjoint ⟨revision, code, hat', hat⟩

end EquivalenceTable

end EventDialects
