import EventDialects.Proofs.Equivalence.Agreement
import EventDialects.Proofs.Equivalence.Canonical
import EventDialects.Proofs.Equivalence.Classes

/-!
# Equivalence of records is decided

Two records are the same callback if their events are members of one class and their arguments agree
under the class's names, where an ignored slot counts only if the other record has one of the same
name.  `EquivalenceTable.Equivalent` states this relation, and `EquivalenceTable.areEquivalent`
decides it.

* `sameCallback_eq_ok_iff`: when two records of one class are compared, and with what result.
* `sameCallback_eq_ok`: with names for slots they are compared without failing.
* `areEquivalent_iff`: **the check decides the relation**, and refuses nothing.
-/

namespace EventDialects

/-! ### The relation -/

/-- A record is **comparable** if its revision can be printed, its code and the names of its slots
can be keys, and its arguments have countable forms. -/
structure Record.Comparable (r : Record) : Prop where
  revision : r.revision.printable
  code : r.code.hashable
  names : ∀ name ∈ r.slotNames, name.hashable
  arguments : ∀ v ∈ r.arguments, v.Countable

def Member.canonicals (m : Member) (r : Record) : List Value := r.slotNames.map m.canonical

/-- The arguments of a record by canonical name, as they are put into a mapping one after the other.
-/
def Member.collected (m : Member) (others : List Value) (r : Record) : Entries :=
  Entries.ofPairs (m.canonicalize others r.named)

/-- The arguments of a record that count against another record with some canonical names: those of
its slots that are not left out, under their canonical names. -/
def Member.remaining (m : Member) (others : List Value) (r : Record) : Entries :=
  m.canonicalize others (Entries.ofPairs r.named)

/-- Two records are **equivalent** if a class has a member for each, by revision, code and event
name, and the arguments of both that count against the other agree. -/
def EquivalenceTable.Equivalent (t : EquivalenceTable) (a b : Record) : Prop :=
  ∃ c ∈ t.classes, ∃ ma mb, c.memberFor? a = some ma ∧ c.memberFor? b = some mb ∧
    c.Agrees (ma.remaining (mb.canonicals b) a) (mb.remaining (ma.canonicals a) b)

namespace Member

variable {m : Member}

theorem mem_canonicalize {others : List Value} {es : Entries} {e : Value × Value}
    (h : e ∈ m.canonicalize others es) : ∃ e' ∈ es, m.canonical e'.1 = e.1 ∧ e'.2 = e.2 := by
  obtain ⟨e', he', rfl⟩ := List.mem_map.mp h
  exact ⟨e', (List.mem_filter.mp he').1, rfl, rfl⟩

theorem countable_collected {others : List Value} {r : Record}
    (hr : ∀ v ∈ r.arguments, v.Countable) : ∀ e ∈ m.collected others r, e.2.Countable := by
  have hnamed : ∀ e ∈ m.canonicalize others r.named, True ∧ e.2.Countable := by
    intro e he
    obtain ⟨e', he', -, hv⟩ := mem_canonicalize he
    exact ⟨trivial, hv ▸ hr e'.2 (List.of_mem_zip he').2⟩
  intro e he
  exact (Entries.forall_mem_ofPairs (p := fun _ => True) hnamed e he).2

/-- If no two slots get equal canonical names, the arguments that are collected are those that
remain. -/
theorem collected_eq_remaining {r : Record} (h : m.KeepsApart r.slotNames) (others : List Value) :
    m.collected others r = m.remaining others r :=
  canonicalize_ofPairs h others fun _ hp => (List.of_mem_zip hp).1

end Member

/-! ### The decision -/

/-- Two records are compared exactly if their slots and the canonical names of these can be keys. -/
theorem EquivalenceClass.sameCallback_eq_ok_iff {c : EquivalenceClass} {ma mb : Member}
    {a b : Record} {verdict : Bool} : c.sameCallback ma mb a b = .ok verdict ↔
      (∀ slot ∈ a.slotNames, ma.Keys slot) ∧ (∀ slot ∈ b.slotNames, mb.Keys slot) ∧
      c.agree (ma.collected (mb.canonicals b) a) (mb.collected (ma.canonicals a) b) =
        .ok verdict := by
  simp only [sameCallback, Attempt.bind_eq_ok]
  constructor
  · rintro ⟨namesA, hnamesA, _, hkeysA, namesB, hnamesB, _, hkeysB, es, hes, fs, hfs, h⟩
    obtain ⟨ha, rfl⟩ := Member.checkKeys_canonicalNames_iff.mp ⟨hnamesA, hkeysA⟩
    obtain ⟨hb, rfl⟩ := Member.checkKeys_canonicalNames_iff.mp ⟨hnamesB, hkeysB⟩
    rw [Member.canonicalArguments_of_keys _ ha] at hes
    rw [Member.canonicalArguments_of_keys _ hb] at hfs
    cases hes
    cases hfs
    exact ⟨ha, hb, h⟩
  · rintro ⟨ha, hb, h⟩
    obtain ⟨hnamesA, hkeysA⟩ := Member.checkKeys_canonicalNames_iff.mpr ⟨ha, rfl⟩
    obtain ⟨hnamesB, hkeysB⟩ := Member.checkKeys_canonicalNames_iff.mpr ⟨hb, rfl⟩
    exact ⟨_, hnamesA, (), hkeysA, _, hnamesB, (), hkeysB, _,
      Member.canonicalArguments_of_keys _ ha, _, Member.canonicalArguments_of_keys _ hb, h⟩

/-- Two records of one class are compared without failing, whatever their members rename. -/
theorem EquivalenceClass.sameCallback_eq_ok (c : EquivalenceClass) {ma mb : Member} {a b : Record}
    (hma : ma.RenamesNames) (hmb : mb.RenamesNames) (ha : a.Comparable) (hb : b.Comparable) :
    ∃ verdict, c.sameCallback ma mb a b = .ok verdict ∧ (verdict = true ↔
      c.Agrees (ma.collected (mb.canonicals b) a) (mb.collected (ma.canonicals a) b)) := by
  obtain ⟨verdict, hagree, hverdict⟩ := agree_eq_ok (c := c)
    (Entries.distinct_ofPairs (ma.canonicalize (mb.canonicals b) a.named))
    (Entries.distinct_ofPairs (mb.canonicalize (ma.canonicals a) b.named))
    (Member.countable_collected ha.arguments) (Member.countable_collected hb.arguments)
  refine ⟨verdict, sameCallback_eq_ok_iff.mpr ⟨fun slot hslot => ?_, fun slot hslot => ?_, hagree⟩,
    hverdict⟩
  · exact hma.keys (ha.names slot hslot)
  · exact hmb.keys (hb.names slot hslot)

namespace EquivalenceTable

theorem indexFor_eq {t : EquivalenceTable} {revision code : Value} (hprint : revision.printable)
    (h : code.hashable) :
    t.indexFor revision code = .ok (t.indexAt? (.ofValue revision) code) := by
  rw [indexFor, Revision.read_eq_ok.mpr ⟨hprint, rfl⟩, Value.checkKey_eq_ok_iff.mpr h]
  rfl

theorem indexAt?_of_memberFor? {t : EquivalenceTable} (ht : t.Disjoint) {c : EquivalenceClass}
    {i : Nat} (hc : t.classes[i]? = some c) {r : Record} {m : Member}
    (h : c.memberFor? r = some m) : t.indexAt? (.ofValue r.revision) r.code = some i :=
  (indexAt?_eq_some_iff ht).mpr ⟨c, hc, EquivalenceClass.isAt_of_memberFor? h⟩

theorem eq_of_memberFor? {t : EquivalenceTable} (ht : t.Disjoint) {c d : EquivalenceClass}
    (hc : c ∈ t.classes) (hd : d ∈ t.classes) {r : Record} {m m' : Member}
    (hm : c.memberFor? r = some m) (hm' : d.memberFor? r = some m') : c = d := by
  obtain ⟨i, hi⟩ := List.mem_iff_getElem?.mp hc
  obtain ⟨j, hj⟩ := List.mem_iff_getElem?.mp hd
  have hci := indexAt?_of_memberFor? ht hi hm
  have hdj := indexAt?_of_memberFor? ht hj hm'
  obtain rfl : i = j := Option.some.inj (hci.symm.trans hdj)
  exact Option.some.inj (hi.symm.trans hj)

theorem areEquivalent_of_members {t : EquivalenceTable} (ht : t.Disjoint) {c : EquivalenceClass}
    (hc : c ∈ t.classes) {a b : Record} {ma mb : Member} (hpa : a.revision.printable)
    (hpb : b.revision.printable) (ha : a.code.hashable) (hb : b.code.hashable)
    (hma : c.memberFor? a = some ma) (hmb : c.memberFor? b = some mb) :
    t.areEquivalent a b = c.sameCallback ma mb a b := by
  obtain ⟨i, hi⟩ := List.mem_iff_getElem?.mp hc
  rw [areEquivalent, indexFor_eq hpa ha, indexFor_eq hpb hb, indexAt?_of_memberFor? ht hi hma,
    indexAt?_of_memberFor? ht hi hmb]
  simp only [bind, Except.bind, ne_eq, not_true, if_false, hi, EquivalenceClass.memberFor_eq hpa,
    EquivalenceClass.memberFor_eq hpb, hma, hmb]

theorem areEquivalent_of_no_members {t : EquivalenceTable} {a b : Record}
    (hpa : a.revision.printable) (hpb : b.revision.printable) (ha : a.code.hashable)
    (hb : b.code.hashable) (h : ∀ c ∈ t.classes, ∀ ma mb, c.memberFor? a = some ma →
      c.memberFor? b ≠ some mb) : t.areEquivalent a b = .ok false := by
  rw [areEquivalent, indexFor_eq hpa ha, indexFor_eq hpb hb]
  simp only [bind, Except.bind]
  cases t.indexAt? (.ofValue a.revision) a.code with
  | none => rfl
  | some i =>
    by_cases hj : t.indexAt? (.ofValue b.revision) b.code = some i
    · simp only [hj, ne_eq, not_true, if_false]
      cases hc : t.classes[i]? with
      | none => rfl
      | some c =>
        simp only [EquivalenceClass.memberFor_eq hpa, EquivalenceClass.memberFor_eq hpb]
        cases hma : c.memberFor? a with
        | none => rfl
        | some ma =>
          cases hmb : c.memberFor? b with
          | none => rfl
          | some mb => exact absurd hmb (h c (List.mem_of_getElem? hc) ma mb hma)
    · simp only [ne_eq, hj, not_false_eq_true, if_true]
      rfl

/-- The check compares the arguments as they are collected, whatever the members rename. -/
theorem areEquivalent_eq_ok {t : EquivalenceTable} (ht : t.Disjoint) {a b : Record}
    (ha : a.Comparable) (hb : b.Comparable)
    (hmembers : ∀ c ∈ t.classes, ∀ ma mb, c.memberFor? a = some ma → c.memberFor? b = some mb →
      ma.RenamesNames ∧ mb.RenamesNames) :
    ∃ verdict, t.areEquivalent a b = .ok verdict ∧ (verdict = true ↔
      ∃ c ∈ t.classes, ∃ ma mb, c.memberFor? a = some ma ∧ c.memberFor? b = some mb ∧
        c.Agrees (ma.collected (mb.canonicals b) a) (mb.collected (ma.canonicals a) b)) := by
  by_cases h : ∃ c ∈ t.classes, ∃ ma mb, c.memberFor? a = some ma ∧ c.memberFor? b = some mb
  · obtain ⟨c, hc, ma, mb, hma, hmb⟩ := h
    obtain ⟨hra, hrb⟩ := hmembers c hc ma mb hma hmb
    obtain ⟨verdict, hsame, hverdict⟩ := c.sameCallback_eq_ok hra hrb ha hb
    refine ⟨verdict, ?_, hverdict.trans ⟨fun h => ⟨c, hc, ma, mb, hma, hmb, h⟩, ?_⟩⟩
    · rw [areEquivalent_of_members ht hc ha.revision hb.revision ha.code hb.code hma hmb, hsame]
    · rintro ⟨d, hd, ma', mb', hma', hmb', hagrees⟩
      obtain rfl := eq_of_memberFor? ht hc hd hma hma'
      obtain rfl : ma = ma' := Option.some.inj (hma.symm.trans hma')
      obtain rfl : mb = mb' := Option.some.inj (hmb.symm.trans hmb')
      exact hagrees
  · refine ⟨false, areEquivalent_of_no_members ha.revision hb.revision ha.code hb.code ?_, ?_⟩
    · intro c hc ma mb hma hmb
      exact h ⟨c, hc, ma, mb, hma, hmb⟩
    · constructor
      · intro hfalse
        cases hfalse
      · rintro ⟨c, hc, ma, mb, hma, hmb, -⟩
        exact absurd ⟨c, hc, ma, mb, hma, hmb⟩ h

/-- **The check decides the relation**, and refuses nothing.  The names of slots, and what members
rename them to, can be keys, and no member of both records' class gives two slots one name. -/
theorem areEquivalent_iff {t : EquivalenceTable} (ht : t.Reachable) {a b : Record}
    (ha : a.Comparable) (hb : b.Comparable)
    (hmembers : ∀ c ∈ t.classes, ∀ ma mb, c.memberFor? a = some ma → c.memberFor? b = some mb →
      (ma.RenamesNames ∧ ma.KeepsApart a.slotNames) ∧ mb.RenamesNames ∧ mb.KeepsApart b.slotNames) :
    ∃ verdict, t.areEquivalent a b = .ok verdict ∧ (verdict = true ↔ t.Equivalent a b) := by
  obtain ⟨verdict, hcheck, hverdict⟩ := areEquivalent_eq_ok ht.disjoint ha hb
    fun c hc ma mb hma hmb => ⟨(hmembers c hc ma mb hma hmb).1.1, (hmembers c hc ma mb hma hmb).2.1⟩
  refine ⟨verdict, hcheck, hverdict.trans ?_⟩
  refine exists_congr fun c => and_congr_right fun hc => exists_congr fun ma => exists_congr fun mb =>
    and_congr_right fun hma => and_congr_right fun hmb => ?_
  obtain ⟨⟨-, hka⟩, -, hkb⟩ := hmembers c hc ma mb hma hmb
  rw [Member.collected_eq_remaining hka, Member.collected_eq_remaining hkb]

/-- A class of turns: a slot has another name in each revision, the flags are ignored, and the
leaders may be given in any order. -/
def turns : EquivalenceClass where
  name := .str "Turn"
  members := [
    ⟨⟨"FE14", ""⟩, 1, .str "Turn", [(.str "start", .str "first")], [.str "flags"]⟩,
    ⟨⟨"FE9", ""⟩, 9, .str "Turn", [(.str "from", .str "first")], []⟩]
  orderInsensitive := [.str "leader", .str "guard"]

def handheldTurn : Record where
  revision := .str "FE14"
  code := .int 1
  event := .str "Turn"
  slotNames := [.str "start", .str "leader", .str "guard", .str "flags"]
  arguments := [.tuple [.int 3, .int (-1)], .ref .pid (.int 5), .list [.int 7], .set []]

def consoleTurn : Record where
  revision := .revision ⟨"FE9", ""⟩
  code := .int 9
  event := .str "Turn"
  slotNames := [.str "guard", .str "from", .str "leader"]
  arguments := [.ref .pid (.int 5), .tuple [.int 3, .int (-1)], .tuple [.int 7]]

theorem areEquivalent_iff_turns : EquivalenceTable.areEquivalent ⟨[turns]⟩ handheldTurn consoleTurn =
    .ok true ∧ EquivalenceTable.Equivalent ⟨[turns]⟩ handheldTurn consoleTurn := by
  have hreachable : EquivalenceTable.Reachable ⟨[turns]⟩ :=
    .add .empty (add_eq_ok_iff.mpr ⟨by decide +kernel, rfl⟩)
  have hleft : handheldTurn.Comparable := ⟨rfl, rfl, by decide +kernel, by decide +kernel⟩
  have hright : consoleTurn.Comparable := ⟨rfl, rfl, by decide +kernel, by decide +kernel⟩
  have hmembers : ∀ m ∈ turns.members, (m.RenamesNames ∧ m.KeepsApart handheldTurn.slotNames) ∧
      m.RenamesNames ∧ m.KeepsApart consoleTurn.slotNames := by decide +kernel
  obtain ⟨verdict, hcheck, hverdict⟩ := areEquivalent_iff hreachable hleft hright
    fun c hc ma mb hma hmb => by
      obtain rfl := List.mem_singleton.mp hc
      exact ⟨(hmembers ma (EquivalenceClass.mem_of_memberFor? hma)).1,
        (hmembers mb (EquivalenceClass.mem_of_memberFor? hmb)).2⟩
  have htrue : EquivalenceTable.areEquivalent ⟨[turns]⟩ handheldTurn consoleTurn = .ok true :=
    Attempt.eq_ok_of_toOption (by decide +kernel)
  have hsame : verdict = true := Except.ok.inj (hcheck.symm.trans htrue)
  exact ⟨htrue, hverdict.mp hsame⟩

end EquivalenceTable

end EventDialects
