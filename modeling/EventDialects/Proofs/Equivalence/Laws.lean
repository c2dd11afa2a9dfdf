import EventDialects.Proofs.Equivalence.Decision
import EventDialects.Proofs.Value.Normal

/-!
# The laws of equivalence

The comparison of two records is written from one side: it goes through the names of the first
record and stops early, and what an ignored slot counts depends on the other record.  What it
decides is nevertheless symmetric, and a record is equivalent to itself if a class has a member for
it.  It is transitive where nothing is ignored; where slots are ignored it is not, since a record
without the slot agrees with records that differ in it.

* `SameMultiset.symm`, `SameMultiset.trans`: the laws of multisets.
* `EquivalenceClass.Agrees.symm`, `Agrees.trans`, `Agrees.of_values`: the laws of agreement.
* `EquivalenceTable.areEquivalent_laws`: **symmetric, reflexive on members, and transitive where
  nothing is ignored**.
-/

namespace EventDialects

open List (Forall₂)
open Value (SameMultiset normalItems normalItems_eq_ok_iff)

namespace Value.SameMultiset

theorem symm {xs ys : List Value} (h : SameMultiset xs ys) : SameMultiset ys xs := by
  obtain ⟨zs, hzs, he⟩ := h
  have hback : SameMultiset zs xs :=
    ⟨xs, .refl _, forall₂_equal_symm (fun _ _ _ => equal_symm) he⟩
  exact hback.of_perm hzs (.refl _)

theorem trans {xs ys us : List Value} (hxy : SameMultiset xs ys) (hyu : SameMultiset ys us) :
    SameMultiset xs us := by
  obtain ⟨zs, hzs, he⟩ := hxy
  have hzu : SameMultiset zs us := hyu.of_perm hzs.symm (.refl _)
  obtain ⟨ws, hws, he'⟩ := hzu
  exact ⟨ws, hws, forall₂_equal_trans (fun _ _ _ _ => equal_trans) he he'⟩

end Value.SameMultiset

namespace EquivalenceClass

variable {c : EquivalenceClass}

/-! ### Agreement -/

theorem Agrees.symm {es fs : Entries} (h : c.Agrees es fs) : c.Agrees fs es := by
  obtain ⟨xs, ys, hxs, hys, hsame⟩ := h.multisets
  have hmatches := h.toMatches.symm
  exact ⟨hmatches.left, hmatches.right, hmatches.values, ys, xs, hys, hxs, hsame.symm⟩

theorem Agrees.trans {es fs gs : Entries} (hef : c.Agrees es fs) (hfg : c.Agrees fs gs) :
    c.Agrees es gs := by
  refine ⟨fun e he => ?_, fun g hg => ?_, fun e he g hg hge hgroups => ?_, ?_⟩
  · obtain ⟨f, hf, hfe⟩ := hef.left e he
    obtain ⟨g, hg, hgf⟩ := hfg.left f hf
    exact ⟨g, hg, Value.equal_trans hgf hfe⟩
  · obtain ⟨f, hf, hfg'⟩ := hfg.right g hg
    obtain ⟨e, he, hef'⟩ := hef.right f hf
    exact ⟨e, he, Value.equal_trans hef' hfg'⟩
  · obtain ⟨f, hf, hfe⟩ := hef.left e he
    have hgf : g.1.equal f.1 := Value.equal_trans hge (Value.equal_symm hfe)
    have hgroups' : ¬ c.groups f.1 := by rwa [groups_congr hfe]
    exact Value.comparesEqual_trans (hef.values e he f hf hfe hgroups)
      (hfg.values f hf g hg hgf hgroups')
  · obtain ⟨xs, ys, hxs, hys, hxy⟩ := hef.multisets
    obtain ⟨ys', zs, hys', hzs, hyz⟩ := hfg.multisets
    obtain rfl : ys = ys' := Except.ok.inj (hys.symm.trans hys')
    exact ⟨xs, zs, hxs, hzs, hxy.trans hyz⟩

theorem forall₂_grouped {es gs : Entries}
    (h : Forall₂ (fun e g => g.1.equal e.1 ∧ e.2.equal g.2) es gs) :
    Forall₂ (fun v w => v.equal w) (c.grouped es) (c.grouped gs) := by
  induction h with
  | nil => exact .nil
  | @cons e g es gs heg _ ih =>
    rw [grouped_cons, grouped_cons, groups_congr heg.1]
    split
    · exact .cons heg.2 ih
    · exact ih

/-- Mappings with the same names and equal values under each of them agree, whatever the class
compares as a group. -/
theorem Agrees.of_values {es fs : Entries} (hes : es.Distinct) (hfs : fs.Distinct)
    (hce : ∀ e ∈ es, e.2.Countable) (hcf : ∀ f ∈ fs, f.2.Countable)
    (left : ∀ e ∈ es, ∃ f ∈ fs, f.1.equal e.1) (right : ∀ f ∈ fs, ∃ e ∈ es, e.1.equal f.1)
    (values : ∀ e ∈ es, ∀ f ∈ fs, f.1.equal e.1 → e.2.comparesEqual f.2) : c.Agrees es fs := by
  refine ⟨left, right, fun e he f hf hfe _ => values e he f hf hfe, ?_⟩
  have countable {es : Entries} (h : ∀ e ∈ es, e.2.Countable) :
      ∀ v ∈ c.grouped es, v.Countable := by
    intro v hv
    obtain ⟨e, he, rfl⟩ := List.mem_map.mp hv
    exact h e (List.mem_filter.mp he).1
  obtain ⟨xs, hxs⟩ := Value.exists_normalItems (countable hce)
  obtain ⟨ys, hys⟩ := Value.exists_normalItems (countable hcf)
  -- The second mapping in the order of the first.
  obtain ⟨gs, hperm, haligned⟩ := Entries.exists_aligned hes hfs left right
  have hpairs : Forall₂ (fun e g => g.1.equal e.1 ∧ e.2.equal g.2) es gs :=
    forall₂_of_mem haligned fun e he g hg hge =>
      ⟨hge, (Value.comparesEqual_iff.mp (values e he g (hperm.mem_iff.mp hg) hge)).1⟩
  obtain ⟨zs, hzs, hzy⟩ := Value.exists_normalItems_of_perm hys ((hperm.filter _).map _)
  have hequal := Value.forall₂_equal_of_normal (fun _ _ _ _ _ => Value.equal_of_normal)
    (forall₂_grouped hpairs) (normalItems_eq_ok_iff.mp hxs) (normalItems_eq_ok_iff.mp hzs)
  exact ⟨xs, ys, hxs, hys, zs, hzy, hequal⟩

/-! ### Members of records -/

theorem Shares.symm {d : EquivalenceClass} (h : c.Shares d) : d.Shares c := by
  obtain ⟨revision, code, hc, hd⟩ := h
  exact ⟨revision, code, hd, hc⟩

end EquivalenceClass

namespace Member

variable {m : Member}

/-- A member that ignores nothing collects the same arguments against all records. -/
theorem collected_eq_of_ignore (h : m.ignore = []) (others others' : List Value) (r : Record) :
    m.collected others r = m.collected others' r := by
  have hnone (others : List Value) : m.omits others = fun _ => false := by
    funext slot
    rw [omits, h, List.any_nil, Bool.false_and]
  rw [collected, collected, canonicalize, canonicalize, hnone, hnone]

/-- What a member collects of a record agrees with itself, if all arguments that are numbers are
numbers. -/
theorem agrees_collected_self (c : EquivalenceClass) {r : Record}
    (hcountable : ∀ v ∈ r.arguments, v.Countable) (hnan : ∀ v ∈ r.arguments, v.isNaN = false)
    (others : List Value) : c.Agrees (m.collected others r) (m.collected others r) := by
  have hdistinct := Entries.distinct_ofPairs (m.canonicalize others r.named)
  have hentries : ∀ e ∈ m.collected others r, True ∧ e.2.isNaN = false := by
    refine Entries.forall_mem_ofPairs (p := fun _ => True) (q := fun v => v.isNaN = false)
      fun e he => ?_
    obtain ⟨e', he', -, hv⟩ := mem_canonicalize he
    exact ⟨trivial, hv ▸ hnan e'.2 (List.of_mem_zip he').2⟩
  refine .of_values hdistinct hdistinct (countable_collected hcountable)
    (countable_collected hcountable) (fun e he => ⟨e, he, Value.equal_self e.1⟩)
    (fun e he => ⟨e, he, Value.equal_self e.1⟩) fun e he f hf hfe => ?_
  rw [hdistinct.eq_of_equal hf he hfe]
  exact Value.comparesEqual_iff.mpr ⟨Value.equal_self e.2, (hentries e he).2⟩

end Member

namespace EquivalenceTable

variable {t : EquivalenceTable}

/-! ### Equivalence -/

theorem eq_of_isAt (ht : t.Disjoint) {c d : EquivalenceClass} (hc : c ∈ t.classes)
    (hd : d ∈ t.classes) {revision : Revision} {code : Value} (hcat : c.isAt revision code)
    (hdat : d.isAt revision code) : c = d :=
  eq_of_pairwise_not (r := EquivalenceClass.Shares) (fun _ _ h => h.symm) ht hc hd
    ⟨revision, code, hcat, hdat⟩

section Members

variable (ht : t.Reachable) (hnames : ∀ c ∈ t.classes, ∀ m ∈ c.members, m.RenamesNames)
include ht hnames

/-- Equivalent records have members in one class, and what they collect against each other agrees.
-/
theorem areEquivalent_eq_true_iff {a b : Record} (ha : a.Comparable) (hb : b.Comparable) :
    t.areEquivalent a b = .ok true ↔
      ∃ c ∈ t.classes, ∃ ma mb, c.memberFor? a = some ma ∧ c.memberFor? b = some mb ∧
        c.Agrees (ma.collected (mb.canonicals b) a) (mb.collected (ma.canonicals a) b) := by
  obtain ⟨verdict, hcheck, hverdict⟩ := areEquivalent_eq_ok ht.disjoint ha hb
    fun c hc ma mb hma hmb => ⟨hnames c hc ma (EquivalenceClass.mem_of_memberFor? hma),
      hnames c hc mb (EquivalenceClass.mem_of_memberFor? hmb)⟩
  rw [hcheck, Except.ok.injEq, hverdict]

theorem areEquivalent_symm {a b : Record} (ha : a.Comparable) (hb : b.Comparable)
    (h : t.areEquivalent a b = .ok true) : t.areEquivalent b a = .ok true := by
  rw [areEquivalent_eq_true_iff ht hnames ha hb] at h
  obtain ⟨c, hc, ma, mb, hma, hmb, hagrees⟩ := h
  rw [areEquivalent_eq_true_iff ht hnames hb ha]
  exact ⟨c, hc, mb, ma, hmb, hma, hagrees.symm⟩

theorem areEquivalent_self_iff {a : Record} (ha : a.Comparable)
    (hnan : ∀ v ∈ a.arguments, v.isNaN = false) : t.areEquivalent a a = .ok true ↔
      ∃ c ∈ t.classes, ∃ m ∈ c.members, m.isAt (.ofValue a.revision) a.code ∧
        m.event.comparesEqual a.event := by
  simp only [areEquivalent_eq_true_iff ht hnames ha ha,
    ← EquivalenceClass.exists_memberFor?_iff]
  constructor
  · rintro ⟨c, hc, m, -, hm, -, -⟩
    exact ⟨c, hc, m, hm⟩
  · rintro ⟨c, hc, m, hm⟩
    exact ⟨c, hc, m, m, hm, hm, Member.agrees_collected_self c ha.arguments hnan _⟩

theorem areEquivalent_trans {c : EquivalenceClass} (hc : c ∈ t.classes)
    (hignore : ∀ m ∈ c.members, m.ignore = []) {a b d : Record} (ha : a.Comparable)
    (hb : b.Comparable) (hd : d.Comparable) (hat : c.isAt (.ofValue a.revision) a.code)
    (hab : t.areEquivalent a b = .ok true) (hbd : t.areEquivalent b d = .ok true) :
    t.areEquivalent a d = .ok true := by
  rw [areEquivalent_eq_true_iff ht hnames ha hb] at hab
  rw [areEquivalent_eq_true_iff ht hnames hb hd] at hbd
  rw [areEquivalent_eq_true_iff ht hnames ha hd]
  obtain ⟨c', hc', ma, mb, hma, hmb, hagrees⟩ := hab
  obtain ⟨c'', hc'', mb', md, hmb', hmd, hagrees'⟩ := hbd
  -- The class of the first record is that of the second one, and so that of the third.
  obtain rfl := eq_of_isAt ht.disjoint hc hc' hat (EquivalenceClass.isAt_of_memberFor? hma)
  obtain rfl := eq_of_memberFor? ht.disjoint hc hc'' hmb hmb'
  obtain rfl : mb = mb' := Option.some.inj (hmb.symm.trans hmb')
  have ignores {r : Record} {m : Member} (hm : c.memberFor? r = some m) :=
    Member.collected_eq_of_ignore (hignore m (EquivalenceClass.mem_of_memberFor? hm))
  rw [ignores hmb (md.canonicals d) (ma.canonicals a)] at hagrees'
  refine ⟨c, hc, ma, md, hma, hmd, ?_⟩
  rw [ignores hma (md.canonicals d) (mb.canonicals b),
    ignores hmd (ma.canonicals a) (mb.canonicals b)]
  exact hagrees.trans hagrees'

/-- **The laws of equivalence**, for comparable records: the check refuses nothing and gives the
same verdict both ways; a record without what is not a number is equivalent to itself exactly if a
class has a member with its revision, code and event name; and in a class of which no member ignores
a slot, equivalence is transitive. -/
theorem areEquivalent_laws :
    (∀ a b : Record, a.Comparable → b.Comparable →
      ∃ verdict, t.areEquivalent a b = .ok verdict ∧ t.areEquivalent b a = .ok verdict) ∧
    (∀ a : Record, a.Comparable → (∀ v ∈ a.arguments, v.isNaN = false) →
      (t.areEquivalent a a = .ok true ↔ ∃ c ∈ t.classes, ∃ m ∈ c.members,
        m.isAt (.ofValue a.revision) a.code ∧ m.event.comparesEqual a.event)) ∧
    ∀ c ∈ t.classes, (∀ m ∈ c.members, m.ignore = []) →
      ∀ a b d : Record, a.Comparable → b.Comparable → d.Comparable →
        c.isAt (.ofValue a.revision) a.code → t.areEquivalent a b = .ok true →
          t.areEquivalent b d = .ok true → t.areEquivalent a d = .ok true := by
  refine ⟨fun a b ha hb => ?_, fun a ha hnan => ?_, fun c hc hignore a b d ha hb hd => ?_⟩
  · have decided {a b : Record} (ha : a.Comparable) (hb : b.Comparable) :
        ∃ verdict, t.areEquivalent a b = .ok verdict := by
      obtain ⟨verdict, hcheck, -⟩ := areEquivalent_eq_ok ht.disjoint ha hb
        fun c hc ma mb hma hmb => ⟨hnames c hc ma (EquivalenceClass.mem_of_memberFor? hma),
          hnames c hc mb (EquivalenceClass.mem_of_memberFor? hmb)⟩
      exact ⟨verdict, hcheck⟩
    obtain ⟨there, hthere⟩ := decided ha hb
    obtain ⟨back, hback⟩ := decided hb ha
    cases there with
    | true => exact ⟨true, hthere, areEquivalent_symm ht hnames ha hb hthere⟩
    | false =>
      cases back with
      | true =>
        have htrue := areEquivalent_symm ht hnames hb ha hback
        cases hthere.symm.trans htrue
      | false => exact ⟨false, hthere, hback⟩
  · exact areEquivalent_self_iff ht hnames ha hnan
  · exact areEquivalent_trans ht hnames hc hignore ha hb hd

end Members

def flaggedTurn : Record :=
  { handheldTurn with arguments :=
      [.tuple [.int 3, .int (-1)], .ref .pid (.int 5), .list [.int 7],
        .set [.variant .battleFlag 1]] }

-- Where the flags are ignored, a turn without flags is equivalent to turns that differ in them.
example : (EquivalenceTable.areEquivalent ⟨[turns]⟩ handheldTurn consoleTurn).toOption = some true ∧
    (EquivalenceTable.areEquivalent ⟨[turns]⟩ consoleTurn flaggedTurn).toOption = some true ∧
    (EquivalenceTable.areEquivalent ⟨[turns]⟩ handheldTurn flaggedTurn).toOption = some false := by
  decide +kernel

def strictTurns : EquivalenceClass :=
  { turns with members := turns.members.map fun m => { m with ignore := [] } }

/-- A turn without flags, whose leaders are given in one order. -/
def guardedTurn : Record where
  revision := .str "FE14"
  code := .int 1
  event := .str "Turn"
  slotNames := [.str "start", .str "leader", .str "guard"]
  arguments := [.tuple [.int 3, .int (-1)], .ref .pid (.int 5), .list [.int 7]]

def swappedTurn : Record :=
  { guardedTurn with arguments := [.tuple [.int 3, .int (-1)], .list [.int 7], .ref .pid (.int 5)] }

theorem areEquivalent_laws_turns :
    EquivalenceTable.areEquivalent ⟨[strictTurns]⟩ consoleTurn guardedTurn = .ok true ∧
      EquivalenceTable.areEquivalent ⟨[strictTurns]⟩ guardedTurn guardedTurn = .ok true ∧
      EquivalenceTable.areEquivalent ⟨[strictTurns]⟩ guardedTurn swappedTurn = .ok true := by
  have hreachable : EquivalenceTable.Reachable ⟨[strictTurns]⟩ :=
    .add .empty (add_eq_ok_iff.mpr ⟨by decide +kernel, rfl⟩)
  have hnames : ∀ c ∈ [strictTurns], ∀ m ∈ c.members, m.RenamesNames := by decide +kernel
  have hconsole : consoleTurn.Comparable := ⟨rfl, rfl, by decide +kernel, by decide +kernel⟩
  have hguarded : guardedTurn.Comparable := ⟨rfl, rfl, by decide +kernel, by decide +kernel⟩
  have hswapped : swappedTurn.Comparable := ⟨rfl, rfl, by decide +kernel, by decide +kernel⟩
  have hthere : EquivalenceTable.areEquivalent ⟨[strictTurns]⟩ guardedTurn consoleTurn =
    .ok true := Attempt.eq_ok_of_toOption (by decide +kernel)
  have hnext : EquivalenceTable.areEquivalent ⟨[strictTurns]⟩ consoleTurn swappedTurn =
    .ok true := Attempt.eq_ok_of_toOption (by decide +kernel)
  obtain ⟨hsymm, hself, htrans⟩ := areEquivalent_laws hreachable hnames
  refine ⟨?_, ?_, ?_⟩
  · obtain ⟨verdict, hcheck, hback⟩ := hsymm guardedTurn consoleTurn hguarded hconsole
    rwa [← hcheck.symm.trans hthere]
  · rw [hself guardedTurn hguarded (by decide +kernel)]
    exact ⟨strictTurns, List.mem_cons_self, by decide +kernel⟩
  · exact htrans strictTurns List.mem_cons_self (by decide +kernel) guardedTurn consoleTurn
      swappedTurn hguarded hconsole hswapped (by decide +kernel) hthere hnext

end EquivalenceTable

end EventDialects
