import EventDialects.Equivalence.Indexed
import EventDialects.Proofs.Equivalence.Classes
import EventDialects.Proofs.Value.Entries

/-!
# The index of an equivalence table

A table finds the class of an event by going through its classes, and an indexed table looks it up.
Adding a class to the latter changes it step by step: a member that is refused must leave none of
the earlier ones in the index, and nothing that was entered may be entered again for another class.
That nothing is entered before all members have passed, and that the index stays in step with the
list, is what is shown here.

Classes are added to a new table in any number and order, and some of them are refused.  The tables
that come about in this way mirror those of `EquivalenceTable.Reachable`, in which no event belongs
to two classes.

* `EquivalenceTable.add_eq_error_iff`: what a class is refused for.
* `EquivalenceTable.classFor_eq_some_iff`, `classFor_eq_none_iff`: which class is found, if any.
* `Indexed.Mirrors.perform_add`: **one step** refuses and accepts alike with an index and without; it
  keeps the index in step with the classes, and leaves it alone if it refuses.
* `Indexed.exists_mirrors_after`: **every run** does.
* `EquivalenceTable.index_exact_after`: **the index is exact after any run**.
-/

namespace EventDialects

theorem EquivalenceClass.isAt_of_mem {c : EquivalenceClass} {m : Member} (hm : m ∈ c.members) :
    c.isAt m.revision (.int m.code) :=
  isAt_iff.mpr ⟨m, hm, rfl, by rw [Value.equal_int, beq_self_eq_true]⟩

namespace EquivalenceTable

/-! ### Refusals -/

/-- The first event among members that belongs to a class **takes** the blame. -/
theorem checkFree_eq_error_iff {t : EquivalenceTable} {ms : List Member} {e : Failure} :
    t.checkFree ms = .error e ↔ ∃ before m after d, ms = before ++ m :: after ∧
      (∀ m' ∈ before, t.classAt? m'.revision (.int m'.code) = none) ∧
      t.classAt? m.revision (.int m.code) = some d ∧
      e = (Failure.refused (.definition (.memberTaken m.revision m.code d.name))).raised := by
  constructor
  · intro h
    induction ms with
    | nil => cases h
    | cons m ms ih =>
      rw [checkFree] at h
      cases hm : t.classAt? m.revision (.int m.code) with
      | some d =>
        rw [hm] at h
        cases h
        exact ⟨[], m, ms, d, rfl, fun _ hm' => absurd hm' List.not_mem_nil, hm, rfl⟩
      | none =>
        rw [hm] at h
        obtain ⟨before, m', after, d, rfl, hbefore, hd⟩ := ih h
        exact ⟨m :: before, m', after, d, rfl, List.forall_mem_cons.mpr ⟨hm, hbefore⟩, hd⟩
  · rintro ⟨before, m, after, d, rfl, hbefore, hd, rfl⟩
    induction before with
    | nil =>
      rw [List.nil_append, checkFree, hd]
      rfl
    | cons m' before ih =>
      obtain ⟨hm', hbefore⟩ := List.forall_mem_cons.mp hbefore
      rw [List.cons_append, checkFree, hm']
      exact ih hbefore

/-- **A class is refused** for the first of its members that is an event of a class of the table. -/
theorem add_eq_error_iff {t : EquivalenceTable} {c : EquivalenceClass} {e : Failure} :
    t.add c = .error e ↔ ∃ before m after d, c.members = before ++ m :: after ∧
      (∀ m' ∈ before, t.classAt? m'.revision (.int m'.code) = none) ∧
      t.classAt? m.revision (.int m.code) = some d ∧
      e = (Failure.refused (.definition (.memberTaken m.revision m.code d.name))).raised := by
  rw [← checkFree_eq_error_iff, add, Attempt.bind_eq_error]
  refine or_iff_left ?_
  rintro ⟨-, -, h⟩
  cases h

theorem exists_classAt?_iff {t : EquivalenceTable} {revision : Revision} {code : Value} :
    (∃ d, t.classAt? revision code = some d) ↔ ∃ d ∈ t.classes, d.isAt revision code := by
  rw [← Option.isSome_iff_exists, classAt?, List.find?_isSome]

/-- A class is refused exactly if one of its members has the revision and the code of a member of a
class of the table. -/
theorem exists_add_eq_error_iff {t : EquivalenceTable} {c : EquivalenceClass} :
    (∃ e, t.add c = .error e) ↔ ∃ m ∈ c.members, ∃ d ∈ t.classes, ∃ m' ∈ d.members,
      m'.revision = m.revision ∧ m'.code = m.code := by
  have htaken : (∃ m ∈ c.members, ∃ d, t.classAt? m.revision (.int m.code) = some d) ↔
      ∃ m ∈ c.members, ∃ d ∈ t.classes, ∃ m' ∈ d.members,
        m'.revision = m.revision ∧ m'.code = m.code := by
    simp only [exists_classAt?_iff, EquivalenceClass.isAt_iff, Value.equal_int, beq_iff_eq]
  rw [← htaken]
  constructor
  · rintro ⟨e, he⟩
    obtain ⟨before, m, after, d, hms, -, hd, -⟩ := add_eq_error_iff.mp he
    exact ⟨m, by simp [hms], d, hd⟩
  · rintro ⟨m, hm, d, hd⟩
    cases hadd : t.add c with
    | error e => exact ⟨e, rfl⟩
    | ok t' =>
      have hfree := (add_eq_ok_iff.mp hadd).1 m hm
      rw [hd] at hfree
      cases hfree

/-! ### Look-ups -/

theorem classFor_eq_ok_iff {t : EquivalenceTable} {revision code : Value}
    {found : Option EquivalenceClass} : t.classFor revision code = .ok found ↔
      revision.printable ∧ code.hashable ∧ t.classAt? (.ofValue revision) code = found := by
  simp only [classFor, Attempt.bind_eq_ok, ← Value.checkKey_eq_ok_iff]
  constructor
  · rintro ⟨_, hread, _, hkey, h⟩
    obtain ⟨hprint, rfl⟩ := Revision.read_eq_ok.mp hread
    cases h
    exact ⟨hprint, hkey, rfl⟩
  · rintro ⟨hprint, hkey, rfl⟩
    exact ⟨_, Revision.read_eq_ok.mpr ⟨hprint, rfl⟩, (), hkey, rfl⟩

theorem classAt?_eq_bind (t : EquivalenceTable) (revision : Revision) (code : Value) :
    t.classAt? revision code = (t.indexAt? revision code).bind fun i => t.classes[i]? := by
  rw [classAt?, indexAt?]
  induction t.classes with
  | nil => rfl
  | cons c cs ih =>
    rw [List.find?_cons, List.findIdx?_cons]
    cases c.isAt revision code with
    | true => rfl
    | false =>
      rw [ih]
      cases cs.findIdx? fun d => d.isAt revision code with
      | none => rfl
      | some i => rfl

theorem indexAt?_append (cs : List EquivalenceClass) (c : EquivalenceClass) (revision : Revision)
    (code : Value) : indexAt? ⟨cs ++ [c]⟩ revision code =
      (indexAt? ⟨cs⟩ revision code).or (if c.isAt revision code then some cs.length else none) := by
  rw [indexAt?, List.findIdx?_append, List.findIdx?_singleton, indexAt?]
  cases c.isAt revision code with
  | true => simp
  | false => rfl

theorem indexAt?_eq_none_iff {t : EquivalenceTable} {revision : Revision} {code : Value} :
    t.indexAt? revision code = none ↔ ∀ c ∈ t.classes, ¬ c.isAt revision code := by
  rw [indexAt?, List.findIdx?_eq_none_iff]
  simp only [Bool.not_eq_true]

theorem classAt?_eq_none_iff {t : EquivalenceTable} {revision : Revision} {code : Value} :
    t.classAt? revision code = none ↔ ∀ c ∈ t.classes, ¬ c.isAt revision code := by
  rw [classAt?, List.find?_eq_none]

theorem classAt?_eq_some_iff {t : EquivalenceTable} (ht : t.Disjoint) {revision : Revision}
    {code : Value} {c : EquivalenceClass} :
    t.classAt? revision code = some c ↔ c ∈ t.classes ∧ c.isAt revision code := by
  rw [classAt?_eq_bind, Option.bind_eq_some_iff]
  constructor
  · rintro ⟨i, hi, hc⟩
    obtain ⟨d, hd, hat⟩ := (indexAt?_eq_some_iff ht).mp hi
    obtain rfl := Option.some.inj (hd.symm.trans hc)
    exact ⟨List.mem_of_getElem? hc, hat⟩
  · rintro ⟨hmem, hat⟩
    obtain ⟨i, hi⟩ := List.getElem?_of_mem hmem
    exact ⟨i, (indexAt?_eq_some_iff ht).mpr ⟨c, hi, hat⟩, hi⟩

/-- **The class that is found** is the class with a member at the revision and the code. -/
theorem classFor_eq_some_iff {t : EquivalenceTable} (ht : t.Disjoint) {revision code : Value}
    (hprint : revision.printable) (hkey : code.hashable) {c : EquivalenceClass} :
    t.classFor revision code = .ok (some c) ↔ c ∈ t.classes ∧
      ∃ m ∈ c.members, m.revision = .ofValue revision ∧ (Value.int m.code).equal code := by
  rw [classFor_eq_ok_iff, and_iff_right hprint, and_iff_right hkey, classAt?_eq_some_iff ht,
    EquivalenceClass.isAt_iff]

/-- **None is found** if no class has such a member. -/
theorem classFor_eq_none_iff {t : EquivalenceTable} {revision code : Value}
    (hprint : revision.printable) (hkey : code.hashable) : t.classFor revision code = .ok none ↔
      ∀ c ∈ t.classes, ∀ m ∈ c.members,
        ¬ (m.revision = .ofValue revision ∧ (Value.int m.code).equal code) := by
  rw [classFor_eq_ok_iff, and_iff_right hprint, and_iff_right hkey, classAt?_eq_none_iff]
  simp only [EquivalenceClass.isAt_iff, not_exists, not_and]

/-- Two places whose classes have members with one revision and code are the same. -/
theorem Disjoint.place_unique {t : EquivalenceTable} (ht : t.Disjoint) {i j : Nat}
    {c d : EquivalenceClass} (hi : t.classes[i]? = some c) (hj : t.classes[j]? = some d)
    {m m' : Member} (hm : m ∈ c.members) (hm' : m' ∈ d.members)
    (hrevision : m.revision = m'.revision) (hcode : m.code = m'.code) : i = j := by
  have hc := EquivalenceClass.isAt_of_mem hm
  have hd : d.isAt m.revision (.int m.code) := by
    rw [hrevision, hcode]
    exact EquivalenceClass.isAt_of_mem hm'
  have hfound := (indexAt?_eq_some_iff ht).mpr ⟨c, hi, hc⟩
  exact Option.some.inj (hfound.symm.trans ((indexAt?_eq_some_iff ht).mpr ⟨d, hj, hd⟩))

/-! ### The index -/

theorem equal_key (revision revision' : Revision) (code code' : Value) :
    (key revision code).equal (key revision' code') =
      (decide (revision = revision') && code.equal code') := by
  simp [key, Value.equal, Value.equalAll, ← beq_eq_decide]

namespace Indexed

/-- Entering members one after the other puts each of their events under one place. -/
theorem perform_enter (place : Nat) (ms : List Member) : ∀ x : Indexed,
    ∃ index, (ms.forM (enter place)).perform x = (.ok (), ⟨x.classes, index⟩) ∧
      ∀ revision code, index.lookup? (key revision code) =
        if ms.any fun m => m.isAt revision code then some place else x.place? revision code := by
  induction ms with
  | nil => exact fun x => ⟨x.index, rfl, fun _ _ => rfl⟩
  | cons m ms ih =>
    intro x
    obtain ⟨index, hrest, hindex⟩ :=
      ih ⟨x.classes, x.index.insert (key m.revision (.int m.code)) place⟩
    refine ⟨index, hrest, fun revision code => ?_⟩
    rw [hindex, List.any_cons, place?, Entries.lookup?_insert, equal_key, ← Member.isAt]
    cases m.isAt revision code with
    | true => simp
    | false => rfl

/-- An indexed table **mirrors** a table if it has the same classes, and if its index has for every
event the place where the table finds its class. -/
structure Mirrors (x : Indexed) (t : EquivalenceTable) : Prop where
  classes : x.classes = t.classes
  place? : ∀ revision code, x.place? revision code = t.indexAt? revision code

theorem mirrors_empty : empty.Mirrors EquivalenceTable.empty := ⟨rfl, fun _ _ => rfl⟩

namespace Mirrors

variable {x : Indexed} {t : EquivalenceTable} (h : x.Mirrors t)

include h

theorem classFor_eq (revision code : Value) : x.classFor revision code = t.classFor revision code := by
  rw [Indexed.classFor, EquivalenceTable.classFor]
  simp only [h.place?, h.classes, classAt?_eq_bind]

/-- Both refuse members alike, and looking members up changes nothing. -/
theorem perform_checkFree (ms : List Member) :
    (ms.forM checkFree).perform x = (t.checkFree ms, x) := by
  induction ms with
  | nil => rfl
  | cons m ms ih =>
    rw [List.forM, Update.perform_bind, EquivalenceTable.checkFree, classAt?_eq_bind,
      ← h.place?, checkFree, Update.perform_bind, Update.perform_get]
    cases hi : x.place? m.revision (.int m.code) with
    | none =>
      simp only [hi]
      exact ih
    | some i =>
      have hlt : i < t.classes.length := by
        rw [h.place?] at hi
        exact (List.findIdx?_eq_some_iff_getElem.mp hi).1
      simp only [hi, Option.bind_some, nameAt, h.classes, List.getElem?_eq_getElem hlt,
        Option.map_some, Option.getD_some]
      rfl

theorem enter {c : EquivalenceClass}
    (hfree : ∀ m ∈ c.members, t.classAt? m.revision (.int m.code) = none) {index : Entries Nat}
    (hindex : ∀ revision code, index.lookup? (key revision code) =
      if c.isAt revision code then some x.classes.length else x.place? revision code) :
    Mirrors ⟨x.classes ++ [c], index⟩ ⟨t.classes ++ [c]⟩ := by
  refine ⟨by rw [h.classes], fun revision code => ?_⟩
  rw [Indexed.place?, hindex, h.place?, h.classes, indexAt?_append]
  by_cases hat : c.isAt revision code
  · -- An event of the class is an event of no class that is there, under an equal code.
    have hnone : t.indexAt? revision code = none := by
      refine indexAt?_eq_none_iff.mpr fun d hd hdat => ?_
      have hshares : d.Shares c := ⟨revision, code, hdat, hat⟩
      obtain ⟨m, hm, hdm⟩ := hshares.exists_member
      exact classAt?_eq_none_iff.mp (hfree m hm) d hd hdm
    rw [if_pos hat, hnone, if_pos hat, Option.none_or]
  · rw [if_neg hat, if_neg hat, Option.or_none]

/-- **One step**: a class is refused for the same reason with an index and without, and the index and
the list are then left as they were; or it is accepted by both, and the index is in step with the
classes. -/
theorem perform_add (c : EquivalenceClass) :
    (∃ e, (add c).perform x = (.error e, x) ∧ t.add c = .error e) ∨
      ∃ x' t', (add c).perform x = (.ok (), x') ∧ t.add c = .ok t' ∧ x'.Mirrors t' := by
  rw [add, Update.perform_bind, h.perform_checkFree, EquivalenceTable.add]
  cases hcheck : t.checkFree c.members with
  | error e => exact .inl ⟨e, rfl, rfl⟩
  | ok =>
    obtain ⟨index, hentered, hindex⟩ := perform_enter x.classes.length c.members x
    refine .inr ⟨⟨x.classes ++ [c], index⟩, _, ?_, rfl,
      h.enter (checkFree_eq_ok_iff.mp hcheck) hindex⟩
    simp only [Update.perform_bind, Update.perform_get, hentered, Update.perform_modify]

end Mirrors

/-- **Every run** keeps the index in step with the classes, and these are the ones that it accepts. -/
theorem exists_mirrors_after (calls : List EquivalenceClass) :
    ∃ t : EquivalenceTable, (Update.after add empty calls).Mirrors t ∧ t.Reachable ∧
      t.classes = Update.accepted add empty calls := by
  refine Update.after_induction
    (P := fun (x : Indexed) log => ∃ t : EquivalenceTable, x.Mirrors t ∧ t.Reachable ∧ t.classes = log)
    ?_ ?_ calls [] ⟨.empty, mirrors_empty, .empty, rfl⟩
  · rintro x x' log c ⟨t, hmirrors, ht, rfl⟩ hadd
    rcases hmirrors.perform_add c with ⟨e, he, -⟩ | ⟨x'', t', hx, htadd, hmirrors'⟩
    · cases he.symm.trans hadd
    · cases hx.symm.trans hadd
      exact ⟨t', hmirrors', ht.add htadd, add_classes htadd⟩
  · rintro x x' log c e ⟨t, hmirrors, ht, rfl⟩ hadd
    rcases hmirrors.perform_add c with ⟨e', he, -⟩ | ⟨x'', t', hx, -, -⟩
    · cases he.symm.trans hadd
      exact ⟨t, hmirrors, ht, rfl⟩
    · cases hx.symm.trans hadd

end Indexed

/-- **The index is exact after any run.**  Classes are added to a new table, and any of them may be
refused.  The list then holds those that were accepted, in the order of the calls, and no event
belongs to two of them.  What is found for a revision and a code is the class with such a member, and
nothing if there is none.  Adding another class fails exactly if one of its members has the revision
and the code of a member that is there; it fails for that, and leaves the list and the index as they
were.  A table without an index has the same classes, finds the same and refuses the same. -/
theorem index_exact_after {calls log : List EquivalenceClass} {x : Indexed}
    (hlog : Update.accepted Indexed.add .empty calls = log)
    (hx : Update.after Indexed.add .empty calls = x) :
    x.classes = log ∧
    (∀ (i j : Nat) (c d : EquivalenceClass), x.classes[i]? = some c → x.classes[j]? = some d →
      ∀ m ∈ c.members, ∀ m' ∈ d.members, m.revision = m'.revision → m.code = m'.code → i = j) ∧
    (∀ revision code, revision.printable → code.hashable →
      (∀ c, x.classFor revision code = .ok (some c) ↔ c ∈ x.classes ∧
        ∃ m ∈ c.members, m.revision = .ofValue revision ∧ (Value.int m.code).equal code) ∧
      (x.classFor revision code = .ok none ↔ ∀ c ∈ x.classes, ∀ m ∈ c.members,
        ¬ (m.revision = .ofValue revision ∧ (Value.int m.code).equal code))) ∧
    (∀ c, ((∃ e x', (Indexed.add c).perform x = (.error e, x')) ↔
        ∃ m ∈ c.members, ∃ d ∈ x.classes, ∃ m' ∈ d.members,
          m'.revision = m.revision ∧ m'.code = m.code) ∧
      ∀ e x', (Indexed.add c).perform x = (.error e, x') → x' = x ∧
        ∃ m ∈ c.members, ∃ d ∈ x.classes,
          e = (Failure.refused (.definition (.memberTaken m.revision m.code d.name))).raised) ∧
    ∃ t : EquivalenceTable, t.Reachable ∧ t.classes = x.classes ∧
      (∀ revision code, t.classFor revision code = x.classFor revision code) ∧
      ∀ c, (t.add c).map (fun _ => ()) = ((Indexed.add c).perform x).1 := by
  subst hlog hx
  obtain ⟨t, hmirrors, ht, hclasses⟩ := Indexed.exists_mirrors_after calls
  have hdisjoint := ht.disjoint
  refine ⟨hmirrors.classes.trans hclasses, ?_, ?_, fun c => ?_, t, ht, hmirrors.classes.symm,
    fun revision code => (hmirrors.classFor_eq revision code).symm, fun c => ?_⟩
  · rw [hmirrors.classes]
    intro i j c d hi hj m hm m' hm' hrevision hcode
    exact hdisjoint.place_unique hi hj hm hm' hrevision hcode
  · intro revision code hprint hkey
    rw [hmirrors.classFor_eq, hmirrors.classes]
    exact ⟨fun c => classFor_eq_some_iff hdisjoint hprint hkey, classFor_eq_none_iff hprint hkey⟩
  · rw [hmirrors.classes]
    rcases hmirrors.perform_add c with ⟨e, hx, hadd⟩ | ⟨x', t', hx, hadd, -⟩
    · rw [hx]
      refine ⟨iff_of_true ⟨e, _, rfl⟩ (exists_add_eq_error_iff.mp ⟨e, hadd⟩), fun e' x' he => ?_⟩
      cases he
      obtain ⟨before, m, after, d, hms, -, hd, rfl⟩ := add_eq_error_iff.mp hadd
      obtain ⟨hmem, -⟩ := (classAt?_eq_some_iff hdisjoint).mp hd
      exact ⟨rfl, m, by simp [hms], d, hmem, rfl⟩
    · rw [hx]
      refine ⟨iff_of_false (fun ⟨_, _, he⟩ => nomatch he) fun htaken => ?_, fun _ _ he => nomatch he⟩
      obtain ⟨e, he⟩ := exists_add_eq_error_iff.mpr htaken
      cases hadd.symm.trans he
  · rcases hmirrors.perform_add c with ⟨e, hx, hadd⟩ | ⟨x', t', hx, hadd, -⟩
    · rw [hx, hadd]
      rfl
    · rw [hx, hadd]
      rfl

/-- A class whose members are a title's event by a code each. -/
def namedClass (name : String) (members : List (String × Int)) : EquivalenceClass :=
  ⟨.str name, members.map fun p => ⟨⟨p.1, ""⟩, p.2, .str name, [], []⟩, []⟩

/-- A class that collides with another by its last member only. -/
def jumpClass : EquivalenceClass := namedClass "Jump" [("FE12", 3), ("FE13", 2)]

def collidingClasses : List EquivalenceClass :=
  [namedClass "Step" [("FE14", 1), ("FE13", 2)], jumpClass, namedClass "Leap" [("FE12", 3)]]

/-- The class that is refused leaves none of its members behind, so that the next one may have them,
and it is refused again. -/
theorem index_exact_after_collision : ∃ x, Update.after Indexed.add .empty collidingClasses = x ∧
    x.classes.map (·.name.text) = ["Step", "Leap"] ∧
    (∃ c ∈ x.classes, x.classFor (.str "FE12") (.int 3) = .ok (some c)) ∧
    ∃ e, (Indexed.add jumpClass).perform x = (.error e, x) := by
  obtain ⟨-, -, hfound, hadd, -⟩ := @index_exact_after collidingClasses _ _ rfl rfl
  refine ⟨_, rfl, by decide +kernel, ?_, ?_⟩
  · have hsome : ((Update.after Indexed.add .empty collidingClasses).classFor (.str "FE12")
        (.int 3)).toOption.join.isSome := by decide +kernel
    obtain ⟨c, hc⟩ := Option.isSome_iff_exists.mp hsome
    have hclass := Attempt.eq_ok_of_toOption (Option.join_eq_some_iff.mp hc)
    exact ⟨c, (((hfound _ _ rfl rfl).1 c).mp hclass).1, hclass⟩
  · have hrefused : ((Indexed.add jumpClass).perform
        (Update.after Indexed.add .empty collidingClasses)).1.toOption = none := by decide +kernel
    rcases h : (Indexed.add jumpClass).perform (Update.after Indexed.add .empty collidingClasses)
      with ⟨e | _, x'⟩
    · rw [((hadd jumpClass).2 e x' h).1]
      exact ⟨e, rfl⟩
    · rw [h] at hrefused
      cases hrefused

end EquivalenceTable

end EventDialects
