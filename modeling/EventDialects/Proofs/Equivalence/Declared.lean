import EventDialects.Proofs.Equivalence.Definition
import EventDialects.Proofs.Equivalence.Index
import EventDialects.Proofs.Equivalence.Recognition

/-!
# Which of the declared members are used

A table checks the members of a class against the classes that it has, and not against each other.
A second declaration of an event is therefore refused if the first one stands in another class, but
within one class it is accepted.  A record then gets the first member that describes it, with the
renaming and the ignored slots of that one, and the later declarations are never used.

* `Member.Describes.memberFor?_eq`: of the members that describe a record the first is used.
* `EquivalenceTable.add_eq_error_of_mem`: **across classes** a second declaration is refused.
* `EquivalenceTable.event_eq_of_build`: in a definition it names the same event as the first.
* `EquivalenceTable.declared_exactly`: **which declaration is used**, for every member.
-/

namespace EventDialects

theorem Value.hashable_of_equal_int {n : Int} {v : Value} (h : (Value.int n).equal v) :
    v.hashable := by
  obtain ⟨b, hb, -⟩ := (equal_iff_of_number? rfl).mp h
  cases v with
  | bool | int | float => rfl
  | _ => cases hb

namespace Member

/-- A member **describes** the records with its revision, its code and the name of its event. -/
def Describes (m : Member) (r : Record) : Prop :=
  m.isAt (.ofValue r.revision) r.code ∧ m.event.comparesEqual r.event

/-- Whether another member has a member's revision, its code and the name of its event. -/
def coincides (m m' : Member) : Bool :=
  m'.isAt m.revision (.int m.code) && m'.event.comparesEqual m.event

theorem Describes.coincides_eq {m : Member} {r : Record} (h : m.Describes r) (m' : Member) :
    (m'.isAt (.ofValue r.revision) r.code && m'.event.comparesEqual r.event) =
      m.coincides m' := by
  obtain ⟨hat, hevent⟩ := h
  obtain ⟨hrevision, hcode⟩ := isAt_iff.mp hat
  rw [coincides, isAt, isAt, hrevision, Value.equal_congr_right hcode, Value.comparesEqual,
    Value.comparesEqual, Value.equal_congr_right (Value.comparesEqual_iff.mp hevent).1]

theorem Describes.coincides_self {m : Member} {r : Record} (h : m.Describes r) : m.coincides m := by
  rw [← h.coincides_eq, h.1, h.2]
  rfl

/-- **The first of the members that describe a record is used.** -/
theorem Describes.memberFor?_eq {m : Member} {r : Record} (h : m.Describes r)
    {c : EquivalenceClass} {before after : List Member} (hms : c.members = before ++ m :: after) :
    c.memberFor? r = some ((before.find? m.coincides).getD m) := by
  have hcoincides : (fun m' : Member => m'.isAt (.ofValue r.revision) r.code &&
      m'.event.comparesEqual r.event) = m.coincides := funext h.coincides_eq
  rw [EquivalenceClass.memberFor?, EquivalenceClass.memberAt?, hcoincides, hms, List.find?_append,
    List.find?_cons_of_pos h.coincides_self]
  cases before.find? m.coincides with
  | none => rfl
  | some m' => rfl

end Member

namespace EquivalenceTable

variable {t : EquivalenceTable}

theorem classFor_of_describes (ht : t.Disjoint) {c : EquivalenceClass} (hc : c ∈ t.classes)
    {m : Member} (hm : m ∈ c.members) {r : Record} (hprint : r.revision.printable)
    (h : m.Describes r) : t.classFor r.revision r.code = .ok (some c) := by
  have hat := Member.isAt_iff.mp h.1
  exact classFor_of_isAt ht hc hprint (Value.hashable_of_equal_int hat.2)
    (EquivalenceClass.isAt_iff.mpr ⟨m, hm, hat⟩)

/-- **Across classes a second declaration is refused**, as a fault of the definition. -/
theorem add_eq_error_of_mem {c d : EquivalenceClass} (hc : c ∈ t.classes) {m m' : Member}
    (hm : m ∈ c.members) (hm' : m' ∈ d.members) (hrevision : m'.revision = m.revision)
    (hcode : m'.code = m.code) : ∃ m'' ∈ d.members, ∃ c' ∈ t.classes, t.add d =
      refuse (.definition (.memberTaken m''.revision m''.code c'.name)) := by
  obtain ⟨e, he⟩ := exists_add_eq_error_iff.mpr
    ⟨m', hm', c, hc, m, hm, hrevision.symm, hcode.symm⟩
  obtain ⟨before, m'', after, c', hms, -, hc', rfl⟩ := add_eq_error_iff.mp he
  exact ⟨m'', by simp [hms], c', List.mem_of_find?_eq_some hc', he⟩

/-- **In a definition a second declaration names the same event**, as a code stands for one event of
a revision. -/
theorem event_eq_of_build {g : Registry} (hg : g.Reachable) {definition : Value}
    {source : String} (hbuild : build g definition source = .ok t) {c c' : EquivalenceClass}
    (hc : c ∈ t.classes) (hc' : c' ∈ t.classes) {m m' : Member} (hm : m ∈ c.members)
    (hm' : m' ∈ c'.members) (hrevision : m'.revision = m.revision) (hcode : m'.code = m.code) :
    m'.event = m.event := by
  obtain ⟨event, schema, hschema, hmcode, hmevent, -⟩ := (build_reachable hbuild).2 c hc m hm
  obtain ⟨event', schema', hschema', hmcode', hmevent', -⟩ :=
    (build_reachable hbuild).2 c' hc' m' hm'
  obtain ⟨table, htable, -, hfound⟩ := Registry.resolveName_eq_ok_iff.mp hschema
  obtain ⟨table', htable', -, hfound'⟩ := Registry.resolveName_eq_ok_iff.mp hschema'
  rw [hrevision] at htable'
  cases htable.symm.trans htable'
  have hcoherent := hg.coherent table (Registry.mem_tables_of_get htable)
  obtain rfl := hcoherent.eq_of_code (List.mem_of_find?_eq_some hfound')
    (List.mem_of_find?_eq_some hfound) (by rw [← hmcode, ← hmcode', hcode])
  rw [hmevent, hmevent']

/-- **Which declaration is used.**  For the records that a member describes its class is found, and
in it the member, unless an earlier member of the class has the same revision, code and event name:
then that one is used.  A second declaration in another class is refused.  In a table that a
definition makes, members of one revision and code have one event name, and coincide unless this is
NaN. -/
theorem declared_exactly
    (ht : t.Reachable ∨ ∃ g definition source, build g definition source = .ok t)
    {c : EquivalenceClass} (hc : c ∈ t.classes) {before after : List Member} {m : Member}
    (hms : c.members = before ++ m :: after) :
    (∀ r : Record, r.revision.printable → m.isAt (.ofValue r.revision) r.code →
      m.event.comparesEqual r.event →
        t.classFor r.revision r.code = .ok (some c) ∧
        c.memberFor r = .ok (some ((before.find? m.coincides).getD m))) ∧
    (∀ d : EquivalenceClass, (∃ m' ∈ d.members, m'.revision = m.revision ∧ m'.code = m.code) →
      ∃ m' ∈ d.members, ∃ c' ∈ t.classes, t.add d =
        refuse (.definition (.memberTaken m'.revision m'.code c'.name))) ∧
    ∀ g definition source, g.Reachable → build g definition source = .ok t →
      ∀ c' ∈ t.classes, ∀ m' ∈ c'.members, m'.revision = m.revision → m'.code = m.code →
        c' = c ∧ (m.event.isNaN = false → m.coincides m') := by
  have hdisjoint : t.Disjoint := by
    rcases ht with ht | ⟨g, definition, source, hbuild⟩
    · exact ht.disjoint
    · exact (build_reachable hbuild).1.disjoint
  have hm : m ∈ c.members := by simp [hms]
  refine ⟨fun r hprint hat hevent => ⟨?_, ?_⟩, ?_, ?_⟩
  · exact classFor_of_describes hdisjoint hc hm hprint ⟨hat, hevent⟩
  · rw [EquivalenceClass.memberFor_eq hprint, Member.Describes.memberFor?_eq ⟨hat, hevent⟩ hms]
  · rintro d ⟨m', hm', hrevision, hcode⟩
    exact add_eq_error_of_mem hc hm hm' hrevision hcode
  · intro g definition source hg hbuild c' hc' m' hm' hrevision hcode
    have hat : c'.isAt m.revision (.int m.code) := by
      rw [← hrevision, ← hcode]
      exact EquivalenceClass.isAt_of_mem hm'
    refine ⟨eq_of_isAt hdisjoint hc' hc hat (EquivalenceClass.isAt_of_mem hm), fun hnan => ?_⟩
    rw [Member.coincides, event_eq_of_build hg hbuild hc hc' hm hm' hrevision hcode,
      Bool.and_eq_true, Member.isAt_iff, hcode]
    exact ⟨⟨hrevision, Value.equal_self _⟩,
      Value.comparesEqual_iff.mpr ⟨Value.equal_self _, hnan⟩⟩

/-- A definition that declares a point twice in one class, with two names for its slot. -/
def pointTwice : Value :=
  .map [(.str "classes", .list [.map [
    (.str "name", .str "Point"),
    (.str "members", .list [
      .map [(.str "revision", .str "FE14"), (.str "slots", .map [(.str "x", .str "a")])],
      .map [(.str "revision", .str "FE14"), (.str "slots", .map [(.str "x", .str "b")])]])]])]

def pointCalled (name : String) : Member :=
  ⟨⟨"FE14", ""⟩, 1, .str "Point", [(.str "x", .str name)], []⟩

def twicePoint : EquivalenceClass := ⟨.str "Point", [pointCalled "a", pointCalled "b"], []⟩

theorem build_pointTwice : build points pointTwice "equivalences.yaml" = .ok ⟨[twicePoint]⟩ := rfl

/-- The first declaration is used, and a third one in a class of its own is refused. -/
theorem declared_exactly_point :
    twicePoint.memberFor (pointAt 1 2) = .ok (some (pointCalled "a")) ∧
      ∃ e, add ⟨[twicePoint]⟩ ⟨.str "Again", [pointCalled "c"], []⟩ = .error e := by
  have hms : twicePoint.members = [pointCalled "a"] ++ pointCalled "b" :: [] := rfl
  obtain ⟨hused, hrefused, -⟩ :=
    declared_exactly (.inr ⟨points, _, _, build_pointTwice⟩) List.mem_cons_self hms
  have hearlier : (pointCalled "b").coincides (pointCalled "a") := by decide +kernel
  obtain ⟨-, hmember⟩ := hused (pointAt 1 2) rfl (by decide +kernel) (by decide +kernel)
  rw [List.find?_cons_of_pos hearlier] at hmember
  refine ⟨hmember, ?_⟩
  obtain ⟨_, -, _, -, he⟩ := hrefused ⟨.str "Again", [pointCalled "c"], []⟩
    ⟨pointCalled "c", List.mem_cons_self, rfl, rfl⟩
  exact ⟨_, he⟩

/-- The second declaration in one class is accepted, by adding and in a definition, and a record
that it describes does not get it. -/
theorem shadowed_point :
    empty.add twicePoint = .ok ⟨[twicePoint]⟩ ∧
      build points pointTwice "equivalences.yaml" = .ok ⟨[twicePoint]⟩ ∧
      points.decode (.revision ⟨"FE14", ""⟩) (.int 1) (.list ([1, 2].map .int)) =
        .ok (pointAt 1 2) ∧
      pointCalled "b" ∈ twicePoint.members ∧
      (pointCalled "b").isAt (.ofValue (pointAt 1 2).revision) (pointAt 1 2).code ∧
      (pointCalled "b").event.comparesEqual (pointAt 1 2).event ∧
      twicePoint.memberFor (pointAt 1 2) = .ok (some (pointCalled "a")) ∧
      (pointCalled "a").canonicalName (.str "x") = .ok (.str "a") ∧
      (pointCalled "b").canonicalName (.str "x") = .ok (.str "b") := by
  have hat (name : String) :
      (pointCalled name).isAt (.ofValue (pointAt 1 2).revision) (pointAt 1 2).code :=
    Member.isAt_iff.mpr ⟨rfl, by rw [pointCalled, pointAt, Value.equal_int, beq_self_eq_true]⟩
  have hevent (name : String) : (pointCalled name).event.comparesEqual (pointAt 1 2).event :=
    Value.comparesEqual_iff.mpr ⟨Value.equal_self _, rfl⟩
  have hms : twicePoint.members = [] ++ pointCalled "a" :: [pointCalled "b"] := rfl
  have hmember : twicePoint.memberFor (pointAt 1 2) = .ok (some (pointCalled "a")) := by
    rw [EquivalenceClass.memberFor_eq rfl,
      Member.Describes.memberFor?_eq ⟨hat "a", hevent "a"⟩ hms]
    rfl
  exact ⟨rfl, build_pointTwice, decode_pointAt, by simp [twicePoint], hat "b", hevent "b",
    hmember, rfl, rfl⟩

end EquivalenceTable

end EventDialects
