import EventDialects.Proofs.Codec.Domain
import EventDialects.Proofs.Equivalence.Migrated
import EventDialects.Proofs.Equivalence.Overlooked

/-!
# A built table recognises the records of its members

A definition refers to events by name, a table stores them by revision and code, and a record is
matched by revision, code and event name.  For a record that was decoded under a member's revision
and code all three come together: the class is found, the class has a member for the record, and the
record is compared with itself.

That comparison puts the record's canonical slot names into a set.  Neither the names of slots nor
those that a definition gives them in a class are checked to be keys, and if one of them is a list,
the comparison is a misuse where it should succeed.

* `Schema.countable_of_decodeSlots`: what is decoded from whole numbers can be counted, and is not NaN.
* `EquivalenceClass.sameCallback_eq_error`: a name that is no key ends a comparison.
* `EquivalenceTable.recognises_of_build`: **the records of a class's members are recognised**, and
  equivalent to themselves exactly if their names are keys; other records are equivalent to none.
-/

namespace EventDialects

/-! ### Arguments made of whole numbers -/

theorem Value.normal_of_integer? {v : Value} (h : v.integer?.isSome) :
    v.normal = .ok v ∧ v.hashable ∧ v.isNaN = false := by
  cases v with
  | bool b => exact ⟨rfl, rfl, rfl⟩
  | int n => exact ⟨rfl, rfl, rfl⟩
  | _ => cases h

/-- What a decoder gives is a variant or a set of variants, whatever it was given. -/
theorem Decoder.isArgument_of_decode {d : Decoder} {v w : Value} (h : d.decode v = .ok w) :
    w.IsArgument := by
  have hrefused {name : String} {raw : Value} : (noVariant name raw : Attempt Value) ≠ .ok w := by
    intro hok
    rw [noVariant] at hok
    cases hraw : raw.integer? <;> rw [hraw] at hok <;> cases hok
  cases d with
  | choice name family =>
    obtain ⟨_, -, h⟩ := Attempt.bind_eq_ok.mp h
    split at h
    · cases h
      exact .variant family _
    · exact absurd h hrefused
  | flagSet name family =>
    rw [decode, decodeFlags] at h
    split at h
    · cases h
    · split at h
      · exact absurd h hrefused
      · cases h
        exact .flags rfl

theorem Slot.mem_of_fitting {s : Slot} {raw : List Value} {v : Value}
    (h : s.fitting raw = .ok v) : v ∈ raw := by
  cases raw with
  | nil => cases h
  | cons w rest => exact eq_of_fitting h ▸ List.mem_cons_self

theorem Slot.countable_of_argumentOf {s : Slot} {raw : List Value} {v : Value}
    (hraw : ∀ w ∈ raw, w.integer?.isSome) (h : s.argumentOf raw = .ok v) :
    v.Countable ∧ v.isNaN = false := by
  have whole {w : Value} (hw : w ∈ raw) : w.Countable ∧ w.isNaN = false := by
    obtain ⟨hnormal, hkey, hnan⟩ := Value.normal_of_integer? (hraw w hw)
    exact ⟨⟨w, hnormal, hkey⟩, hnan⟩
  cases hs : s.kind with
  | rawInteger =>
    rw [argumentOf, hs] at h
    exact whole (mem_of_fitting h)
  | coordinate =>
    obtain ⟨rfl, -⟩ := (coordinate_eq_ok hs).mp h
    have hkeys : Value.allHashable raw := Value.allHashable_iff.mpr fun w hw =>
      (Value.normal_of_integer? (hraw w hw)).2.1
    exact ⟨Value.countable_of_hashable hkeys, rfl⟩
  | characterId | functionRef | stringRef =>
    rw [argumentOf, hs] at h
    obtain ⟨w, hw, h⟩ := Attempt.bind_eq_ok.mp h
    cases h
    obtain ⟨-, hkey, -⟩ := Value.normal_of_integer? (hraw w (mem_of_fitting hw))
    exact ⟨⟨_, rfl, hkey⟩, rfl⟩
  | bitflags | enumValue =>
    obtain ⟨d, hd⟩ := exists_decoder (s := s) (by rw [hs]; rfl)
    rw [argumentOf, hs] at h
    obtain ⟨w, -, h⟩ := Attempt.bind_eq_ok.mp h
    simp only [hd] at h
    have hargument := Decoder.isArgument_of_decode h
    exact ⟨hargument.countable, hargument.isNaN_eq_false⟩
  | unknown =>
    rw [argumentOf, hs] at h
    cases raw with
    | nil => cases h
    | cons w rest =>
      cases h
      exact whole List.mem_cons_self

theorem Schema.countable_of_decodeSlots {slots : List Slot} : ∀ {raw arguments : List Value},
    (∀ w ∈ raw, w.integer?.isSome) → decodeSlots slots raw = .ok arguments →
      ∀ v ∈ arguments, v.Countable ∧ v.isNaN = false := by
  induction slots with
  | nil =>
    intro raw arguments _ h
    cases h
    exact fun _ hv => absurd hv List.not_mem_nil
  | cons s slots ih =>
    intro raw arguments hraw h
    obtain ⟨v, rest, rfl, -, hv, hrest⟩ := decodeSlots_cons_eq_ok.mp h
    refine List.forall_mem_cons.mpr ⟨?_, ih (fun w hw => hraw w (List.mem_of_mem_drop hw)) hrest⟩
    exact Slot.countable_of_argumentOf (fun w hw => hraw w (List.mem_of_mem_take hw)) hv

/-! ### Names that are no keys -/

/-- The failure of using a value as a key that cannot be one. -/
def Value.IsUnhashable (e : Failure) : Prop := ∃ type, e = .misuse (.unhashable type)

theorem Value.checkKey_eq_error {v : Value} {e : Failure} (h : v.checkKey = .error e) :
    IsUnhashable e := by
  rw [checkKey] at h
  split at h <;> cases h
  exact ⟨_, rfl⟩

theorem Value.checkKeys_eq_error {vs : List Value} {e : Failure} (h : checkKeys vs = .error e) :
    IsUnhashable e := by
  induction vs with
  | nil => cases h
  | cons v vs ih =>
    rcases Attempt.bind_eq_error.mp h with h | ⟨_, -, h⟩
    · exact checkKey_eq_error h
    · exact ih h

namespace Member

theorem canonicalNames_eq_error {m : Member} {slots : List Value} {e : Failure}
    (h : m.canonicalNames slots = .error e) : Value.IsUnhashable e := by
  induction slots with
  | nil => cases h
  | cons slot slots ih =>
    rcases Attempt.bind_eq_error.mp h with h | ⟨name, -, h⟩
    · rcases Attempt.bind_eq_error.mp h with h | ⟨_, -, h⟩
      · exact Value.checkKeys_eq_error h
      · rcases Attempt.bind_eq_error.mp h with h | ⟨_, -, h⟩
        · exact Value.checkKey_eq_error h
        · cases h
    · rcases Attempt.bind_eq_error.mp h with h | ⟨names, -, h⟩
      · exact ih h
      · cases h

end Member

namespace EquivalenceClass

theorem sameCallback_eq_error (c : EquivalenceClass) {ma : Member} (mb : Member) {a : Record}
    (b : Record) (h : ¬ ∀ slot ∈ a.slotNames, ma.Keys slot) :
    ∃ type, c.sameCallback ma mb a b = misused (.unhashable type) := by
  rw [sameCallback]
  cases hnames : ma.canonicalNames a.slotNames with
  | error e =>
    obtain ⟨type, rfl⟩ := Member.canonicalNames_eq_error hnames
    exact ⟨type, rfl⟩
  | ok names =>
    cases hkeys : Value.checkKeys names with
    | error e =>
      obtain ⟨type, rfl⟩ := Value.checkKeys_eq_error hkeys
      refine ⟨type, ?_⟩
      simp only [bind, Except.bind, hkeys]
      rfl
    | ok => exact absurd (Member.checkKeys_canonicalNames_iff.mp ⟨hnames, hkeys⟩).1 h

end EquivalenceClass

/-! ### Decoded records -/

theorem Registry.header_of_decode {g : Registry} (hg : g.Reachable) {revision : Revision}
    {code : Int} {operands : Value} {r : Record}
    (h : g.decode (.revision revision) (.int code) operands = .ok r) :
    r.revision = .revision revision ∧ r.code = .int code := by
  obtain ⟨schema, hschema, hrecord⟩ := Attempt.bind_eq_ok.mp h
  obtain ⟨arguments, rfl⟩ := Schema.exists_recordOf_of_decode hrecord
  obtain ⟨table, htable, -, hfound⟩ := Registry.resolve_eq_ok_iff.mp hschema
  have hbound := (hg.coherent table (Registry.mem_tables_of_get htable)).bound schema
    (List.mem_of_find?_eq_some hfound)
  have hrevision : table.revision = revision := Registry.revision_of_get htable
  have hcode : (Value.int schema.code).equal (.int code) := by
    rw [Table.byCode?] at hfound
    simpa using List.find?_some hfound
  rw [Value.equal_int, beq_iff_eq] at hcode
  refine ⟨?_, congrArg Value.int hcode⟩
  show schema.revisionValue = .revision revision
  rw [Schema.revisionValue, hbound, hrevision]

theorem Member.Resolves.exists_resolve {g : Registry} (hg : g.Reachable) {m : Member}
    (h : m.Resolves g) : ∃ schema, g.resolve (.revision m.revision) (.int m.code) = .ok schema ∧
      schema.name = m.event ∧
      ∀ slot ∈ m.rename.map (·.1) ++ m.ignore, ∃ name ∈ schema.slotNames, name.equal slot := by
  obtain ⟨event, schema, hschema, hcode, hevent, hslots⟩ := h
  exact ⟨schema, hcode ▸ Registry.resolve_of_resolveName hg hschema, hevent.symm, hslots⟩

namespace EquivalenceTable

variable {t : EquivalenceTable}

theorem classFor_of_isAt (ht : t.Disjoint) {c : EquivalenceClass} (hc : c ∈ t.classes)
    {revision code : Value} (hprint : revision.printable) (hcode : code.hashable)
    (hat : c.isAt (.ofValue revision) code) : t.classFor revision code = .ok (some c) := by
  have hfind : t.classAt? (.ofValue revision) code = some c :=
    find?_eq_some_of_unique hc hat fun d hd hdat => eq_of_isAt ht hd hc hdat hat
  rw [classFor, Revision.read_eq_ok.mpr ⟨hprint, rfl⟩, Value.checkKey_eq_ok_iff.mpr hcode]
  exact congrArg Except.ok hfind

theorem areEquivalent_of_not_isAt {a : Record} (hprint : a.revision.printable)
    (ha : a.code.hashable) (h : ∀ c ∈ t.classes, ¬ c.isAt (.ofValue a.revision) a.code)
    (b : Record) : t.areEquivalent a b = .ok false ∧
      (b.revision.printable → b.code.hashable → t.areEquivalent b a = .ok false) := by
  have hnone : t.indexFor a.revision a.code = .ok none := by
    rw [indexFor_eq hprint ha, indexAt?, List.findIdx?_eq_none_iff.mpr fun c hc => ?_]
    exact Bool.eq_false_iff.mpr (h c hc)
  refine ⟨areEquivalent_of_no_class hnone b, fun hprint' hb =>
    areEquivalent_of_no_members hprint' hprint hb ha ?_⟩
  intro c hc mb ma _ hma
  exact h c hc (EquivalenceClass.isAt_of_memberFor? hma)

/-- A record with a member in a class is compared with itself by that class: it is equivalent to
itself if its names can be keys, and the comparison is a misuse if one of them cannot. -/
theorem areEquivalent_self (ht : t.Disjoint) {c : EquivalenceClass} (hc : c ∈ t.classes)
    {r : Record} {m : Member} (hm : c.memberFor? r = some m) (hprint : r.revision.printable)
    (hcode : r.code.hashable) (harguments : ∀ v ∈ r.arguments, v.Countable ∧ v.isNaN = false) :
    ((∀ slot ∈ r.slotNames, m.Keys slot) → t.areEquivalent r r = .ok true) ∧
    ((¬ ∀ slot ∈ r.slotNames, m.Keys slot) →
      ∃ type, t.areEquivalent r r = misused (.unhashable type)) := by
  rw [areEquivalent_of_members ht hc hprint hprint hcode hcode hm hm]
  refine ⟨fun hkeys => ?_, c.sameCallback_eq_error m r⟩
  have hcountable : ∀ v ∈ r.arguments, v.Countable := fun v hv => (harguments v hv).1
  have hagrees := Member.agrees_collected_self (m := m) c hcountable
    (fun v hv => (harguments v hv).2) (m.canonicals r)
  obtain ⟨verdict, hagree, hverdict⟩ := EquivalenceClass.agree_eq_ok (c := c)
    (Entries.distinct_ofPairs (m.canonicalize (m.canonicals r) r.named))
    (Entries.distinct_ofPairs (m.canonicalize (m.canonicals r) r.named))
    (Member.countable_collected hcountable) (Member.countable_collected hcountable)
  rw [hverdict.mpr hagrees] at hagree
  exact EquivalenceClass.sameCallback_eq_ok_iff.mpr ⟨hkeys, hkeys, hagree⟩

/-- **A built table recognises the records of its members.**  A member is an event of the registry
with the slots that it refers to.  A record that is decoded from whole numbers under its revision
and code finds the class, and the class a member for it unless the event's name is NaN; it is
equivalent to itself if the names of its slots and what they are called in the class can be keys, and
comparing it is a misuse if one of them cannot.  A decoded record of an event in no class is
equivalent to none. -/
theorem recognises_of_build {g : Registry} (hg : g.Reachable) {definition : Value}
    {source : String} (hbuild : build g definition source = .ok t) :
    (∀ c ∈ t.classes, ∀ m ∈ c.members,
      (∃ schema, g.resolve (.revision m.revision) (.int m.code) = .ok schema ∧
        schema.name = m.event ∧
        ∀ slot ∈ m.rename.map (·.1) ++ m.ignore, ∃ name ∈ schema.slotNames, name.equal slot) ∧
      ∀ (raw : List Value) (r : Record), (∀ v ∈ raw, v.integer?.isSome) →
        g.decode (.revision m.revision) (.int m.code) (.list raw) = .ok r →
          t.classFor r.revision r.code = .ok (some c) ∧ (r.event.isNaN = false →
            ∃ m', c.memberFor r = .ok (some m') ∧
              ((∀ slot ∈ r.slotNames, m'.Keys slot) → t.areEquivalent r r = .ok true) ∧
              ((¬ ∀ slot ∈ r.slotNames, m'.Keys slot) →
                ∃ type, t.areEquivalent r r = misused (.unhashable type)))) ∧
    ∀ (revision code operands : Value) (r : Record), g.decode revision code operands = .ok r →
      (∀ c ∈ t.classes, ∀ m ∈ c.members, ¬ m.isAt (.ofValue r.revision) r.code) →
        ∀ b : Record, t.areEquivalent r b = .ok false ∧
          (b.revision.printable → b.code.hashable → t.areEquivalent b r = .ok false) := by
  obtain ⟨hreachable, hresolve⟩ := build_reachable hbuild
  have ht := hreachable.disjoint
  refine ⟨fun c hc m hm => ⟨(hresolve c hc m hm).exists_resolve hg, fun raw r hraw hdecode => ?_⟩,
    fun revision code operands r hdecode hnone => ?_⟩
  · obtain ⟨hrevision, hcode⟩ := Registry.header_of_decode hg hdecode
    have hat : c.isAt (.ofValue (.revision m.revision)) (.int m.code) :=
      EquivalenceClass.isAt_iff.mpr ⟨m, hm, rfl, by rw [Value.equal_int, beq_self_eq_true]⟩
    obtain ⟨schema, -, hrecord⟩ := Attempt.bind_eq_ok.mp hdecode
    have harguments : ∀ v ∈ r.arguments, v.Countable ∧ v.isNaN = false := by
      rw [Schema.decode_list] at hrecord
      split at hrecord
      · obtain ⟨arguments, harguments, h⟩ := Attempt.bind_eq_ok.mp hrecord
        cases h
        exact Schema.countable_of_decodeSlots hraw harguments
      · cases hrecord
    have hprint : r.revision.printable := by rw [hrevision]; rfl
    have hkey : r.code.hashable := by rw [hcode]; rfl
    have hat' : c.isAt (.ofValue r.revision) r.code := by rwa [hrevision, hcode]
    refine ⟨classFor_of_isAt ht hc hprint hkey hat', fun hnan => ?_⟩
    obtain ⟨m', hm'⟩ := exists_memberFor?_of_decode hg hbuild hc hdecode hat hnan
    refine ⟨m', ?_, areEquivalent_self ht hc hm' hprint hkey harguments⟩
    rw [EquivalenceClass.memberFor_eq hprint, hm']
  · obtain ⟨schema, -, hrecord⟩ := Attempt.bind_eq_ok.mp hdecode
    obtain ⟨arguments, rfl⟩ := Schema.exists_recordOf_of_decode hrecord
    refine areEquivalent_of_not_isAt schema.printable_revisionValue rfl fun c hc hat => ?_
    obtain ⟨m, hm, hrevision, hcode⟩ := EquivalenceClass.isAt_iff.mp hat
    exact hnone c hc m hm (Member.isAt_iff.mpr ⟨hrevision, hcode⟩)

/-- A definition of a class of points that gives one of the slots another name. -/
def renamedPoints (name : Value) : Value :=
  .map [(.str "classes", .list [.map [
    (.str "name", .str "Point"),
    (.str "members", .list [.map [
      (.str "revision", .str "FE14"),
      (.str "slots", .map [(.str "x", name)])]])]])]

def renamedPoint (name : Value) : EquivalenceClass :=
  ⟨.str "Point", [⟨⟨"FE14", ""⟩, 1, .str "Point", [(.str "x", name)], []⟩], []⟩

theorem build_renamedPoints (name : Value) :
    build points (renamedPoints name) "equivalences.yaml" = .ok ⟨[renamedPoint name]⟩ := rfl

theorem decode_pointAt : points.decode (.revision ⟨"FE14", ""⟩) (.int 1)
    (.list ([1, 2].map .int)) = .ok (pointAt 1 2) := by
  have within {s : Slot} {n : Int} (h : (s.checkWidth (.int n)).toOption = some ()) : s.Within n :=
    Slot.checkWidth_eq_ok_iff.mp (Attempt.eq_ok_of_toOption h)
  exact points_decode (within (by decide +kernel)) (within (by decide +kernel))

theorem recognises_of_build_point :
    EquivalenceTable.classFor ⟨[renamedPoint (.str "z")]⟩ (pointAt 1 2).revision
        (pointAt 1 2).code = .ok (some (renamedPoint (.str "z"))) ∧
      EquivalenceTable.areEquivalent ⟨[renamedPoint (.str "z")]⟩ (pointAt 1 2) (pointAt 1 2) =
        .ok true := by
  obtain ⟨hmembers, -⟩ := recognises_of_build points_reachable (build_renamedPoints (.str "z"))
  obtain ⟨-, hrecords⟩ := hmembers _ List.mem_cons_self _ List.mem_cons_self
  obtain ⟨hclass, hmember⟩ :=
    hrecords _ (pointAt 1 2) (Value.isSome_integer?_of_ints [1, 2]) decode_pointAt
  obtain ⟨m, hm, hself, -⟩ := hmember rfl
  obtain rfl := List.mem_singleton.mp
    (EquivalenceClass.mem_of_memberFor? (EquivalenceClass.memberFor?_of_memberFor hm))
  refine ⟨hclass, hself ?_⟩
  simp only [pointAt, List.forall_mem_cons]
  exact ⟨⟨rfl, rfl, rfl⟩, ⟨rfl, rfl, rfl⟩, fun _ h => absurd h List.not_mem_nil⟩

/-- A slot that is called by a list: the definition is accepted, and comparing a record with itself
is a misuse. -/
theorem areEquivalent_self_listed :
    points.Reachable ∧ build points (renamedPoints (.list [.str "z"])) "equivalences.yaml" =
        .ok ⟨[renamedPoint (.list [.str "z"])]⟩ ∧
      points.decode (.revision ⟨"FE14", ""⟩) (.int 1) (.list ([1, 2].map .int)) =
        .ok (pointAt 1 2) ∧
      EquivalenceTable.areEquivalent ⟨[renamedPoint (.list [.str "z"])]⟩ (pointAt 1 2)
        (pointAt 1 2) = misused (.unhashable "list") :=
  ⟨points_reachable, build_renamedPoints _, decode_pointAt,
    Attempt.eq_misused_of_misuse? (by decide +kernel)⟩

end EquivalenceTable

end EventDialects
