import EventDialects.Definition.Equivalence
import EventDialects.Proofs.Codec.RoundTrip
import EventDialects.Proofs.Equivalence.Classes
import EventDialects.Proofs.Registry.Coherence

/-!
# Equivalence tables that are built from definitions

A definition names the events of its classes, and a member gets the code and the name of the event
that the registry has under that name.  Later a record is matched with a member by revision, code
and event name, which are those of the schema that it was decoded with.  As a code stands for one
event in a revision, the member of a class with the revision and the code has the name as well.

* `Member.ofEntry_resolves`: a member is an event of the registry, with the slots that it refers to.
* `EquivalenceTable.build_reachable`: **a definition makes a table like any other**, whose members
  are events of the registry.
* `EquivalenceTable.exists_memberFor?_of_decode`: **a class has a member for every record** that is
  decoded under a revision and a code of it.
-/

namespace EventDialects

namespace Member

/-! ### One member -/

/-- A member **resolves** in a registry if it has the code and the name of an event there, and the
slots that it renames or ignores are slots of the event. -/
def Resolves (g : Registry) (m : Member) : Prop :=
  ∃ event schema, g.resolveName (.revision m.revision) event = .ok schema ∧
    m.code = schema.code ∧ m.event = schema.name ∧
    ∀ slot ∈ m.rename.map (·.1) ++ m.ignore, ∃ name ∈ schema.slotNames, name.equal slot

theorem resolve_eq_ok {g : Registry} {source : String} {className revision event : Value}
    {schema : Schema} (h : resolve g source className revision event = .ok schema) :
    g.resolveName revision event = .ok schema := by
  rw [resolve] at h
  split at h
  · cases h
  · exact h

theorem checkSlots_eq_ok {source : String} {className event : Value} {revision : Revision}
    {schema : Schema} {slots : List Value}
    (h : checkSlots source className revision event schema slots = .ok ()) :
    ∀ slot ∈ slots, ∃ name ∈ schema.slotNames, name.equal slot := by
  induction slots with
  | nil => exact fun _ hslot => absurd hslot List.not_mem_nil
  | cons slot slots ih =>
    rw [checkSlots] at h
    split at h
    · rename_i hslot
      exact List.forall_mem_cons.mpr ⟨List.any_eq_true.mp hslot, ih h⟩
    · cases h

theorem keys_of_entries {v : Value} {keys : List Value} {es : Entries}
    (hkeys : v.iterate = .ok keys) (hes : v.entries = .ok es) : keys = es.map (·.1) := by
  cases v with
  | map =>
    cases hes
    cases hkeys
    rfl
  | _ => cases hes

/-- A member that is declared is an event of the registry, with the slots that it refers to. -/
theorem ofEntry_resolves {g : Registry} {source : String} {className entry : Value} {m : Member}
    (h : ofEntry g source className entry = .ok m) : m.Resolves g := by
  rw [ofEntry, Attempt.bind_eq_ok] at h
  obtain ⟨found, -, h⟩ := h
  cases found with
  | none => cases h
  | some named =>
    obtain ⟨revision, -, h⟩ := Attempt.bind_eq_ok.mp h
    obtain ⟨event, -, h⟩ := Attempt.bind_eq_ok.mp h
    obtain ⟨schema, hschema, h⟩ := Attempt.bind_eq_ok.mp h
    obtain ⟨rename, -, h⟩ := Attempt.bind_eq_ok.mp h
    obtain ⟨listed, -, h⟩ := Attempt.bind_eq_ok.mp h
    obtain ⟨ignored, -, h⟩ := Attempt.bind_eq_ok.mp h
    obtain ⟨_, -, h⟩ := Attempt.bind_eq_ok.mp h
    obtain ⟨keys, hkeys, h⟩ := Attempt.bind_eq_ok.mp h
    obtain ⟨_, hslots, h⟩ := Attempt.bind_eq_ok.mp h
    obtain ⟨pairs, hpairs, h⟩ := Attempt.bind_eq_ok.mp h
    cases h
    rw [keys_of_entries hkeys hpairs] at hslots
    exact ⟨event, schema, resolve_eq_ok hschema, rfl, rfl, checkSlots_eq_ok hslots⟩

theorem ofEntries_resolve {g : Registry} {source : String} {className : Value}
    {entries : List Value} : ∀ {ms : List Member},
      ofEntries g source className entries = .ok ms → ∀ m ∈ ms, m.Resolves g := by
  induction entries with
  | nil =>
    intro ms h
    cases h
    exact fun _ hm => absurd hm List.not_mem_nil
  | cons entry entries ih =>
    intro ms h
    obtain ⟨m, hm, h⟩ := Attempt.bind_eq_ok.mp h
    obtain ⟨ms, hms, h⟩ := Attempt.bind_eq_ok.mp h
    cases h
    exact List.forall_mem_cons.mpr ⟨ofEntry_resolves hm, ih hms⟩

end Member

theorem EquivalenceClass.ofEntry_resolves {g : Registry} {source : String} {entry : Value}
    {c : EquivalenceClass} (h : ofEntry g source entry = .ok c) :
    ∀ m ∈ c.members, m.Resolves g := by
  obtain ⟨named, -, h⟩ := Attempt.bind_eq_ok.mp h
  cases named with
  | false => cases h
  | true =>
    obtain ⟨found, -, h⟩ := Attempt.bind_eq_ok.mp h
    obtain ⟨entries, -, h⟩ := Attempt.bind_eq_ok.mp h
    obtain ⟨name, -, h⟩ := Attempt.bind_eq_ok.mp h
    obtain ⟨members, hmembers, h⟩ := Attempt.bind_eq_ok.mp h
    obtain ⟨listed, -, h⟩ := Attempt.bind_eq_ok.mp h
    obtain ⟨unordered, -, h⟩ := Attempt.bind_eq_ok.mp h
    obtain ⟨_, -, h⟩ := Attempt.bind_eq_ok.mp h
    cases h
    exact Member.ofEntries_resolve hmembers

namespace EquivalenceTable

/-! ### All classes -/

theorem addEntries_reachable {g : Registry} {source : String} {entries : List Value} :
    ∀ {t t' : EquivalenceTable}, t.Reachable → (∀ c ∈ t.classes, ∀ m ∈ c.members, m.Resolves g) →
      addEntries g source t entries = .ok t' →
        t'.Reachable ∧ ∀ c ∈ t'.classes, ∀ m ∈ c.members, m.Resolves g := by
  induction entries with
  | nil =>
    intro t t' ht hmembers h
    cases h
    exact ⟨ht, hmembers⟩
  | cons entry entries ih =>
    intro t t' ht hmembers h
    obtain ⟨c, hc, h⟩ := Attempt.bind_eq_ok.mp h
    obtain ⟨t₁, hadd, h⟩ := Attempt.bind_eq_ok.mp h
    refine ih (ht.add hadd) (fun d hd => ?_) h
    rw [add_classes hadd] at hd
    rcases List.mem_append.mp hd with hd | hd
    · exact hmembers d hd
    · rw [List.mem_singleton.mp hd]
      exact EquivalenceClass.ofEntry_resolves hc

/-- **A definition makes a table like any other**, whose members are events of the registry. -/
theorem build_reachable {g : Registry} {definition : Value} {source : String}
    {t : EquivalenceTable} (h : build g definition source = .ok t) :
    t.Reachable ∧ ∀ c ∈ t.classes, ∀ m ∈ c.members, m.Resolves g := by
  obtain ⟨found, -, h⟩ := Attempt.bind_eq_ok.mp h
  obtain ⟨entries, -, h⟩ := Attempt.bind_eq_ok.mp h
  exact addEntries_reachable .empty (fun _ hc => absurd hc List.not_mem_nil) h

/-! ### Decoded records -/

/-- **A class has a member for every record** that is decoded under a revision and a code of it,
with the name of the event that the code stands for, unless this name is not a number. -/
theorem exists_memberFor?_of_decode {g : Registry} (hg : g.Reachable) {definition : Value}
    {source : String} {t : EquivalenceTable} (hbuild : build g definition source = .ok t)
    {c : EquivalenceClass} (hc : c ∈ t.classes) {revision code operands : Value} {record : Record}
    (hdecode : g.decode revision code operands = .ok record)
    (hat : c.isAt (.ofValue revision) code) (hnan : record.event.isNaN = false) :
    ∃ m, c.memberFor? record = some m := by
  obtain ⟨schema, hschema, hrecord⟩ := Attempt.bind_eq_ok.mp hdecode
  obtain ⟨arguments, rfl⟩ := Schema.exists_recordOf_of_decode hrecord
  obtain ⟨table, htable, -, hfound⟩ := Registry.resolve_eq_ok_iff.mp hschema
  have hcoherent := hg.coherent table (Registry.mem_tables_of_get htable)
  have hmem : schema ∈ table.schemas := List.mem_of_find?_eq_some hfound
  have hcode : (Value.int schema.code).equal code := by
    rw [Table.byCode?] at hfound
    simpa using List.find?_some hfound
  -- The member's event is found in the same table, under an equal code.
  obtain ⟨m, hm, hrevision, hmcode⟩ := EquivalenceClass.isAt_iff.mp hat
  obtain ⟨event, schema', hschema', hcode', hname, -⟩ := (build_reachable hbuild).2 c hc m hm
  obtain ⟨table', htable', -, hfound'⟩ := Registry.resolveName_eq_ok_iff.mp hschema'
  have hsame : table' = table := by
    have hfind := (Registry.get_eq_ok_iff.mp htable).2
    have hfind' := (Registry.get_eq_ok_iff.mp htable').2
    rw [Revision.ofValue, hrevision] at hfind'
    exact Option.some.inj (hfind'.symm.trans hfind)
  rw [hsame] at hfound'
  have hcodes : (Value.int schema'.code).equal (.int schema.code) :=
    Value.equal_trans (hcode' ▸ hmcode) (Value.equal_symm hcode)
  rw [Value.equal_int, beq_iff_eq] at hcodes
  obtain rfl := hcoherent.eq_of_code (List.mem_of_find?_eq_some hfound') hmem hcodes
  refine EquivalenceClass.exists_memberFor?_iff.mpr ⟨m, hm, ?_, ?_⟩
  · have hbound : Revision.ofValue schema'.revisionValue = table.revision := by
      rw [Schema.revisionValue, hcoherent.bound schema' hmem]
      rfl
    refine Member.isAt_iff.mpr ⟨?_, ?_⟩
    · exact hrevision.trans ((Registry.revision_of_get htable).symm.trans hbound.symm)
    · exact Value.equal_trans hmcode (Value.equal_symm hcode)
  · rw [hname]
    exact Value.comparesEqual_iff.mpr ⟨Value.equal_self schema'.name, hnan⟩

end EquivalenceTable

end EventDialects
