import EventDialects.Proofs.Value.Equality
import EventDialects.Resolver

/-!
# Codes and names of published events

A table is filled event by event, sealed, and published in a registry.  `Table.Reachable` and
`Registry.Reachable` are the tables and registries that come about in this way, whatever calls are
made and refused on the way: a refused call leaves everything as it was, so only those that succeed
are steps.

* `Table.register_eq_ok_iff`: what `register` checks and what it does.
* `Table.Coherent`: no two events share a code or a name, every name can be a key, and every event
  is bound to the table's revision.
* `Table.Reachable.coherent`, `Registry.Reachable.coherent`: **every reachable table is coherent**.
* `Registry.register_eq_ok_iff`: what `register` checks and what it does for a registry.
* `Registry.resolve_of_resolveName`: the event found under a name is found under its code.
* `Registry.resolveName_of_resolve`: the event found under a code is found under every name equal to
  its own.
-/

namespace EventDialects

namespace Table

/-! ### One step -/

/-- **Registering an event** succeeds exactly if the table is open, neither the code nor the name is
taken and the name can be a key; the event then comes last. -/
theorem register_eq_ok_iff {t t' : Table} {code : Int} {schema bound : Schema} :
    t.register code schema = .ok (bound, t') ↔
      t.isSealed = false ∧ t.byCode? (.int code) = none ∧ schema.name.hashable ∧
        t.byName? schema.name = none ∧ bound = t.adopt code schema ∧
        t' = ⟨t.revision, t.title, t.operandBits, t.schemas ++ [t.adopt code schema], false⟩ := by
  rw [← Value.checkKey_eq_ok_iff]
  simp only [register, bind, Except.bind, pure, Except.pure]
  cases t.isSealed with
  | true => simp
  | false =>
    cases t.byCode? (.int code) with
    | some other => simp [refuse]
    | none =>
      cases schema.name.checkKey with
      | error e => simp
      | ok =>
        cases t.byName? schema.name with
        | some other => simp [refuse]
        | none => simp [eq_comm]

theorem register_of_code {t : Table} {code : Int} {schema other : Schema}
    (hopen : t.isSealed = false) (hcode : t.byCode? (.int code) = some other) :
    t.register code schema = refuse (.duplicateCode t.revision.text code) := by
  simp [register, hopen, hcode, refuse, bind, Except.bind]

theorem register_of_name {t : Table} {code : Int} {schema other : Schema}
    (hopen : t.isSealed = false) (hcode : t.byCode? (.int code) = none)
    (hkey : schema.name.hashable) (hname : t.byName? schema.name = some other) :
    t.register code schema =
      refuse (.duplicateName t.revision.text schema.name other.code) := by
  have hcheck : schema.name.checkKey = .ok () := Value.checkKey_eq_ok_iff.mpr hkey
  simp [register, hopen, hcode, hcheck, hname, bind, Except.bind]

/-! ### Coherence -/

/-- A table is **coherent** if its events can be told apart by their codes and by their names. -/
structure Coherent (t : Table) : Prop where
  codes : t.schemas.Pairwise fun s s' => s.code ≠ s'.code
  names : t.schemas.Pairwise fun s s' => ¬ s.name.equal s'.name
  hashable : ∀ s ∈ t.schemas, s.name.hashable
  bound : ∀ s ∈ t.schemas, s.revision = some t.revision

theorem coherent_empty (revision : Revision) (title operandBits : Value) :
    (empty revision title operandBits).Coherent :=
  ⟨.nil, .nil, fun _ h => absurd h List.not_mem_nil, fun _ h => absurd h List.not_mem_nil⟩

theorem Coherent.close {t : Table} (h : t.Coherent) : t.close.Coherent :=
  ⟨h.codes, h.names, h.hashable, h.bound⟩

theorem Coherent.register {t t' : Table} {code : Int} {schema bound : Schema} (ht : t.Coherent)
    (h : t.register code schema = .ok (bound, t')) : t'.Coherent := by
  obtain ⟨-, hcode, hkey, hname, -, rfl⟩ := register_eq_ok_iff.mp h
  refine ⟨?_, ?_, ?_, ?_⟩
  · refine List.pairwise_append.mpr ⟨ht.codes, List.pairwise_singleton _ _, fun s hs s' hs' => ?_⟩
    rw [List.mem_singleton.mp hs']
    intro he
    refine List.find?_eq_none.mp hcode s hs ?_
    rw [Value.equal_int, beq_iff_eq]
    exact he
  · refine List.pairwise_append.mpr ⟨ht.names, List.pairwise_singleton _ _, fun s hs s' hs' => ?_⟩
    rw [List.mem_singleton.mp hs']
    exact List.find?_eq_none.mp hname s hs
  · intro s hs
    rcases List.mem_append.mp hs with hs | hs
    · exact ht.hashable s hs
    · rw [List.mem_singleton.mp hs]
      exact hkey
  · intro s hs
    rcases List.mem_append.mp hs with hs | hs
    · exact ht.bound s hs
    · rw [List.mem_singleton.mp hs]
      rfl

/-- The tables that come about by registering events and sealing. -/
inductive Reachable : Table → Prop
  | empty (revision : Revision) (title operandBits : Value) :
      Reachable (Table.empty revision title operandBits)
  | register {t t' : Table} {code : Int} {schema bound : Schema} (ht : Reachable t)
      (h : t.register code schema = .ok (bound, t')) : Reachable t'
  | close {t : Table} (ht : Reachable t) : Reachable t.close

theorem reachable_singleton {r : Revision} {s : Schema} (hr : s.revision = some r)
    (hkey : s.name.hashable) : Reachable ⟨r, .null, .null, [s], false⟩ := by
  obtain ⟨code, name, slots, _⟩ := s
  subst hr
  exact .register (.empty r .null .null)
    (register_eq_ok_iff.mpr ⟨rfl, rfl, hkey, rfl, rfl, rfl⟩)

/-- **Every reachable table is coherent.** -/
theorem Reachable.coherent {t : Table} (h : t.Reachable) : t.Coherent := by
  induction h with
  | empty revision title operandBits => exact coherent_empty revision title operandBits
  | register _ h ih => exact ih.register h
  | close _ ih => exact ih.close

namespace Coherent

theorem eq_of_code {t : Table} (h : t.Coherent) {s s' : Schema} (hs : s ∈ t.schemas)
    (hs' : s' ∈ t.schemas) (he : s.code = s'.code) : s = s' :=
  eq_of_pairwise_not (fun _ _ => Eq.symm) h.codes hs hs' he

theorem eq_of_name {t : Table} (h : t.Coherent) {s s' : Schema} (hs : s ∈ t.schemas)
    (hs' : s' ∈ t.schemas) (he : s.name.equal s'.name) : s = s' :=
  eq_of_pairwise_not (fun _ _ => Value.equal_symm) h.names hs hs' he

theorem byCode?_eq {t : Table} (h : t.Coherent) {s : Schema} (hs : s ∈ t.schemas) :
    t.byCode? (.int s.code) = some s := by
  refine find?_eq_some_of_unique hs (by rw [Value.equal_int, beq_self_eq_true]) fun x hx he => ?_
  rw [Value.equal_int, beq_iff_eq] at he
  exact h.eq_of_code hx hs he

theorem byName?_eq {t : Table} (h : t.Coherent) {s : Schema} (hs : s ∈ t.schemas) {name : Value}
    (he : s.name.equal name) : t.byName? name = some s :=
  find?_eq_some_of_unique hs he fun _ hx hx' =>
    h.eq_of_name hx hs (Value.equal_trans hx' (Value.equal_symm he))

end Coherent

/-! ### Look-ups -/

/-- Both look-ups check that they are given a key and then hand out what is found, if anything. -/
theorem found_eq_ok_iff {key : Value} {found : Option Schema} {refusal : Refusal} {s : Schema} :
    (do
      key.checkKey
      match found with
      | some s => return s
      | none => refuse refusal) = .ok s ↔ key.hashable ∧ found = some s := by
  rw [Attempt.bind_eq_ok, ← Value.checkKey_eq_ok_iff]
  constructor
  · rintro ⟨_, hkey, h⟩
    cases found with
    | none => cases h
    | some s' => cases h; exact ⟨hkey, rfl⟩
  · rintro ⟨hkey, rfl⟩
    exact ⟨(), hkey, rfl⟩

theorem lookup_eq_ok_iff {t : Table} {code : Value} {s : Schema} :
    t.lookup code = .ok s ↔ code.hashable ∧ t.byCode? code = some s := found_eq_ok_iff

theorem lookupName_eq_ok_iff {t : Table} {name : Value} {s : Schema} :
    t.lookupName name = .ok s ↔ name.hashable ∧ t.byName? name = some s := found_eq_ok_iff

end Table

namespace Registry

theorem find?_eq_none_iff {g : Registry} {r : Revision} : g.find? r = none ↔ r ∉ g.revisions := by
  simp [find?, revisions]

theorem register_eq_error {g : Registry} {revision : Value} {t : Table} {e : Failure}
    (h : g.register revision t = .error e) :
    (revision.printable = false ∧ e = .misuse .tooLong) ∨
      (Revision.ofValue revision ≠ t.revision ∧
        e = .refused (.definition (.wrongRevision t.revision (.ofValue revision)))) ∨
      (Revision.ofValue revision ∈ g.revisions ∧
        e = .refused (.duplicateRevision (Revision.ofValue revision).text)) := by
  rw [register] at h
  rcases Attempt.bind_eq_error.mp h with h | ⟨r, hr, h⟩
  · exact .inl (Revision.read_eq_error.mp h)
  · obtain ⟨-, rfl⟩ := Revision.read_eq_ok.mp hr
    by_cases hrev : Revision.ofValue revision = t.revision
    · cases hold : g.find? (Revision.ofValue revision) with
      | none =>
        rw [if_neg (not_not_intro hrev)] at h
        simp only [hold, Option.isSome_none, Bool.false_eq_true, if_false] at h
        cases h
      | some other =>
        have hmem : Revision.ofValue revision ∈ g.revisions := by
          by_contra hn
          rw [find?_eq_none_iff.mpr hn] at hold
          cases hold
        rw [if_neg (not_not_intro hrev)] at h
        simp only [hold, Option.isSome_some, if_true] at h
        cases h
        exact .inr (.inr ⟨hmem, rfl⟩)
    · simp only [ne_eq, hrev, not_false_eq_true, if_true] at h
      cases h
      exact .inr (.inl ⟨hrev, rfl⟩)

/-- The registries that come about by publishing reachable tables. -/
inductive Reachable : Registry → Prop
  | empty : Reachable Registry.empty
  | register {g g' : Registry} {t : Table} {revision : Value} (hg : Reachable g)
      (ht : t.Reachable) (h : g.register revision t = .ok g') : Reachable g'

/-- **Every published table is coherent.** -/
theorem Reachable.coherent {g : Registry} (h : g.Reachable) : ∀ t ∈ g.tables, t.Coherent := by
  induction h with
  | empty => intro t ht; cases ht
  | @register g g' t revision _ ht h ih =>
    intro t' ht'
    rw [register_tables h] at ht'
    rcases List.mem_append.mp ht' with ht' | ht'
    · exact ih t' ht'
    · rw [List.mem_singleton.mp ht']
      exact ht.coherent.close

theorem get_eq_ok_iff {g : Registry} {revision : Value} {t : Table} :
    g.get revision = .ok t ↔ revision.printable ∧ g.find? (.ofValue revision) = some t := by
  rw [get, Attempt.bind_eq_ok]
  constructor
  · rintro ⟨r, hr, h⟩
    obtain ⟨hprint, rfl⟩ := Revision.read_eq_ok.mp hr
    cases hf : g.find? (.ofValue revision) with
    | none => rw [hf] at h; cases h
    | some t' => rw [hf] at h; cases h; exact ⟨hprint, rfl⟩
  · rintro ⟨hprint, hf⟩
    exact ⟨_, Revision.read_eq_ok.mpr ⟨hprint, rfl⟩, by rw [hf]; rfl⟩

theorem mem_tables_of_get {g : Registry} {revision : Value} {t : Table}
    (h : g.get revision = .ok t) : t ∈ g.tables :=
  List.mem_of_find?_eq_some (get_eq_ok_iff.mp h).2

theorem revision_of_get {g : Registry} {revision : Value} {t : Table}
    (h : g.get revision = .ok t) : t.revision = .ofValue revision := by
  simpa using List.find?_some (get_eq_ok_iff.mp h).2

theorem exists_get_of_mem_revisions {g : Registry} {revision : Value}
    (hprint : revision.printable) (h : Revision.ofValue revision ∈ g.revisions) :
    ∃ t, g.get revision = .ok t := by
  cases hfound : g.find? (.ofValue revision) with
  | none => exact absurd h (find?_eq_none_iff.mp hfound)
  | some t => exact ⟨t, get_eq_ok_iff.mpr ⟨hprint, hfound⟩⟩

theorem get_of_not_mem_revisions {g : Registry} {revision : Value} (hprint : revision.printable)
    (h : Revision.ofValue revision ∉ g.revisions) :
    g.get revision = .error (.refused (.unknownRevision (Revision.ofValue revision).text)) := by
  rw [get, Revision.read_eq_ok.mpr ⟨hprint, rfl⟩]
  simp only [bind, Except.bind, find?_eq_none_iff.mpr h]
  rfl

theorem resolve_eq_ok_iff {g : Registry} {revision code : Value} {s : Schema} :
    g.resolve revision code = .ok s ↔
      ∃ t, g.get revision = .ok t ∧ code.hashable ∧ t.byCode? code = some s := by
  simp only [resolve, Attempt.bind_eq_ok, Table.lookup_eq_ok_iff]

theorem resolveName_eq_ok_iff {g : Registry} {revision name : Value} {s : Schema} :
    g.resolveName revision name = .ok s ↔
      ∃ t, g.get revision = .ok t ∧ name.hashable ∧ t.byName? name = some s := by
  simp only [resolveName, Attempt.bind_eq_ok, Table.lookupName_eq_ok_iff]

theorem hashable_of_resolve {g : Registry} (hg : g.Reachable) {revision code : Value} {s : Schema}
    (h : g.resolve revision code = .ok s) : s.name.hashable := by
  obtain ⟨t, ht, -, hs⟩ := resolve_eq_ok_iff.mp h
  exact (hg.coherent t (mem_tables_of_get ht)).hashable s (List.mem_of_find?_eq_some hs)

theorem resolve_of_resolveName {g : Registry} (hg : g.Reachable) {revision name : Value}
    {s : Schema} (h : g.resolveName revision name = .ok s) :
    g.resolve revision (.int s.code) = .ok s := by
  obtain ⟨t, ht, -, hs⟩ := resolveName_eq_ok_iff.mp h
  have hc := hg.coherent t (mem_tables_of_get ht)
  exact resolve_eq_ok_iff.mpr ⟨t, ht, rfl, hc.byCode?_eq (List.mem_of_find?_eq_some hs)⟩

/-- The event found under a code is found under every key that is equal to its name. -/
theorem resolveName_of_resolve {g : Registry} (hg : g.Reachable) {revision code name : Value}
    {s : Schema} (h : g.resolve revision code = .ok s) (hkey : name.hashable)
    (he : s.name.equal name) : g.resolveName revision name = .ok s := by
  obtain ⟨t, ht, -, hs⟩ := resolve_eq_ok_iff.mp h
  have hc := hg.coherent t (mem_tables_of_get ht)
  exact resolveName_eq_ok_iff.mpr
    ⟨t, ht, hkey, hc.byName?_eq (List.mem_of_find?_eq_some hs) he⟩

/-- The name of a published event is a key, equal to the name under which the event is found. -/
theorem name_of_resolveName {g : Registry} (hg : g.Reachable) {revision name : Value} {s : Schema}
    (h : g.resolveName revision name = .ok s) : s.name.hashable ∧ s.name.equal name := by
  obtain ⟨t, ht, -, hs⟩ := resolveName_eq_ok_iff.mp h
  have hc := hg.coherent t (mem_tables_of_get ht)
  rw [Table.byName?] at hs
  exact ⟨hc.hashable s (List.mem_of_find?_eq_some hs), by simpa using List.find?_some hs⟩

end Registry

end EventDialects
