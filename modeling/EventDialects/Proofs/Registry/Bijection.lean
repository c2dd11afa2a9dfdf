import EventDialects.Proofs.Registry.Coherence
import EventDialects.Proofs.Value.Entries
import EventDialects.Table.Indexed

/-!
# Codes and names of a table

A table is asked for events by code and by name, and every event must be found in both ways.  It is
kept as two dictionaries, of the events by code and of the codes by name, which are changed one after
the other.  Here a new table is put through any steps whatsoever: events are registered, successfully
or not, and the table is sealed, once, several times or never.

At every moment the dictionaries are those of a coherent table: `Indexed.Mirrors` says so, and every
step keeps it.  With the history of the steps this says what each look-up finds, and what becomes of
the next registration.

* `Mirrors.lookup_eq`, `Mirrors.lookupName_eq`: both kinds of table find the same.
* `Mirrors.perform_register`: **one registration** fails with the dictionaries and without for the
  same reason and changes nothing then; or both make the same of it.
* `exists_mirrors_after`: **every run** keeps the dictionaries in step.
* `Lists`: a table holds some registrations and finds them by code and by name.
* `Lists.outcome`: what registering another event comes to.
* `lists_after`: **codes and names correspond after any run**.
-/

namespace EventDialects

namespace Table

theorem Coherent.lookup_eq_ok_iff {t : Table} (h : t.Coherent) {code : Int} {s : Schema} :
    t.lookup (.int code) = .ok s ↔ s ∈ t.schemas ∧ s.code = code := by
  rw [Table.lookup_eq_ok_iff]
  constructor
  · rintro ⟨_, hs⟩
    have hcode := List.find?_some hs
    rw [Value.equal_int, beq_iff_eq] at hcode
    exact ⟨List.mem_of_find?_eq_some hs, hcode⟩
  · rintro ⟨hs, rfl⟩
    exact ⟨rfl, h.byCode?_eq hs⟩

namespace Indexed

/-! ### Steps -/

/-- What can be done to a table. -/
inductive Step
  | register (code : Int) (schema : Schema)
  | close

def Step.perform : Step → Update Indexed Unit
  | .register code schema => do
    let _ ← Indexed.register code schema
  | .close => Indexed.close

/-- What a step registers if it succeeds. -/
def Step.registration? : Step → Option (Int × Schema)
  | .register code schema => some (code, schema)
  | .close => none

/-- A table with an event entered in both dictionaries. -/
def entered (x : Indexed) (code : Int) (schema : Schema) : Indexed :=
  { x with
    schemas := x.schemas.insert (.int code) (x.adopt code schema)
    codes := x.codes.insert schema.name code }

theorem perform_register (x : Indexed) (code : Int) (schema : Schema) :
    (register code schema).perform x = match x.check code schema.name with
      | .error e => (.error e, x)
      | .ok () => (.ok (x.adopt code schema), x.entered code schema) := by
  simp only [register, Update.perform_bind, Update.perform_get, Update.perform_liftM]
  cases x.check code schema.name <;> rfl

/-- The dictionaries **mirror** a table if they are those of its events. -/
structure Mirrors (x : Indexed) (t : Table) : Prop where
  revision : x.revision = t.revision
  isSealed : x.isSealed = t.isSealed
  schemas : x.schemas = t.schemas.map fun s => (.int s.code, s)
  codes : x.codes = t.schemas.map fun s => (s.name, s.code)

namespace Mirrors

theorem empty (revision : Revision) (title operandBits : Value) :
    (Indexed.empty revision title operandBits).Mirrors (.empty revision title operandBits) :=
  ⟨rfl, rfl, rfl, rfl⟩

variable {x : Indexed} {t : Table} (h : x.Mirrors t)

include h

theorem lookup?_schemas (code : Value) : x.schemas.lookup? code = t.byCode? code := by
  rw [h.schemas, Entries.lookup?, List.find?_map, Option.map_map]
  exact Option.map_id_apply

theorem lookup?_codes (name : Value) : x.codes.lookup? name = (t.byName? name).map (·.code) := by
  rw [h.codes, Entries.lookup?, List.find?_map, Option.map_map]
  rfl

theorem register_eq (code : Int) (schema : Schema) : t.register code schema = do
    x.check code schema.name
    return (t.adopt code schema,
      ⟨t.revision, t.title, t.operandBits, t.schemas ++ [t.adopt code schema], false⟩) := by
  rw [Table.register, check, h.isSealed, h.revision, h.lookup?_schemas, h.lookup?_codes]
  cases t.isSealed with
  | true => rfl
  | false =>
    cases t.byCode? (.int code) with
    | some other => rfl
    | none =>
      cases schema.name.checkKey with
      | error e => rfl
      | ok => cases t.byName? schema.name <;> rfl

theorem entered {code : Int} {schema : Schema} (hopen : t.isSealed = false)
    (hcode : t.byCode? (.int code) = none) (hname : t.byName? schema.name = none) :
    (x.entered code schema).Mirrors
      ⟨t.revision, t.title, t.operandBits, t.schemas ++ [t.adopt code schema], false⟩ := by
  have hschemas : ∀ e ∈ x.schemas, ¬ e.1.equal (.int code) := by
    rw [h.schemas, List.forall_mem_map]
    exact List.find?_eq_none.mp hcode
  have hcodes : ∀ e ∈ x.codes, ¬ e.1.equal schema.name := by
    rw [h.codes, List.forall_mem_map]
    exact List.find?_eq_none.mp hname
  refine ⟨h.revision, h.isSealed.trans hopen, ?_, ?_⟩
  · rw [Indexed.entered, Entries.insert_of_fresh hschemas, List.map_append, ← h.schemas, adopt,
      h.revision]
    rfl
  · rw [Indexed.entered, Entries.insert_of_fresh hcodes, List.map_append, ← h.codes]
    rfl

/-- **One registration** fails with the dictionaries and without for the same reason, and leaves the
dictionaries as they were; or it makes the same of both. -/
theorem perform_register (code : Int) (schema : Schema) :
    (∃ e, (register code schema).perform x = (.error e, x) ∧ t.register code schema = .error e) ∨
      ∃ bound x' t', (register code schema).perform x = (.ok bound, x') ∧
        t.register code schema = .ok (bound, t') ∧ x'.Mirrors t' := by
  have hregister := h.register_eq code schema
  rw [Indexed.perform_register]
  cases hcheck : x.check code schema.name with
  | error e =>
    rw [hcheck] at hregister
    exact .inl ⟨e, rfl, hregister⟩
  | ok =>
    rw [hcheck] at hregister
    obtain ⟨hopen, hcode, -, hname, -, -⟩ := register_eq_ok_iff.mp hregister
    have hbound : x.adopt code schema = t.adopt code schema := by
      rw [Indexed.adopt, Table.adopt, h.revision]
    exact .inr ⟨_, _, _, rfl, hbound ▸ hregister, hbound ▸ h.entered hopen hcode hname⟩

end Mirrors

/-! ### Runs -/

def held (x : Indexed) (p : Int × Schema) : Schema := x.adopt p.1 p.2

def registrations (steps : List Step) : List (Int × Schema) := steps.filterMap Step.registration?

theorem registrations_concat (log : List Step) (step : Step) :
    registrations (log ++ [step]) = registrations log ++ step.registration?.toList := by
  rw [registrations, List.filterMap_append, ← registrations]
  cases step <;> rfl

/-- The dictionaries, **after** some steps that succeeded, are those of a table that comes about by
registering and closing, holds what was registered and is sealed if it was closed. -/
structure Follows (x : Indexed) (revision : Revision) (log : List Step) (t : Table) : Prop where
  mirrors : x.Mirrors t
  reachable : t.Reachable
  revision : t.revision = revision
  schemas : t.schemas = (registrations log).map x.held
  isSealed : t.isSealed ↔ .close ∈ log

theorem Follows.perform {x : Indexed} {revision : Revision} {log : List Step} {t : Table}
    (h : x.Follows revision log t) (step : Step) :
    (∃ e, step.perform.perform x = (.error e, x)) ∨
      ∃ x' t', step.perform.perform x = (.ok (), x') ∧ x'.Follows revision (log ++ [step]) t' := by
  obtain ⟨hmirrors, ht, hrevision, hschemas, hsealed⟩ := h
  cases step with
  | close =>
    refine .inr ⟨{ x with isSealed := true }, t.close, rfl, ?_, ht.close, hrevision, ?_, ?_⟩
    · exact ⟨hmirrors.revision, rfl, hmirrors.schemas, hmirrors.codes⟩
    · rw [registrations_concat]
      exact hschemas.trans (by rw [Step.registration?, Option.toList_none, List.append_nil]; rfl)
    · exact iff_of_true rfl (List.mem_append_right _ List.mem_cons_self)
  | register code schema =>
    rw [Step.perform, Update.perform_bind]
    rcases hmirrors.perform_register code schema with ⟨e, hx, -⟩ | ⟨bound, x', t', hx, hreg, h'⟩
    · rw [hx]
      exact .inl ⟨e, rfl⟩
    · rw [hx]
      refine .inr ⟨x', t', rfl, h', ht.register hreg, ?_, ?_, ?_⟩
      all_goals obtain ⟨hopen, -, -, -, rfl, rfl⟩ := register_eq_ok_iff.mp hreg
      · exact hrevision
      · have hheld : x'.held = x.held := by
          funext p
          rw [held, held, Indexed.adopt, Indexed.adopt, h'.revision, hmirrors.revision]
        have hadopt : t.adopt code schema = x.held (code, schema) := by
          rw [held, Indexed.adopt, Table.adopt, hmirrors.revision]
        rw [registrations_concat, List.map_append, hheld, ← hschemas, hadopt]
        rfl
      · rw [hopen] at hsealed
        simpa using hsealed

/-- A table **lists** registrations if it holds them in their order, each once, and finds each of
them by its code and by its name, and nothing else. -/
structure Lists (x : Indexed) (log : List (Int × Schema)) : Prop where
  events : x.events = log.map x.held
  codes : (log.map fun p => p.1).Nodup
  names : (log.map fun p => p.2.name).Nodup
  lookup_iff : ∀ (code : Int) (s : Schema),
    x.lookup (.int code) = .ok s ↔ ∃ p ∈ log, p.1 = code ∧ s = x.held p
  lookupName_iff : ∀ (name : String) (s : Schema),
    x.lookupName (.str name) = .ok s ↔ ∃ p ∈ log, p.2.name = .str name ∧ s = x.held p
  codeOf_iff : ∀ (name : String) (code : Int),
    x.codes.lookup? (.str name) = some code ↔ ∃ p ∈ log, p.2.name = .str name ∧ code = p.1

namespace Lists

variable {x : Indexed} {log : List (Int × Schema)} (h : x.Lists log)

include h

theorem lookup?_schemas_eq_some_iff {code : Int} {s : Schema} :
    x.schemas.lookup? (.int code) = some s ↔ ∃ p ∈ log, p.1 = code ∧ s = x.held p := by
  have hkey : (Value.int code).hashable := rfl
  have hfound : x.lookup (.int code) = .ok s ↔ _ := Table.found_eq_ok_iff
  rw [← h.lookup_iff, hfound, and_iff_right hkey]

end Lists

/-! ### Registering -/

/-- What registering an event comes to, by what the table lists.  The checks stand in their order,
and if one of them fails, the table is left as it was. -/
inductive Outcome (x : Indexed) (log : List (Int × Schema)) (code : Int) (schema : Schema) :
    Attempt Schema × Indexed → Prop
  /-- The table is sealed. -/
  | closed (h : x.isSealed) : Outcome x log code schema (.error (.sealedTable x.revision), x)
  /-- The code is taken. -/
  | code (hopen : x.isSealed = false) (hcode : ∃ p ∈ log, p.1 = code) :
      Outcome x log code schema (.error (.refused (.duplicateCode x.revision.text code)), x)
  /-- The name is taken, and the refusal says by which code. -/
  | name {p : Int × Schema} (hopen : x.isSealed = false) (hcode : ∀ p ∈ log, p.1 ≠ code)
      (hp : p ∈ log) (hname : p.2.name = schema.name) :
      Outcome x log code schema
        (.error (.refused (.duplicateName x.revision.text schema.name p.1)), x)
  /-- Nothing is taken. -/
  | fresh (hopen : x.isSealed = false) (hcode : ∀ p ∈ log, p.1 ≠ code)
      (hname : ∀ p ∈ log, p.2.name ≠ schema.name) :
      Outcome x log code schema (.ok (x.held (code, schema)), x.entered code schema)

/-- **Registering an event** has the outcome that the table's list says. -/
theorem Lists.outcome {x : Indexed} {log : List (Int × Schema)} (h : x.Lists log) (code : Int)
    {schema : Schema} {name : String} (hname : schema.name = .str name) :
    x.Outcome log code schema ((register code schema).perform x) := by
  rw [Indexed.perform_register, check]
  cases hopen : x.isSealed with
  | true => exact .closed hopen
  | false =>
    cases hcode : x.schemas.lookup? (.int code) with
    | some other =>
      obtain ⟨p, hp, hpc, -⟩ := h.lookup?_schemas_eq_some_iff.mp hcode
      exact .code hopen ⟨p, hp, hpc⟩
    | none =>
      have hcodes : ∀ p ∈ log, p.1 ≠ code := by
        intro p hp hpc
        have hfound := h.lookup?_schemas_eq_some_iff.mpr ⟨p, hp, hpc, rfl⟩
        rw [hcode] at hfound
        cases hfound
      rw [hname]
      cases hfound : x.codes.lookup? (.str name) with
      | some other =>
        obtain ⟨p, hp, hpn, rfl⟩ := (h.codeOf_iff name other).mp hfound
        have houtcome : x.Outcome log code schema _ := .name hopen hcodes hp (hpn.trans hname.symm)
        rw [hname] at houtcome
        exact houtcome
      | none =>
        refine .fresh hopen hcodes fun p hp hpn => ?_
        have hsome := (h.codeOf_iff name p.1).mpr ⟨p, hp, hpn.trans hname, rfl⟩
        rw [hfound] at hsome
        cases hsome

end Indexed

end Table

end EventDialects
