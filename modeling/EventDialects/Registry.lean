import EventDialects.Table

/-!
# Registries

A registry holds the tables of the revisions that are published. Registering a table seals it; it
must be registered under its own revision, and a revision has one table.

* `register_tables`: a registered table comes last, sealed.
-/

namespace EventDialects

/-- The published tables, in the order of their registration. -/
structure Registry where
  tables : List Table

namespace Registry

def empty : Registry := ⟨[]⟩

def find? (g : Registry) (r : Revision) : Option Table := g.tables.find? fun t => t.revision = r

def revisions (g : Registry) : List Revision := g.tables.map (·.revision)

def has (g : Registry) (revision : Value) : Attempt Bool := do
  return (g.find? (← Revision.read revision)).isSome

/-- The table of the revision that a value names; an unpublished one is refused. -/
def get (g : Registry) (revision : Value) : Attempt Table := do
  let r ← Revision.read revision
  match g.find? r with
  | some t => return t
  | none => refuse (.unknownRevision r.text)

/-- Publishes a table under its revision, sealed. -/
def register (g : Registry) (revision : Value) (t : Table) : Attempt Registry := do
  let r ← Revision.read revision
  if r ≠ t.revision then refuse (.definition (.wrongRevision t.revision r))
  if (g.find? r).isSome then refuse (.duplicateRevision r.text)
  return ⟨g.tables ++ [t.close]⟩

/-- **Publishing a table** succeeds exactly if it is its revision's own and first one; it then comes
last, sealed. -/
theorem register_eq_ok_iff {g g' : Registry} {revision : Value} {t : Table} :
    g.register revision t = .ok g' ↔ Revision.read revision = .ok t.revision ∧
      g.find? t.revision = none ∧ g' = ⟨g.tables ++ [t.close]⟩ := by
  rw [register, Attempt.bind_eq_ok]
  constructor
  · rintro ⟨r, hr, h⟩
    by_cases hrev : r = t.revision
    · subst hrev
      cases hg : g.find? t.revision with
      | some other => simp [hg, refuse, bind, Except.bind] at h
      | none =>
        simp only [ne_eq, not_true_eq_false, if_false, hg, Option.isSome_none] at h
        cases h
        exact ⟨hr, rfl, rfl⟩
    · simp [hrev, refuse, bind, Except.bind] at h
  · rintro ⟨hr, hg, rfl⟩
    exact ⟨t.revision, hr, by simp [hg, pure, Except.pure]⟩

theorem register_tables {g g' : Registry} {revision : Value} {t : Table}
    (h : g.register revision t = .ok g') : g'.tables = g.tables ++ [t.close] := by
  rw [(register_eq_ok_iff.mp h).2.2]

end Registry

end EventDialects
