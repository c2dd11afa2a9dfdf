import EventDialects.Proofs.Registry.Coherence

/-!
# Published tables stay as they are

A table is known to whoever made it, also after it was published, and a registry does not copy it.
To say that a published table never changes, tables must therefore be shared: in a `Catalogue` they
have places, every call names the table that it is about by its place, and the registry holds places
as well.  Whatever changes a table at its place changes it for the registry, too.

A published table is sealed, and nothing changes a sealed table: it takes no event, and sealing it
again does nothing.  So a step keeps every published table, and publishing puts one behind them.

* `Changes`, `perform_eq_ok_iff`, `perform_eq_error`: what each call checks and does; a call that
  fails does nothing.
* `Keeps`: published tables are kept, and more may come after them.
* `Changes.keeps`, `Changes.sound`: **one step** keeps them and keeps the catalogue sound.
* `Changes.registry_eq`: the registry sees what `Registry.register` makes of a copy of the table.
* `reachable_after`: the registry of a run is reachable in the sense of `Registry.Reachable`.
* `published_stays`: **every run**, with the answers of the registry.
-/

namespace EventDialects

/-- Tables by their places, and the places of the published ones in the order of publication. -/
structure Catalogue where
  tables : List Table
  published : List Nat

/-- What can be asked of tables and a registry. -/
inductive Call
  | create (revision title operandBits : Value)
  | register (place : Nat) (code : Int) (schema : Schema)
  | close (place : Nat)
  | publish (revision : Value) (place : Nat)

/-- The revision that a call publishes if it succeeds. -/
def Call.revision? : Call → Option Revision
  | .publish revision _ => some (.ofValue revision)
  | _ => none

namespace Catalogue

def empty : Catalogue := ⟨[], []⟩

/-- The registry, which sees its tables at their places. -/
def registry (c : Catalogue) : Registry := ⟨c.published.filterMap (c.tables[·]?)⟩

def put (c : Catalogue) (place : Nat) (t : Table) : Catalogue :=
  ⟨c.tables.set place t, c.published⟩

def withTable (c : Catalogue) (place : Nat) (f : Table → Attempt Unit × Catalogue) :
    Attempt Unit × Catalogue :=
  match c.tables[place]? with
  | none => (misused .outOfBounds, c)
  | some t => f t

/-- Publishes the table at a place: after the checks it is sealed where it is, and its place is
entered. -/
def publish (c : Catalogue) (revision : Value) (place : Nat) (t : Table) :
    Attempt Unit × Catalogue :=
  match Revision.read revision with
  | .error e => (.error e, c)
  | .ok r =>
    if r ≠ t.revision then (refuse (.definition (.wrongRevision t.revision r)), c)
    else if (c.registry.find? r).isSome then (refuse (.duplicateRevision r.text), c)
    else
      let closed := c.put place t.close
      (.ok (), ⟨closed.tables, closed.published ++ [place]⟩)

/-- Answers a call and leaves the catalogue as it is then. -/
def perform (c : Catalogue) : Call → Attempt Unit × Catalogue
  | .create revision title operandBits => match Revision.read revision with
    | .error e => (.error e, c)
    | .ok r => (.ok (), ⟨c.tables ++ [.empty r title operandBits], c.published⟩)
  | .register place code schema => c.withTable place fun t =>
    match t.register code schema with
    | .ok (_, t') => (.ok (), c.put place t')
    | .error e => (.error e, c)
  | .close place => c.withTable place fun t => (.ok (), c.put place t.close)
  | .publish revision place => c.withTable place (c.publish revision place)

def after (c : Catalogue) (calls : List Call) : Catalogue :=
  calls.foldl (fun c call => (c.perform call).2) c

/-- The revisions that calls publish, in the order of the calls: those of the calls that succeed. -/
def publications (c : Catalogue) : List Call → List Revision
  | [] => []
  | call :: calls =>
    let rest := publications (c.perform call).2 calls
    match (c.perform call).1 with
    | .ok () => call.revision?.toList ++ rest
    | .error _ => rest

/-! ### What a call does -/

/-- What a call that succeeds has found and changes. -/
inductive Changes (c : Catalogue) : Call → Catalogue → Prop
  | create {revision : Value} {r : Revision} (title operandBits : Value)
      (hr : Revision.read revision = .ok r) : Changes c (.create revision title operandBits)
      ⟨c.tables ++ [.empty r title operandBits], c.published⟩
  | register {place : Nat} {code : Int} {schema bound : Schema} {t t' : Table}
      (ht : c.tables[place]? = some t) (h : t.register code schema = .ok (bound, t')) :
      Changes c (.register place code schema) (c.put place t')
  | close {place : Nat} {t : Table} (ht : c.tables[place]? = some t) :
      Changes c (.close place) (c.put place t.close)
  | publish {revision : Value} {place : Nat} {t : Table} (ht : c.tables[place]? = some t)
      (hr : Revision.read revision = .ok t.revision)
      (hnew : t.revision ∉ c.registry.revisions) :
      Changes c (.publish revision place) ⟨c.tables.set place t.close, c.published ++ [place]⟩

theorem withTable_eq_ok_iff {c c' : Catalogue} {place : Nat}
    {f : Table → Attempt Unit × Catalogue} : c.withTable place f = (.ok (), c') ↔
      ∃ t, c.tables[place]? = some t ∧ f t = (.ok (), c') := by
  rw [withTable]
  cases c.tables[place]? <;> simp [misused]

/-- **Publishing in place is registering a copy**: it has the same answer, and what it leaves is the
table closed at its place and the place entered. -/
theorem publish_eq (c : Catalogue) (revision : Value) (place : Nat) (t : Table) :
    c.publish revision place t = match c.registry.register revision t with
      | .ok _ => (.ok (), ⟨c.tables.set place t.close, c.published ++ [place]⟩)
      | .error e => (.error e, c) := by
  rw [publish, Registry.register]
  cases Revision.read revision with
  | error e => rfl
  | ok r =>
    by_cases hr : r = t.revision
    · subst hr
      cases hf : c.registry.find? t.revision <;>
        simp [hf, refuse, put, bind, Except.bind, pure, Except.pure]
    · simp [hr, refuse, bind, Except.bind]

theorem publish_eq_ok_iff {c c' : Catalogue} {revision : Value} {place : Nat} {t : Table} :
    c.publish revision place t = (.ok (), c') ↔ Revision.read revision = .ok t.revision ∧
      t.revision ∉ c.registry.revisions ∧
        c' = ⟨c.tables.set place t.close, c.published ++ [place]⟩ := by
  rw [publish_eq]
  constructor
  · intro h
    cases hreg : c.registry.register revision t with
    | error e => rw [hreg] at h; cases h
    | ok g =>
      obtain ⟨hr, hnew, -⟩ := Registry.register_eq_ok_iff.mp hreg
      rw [hreg] at h
      cases h
      exact ⟨hr, Registry.find?_eq_none_iff.mp hnew, rfl⟩
  · rintro ⟨hr, hnew, rfl⟩
    rw [Registry.register_eq_ok_iff.mpr ⟨hr, Registry.find?_eq_none_iff.mpr hnew, rfl⟩]

/-- **A call succeeds exactly with its changes.** -/
theorem perform_eq_ok_iff {c c' : Catalogue} {call : Call} :
    c.perform call = (.ok (), c') ↔ Changes c call c' := by
  constructor
  · intro h
    cases call with
    | create revision title operandBits =>
      rw [perform] at h
      cases hr : Revision.read revision with
      | error e => rw [hr] at h; cases h
      | ok r => rw [hr] at h; cases h; exact .create title operandBits hr
    | register place code schema =>
      obtain ⟨t, ht, h⟩ := withTable_eq_ok_iff.mp h
      cases hreg : t.register code schema with
      | error e => rw [hreg] at h; cases h
      | ok result => rw [hreg] at h; cases h; exact .register ht hreg
    | close place =>
      obtain ⟨t, ht, h⟩ := withTable_eq_ok_iff.mp h
      cases h
      exact .close ht
    | publish revision place =>
      obtain ⟨t, ht, h⟩ := withTable_eq_ok_iff.mp h
      obtain ⟨hr, hnew, rfl⟩ := publish_eq_ok_iff.mp h
      exact .publish ht hr hnew
  · intro h
    cases h with
    | create title operandBits hr => rw [perform, hr]
    | register ht h => exact withTable_eq_ok_iff.mpr ⟨_, ht, by rw [h]⟩
    | close ht => exact withTable_eq_ok_iff.mpr ⟨_, ht, rfl⟩
    | publish ht hr hnew =>
      exact withTable_eq_ok_iff.mpr ⟨_, ht, publish_eq_ok_iff.mpr ⟨hr, hnew, rfl⟩⟩

theorem withTable_eq_error {c c' : Catalogue} {place : Nat}
    {f : Table → Attempt Unit × Catalogue} {e : Failure}
    (hf : ∀ t, f t = (.error e, c') → c' = c) (h : c.withTable place f = (.error e, c')) :
    c' = c := by
  rw [withTable] at h
  cases ht : c.tables[place]? with
  | none => rw [ht] at h; cases h; rfl
  | some t => rw [ht] at h; exact hf t h

theorem publish_eq_error {c c' : Catalogue} {revision : Value} {place : Nat} {t : Table}
    {e : Failure} (h : c.publish revision place t = (.error e, c')) :
    c' = c ∧ c.registry.register revision t = .error e := by
  rw [publish_eq] at h
  cases hreg : c.registry.register revision t with
  | ok g => rw [hreg] at h; cases h
  | error e' => rw [hreg] at h; cases h; exact ⟨rfl, rfl⟩

/-- **A call that fails changes nothing.** -/
theorem perform_eq_error {c c' : Catalogue} {call : Call} {e : Failure}
    (h : c.perform call = (.error e, c')) : c' = c := by
  cases call with
  | create revision title operandBits =>
    rw [perform] at h
    cases hr : Revision.read revision with
    | error e => rw [hr] at h; cases h; rfl
    | ok r => rw [hr] at h; cases h
  | register place code schema =>
    refine withTable_eq_error (fun t ht => ?_) h
    cases hreg : t.register code schema with
    | error e => rw [hreg] at ht; cases ht; rfl
    | ok result => rw [hreg] at ht; cases ht
  | close place => exact withTable_eq_error (fun t ht => by cases ht) h
  | publish revision place => exact withTable_eq_error (fun t ht => (publish_eq_error ht).1) h

/-! ### What a step keeps -/

/-- The **published tables are kept**: those of the one catalogue come first in the other, at the
same places, and they are the same tables. -/
structure Keeps (c c' : Catalogue) : Prop where
  published : ∃ more, c'.published = c.published ++ more
  tables : ∀ place ∈ c.published, c'.tables[place]? = c.tables[place]?

namespace Keeps

theorem refl (c : Catalogue) : Keeps c c := ⟨⟨[], (List.append_nil _).symm⟩, fun _ _ => rfl⟩

theorem trans {c₁ c₂ c₃ : Catalogue} (h₁ : Keeps c₁ c₂) (h₂ : Keeps c₂ c₃) :
    Keeps c₁ c₃ := by
  obtain ⟨more₁, hmore₁⟩ := h₁.published
  obtain ⟨more₂, hmore₂⟩ := h₂.published
  refine ⟨⟨more₁ ++ more₂, by rw [hmore₂, hmore₁, List.append_assoc]⟩, fun place hplace => ?_⟩
  have hplace₂ : place ∈ c₂.published := by
    rw [hmore₁]
    exact List.mem_append_left _ hplace
  rw [h₂.tables place hplace₂, h₁.tables place hplace]

/-- The registry sees the tables that it saw before, and perhaps more behind them. -/
theorem registry_tables {c c' : Catalogue} (h : Keeps c c') :
    ∃ more, c'.registry.tables = c.registry.tables ++ more := by
  obtain ⟨more, hmore⟩ := h.published
  have hkept : c.published.filterMap (c'.tables[·]?) = c.published.filterMap (c.tables[·]?) :=
    List.filterMap_congr h.tables
  refine ⟨more.filterMap (c'.tables[·]?), ?_⟩
  rw [registry, registry, hmore, List.filterMap_append, hkept]

end Keeps

/-- A catalogue is **sound** if every published table is there and sealed, and no two published
tables are of the same revision. -/
structure Sound (c : Catalogue) : Prop where
  closed : ∀ place ∈ c.published, ∃ t, c.tables[place]? = some t ∧ t.isSealed = true
  distinct : c.registry.revisions.Nodup

theorem sound_empty : Sound empty := ⟨fun _ h => (List.not_mem_nil h).elim, .nil⟩

theorem Sound.isSealed {c : Catalogue} (hs : Sound c) {place : Nat} {t : Table}
    (ht : c.tables[place]? = some t) (hplace : place ∈ c.published) : t.isSealed = true := by
  obtain ⟨t', ht', hclosed⟩ := hs.closed place hplace
  exact Option.some.inj (ht'.symm.trans ht) ▸ hclosed

theorem not_mem_published {c : Catalogue} {place : Nat} {t : Table}
    (ht : c.tables[place]? = some t) (hnew : t.revision ∉ c.registry.revisions) :
    place ∉ c.published := by
  intro hplace
  exact hnew (List.mem_map.mpr ⟨t, List.mem_filterMap.mpr ⟨place, hplace, ht⟩, rfl⟩)

theorem put_close_of_isSealed {c : Catalogue} {place : Nat} {t : Table}
    (ht : c.tables[place]? = some t) (h : t.isSealed = true) : c.put place t.close = c := by
  have hclose : t.close = t := by
    obtain ⟨revision, title, operandBits, schemas, isSealed⟩ := t
    subst h
    rfl
  obtain ⟨hlt, rfl⟩ := List.getElem?_eq_some_iff.mp ht
  rw [put, hclose, List.set_getElem_self]

theorem keeps_of_not_mem {c : Catalogue} {place : Nat} (t : Table) (more : List Nat)
    (h : place ∉ c.published) : Keeps c ⟨c.tables.set place t, c.published ++ more⟩ := by
  refine ⟨⟨more, rfl⟩, fun place' hplace' => List.getElem?_set_ne ?_⟩
  rintro rfl
  exact h hplace'

theorem registry_of_register {c : Catalogue} {revision : Value} {place : Nat} {t : Table}
    {g : Registry} (ht : c.tables[place]? = some t)
    (hreg : c.registry.register revision t = .ok g) :
    registry ⟨c.tables.set place t.close, c.published ++ [place]⟩ = g := by
  obtain ⟨hr, hnew, rfl⟩ := Registry.register_eq_ok_iff.mp hreg
  have hopen : place ∉ c.published :=
    not_mem_published ht (Registry.find?_eq_none_iff.mp hnew)
  have hkept := List.filterMap_congr (keeps_of_not_mem t.close [place] hopen).tables
  have hlast : (c.tables.set place t.close)[place]? = some t.close :=
    List.getElem?_set_self (List.getElem?_eq_some_iff.mp ht).1
  simp only [registry, List.filterMap_append, hkept, List.filterMap_cons, hlast,
    List.filterMap_nil]

namespace Changes

variable {c c' : Catalogue} {call : Call}

/-- **One step keeps the published tables.** -/
theorem keeps (h : Changes c call c') (hs : Sound c) : Keeps c c' := by
  cases h with
  | create title operandBits hr =>
    refine ⟨⟨[], (List.append_nil _).symm⟩, fun place hplace => ?_⟩
    obtain ⟨t, ht, -⟩ := hs.closed place hplace
    exact List.getElem?_append_left (List.getElem?_eq_some_iff.mp ht).1
  | @register place code schema bound t t' ht h =>
    -- The table took an event, so it is not sealed and hence not published.
    have hopen : place ∉ c.published := by
      intro hplace
      rw [Table.register_sealed (hs.isSealed ht hplace)] at h
      cases h
    simpa [put] using keeps_of_not_mem t' [] hopen
  | @close place t ht =>
    -- Sealing is the one change that a published table allows, and there it changes nothing.
    by_cases hplace : place ∈ c.published
    · rw [put_close_of_isSealed ht (hs.isSealed ht hplace)]
      exact .refl c
    · simpa [put] using keeps_of_not_mem t.close [] hplace
  | @publish revision place t ht hr hnew =>
    exact keeps_of_not_mem t.close [place] (not_mem_published ht hnew)

/-- **What the registry sees after a step** is what it saw before, or what registering a copy of
the table gives. -/
theorem registry_eq (h : Changes c call c') (hs : Sound c) :
    (call.revision? = none ∧ c'.registry = c.registry) ∨
      ∃ revision place t, call = .publish revision place ∧ c.tables[place]? = some t ∧
        c.registry.register revision t = .ok c'.registry := by
  have hkeeps := h.keeps hs
  have hsame (hpublished : c'.published = c.published) : c'.registry = c.registry := by
    rw [registry, registry, hpublished]
    exact congrArg Registry.mk (List.filterMap_congr hkeeps.tables)
  cases h with
  | create title operandBits hr => exact .inl ⟨rfl, hsame rfl⟩
  | register ht h => exact .inl ⟨rfl, hsame rfl⟩
  | close ht => exact .inl ⟨rfl, hsame rfl⟩
  | @publish revision place t ht hr hnew =>
    have hreg := Registry.register_eq_ok_iff.mpr ⟨hr, Registry.find?_eq_none_iff.mpr hnew, rfl⟩
    rw [← registry_of_register ht hreg] at hreg
    exact .inr ⟨revision, place, t, rfl, ht, hreg⟩

theorem revisions_eq (h : Changes c call c') (hs : Sound c) :
    c'.registry.revisions = c.registry.revisions ++ call.revision?.toList := by
  rcases h.registry_eq hs with ⟨hnone, hsame⟩ | ⟨revision, place, t, rfl, -, hreg⟩
  · rw [hnone, hsame, Option.toList_none, List.append_nil]
  · obtain ⟨hr, -, he⟩ := Registry.register_eq_ok_iff.mp hreg
    rw [he, Registry.revisions, List.map_append]
    obtain ⟨-, hr⟩ := Revision.read_eq_ok.mp hr
    simp [Registry.revisions, Call.revision?, hr, Table.close]

/-- **One step keeps a catalogue sound.** -/
theorem sound (h : Changes c call c') (hs : Sound c) : Sound c' := by
  have hkeeps := h.keeps hs
  have hrevisions := h.revisions_eq hs
  have hclosed : ∀ place ∈ c.published, ∃ t, c'.tables[place]? = some t ∧ t.isSealed = true := by
    intro place hplace
    rw [hkeeps.tables place hplace]
    exact hs.closed place hplace
  have hsame (hnone : call.revision? = none) : c'.registry.revisions.Nodup := by
    rw [hrevisions, hnone, Option.toList_none, List.append_nil]
    exact hs.distinct
  cases h with
  | create title operandBits hr => exact ⟨hclosed, hsame rfl⟩
  | register ht h => exact ⟨hclosed, hsame rfl⟩
  | close ht => exact ⟨hclosed, hsame rfl⟩
  | @publish revision place t ht hr hnew =>
    refine ⟨List.forall_mem_append.mpr ⟨hclosed, ?_⟩, ?_⟩
    · rw [List.forall_mem_singleton]
      exact ⟨t.close, List.getElem?_set_self (List.getElem?_eq_some_iff.mp ht).1, rfl⟩
    · rw [hrevisions]
      refine List.nodup_append.mpr ⟨hs.distinct, List.pairwise_singleton _ _, ?_⟩
      rintro r hold r' hr' rfl
      rw [Call.revision?, (Revision.read_eq_ok.mp hr).2] at hr'
      exact hnew (List.mem_singleton.mp hr' ▸ hold)

theorem reachable (h : Changes c call c') (hs : Sound c) (htables : ∀ t ∈ c.tables, t.Reachable)
    (hregistry : c.registry.Reachable) :
    (∀ t ∈ c'.tables, t.Reachable) ∧ c'.registry.Reachable := by
  have hset {place : Nat} {t : Table} (ht : t.Reachable) :
      ∀ t' ∈ c.tables.set place t, t'.Reachable := by
    intro t' ht'
    rcases List.mem_or_eq_of_mem_set ht' with ht' | rfl
    · exact htables t' ht'
    · exact ht
  have hat {place : Nat} {t : Table} (ht : c.tables[place]? = some t) : t.Reachable :=
    htables t (List.mem_of_getElem? ht)
  constructor
  · cases h with
    | create title operandBits hr =>
      refine List.forall_mem_append.mpr ⟨htables, ?_⟩
      rw [List.forall_mem_singleton]
      exact .empty _ title operandBits
    | register ht h => exact hset ((hat ht).register h)
    | close ht => exact hset (hat ht).close
    | publish ht _ _ => exact hset (hat ht).close
  · rcases h.registry_eq hs with ⟨-, hsame⟩ | ⟨revision, place, t, -, ht, hreg⟩
    · exact hsame ▸ hregistry
    · exact hregistry.register (hat ht) hreg

end Changes

/-! ### Runs -/

theorem perform_cases (c : Catalogue) (call : Call) :
    (∃ c', c.perform call = (.ok (), c') ∧ Changes c call c') ∨
      ∃ e, c.perform call = (.error e, c) := by
  rcases h : c.perform call with ⟨answer, c'⟩
  cases answer with
  | ok => exact .inl ⟨c', rfl, perform_eq_ok_iff.mp h⟩
  | error e =>
    obtain rfl := perform_eq_error h
    exact .inr ⟨e, rfl⟩

theorem after_induction {P : Catalogue → Prop}
    (hstep : ∀ {c c' : Catalogue} {call : Call}, Changes c call c' → P c → P c')
    (calls : List Call) : ∀ {c : Catalogue}, P c → P (c.after calls) := by
  induction calls with
  | nil => intro c hc; exact hc
  | cons call calls ih =>
    intro c hc
    have hafter : c.after (call :: calls) = (c.perform call).2.after calls := rfl
    rw [hafter]
    rcases perform_cases c call with ⟨c', hc', hchanges⟩ | ⟨e, he⟩
    · rw [hc']
      exact ih (hstep hchanges hc)
    · rw [he]
      exact ih hc

theorem sound_after {c : Catalogue} (hs : Sound c) (calls : List Call) : Sound (c.after calls) :=
  after_induction (fun hchanges hs => hchanges.sound hs) calls hs

/-- **A run keeps the published tables.** -/
theorem keeps_after {c : Catalogue} (hs : Sound c) (calls : List Call) :
    Keeps c (c.after calls) := by
  have hrun : Keeps c (c.after calls) ∧ Sound (c.after calls) := by
    refine after_induction (P := fun c' => Keeps c c' ∧ Sound c') ?_ calls ⟨.refl c, hs⟩
    rintro c₁ c₂ call hchanges ⟨hkeeps, hs₁⟩
    exact ⟨hkeeps.trans (hchanges.keeps hs₁), hchanges.sound hs₁⟩
  exact hrun.1

/-- **The registry of a run is reachable.** -/
theorem reachable_after (calls : List Call) : (empty.after calls).registry.Reachable := by
  have hrun : Sound (empty.after calls) ∧ (∀ t ∈ (empty.after calls).tables, t.Reachable) ∧
      (empty.after calls).registry.Reachable := by
    refine after_induction (P := fun c => Sound c ∧ (∀ t ∈ c.tables, t.Reachable) ∧
      c.registry.Reachable) ?_ calls ⟨sound_empty, fun t ht => (List.not_mem_nil ht).elim, .empty⟩
    rintro c c' call hchanges ⟨hs, htables, hregistry⟩
    exact ⟨hchanges.sound hs, hchanges.reachable hs htables hregistry⟩
  exact hrun.2.2

/-- The registry lists the revisions that were published, in the order of the calls. -/
theorem revisions_after (calls : List Call) : ∀ {c : Catalogue}, Sound c →
    (c.after calls).registry.revisions = c.registry.revisions ++ c.publications calls := by
  induction calls with
  | nil => intro c _; exact (List.append_nil _).symm
  | cons call calls ih =>
    intro c hs
    have hafter : c.after (call :: calls) = (c.perform call).2.after calls := rfl
    rw [hafter, publications]
    rcases perform_cases c call with ⟨c', hc', hchanges⟩ | ⟨e, he⟩
    · rw [hc', ih (hchanges.sound hs), hchanges.revisions_eq hs, List.append_assoc]
    · rw [he]
      exact ih hs

end Catalogue

/-! ### What is found -/

/-- An event is **found or unknown**: there is a schema, or the refusal says that the revision has
no such event. -/
def FoundOrUnknown (answer : Attempt Schema) (r : Revision) (key : Value) : Prop :=
  (∃ s, answer = .ok s) ∨ answer = refuse (.unknownEvent r.text key)

namespace Table

theorem lookup_foundOrUnknown {t : Table} {code : Value} (hkey : code.hashable) :
    FoundOrUnknown (t.lookup code) t.revision code := by
  cases h : t.byCode? code with
  | some s => exact .inl ⟨s, lookup_eq_ok_iff.mpr ⟨hkey, h⟩⟩
  | none =>
    refine .inr ?_
    rw [lookup, Value.checkKey_eq_ok_iff.mpr hkey, h]
    rfl

theorem lookupName_foundOrUnknown {t : Table} {name : Value} (hkey : name.hashable) :
    FoundOrUnknown (t.lookupName name) t.revision name := by
  cases h : t.byName? name with
  | some s => exact .inl ⟨s, lookupName_eq_ok_iff.mpr ⟨hkey, h⟩⟩
  | none =>
    refine .inr ?_
    rw [lookupName, Value.checkKey_eq_ok_iff.mpr hkey, h]
    rfl

end Table

namespace Registry

variable {g : Registry} {revision key : Value}

theorem foundOrUnknown (hprint : revision.printable) (hr : Revision.ofValue revision ∈ g.revisions)
    (hkey : key.hashable) :
    FoundOrUnknown (g.resolve revision key) (.ofValue revision) key ∧
      FoundOrUnknown (g.resolveName revision key) (.ofValue revision) key := by
  obtain ⟨t, ht⟩ := exists_get_of_mem_revisions hprint hr
  rw [resolve, resolveName, ht, ← revision_of_get ht]
  exact ⟨Table.lookup_foundOrUnknown hkey, Table.lookupName_foundOrUnknown hkey⟩

theorem resolve_of_not_mem_revisions (hprint : revision.printable)
    (hr : Revision.ofValue revision ∉ g.revisions) :
    g.resolve revision key =
        .error (.refused (.unknownRevision (Revision.ofValue revision).text)) ∧
      g.resolveName revision key =
        .error (.refused (.unknownRevision (Revision.ofValue revision).text)) := by
  rw [resolve, resolveName, get_of_not_mem_revisions hprint hr]
  exact ⟨rfl, rfl⟩

theorem resolve_append {g' : Registry} {more : List Table} (h : g'.tables = g.tables ++ more)
    (hprint : revision.printable) (hr : Revision.ofValue revision ∈ g.revisions) :
    g'.resolve revision key = g.resolve revision key ∧
      g'.resolveName revision key = g.resolveName revision key := by
  obtain ⟨t, ht⟩ := exists_get_of_mem_revisions hprint hr
  have ht' : g'.get revision = .ok t := by
    rw [get_eq_ok_iff] at ht ⊢
    refine ⟨hprint, ?_⟩
    rw [find?, h, List.find?_append, ← find?, ht.2, Option.some_or]
  rw [resolve, resolve, resolveName, resolveName, ht, ht']
  exact ⟨rfl, rfl⟩

end Registry

namespace Catalogue

/-- A published revision has the table at one of the published places, and this table is sealed. -/
theorem Sound.exists_get {c : Catalogue} (hs : Sound c) {r : Revision}
    (hr : r ∈ c.registry.revisions) : ∃ place ∈ c.published, ∃ t, c.tables[place]? = some t ∧
      c.registry.get (.revision r) = .ok t ∧ t.revision = r ∧ t.isSealed = true := by
  obtain ⟨t, ht⟩ := @Registry.exists_get_of_mem_revisions _ (.revision r) rfl hr
  obtain ⟨place, hplace, hat⟩ := List.mem_filterMap.mp (Registry.mem_tables_of_get ht)
  exact ⟨place, hplace, t, hat, ht, Registry.revision_of_get ht, hs.isSealed hat hplace⟩

/-- **A published table never changes.**  After any calls on any tables, whichever of them fail:

* the registry lists the revisions that were published, each once and in the order of the calls, and
  each has a sealed table of that revision at a published place;
* publishing a table fails only for another revision than its own, for one that is published or for
  a value that cannot be printed, and then leaves all tables and the registry as they are;
* in a published revision every code and every name is found or unknown, and stays so whatever is
  called later; a revision that is not published is unknown. -/
theorem published_stays (calls : List Call) :
    let c := empty.after calls
    (c.registry.revisions = empty.publications calls ∧ c.registry.revisions.Nodup ∧
      ∀ r ∈ c.registry.revisions, ∃ place ∈ c.published, ∃ t, c.tables[place]? = some t ∧
        c.registry.get (.revision r) = .ok t ∧ t.revision = r ∧ t.isSealed = true) ∧
    (∀ (revision : Value) (place : Nat) (t : Table) (e : Failure) (c' : Catalogue),
      c.tables[place]? = some t → c.perform (.publish revision place) = (.error e, c') →
        c' = c ∧ ((revision.printable = false ∧ e = .misuse .tooLong) ∨
          (Revision.ofValue revision ≠ t.revision ∧
            e = .refused (.definition (.wrongRevision t.revision (.ofValue revision)))) ∨
          (Revision.ofValue revision ∈ c.registry.revisions ∧
            e = .refused (.duplicateRevision (Revision.ofValue revision).text)))) ∧
    ∀ revision key : Value, revision.printable →
      (Revision.ofValue revision ∈ c.registry.revisions →
        (key.hashable → FoundOrUnknown (c.registry.resolve revision key) (.ofValue revision) key ∧
          FoundOrUnknown (c.registry.resolveName revision key) (.ofValue revision) key) ∧
        ∀ later : List Call,
          (c.after later).registry.resolve revision key = c.registry.resolve revision key ∧
            (c.after later).registry.resolveName revision key =
              c.registry.resolveName revision key) ∧
      (Revision.ofValue revision ∉ c.registry.revisions →
        c.registry.resolve revision key =
            .error (.refused (.unknownRevision (Revision.ofValue revision).text)) ∧
          c.registry.resolveName revision key =
            .error (.refused (.unknownRevision (Revision.ofValue revision).text))) := by
  intro c
  have hs : Sound c := sound_after sound_empty calls
  have hrevisions : c.registry.revisions = empty.publications calls :=
    revisions_after calls sound_empty
  refine ⟨⟨hrevisions, hs.distinct, fun r hr => hs.exists_get hr⟩, ?_,
    fun revision key hprint => ⟨?_, ?_⟩⟩
  · intro revision place t e c' ht h
    have hpublish : c.publish revision place t = (.error e, c') := by
      rwa [perform, withTable, ht] at h
    obtain ⟨hc, hreg⟩ := publish_eq_error hpublish
    exact ⟨hc, Registry.register_eq_error hreg⟩
  · intro hr
    refine ⟨fun hkey => Registry.foundOrUnknown hprint hr hkey, fun later => ?_⟩
    obtain ⟨more, hmore⟩ := (keeps_after hs later).registry_tables
    exact Registry.resolve_append hmore hprint hr
  · intro hr
    exact Registry.resolve_of_not_mem_revisions hprint hr

/-- Calls of which the last three fail: the published table takes no more events, its revision is
published, and a table is not published under another revision. -/
def twoTables : List Call :=
  [.create (.str "FE14") .null (.int 32), .register 0 1 ⟨1, .str "Watch", [], none⟩,
    .create (.str " FE14 ") .null (.int 32), .publish (.str "FE14") 0,
    .register 0 2 ⟨2, .str "Rest", [], none⟩, .publish (.str "FE14") 1, .publish (.str "FE9") 1]

example : (empty.publications twoTables, (empty.after twoTables).published) =
    ([⟨"FE14", ""⟩], [0]) := by
  decide +kernel

theorem published_stays_twoTables :
    (empty.after twoTables).registry.revisions = [⟨"FE14", ""⟩] ∧
      ∃ s, s.code = 1 ∧ ∀ later : List Call,
        ((empty.after twoTables).after later).registry.resolve (.str "FE14") (.int 1) = .ok s := by
  obtain ⟨⟨hrevisions, -, -⟩, -, hlookups⟩ := published_stays twoTables
  have hpublished : empty.publications twoTables = [⟨"FE14", ""⟩] := by decide +kernel
  have hfound : ((empty.after twoTables).registry.resolve (.str "FE14")
      (.int 1)).toOption.map Schema.code = some 1 := by
    decide +kernel
  have hr : Revision.ofValue (.str "FE14") ∈ (empty.after twoTables).registry.revisions := by
    rw [hrevisions, hpublished]
    decide +kernel
  obtain ⟨s, hs, hcode⟩ := Option.map_eq_some_iff.mp hfound
  refine ⟨hrevisions.trans hpublished, s, hcode, fun later => ?_⟩
  have hstays := (((hlookups (.str "FE14") (.int 1) rfl).1 hr).2 later).1
  exact hstays.trans (Attempt.eq_ok_of_toOption hs)

end Catalogue

end EventDialects
