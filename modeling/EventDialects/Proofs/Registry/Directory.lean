import EventDialects.Definition.Directory
import EventDialects.Proofs.Registry.Loading
import Mathlib.Data.List.Perm.Basic
import Mathlib.Data.Prod.Lex
import Mathlib.Data.String.Basic

/-!
# Registries of whole directories

The files of a directory are sorted twice, by their names when they are read and by their `order`
and their names when they are registered, and the first that makes no dialect, or one for a revision
that is there already, ends the loading.  Since no two files of a directory have one name, there is
only one way to sort them, and what is loaded does not depend on how the directory lists them.

* `Registry.registerAll_eq_ok_iff`, `registerAll_eq_error_iff`: what a run over some definitions
  gives, and with what it ends.
* `Registry.ofListing_sorted`: **what is loaded depends on the orders and the names of the files**.
-/

namespace EventDialects

open List (Forall₂)

namespace Registry

/-! ### One definition -/

variable {g g' : Registry} {t : Table} {e : Failure}

def publishAll (g : Registry) (ts : List Table) : Registry := ⟨g.tables ++ ts.map Table.close⟩

theorem publishAll_revisions {ts : List Table} :
    (g.publishAll ts).revisions = g.revisions ++ ts.map Table.revision := by
  simp [publishAll, revisions, Table.close]

theorem publishAll_cons {ts : List Table} :
    (g.publishAll [t]).publishAll ts = g.publishAll (t :: ts) := by
  simp [publishAll]

theorem register_own_eq_ok_iff : g.register (.revision t.revision) t = .ok g' ↔
    t.revision ∉ g.revisions ∧ g' = g.publishAll [t] := by
  rw [register_eq_ok_iff, ← find?_eq_none_iff]
  exact and_iff_right rfl

theorem register_own_eq_error_iff : g.register (.revision t.revision) t = .error e ↔
    t.revision ∈ g.revisions ∧ e = .refused (.duplicateRevision t.revision.text) := by
  constructor
  · intro h
    obtain ⟨hlong, -⟩ | ⟨hne, -⟩ | hold := register_eq_error h
    · cases hlong
    · exact absurd rfl hne
    · exact hold
  · rintro ⟨hmem, rfl⟩
    cases h : g.register (.revision t.revision) t with
    | ok g' => exact absurd hmem (register_own_eq_ok_iff.mp h).1
    | error e =>
      obtain ⟨hlong, -⟩ | ⟨hne, -⟩ | ⟨-, rfl⟩ := register_eq_error h
      · cases hlong
      · exact absurd rfl hne
      · rfl

/-- A definition **fails** after some revisions if it builds no table, or one for a revision that is
among them. -/
def FailsAfter (taken : List Revision) (d : String × Value) (e : Failure) : Prop :=
  Table.build d.2 d.1 = .error e ∨ ∃ t, Table.build d.2 d.1 = .ok t ∧ t.revision ∈ taken ∧
    e = .refused (.duplicateRevision t.revision.text)

/-! ### A run over definitions -/

/-- Definitions **load** after some revisions as tables if each builds one, for a revision that is
neither among them nor that of a table before it. -/
inductive LoadsAfter : List Revision → List (String × Value) → List Table → Prop
  | nil {taken : List Revision} : LoadsAfter taken [] []
  | cons {taken : List Revision} {d : String × Value} {ds : List (String × Value)} {t : Table}
      {ts : List Table} (hbuild : Table.build d.2 d.1 = .ok t) (hnew : t.revision ∉ taken)
      (h : LoadsAfter (taken ++ [t.revision]) ds ts) : LoadsAfter taken (d :: ds) (t :: ts)

/-- Definitions load if all of them build and no two tables are for one revision. -/
theorem loadsAfter_iff {ds : List (String × Value)} : ∀ {taken : List Revision} {ts : List Table},
    LoadsAfter taken ds ts ↔ Forall₂ (fun d t => Table.build d.2 d.1 = .ok t) ds ts ∧
      (ts.map Table.revision).Nodup ∧ ∀ t ∈ ts, t.revision ∉ taken := by
  induction ds with
  | nil =>
    intro taken ts
    constructor
    · rintro ⟨⟩
      exact ⟨.nil, .nil, fun _ ht => absurd ht List.not_mem_nil⟩
    · rintro ⟨⟨⟩, -, -⟩
      exact .nil
  | cons d ds ih =>
    intro taken ts
    constructor
    · rintro (_ | ⟨hbuild, hnew, h⟩)
      rename_i t ts
      obtain ⟨hbuilds, hdistinct, hrest⟩ := ih.mp h
      simp only [List.mem_append, List.mem_singleton, not_or] at hrest
      refine ⟨.cons hbuild hbuilds, List.nodup_cons.mpr ⟨fun hmem => ?_, hdistinct⟩,
        List.forall_mem_cons.mpr ⟨hnew, fun t' ht' => (hrest t' ht').1⟩⟩
      obtain ⟨t', ht', he⟩ := List.mem_map.mp hmem
      exact (hrest t' ht').2 he
    · rintro ⟨hbuilds, hdistinct, hall⟩
      obtain ⟨t, ts, hbuild, hrest, rfl⟩ := List.forall₂_cons_left_iff.mp hbuilds
      obtain ⟨hfirst, hdistinct⟩ := List.nodup_cons.mp hdistinct
      obtain ⟨hnew, hall⟩ := List.forall_mem_cons.mp hall
      refine .cons hbuild hnew (ih.mpr ⟨hrest, hdistinct, fun t' ht' hmem => ?_⟩)
      rcases List.mem_append.mp hmem with hmem | hmem
      · exact hall t' ht' hmem
      · exact hfirst (List.mem_map.mpr ⟨t', ht', List.mem_singleton.mp hmem⟩)

theorem loadsAfter_nil_iff {ds : List (String × Value)} {ts : List Table} : LoadsAfter [] ds ts ↔
    Forall₂ (fun d t => Table.build d.2 d.1 = .ok t) ds ts ∧ (ts.map Table.revision).Nodup := by
  simp [loadsAfter_iff]

theorem registerAll_append {ds ds' : List (String × Value)} :
    g.registerAll (ds ++ ds') = g.registerAll ds >>= fun g' => g'.registerAll ds' := by
  induction ds generalizing g with
  | nil => rfl
  | cons d ds ih =>
    obtain ⟨name, definition⟩ := d
    simp only [List.cons_append, registerAll, bind, Except.bind]
    cases Table.build definition name with
    | error e => rfl
    | ok t =>
      cases hregister : g.register (.revision t.revision) t with
      | error e => simp only [hregister]
      | ok g' =>
        simp only [hregister]
        exact ih

/-- **A run over definitions ends well exactly if they load**, and publishes their tables in
order. -/
theorem registerAll_eq_ok_iff {ds : List (String × Value)} : ∀ {g : Registry},
    g.registerAll ds = .ok g' ↔ ∃ ts, LoadsAfter g.revisions ds ts ∧ g' = g.publishAll ts := by
  induction ds with
  | nil =>
    intro g
    constructor
    · intro h
      cases h
      exact ⟨[], .nil, by simp [publishAll]⟩
    · rintro ⟨ts, ⟨⟩, rfl⟩
      simp [registerAll, publishAll]
  | cons d ds ih =>
    intro g
    simp only [registerAll, Attempt.bind_eq_ok, register_own_eq_ok_iff, ih]
    constructor
    · rintro ⟨t, hbuild, _, ⟨hnew, rfl⟩, ts, h, rfl⟩
      rw [publishAll_revisions] at h
      exact ⟨t :: ts, .cons hbuild hnew h, publishAll_cons⟩
    · rintro ⟨_, _ | ⟨hbuild, hnew, h⟩, rfl⟩
      rename_i t ts
      refine ⟨t, hbuild, _, ⟨hnew, rfl⟩, ts, ?_, publishAll_cons.symm⟩
      rw [publishAll_revisions]
      exact h

/-- A definition fails to be registered with what it fails with after the revisions there are. -/
theorem registerAll_cons_eq_error {d : String × Value} {ds : List (String × Value)}
    (h : FailsAfter g.revisions d e) : g.registerAll (d :: ds) = .error e := by
  rw [registerAll, Attempt.bind_eq_error]
  rcases h with h | ⟨t, ht, hold⟩
  · exact .inl h
  · refine .inr ⟨t, ht, Attempt.bind_eq_error.mpr (.inl ?_)⟩
    exact register_own_eq_error_iff.mpr hold

/-- **A run over definitions ends with what the first one fails with** that does not load after
those before it. -/
theorem registerAll_eq_error_iff {ds : List (String × Value)} : ∀ {g : Registry},
    g.registerAll ds = .error e ↔ ∃ before d after ts, ds = before ++ d :: after ∧
      LoadsAfter g.revisions before ts ∧
      FailsAfter (g.revisions ++ ts.map Table.revision) d e := by
  intro g
  constructor
  · intro h
    induction ds generalizing g with
    | nil => cases h
    | cons d ds ih =>
      rcases Attempt.bind_eq_error.mp h with hbuild | ⟨t, hbuild, h⟩
      · exact ⟨[], d, ds, [], rfl, .nil, .inl hbuild⟩
      rcases Attempt.bind_eq_error.mp h with hold | ⟨g', hregister, h⟩
      · refine ⟨[], d, ds, [], rfl, .nil, .inr ⟨t, hbuild, ?_⟩⟩
        simpa using register_own_eq_error_iff.mp hold
      obtain ⟨hnew, rfl⟩ := register_own_eq_ok_iff.mp hregister
      obtain ⟨before, d', after, ts, rfl, hloads, hfails⟩ := ih h
      rw [publishAll_revisions] at hloads hfails
      refine ⟨d :: before, d', after, t :: ts, rfl, .cons hbuild hnew hloads, ?_⟩
      rwa [List.append_assoc] at hfails
  · rintro ⟨before, d, after, ts, rfl, hloads, hfails⟩
    rw [registerAll_append, registerAll_eq_ok_iff.mpr ⟨ts, hloads, rfl⟩]
    refine registerAll_cons_eq_error ?_
    rwa [publishAll_revisions]

/-! ### The place of a file -/

/-- The order that a document gives, if it is an integer; a document that gives none has order
zero. -/
def order? (document : Value) : Option Int :=
  match document with
  | .map es => match Entries.lookup? es (.str "order") with
    | some v => v.integer?
    | none => some 0
  | _ => some 0

/-- The place of a definition: its order, then its file name. -/
def place (d : String × Value) : ℤ ×ₗ String := toLex ((order? d.2).getD 0, d.1)

/-- The rank of a definition is its order, as an integer or a boolean, and its name. -/
theorem exists_rank_eq {d : String × Value} (h : (order? d.2).isSome) :
    ∃ v, rank d = .tuple [v, .str d.1] ∧ v.integer? = some ((order? d.2).getD 0) := by
  obtain ⟨name, document⟩ := d
  cases document with
  | map es =>
    cases hlookup : Entries.lookup? es (.str "order") with
    | none =>
      exact ⟨.int 0, by simp [rank, hlookup], by simp [order?, hlookup, Value.integer?]⟩
    | some v =>
      rw [order?, hlookup] at h ⊢
      obtain ⟨n, hn⟩ := Option.isSome_iff_exists.mp h
      exact ⟨v, by simp [rank, hlookup], by simp [hn]⟩
  | _ => exact ⟨.int 0, rfl, rfl⟩

theorem equal_and_before_of_integer? {v w : Value} {m n : Int} (hv : v.integer? = some m)
    (hw : w.integer? = some n) :
    v.equal w = decide (m = n) ∧ v.before w = .ok (decide (m < n)) := by
  have hm := Value.number?_of_integer? hv
  have hn := Value.number?_of_integer? hw
  constructor
  · rw [Bool.eq_iff_iff, Value.equal_iff_of_number? hm, hn, decide_eq_true_iff]
    simp [Number.equal_ofInt]
  · rw [Value.before_of_number? hm]
    exact ⟨.ofInt n, hn, (Number.less_ofInt m n).symm⟩

/-- **Definitions are compared by their places.** -/
theorem before_rank {d d' : String × Value} (h : (order? d.2).isSome) (h' : (order? d'.2).isSome) :
    (rank d).before (rank d') = .ok (decide (place d < place d')) := by
  obtain ⟨v, hrank, hv⟩ := exists_rank_eq h
  obtain ⟨w, hrank', hw⟩ := exists_rank_eq h'
  obtain ⟨hequal, hbefore⟩ := equal_and_before_of_integer? hv hw
  have hplace : place d < place d' ↔ (order? d.2).getD 0 < (order? d'.2).getD 0 ∨
      (order? d.2).getD 0 = (order? d'.2).getD 0 ∧ d.1 < d'.1 := Prod.Lex.toLex_lt_toLex
  rw [hrank, hrank']
  simp only [Value.before, Value.beforeAll, hequal]
  by_cases horder : (order? d.2).getD 0 = (order? d'.2).getD 0
  · rw [horder] at hplace
    by_cases hname : d.1 = d'.1
    · simp [hplace, horder, hname, Value.equal]
    · simp [hplace, horder, hname, Value.equal]
  · rw [if_neg (by simpa using horder), hbefore]
    simp [hplace, horder]

/-! ### Directories -/

/-- The files of a directory whose documents can all be read. -/
def listed (documents : List (String × Value)) : Listing := documents.map fun d => (d.1, .ok d.2)

theorem documents_listed (documents : List (String × Value)) :
    (listed documents).documents = .ok documents := by
  induction documents with
  | nil => rfl
  | cons d documents ih =>
    simp only [listed, List.map_cons, Listing.documents]
    rw [show Listing.documents (documents.map fun d => (d.1, .ok d.2)) = .ok documents from ih]
    rfl

theorem exists_listed_of_perm {documents : List (String × Value)} {l : Listing}
    (h : l.Perm (listed documents)) : ∃ ds, l = listed ds ∧ ds.Perm documents := by
  have hreads : Forall₂ (fun f d => f = (d.1, .ok d.2)) (listed documents) documents :=
    List.forall₂_map_left_iff.mpr (List.forall₂_same.mpr fun _ _ => rfl)
  obtain ⟨ds, hds, hperm⟩ := List.perm_comp_forall₂ h hreads
  refine ⟨ds, ?_, hperm⟩
  rw [listed, ← List.forall₂_eq_eq_eq]
  exact List.forall₂_map_right_iff.mpr hds

theorem exists_definitions {documents : List (String × Value)} {l : Listing}
    (h : l.Perm (listed documents)) : ∃ ds, l.definitions.documents = .ok ds ∧
      ds.Perm (documents.filter fun d => Listing.isDefinition d.1) := by
  have hperm :
      l.definitions.Perm (listed (documents.filter fun d => Listing.isDefinition d.1)) := by
    refine (List.mergeSort_perm _ _).trans ((h.filter _).trans (.of_eq ?_))
    rw [listed, List.filter_map]
    rfl
  obtain ⟨ds, hds, hperm⟩ := exists_listed_of_perm hperm
  exact ⟨ds, hds ▸ documents_listed ds, hperm⟩

theorem exists_sorted {ds : List (String × Value)} (hnames : (ds.map Prod.fst).Nodup)
    (horders : ∀ d ∈ ds, (order? d.2).isSome) : ∃ sorted, Value.sortOn rank ds = .ok sorted ∧
      sorted.Perm ds ∧ sorted.Pairwise fun d d' => place d < place d' := by
  obtain ⟨sorted, hsort, hle⟩ := Value.exists_sortOn fun d hd d' hd' =>
    before_rank (horders d hd) (horders d' hd')
  have hperm := Value.sortOn_perm hsort
  have hne : sorted.Pairwise fun d d' => d.1 ≠ d'.1 :=
    List.pairwise_map.mp ((hperm.map Prod.fst).nodup_iff.mpr hnames)
  refine ⟨sorted, hsort, hperm, hle.imp₂ (fun d d' hle hne => ?_) hne⟩
  exact hle.lt_of_ne fun he => hne (congrArg Prod.snd (toLex.injective he))

/-- There is only one way to sort them. -/
theorem eq_of_sorted {ds ds' : List (String × Value)} (hperm : ds.Perm ds')
    (hds : ds.Pairwise fun d d' => place d < place d')
    (hds' : ds'.Pairwise fun d d' => place d < place d') : ds = ds' :=
  hperm.eq_of_pairwise (fun _ _ _ _ h h' => absurd h h'.asymm) hds hds'

/-- **What is loaded depends on the orders and the names of the files.**  There is one way to sort
the definitions of a directory by order and name, and whatever the directory lists first, all of
them are loaded in this way, each as a sealed table with the events of its document; or else the
first of them that builds no table, or one for a revision that an earlier one has, ends the loading
with its error.  Orders are integers here, and a document that gives none has order zero. -/
theorem ofListing_sorted {documents : List (String × Value)}
    (hnames : (documents.map Prod.fst).Nodup)
    (horders : ∀ d ∈ documents, Listing.isDefinition d.1 → (order? d.2).isSome) :
    ∃ sorted : List (String × Value),
      sorted.Perm (documents.filter fun d => Listing.isDefinition d.1) ∧
      (sorted.Pairwise fun d d' => place d < place d') ∧
      ∀ l : Listing, l.Perm (listed documents) →
        (∀ g, ofListing l = .ok g ↔ ∃ ts,
          Forall₂ (fun d t => Table.build d.2 d.1 = .ok t) sorted ts ∧
          (ts.map Table.revision).Nodup ∧ g = ⟨ts.map Table.close⟩) ∧
        ∀ e, ofListing l = .error e ↔ ∃ before d after ts, sorted = before ++ d :: after ∧
          Forall₂ (fun d t => Table.build d.2 d.1 = .ok t) before ts ∧
          (ts.map Table.revision).Nodup ∧ FailsAfter (ts.map Table.revision) d e := by
  have hdefinitions : ((documents.filter fun d => Listing.isDefinition d.1).map Prod.fst).Nodup :=
    hnames.sublist (List.filter_sublist.map Prod.fst)
  have hplaced : ∀ d ∈ documents.filter fun d => Listing.isDefinition d.1, (order? d.2).isSome :=
    fun d hd => horders d (List.mem_filter.mp hd).1 (List.mem_filter.mp hd).2
  obtain ⟨sorted, -, hperm, hsorted⟩ := exists_sorted hdefinitions hplaced
  refine ⟨sorted, hperm, hsorted, fun l hl => ?_⟩
  -- However the files are listed, the definitions come to be registered in this order.
  have hload : ofListing l = registerAll empty sorted := by
    obtain ⟨ds, hds, hdsperm⟩ := exists_definitions hl
    obtain ⟨sorted', hsort, hperm', hsorted'⟩ :=
      exists_sorted ((hdsperm.map Prod.fst).nodup_iff.mpr hdefinitions)
        fun d hd => hplaced d (hdsperm.mem_iff.mp hd)
    obtain rfl : sorted' = sorted :=
      eq_of_sorted ((hperm'.trans hdsperm).trans hperm.symm) hsorted' hsorted
    rw [ofListing, hds]
    change ofDocuments ds = _
    rw [ofDocuments, hsort]
    rfl
  have hnone : empty.revisions = [] := rfl
  constructor
  · intro g
    rw [hload, registerAll_eq_ok_iff, hnone]
    simp only [loadsAfter_nil_iff, and_assoc]
    rfl
  · intro e
    rw [hload, registerAll_eq_error_iff, hnone]
    simp only [loadsAfter_nil_iff, and_assoc, List.nil_append]

/-- A directory with a negative order, with equal orders of which one is not written down, and with
files that are no dialects. -/
def harbour : List (String × Value) :=
  [("equivalences.yaml", .null),
    ("fe11.yaml", Bundled.fields [("revision", .str "FE11")]),
    ("fe12.yaml", Bundled.fields [("revision", .str "FE12"), ("order", .int 0)]),
    ("fe13.yaml", Bundled.fields [("revision", .str "FE13"), ("order", .int (-1))]),
    ("notes.txt", .str "not a dialect")]

theorem ofListing_sorted_harbour : ∃ g, ofListing (listed harbour) = .ok g ∧
    ofListing (listed harbour.reverse) = .ok g ∧
      g.revisions = [⟨"FE13", ""⟩, ⟨"FE11", ""⟩, ⟨"FE12", ""⟩] := by
  have hfiles : (listed harbour).definitions =
      (listed harbour).filter fun f => Listing.isDefinition f.1 :=
    List.mergeSort_of_pairwise (by decide +kernel)
  have hload : (Listing.documents ((listed harbour).filter fun f => Listing.isDefinition f.1) >>=
      ofDocuments).toOption.map revisions = some [⟨"FE13", ""⟩, ⟨"FE11", ""⟩, ⟨"FE12", ""⟩] := by
    decide +kernel
  rw [← hfiles] at hload
  obtain ⟨g, hg, hrevisions⟩ := Option.map_eq_some_iff.mp hload
  replace hg : ofListing (listed harbour) = .ok g := Attempt.eq_ok_of_toOption hg
  obtain ⟨sorted, -, -, hlisted⟩ :=
    @ofListing_sorted harbour (by decide +kernel) (by decide +kernel)
  have hloads := ((hlisted _ (.refl _)).1 g).mp hg
  exact ⟨g, hg, ((hlisted _ (harbour.reverse_perm.map _)).1 g).mpr hloads, hrevisions⟩

end Registry

end EventDialects
