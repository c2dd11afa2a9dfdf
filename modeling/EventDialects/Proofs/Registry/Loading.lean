import EventDialects.Bundled.Form
import EventDialects.Definition.Dialect
import EventDialects.Proofs.Registry.Coherence
import EventDialects.Proofs.Revision
import EventDialects.Proofs.Value.Order

/-!
# Registries that are loaded from definitions

A definition is read entry by entry, and each event that it declares is registered like any other.
The table of a definition is therefore a reachable one, and so is a registry that is loaded from
definitions.

A definition gives title and variant apart, and the table is made for exactly these two, whatever
characters they hold.  A look-up by text strips and splits the text instead.  So a loaded revision
is found under its own text form exactly if it is plain.

* `Table.build_reachable`: **a definition makes a table like any other**, for the revision that it
  names.
* `Registry.ofDocuments_revisions`: a loaded registry is reachable, and its revisions are those that
  the definitions name.
* `Registry.get_text_iff`: **which loaded revisions their text form reaches**.
-/

namespace EventDialects

open List (Forall₂)

namespace Table

/-! ### One definition -/

/-- The event that an entry declares has a name that can be printed and the slots that the entries of
the event declare. -/
theorem exists_register_of_registerEntry {source : String} {t t' : Table} {key event : Value}
    (h : registerEntry source t key event = .ok t') :
    ∃ code name entries slots bound, name.printable ∧
      Slot.ofEntries source name t.operandBits entries = .ok slots ∧
      t.register code ⟨code, name, slots, none⟩ = .ok (bound, t') := by
  rw [registerEntry, Attempt.bind_eq_ok] at h
  obtain ⟨code, -, h⟩ := h
  cases hname : event.hasEntry "name" with
  | false => simp [hname, refuse, bind, Except.bind] at h
  | true =>
    simp only [hname, Bool.not_true, Bool.false_eq_true, if_false] at h
    obtain ⟨name, -, h⟩ := Attempt.bind_eq_ok.mp h
    obtain ⟨_, hprint, h⟩ := Attempt.bind_eq_ok.mp h
    obtain ⟨found, -, h⟩ := Attempt.bind_eq_ok.mp h
    obtain ⟨entries, -, h⟩ := Attempt.bind_eq_ok.mp h
    obtain ⟨slots, hslots, h⟩ := Attempt.bind_eq_ok.mp h
    obtain ⟨⟨bound, t''⟩, hreg, h⟩ := Attempt.bind_eq_ok.mp h
    cases h
    have hname := (Value.print_eq_ok.mp hprint).1
    exact ⟨code, name, entries, slots, bound, hname, hslots, hreg⟩

theorem register_revision {t t' : Table} {code : Int} {schema bound : Schema}
    (h : t.register code schema = .ok (bound, t')) : t'.revision = t.revision := by
  obtain ⟨-, -, -, -, -, rfl⟩ := register_eq_ok_iff.mp h
  rfl

theorem registerEntries_reachable {source : String} {events : Entries} : ∀ {t t' : Table},
    t.Reachable → registerEntries source t events = .ok t' →
      t'.Reachable ∧ t'.revision = t.revision := by
  induction events with
  | nil =>
    intro t t' ht h
    cases h
    exact ⟨ht, rfl⟩
  | cons e events ih =>
    intro t t' ht h
    obtain ⟨t₁, h₁, h⟩ := Attempt.bind_eq_ok.mp h
    obtain ⟨_, _, _, _, _, -, -, hreg⟩ := exists_register_of_registerEntry h₁
    obtain ⟨hreach, hrev⟩ := ih (ht.register hreg) h
    exact ⟨hreach, hrev.trans (register_revision hreg)⟩

/-- A definition **names** a revision by its title and its variant, each taken as it is printed. -/
def Names (definition : Value) (r : Revision) : Prop :=
  ∃ title variant, definition.entryOr "revision" .null = .ok title ∧
    definition.entryOr "variant" (.str "") = .ok variant ∧ title.print = .ok r.title ∧
    variant.print = .ok r.variant

/-- A table is made of an empty one, for the revision that the definition names. -/
theorem exists_registerEntries_of_build {definition : Value} {source : String} {t : Table}
    (h : build definition source = .ok t) : ∃ r title bits events, Names definition r ∧
      registerEntries source (empty r title bits) events = .ok t := by
  rw [build] at h
  cases hrev : definition.hasEntry "revision" with
  | false => simp [hrev, refuse, bind, Except.bind] at h
  | true =>
    simp only [hrev, Bool.not_true, Bool.false_eq_true, if_false] at h
    obtain ⟨title, htitle, h⟩ := Attempt.bind_eq_ok.mp h
    obtain ⟨titleText, hprint, h⟩ := Attempt.bind_eq_ok.mp h
    obtain ⟨variant, hvariant, h⟩ := Attempt.bind_eq_ok.mp h
    obtain ⟨variantText, hprint', h⟩ := Attempt.bind_eq_ok.mp h
    obtain ⟨bits, -, h⟩ := Attempt.bind_eq_ok.mp h
    obtain ⟨caption, -, h⟩ := Attempt.bind_eq_ok.mp h
    obtain ⟨found, -, h⟩ := Attempt.bind_eq_ok.mp h
    obtain ⟨events, -, h⟩ := Attempt.bind_eq_ok.mp h
    exact ⟨_, caption, bits, events, ⟨title, variant, htitle, hvariant, hprint, hprint'⟩, h⟩

/-- **A definition makes a table like any other**, for the revision that it names. -/
theorem build_reachable {definition : Value} {source : String} {t : Table}
    (h : build definition source = .ok t) : t.Reachable ∧ Names definition t.revision := by
  obtain ⟨r, title, bits, events, hnames, h⟩ := exists_registerEntries_of_build h
  obtain ⟨hreach, ht⟩ := registerEntries_reachable (.empty r title bits) h
  exact ⟨hreach, ht ▸ hnames⟩

end Table

namespace Registry

/-! ### Many definitions -/

theorem registerAll_revisions {definitions : List (String × Value)} : ∀ {g g' : Registry},
    g.Reachable → registerAll g definitions = .ok g' → g'.Reachable ∧
      ∃ rs, g'.revisions = g.revisions ++ rs ∧
        Forall₂ (fun d r => Table.Names d.2 r) definitions rs := by
  induction definitions with
  | nil =>
    intro g g' hg h
    cases h
    exact ⟨hg, [], (List.append_nil _).symm, .nil⟩
  | cons d definitions ih =>
    intro g g' hg h
    obtain ⟨t, hbuild, h⟩ := Attempt.bind_eq_ok.mp h
    obtain ⟨g₁, hreg, h⟩ := Attempt.bind_eq_ok.mp h
    obtain ⟨ht, hnames⟩ := Table.build_reachable hbuild
    obtain ⟨hg', rs, hrs, hall⟩ := ih (hg.register ht hreg) h
    refine ⟨hg', t.revision :: rs, ?_, .cons hnames hall⟩
    rw [hrs, revisions, register_tables hreg, List.map_append, List.append_assoc]
    rfl

theorem ofDocuments_revisions {documents : List (String × Value)} {g : Registry}
    (h : ofDocuments documents = .ok g) : g.Reachable ∧ ∃ sorted : List (String × Value),
      sorted.Perm documents ∧ Forall₂ (fun d r => Table.Names d.2 r) sorted g.revisions := by
  obtain ⟨sorted, hsorted, h⟩ := Attempt.bind_eq_ok.mp h
  obtain ⟨hreach, rs, hrs, hall⟩ := registerAll_revisions .empty h
  obtain rfl : g.revisions = rs := hrs
  exact ⟨hreach, sorted, Value.sortOn_perm hsorted, hall⟩

/-! ### Look-ups by text -/

theorem get_str_text_eq_ok_iff {g : Registry} {r : Revision} {t : Table}
    (ht : g.get (.revision r) = .ok t) : g.get (.str r.text) = .ok t ↔ r.Plain := by
  rw [← Revision.ofText_text_iff]
  constructor
  · intro h
    exact (revision_of_get h).symm.trans (revision_of_get ht)
  · intro h
    rw [get_eq_ok_iff] at ht ⊢
    exact ⟨rfl, (congrArg g.find? h).trans ht.2⟩

/-- **A loaded revision is found under its text form exactly if it is plain**, and no two plain ones
have one text form.  What is loaded are the revisions that the definitions name, plain or not. -/
theorem get_text_iff {documents : List (String × Value)} {g : Registry} {r : Revision}
    (h : ofDocuments documents = .ok g) (hr : r ∈ g.revisions) :
    (∃ d ∈ documents, Table.Names d.2 r) ∧
      (∃ t, g.get (.revision r) = .ok t ∧ t.revision = r) ∧
      (g.get (.str r.text) = g.get (.revision r) ↔ r.Plain) ∧
      ∀ r' ∈ g.revisions, r.Plain → r'.Plain → r.text = r'.text → r = r' := by
  obtain ⟨-, sorted, hperm, hall⟩ := ofDocuments_revisions h
  obtain ⟨t, ht⟩ := @exists_get_of_mem_revisions _ (.revision r) rfl hr
  refine ⟨?_, ⟨t, ht, revision_of_get ht⟩, ?_, ?_⟩
  · obtain ⟨d, hd, hnames⟩ := exists_mem_of_forall₂ hall.flip r hr
    exact ⟨d, hperm.mem_iff.mp hd, hnames⟩
  · rw [ht]
    exact get_str_text_eq_ok_iff ht
  · intro r' _ hplain hplain' htext
    rw [← Revision.ofText_text hplain, htext, Revision.ofText_text hplain']

theorem get_text_iff_variant : ∃ g,
    ofDocuments [("jp.yaml", Bundled.fields [("revision", .str "FE12"), ("variant", .str "JP")])] =
        .ok g ∧ (⟨"FE12", "JP"⟩ : Revision) ∈ g.revisions ∧
      g.get (.str "FE12/JP") = g.get (.revision ⟨"FE12", "JP"⟩) := by
  have hload : (ofDocuments [("jp.yaml",
      Bundled.fields [("revision", .str "FE12"), ("variant", .str "JP")])]).toOption.map revisions =
        some [⟨"FE12", "JP"⟩] := by
    decide +kernel
  obtain ⟨g, hg, hrevisions⟩ := Option.map_eq_some_iff.mp hload
  replace hg := Attempt.eq_ok_of_toOption hg
  have hr : (⟨"FE12", "JP"⟩ : Revision) ∈ g.revisions := by rw [hrevisions]; decide
  obtain ⟨-, -, hiff, -⟩ := get_text_iff hg hr
  exact ⟨g, hg, hr, hiff.mpr (by decide +kernel)⟩

/-- A slash in the title: the revision is published, and its own text form does not reach it. -/
theorem get_text_slashed : ∃ g,
    ofDocuments [("jp.yaml", Bundled.fields [("revision", .str "FE12/JP")])] = .ok g ∧
      g.revisions = [⟨"FE12/JP", ""⟩] ∧
      g.get (.str (Revision.text ⟨"FE12/JP", ""⟩)) =
        .error (.refused (.unknownRevision "FE12/JP")) ∧
      ∃ t, g.get (.revision ⟨"FE12/JP", ""⟩) = .ok t := by
  have hload : (ofDocuments [("jp.yaml",
      Bundled.fields [("revision", .str "FE12/JP")])]).toOption.map revisions =
        some [⟨"FE12/JP", ""⟩] := by
    decide +kernel
  obtain ⟨g, hg, hrevisions⟩ := Option.map_eq_some_iff.mp hload
  have hr : (⟨"FE12/JP", ""⟩ : Revision) ∈ g.revisions := by rw [hrevisions]; decide
  refine ⟨g, Attempt.eq_ok_of_toOption hg, hrevisions, ?_, exists_get_of_mem_revisions rfl hr⟩
  exact get_of_not_mem_revisions rfl (by rw [hrevisions]; decide +kernel)

end Registry

end EventDialects
