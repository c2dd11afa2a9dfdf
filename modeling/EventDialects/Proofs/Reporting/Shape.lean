import EventDialects.Proofs.Reporting.Document

/-!
# Documents of the expected shape

What is readable depends on how far the reading gets, as whatever comes after the first refusal is
not looked at.  A document **conforms** if each of its parts has the shape that its format gives it,
whether it is come to or not: what is meant for a mapping is one, what is meant for a list can be gone
through, what is used as a key can be a key, and what may have to be printed can be printed.  This is
said of the document alone.  A document that conforms is readable.

* `Slot.Conforms`, `Table.EventConforms`, `Member.Conforms`, `EquivalenceClass.Conforms`,
  `Registration.Conforms`: **the shapes of the parts**.
* `loading_reports`: **every document is reported exactly if it is readable**, as one that conforms
  is.
-/

namespace EventDialects

open Attempt
open Refusal (OfDialect OfDefinition OfInput)

namespace Value

/-- A value gives elements of which **each** has some property. -/
def GivesEach (p : Value → Prop) (v : Value) : Prop := ∃ xs, v.Gives xs ∧ ∀ x ∈ xs, p x

theorem mem_of_mem_distinct {xs : List Value} {x : Value} : x ∈ distinct xs → x ∈ xs := by
  suffices hfold : ∀ seen : List Value, x ∈ xs.foldl
      (fun seen y => if seen.any (·.equal y) then seen else seen ++ [y]) seen → x ∈ seen ∨ x ∈ xs from
    fun h => (hfold [] h).resolve_left List.not_mem_nil
  induction xs with
  | nil => exact fun _ => .inl
  | cons y ys ih =>
    intro seen hx
    rcases ih _ hx with hx | hx
    · dsimp only at hx
      split at hx
      · exact .inl hx
      · rcases List.mem_append.mp hx with hx | hx
        · exact .inl hx
        · exact .inr (List.mem_cons.mpr (.inl (List.mem_singleton.mp hx)))
    · exact .inr (List.mem_cons_of_mem y hx)

theorem Maps.gives {v : Value} {es : Entries} (h : v.Maps es) : v.Gives (es.map (·.1)) := by
  rw [Gives]
  rcases h with ⟨htruthy, rfl⟩ | rfl
  · rw [if_neg (by rw [htruthy]; decide)]
    rfl
  · cases es with
    | nil => rfl
    | cons => rfl

end Value

theorem Entries.getOr_of_forall {es : Entries} {name : String} {default : Value} {p : Value → Prop}
    (h : ∀ v, es.lookup? (.str name) = some v → p v) (hdefault : p default) :
    p (es.getOr name default) := by
  rw [getOr]
  cases hv : es.lookup? (.str name) with
  | none => exact hdefault
  | some v => exact h v hv

/-- A value that **names** something can be a key and can be printed. -/
structure Value.IsName (v : Value) : Prop where
  key : v.hashable
  prints : v.printable

/-! ### Dialect definitions -/

/-- A slot entry **conforms** if it is a mapping that can be printed, and what it names for a decoder
can be a key. -/
def Slot.Conforms (entry : Value) : Prop :=
  ∃ fs, entry = .map fs ∧ entry.printable ∧ (Entries.getOr fs "decoder" (.str "")).hashable

theorem Slot.Conforms.readable {entry : Value} (h : Slot.Conforms entry) : Slot.Readable entry := by
  obtain ⟨fs, rfl, hprint, hdecoder⟩ := h
  cases hname : Entries.lookup? fs (.str "name") with
  | none => exact .incomplete (.inl (Value.lacks_map_iff.mpr hname)) hprint
  | some name =>
    cases hkind : Entries.lookup? fs (.str "kind") with
    | none => exact .incomplete (.inr (Value.lacks_map_iff.mpr hkind)) hprint
    | some kind =>
      have hnamed : (Entries.getOr fs "decoder" (.str "")).printable :=
        Entries.getOr_of_forall (p := fun v => v.printable)
          (fun v hv => Value.printable_of_lookup? hprint hv) rfl
      exact .mapping hname hkind (Value.printable_of_lookup? hprint hkind) fun _ _ _ =>
        ⟨hdecoder, hnamed⟩

namespace Table

/-- A key and an event **conform** if the key is readable, and, should the event be a mapping, it has a
name and its slots conform. -/
structure EventConforms (key event : Value) : Prop where
  readableKey : ReadableKey key
  name : ∀ es, event = .map es → ∀ name, Entries.lookup? es (.str "name") = some name → name.IsName
  slots : ∀ es, event = .map es → (Entries.getOr es "slots" .null).GivesEach Slot.Conforms

theorem EventConforms.readsEvent {key event : Value} (h : EventConforms key event) (t : Table)
    (source : String) : t.ReadsEvent source key event := by
  refine ⟨h.readableKey, fun code _ es hes name hname => ?_⟩
  obtain ⟨entries, hentries, hall⟩ := h.slots es hes
  obtain ⟨hkey, hprint⟩ := h.name es hes name hname
  exact ⟨hprint, entries, hentries,
    eachComeTo_of_forall fun entry hentry _ => (hall entry hentry).readable, fun _ _ _ => hkey⟩

/-- A dialect definition **conforms** if, should it be a mapping, its revision and variant can be
printed, and its events are a mapping whose keys and events conform. -/
def DefinitionConforms (definition : Value) : Prop :=
  ∀ es, definition = .map es →
    (∀ title, Entries.lookup? es (.str "revision") = some title → title.printable) ∧
    (Entries.getOr es "variant" (.str "")).printable ∧
    ∃ events, (Entries.getOr es "events" .null).Maps events ∧
      ∀ e ∈ events, EventConforms e.1 e.2

theorem DefinitionConforms.readable {definition : Value} (h : DefinitionConforms definition)
    (source : String) : ReadableDefinition source definition := by
  intro es hes title htitle
  obtain ⟨hprint, hvariant, events, hevents, hall⟩ := h es hes
  exact ⟨hprint title htitle, hvariant, events, hevents,
    eachComeTo_of_forall fun e he t => (hall e he).readsEvent t source⟩

end Table

/-! ### Equivalence definitions -/

namespace Member

/-- A member **conforms** if it is a mapping, its revision can be printed, its event and the slots that
it ignores are named, and what it renames is a mapping, from slots that can be printed. -/
def Conforms (entry : Value) : Prop :=
  ∃ es, entry = .map es ∧
    (∀ named, Entries.lookup? es (.str "revision") = some named → named.printable) ∧
    (∀ event, Entries.lookup? es (.str "event") = some event → event.IsName) ∧
    (Entries.getOr es "ignore" .null).GivesEach Value.IsName ∧
    ∃ fs, (Entries.getOr es "slots" .null).Maps fs ∧ ∀ e ∈ fs, e.1.printable

theorem Conforms.readable {entry className : Value} (h : Conforms entry)
    (hname : className.IsName) (g : Registry) : Readable g className entry := by
  obtain ⟨es, rfl, hrevision, hevent, ⟨ignored, hignored, hnames⟩, fs, hfs, hrenamed⟩ := h
  have hasked : (Entries.getOr es "event" className).IsName := Entries.getOr_of_forall hevent hname
  refine ⟨es, rfl, fun _ => hname.prints, fun named hnamed =>
    ⟨hrevision named hnamed, ⟨fun _ => hasked.key, fun _ => ⟨hname.prints, fun _ => ?_⟩⟩,
      fun schema _ => ?_⟩⟩
  · exact .inr hasked.prints
  · refine ⟨ignored, hignored, fun slot hslot => (hnames slot hslot).key, fs.map (·.1), hfs.gives,
      fun slot hslot => ⟨hname.prints, hasked.prints, ?_⟩, fun _ => ⟨fs, hfs⟩⟩
    rcases List.mem_append.mp (List.mem_of_find?_eq_some hslot) with hmem | hmem
    · obtain ⟨e, he, rfl⟩ := List.mem_map.mp hmem
      exact hrenamed e he
    · exact (hnames slot (Value.mem_of_mem_distinct hmem)).prints

end Member

namespace EquivalenceClass

/-- A class **conforms** if it is a mapping, it is named, its members conform, and the slots that are
compared in any order are keys. -/
def Conforms (entry : Value) : Prop :=
  ∃ es, entry = .map es ∧
    (∀ name, Entries.lookup? es (.str "name") = some name → name.IsName) ∧
    (Entries.getOr es "members" .null).GivesEach Member.Conforms ∧
    (Entries.getOr es "order_insensitive" .null).GivesEach (·.hashable)

theorem Conforms.readable {entry : Value} (h : Conforms entry) (g : Registry) (source : String) :
    Readable g source entry := by
  obtain ⟨es, rfl, hname, ⟨entries, hentries, hall⟩, hunordered⟩ := h
  refine .mapping fun name hfound => ⟨entries, hentries, ?_, fun _ _ => hunordered⟩
  exact eachComeTo_of_forall fun entry hentry _ =>
    (hall entry hentry).readable (hname name hfound) g

theorem Conforms.printable_name {entry : Value} (h : Conforms entry) {g : Registry} {source : String}
    {c : EquivalenceClass} (hc : ofEntry g source entry = .ok c) : c.name.printable := by
  obtain ⟨es, rfl, hname, -⟩ := h
  cases hfound : Entries.lookup? es (.str "name") with
  | none =>
    rw [ofEntry, Value.lacks_map_iff.mpr hfound] at hc
    cases hc
  | some name =>
    rw [ofEntry_of_name hfound] at hc
    obtain ⟨entries, -, hc⟩ := Attempt.bind_eq_ok.mp hc
    obtain ⟨members, -, hc⟩ := Attempt.bind_eq_ok.mp hc
    obtain ⟨unordered, -, hc⟩ := Attempt.bind_eq_ok.mp hc
    obtain ⟨_, -, hc⟩ := Attempt.bind_eq_ok.mp hc
    cases hc
    exact (hname name hfound).prints

end EquivalenceClass

namespace EquivalenceTable

/-- An equivalence definition **conforms** if it is a mapping whose classes conform. -/
def DefinitionConforms (definition : Value) : Prop :=
  ∃ es, definition.Maps es ∧ (Entries.getOr es "classes" .null).GivesEach EquivalenceClass.Conforms

theorem printable_names_of_addEntries {g : Registry} {source : String} {entries : List Value} :
    ∀ {t t' : EquivalenceTable}, (∀ entry ∈ entries, EquivalenceClass.Conforms entry) →
      (∀ c ∈ t.classes, c.name.printable) → addEntries g source t entries = .ok t' →
        ∀ c ∈ t'.classes, c.name.printable := by
  induction entries with
  | nil =>
    intro t t' _ ht h
    cases h
    exact ht
  | cons entry entries ih =>
    intro t t' hall ht h
    obtain ⟨hentry, hrest⟩ := List.forall_mem_cons.mp hall
    obtain ⟨c, hc, h⟩ := Attempt.bind_eq_ok.mp h
    obtain ⟨t₁, hadd, h⟩ := Attempt.bind_eq_ok.mp h
    refine ih hrest (fun d hd => ?_) h
    rw [add_classes hadd] at hd
    rcases List.mem_append.mp hd with hd | hd
    · exact ht d hd
    · rw [List.mem_singleton.mp hd]
      exact hentry.printable_name hc

theorem DefinitionConforms.readable {definition : Value} (h : DefinitionConforms definition)
    (g : Registry) (source : String) : ReadableDefinition g source definition := by
  obtain ⟨es, hes, entries, hentries, hall⟩ := h
  refine ⟨es, hes, entries, hentries, ?_⟩
  rintro before entry after t rfl hrun
  refine ⟨(hall entry (by simp)).readable g source, fun c _ d hd => ?_⟩
  obtain ⟨m, -, hd⟩ := List.exists_of_findSome?_eq_some hd
  refine printable_names_of_addEntries (fun e he => hall e (by simp [he]))
    (fun _ hc => absurd hc List.not_mem_nil) hrun d (List.mem_of_find?_eq_some hd)

end EquivalenceTable

/-! ### Registrations documents -/

namespace Registration

/-- A registration **conforms** if it is a mapping whose source can be printed, whose code is a number
that is readable, and whose operands are such numbers. -/
def Conforms (entry : Value) : Prop :=
  ∃ es, entry = .map es ∧
    (∀ source, Entries.lookup? es (.str "source") = some source → source.printable) ∧
    (∀ code, Entries.lookup? es (.str "code") = some code → ReadableNumber code) ∧
    (Entries.getOr es "operands" .null).GivesEach ReadableNumber

theorem Conforms.readable {entry : Value} (h : Conforms entry) : Readable entry := by
  obtain ⟨es, hes, hsource, hcode, raw, hraw, hnumbers⟩ := h
  exact ⟨es, hes, hsource, fun v hv => ⟨hcode v hv, fun _ _ =>
    ⟨raw, hraw, eachComeTo_of_forall fun v hv _ => hnumbers v hv⟩⟩⟩

/-- A registrations document **conforms** if it is a mapping whose registrations conform. -/
def DocumentConforms (document : Value) : Prop :=
  ∃ es, document = .map es ∧ (Entries.getOr es "registrations" .null).GivesEach Conforms

theorem DocumentConforms.readable {document : Value} (h : DocumentConforms document) :
    ReadableDocument document := by
  obtain ⟨es, hes, entries, hentries, hall⟩ := h
  exact ⟨es, hes, entries, hentries, eachComeTo_of_forall fun entry hentry _ =>
    (hall entry hentry).readable⟩

end Registration

/-! ### All documents -/

/-- **Every document is reported exactly if it is readable.**  A dialect definition, an equivalence
definition over any registry and a registrations document each succeed or are refused by an error of
their own kind if they are readable, and fail by a misuse otherwise; and a document that conforms is
readable. -/
theorem loading_reports (source : String) :
    (∀ definition,
      (Table.build definition source).Reports OfDialect
        (Table.ReadableDefinition source definition) ∧
      (Table.DefinitionConforms definition → Table.ReadableDefinition source definition)) ∧
    (∀ g definition,
      (EquivalenceTable.build g definition source).Reports OfDefinition
        (EquivalenceTable.ReadableDefinition g source definition) ∧
      (EquivalenceTable.DefinitionConforms definition →
        EquivalenceTable.ReadableDefinition g source definition)) ∧
    ∀ document,
      (Registration.ofDocument document).Reports OfInput (Registration.ReadableDocument document) ∧
      (Registration.DocumentConforms document → Registration.ReadableDocument document) := by
  refine ⟨fun definition => ?_, fun g definition => ?_, fun document => ?_⟩
  · exact ⟨Table.reports_build source definition, fun h => h.readable source⟩
  · exact ⟨EquivalenceTable.reports_build g source definition, fun h => h.readable g source⟩
  · exact ⟨Registration.reports_ofDocument document, fun h => h.readable⟩

/-- Events in a list, an equivalence definition that is a list, and a registration that is a number
all come out raw. -/
theorem loading_misused :
    Table.build (.map [(.str "revision", .str "FE14"), (.str "events", .list [.int 1])]) "<config>" =
      misused (.noField "list" "items") ∧
    EquivalenceTable.build .empty (.list [.int 1]) "<config>" = misused (.noField "list" "get") ∧
    Registration.ofDocument (.map [(.str "registrations", .list [.int 1])]) =
      misused (.noField "int" "get") :=
  ⟨rfl, rfl, rfl⟩

end EventDialects
