import EventDialects.Proofs.Equivalence.Definition
import EventDialects.Proofs.Equivalence.Index
import EventDialects.Proofs.Registry.Publication
import EventDialects.Proofs.Reporting.Dialect

/-!
# Which documents are readable

An equivalence definition and a registrations document are gone through as a dialect definition is,
and take as much for granted.  A class must be something that a name can be looked for in, and a
mapping if the name is there; a member and a registration must be mappings.  What they list must be
something that can be gone through, and events and slots must be able to be keys.  A revision and a
source are printed to be read, and a fault is printed with whatever it names.  Nothing else comes out
raw: what does not resolve, a slot that an event lacks, an event that is taken and a number that
cannot be made out are all refused.

* `Member.reports_ofEntry`: **members**.
* `EquivalenceClass.reports_ofEntry`: **classes**.
* `EquivalenceTable.reports_build`, `Registration.reports_ofDocument`: **equivalence definitions** and
  **registrations documents** are reported exactly if they are readable.
-/

namespace EventDialects

open Attempt

/-- The refusals of a **definition**: those that say what is wrong in it. -/
inductive Refusal.OfDefinition : Refusal → Prop
  | definition (fault : DefinitionFault) : OfDefinition (.definition fault)

/-- The refusals of **input**: those that say what is wrong in a registration. -/
inductive Refusal.OfInput : Refusal → Prop
  | input (fault : InputFault) : OfInput (.input fault)

open Refusal (OfDefinition OfInput)

/-! ### Members -/

namespace Member

variable {g : Registry} {source : String} {className : Value}

def lacking? (schema : Schema) (slots : List Value) : Option Value :=
  slots.find? fun slot => !schema.slotNames.any (·.equal slot)

/-- The slots that a member names are **readable** for the schema of its event if those that it
ignores can be gone through and can be keys, and those that it renames can be gone through, as the
keys of a mapping.  It need not be a mapping if one of them all is not a slot of the event, as that is
then what the member is refused for; the first such slot is named, and so are the class and the
event. -/
def ReadsSlots (className event : Value) (schema : Schema) (es : Entries) : Prop :=
  ∃ ignored, (es.getOr "ignore" .null).Gives ignored ∧ (∀ slot ∈ ignored, slot.hashable) ∧
    ∃ renamed, (es.getOr "slots" .null).Gives renamed ∧
      (∀ slot ∈ lacking? schema (renamed ++ Value.distinct ignored),
        className.printable ∧ event.printable ∧ slot.printable) ∧
      (lacking? schema (renamed ++ Value.distinct ignored) = none →
        ∃ fs, (es.getOr "slots" .null).Maps fs)

/-- An event of a revision is **readable** if it can be a key, should the revision be published; and
if it does not resolve, the class must be printed, and the event unless it is shown as a code. -/
structure ReadsEvent (g : Registry) (className : Value) (revision : Revision) (event : Value) :
    Prop where
  key : revision ∈ g.revisions → event.hashable
  prints : (∀ schema, g.resolveName (.revision revision) event ≠ .ok schema) →
    className.printable ∧ (revision ∈ g.revisions → event.integer?.isSome ∨ event.printable)

/-- A mapping that names a revision is **readable** as a member of a class if the revision can be
printed, its event is readable, and the slots that it names are readable for the schema of the event,
should there be one. -/
@[mk_iff]
structure ReadsMapping (g : Registry) (className named : Value) (es : Entries) : Prop where
  revision : named.printable
  event : ReadsEvent g className (.ofValue named) (es.getOr "event" className)
  slots : ∀ schema, g.resolveName (.revision (.ofValue named)) (es.getOr "event" className) =
    .ok schema → ReadsSlots className (es.getOr "event" className) schema es

/-- A member is **readable** if it is a mapping that is readable, should it name a revision; if it
does not, the class must be printed. -/
def Readable (g : Registry) (className entry : Value) : Prop :=
  ∃ es, entry = .map es ∧
    (Entries.lookup? es (.str "revision") = none → className.printable) ∧
    ∀ named, Entries.lookup? es (.str "revision") = some named → ReadsMapping g className named es

/-- What a name that is a key resolves to in a published revision, or how it is refused. -/
theorem resolveName_cases {revision : Revision} (hr : revision ∈ g.revisions) {event : Value}
    (hkey : event.hashable) :
    (∃ schema, g.resolveName (.revision revision) event = .ok schema) ∨
      g.resolveName (.revision revision) event = refuse (.unknownEvent revision.text event) := by
  obtain ⟨t, ht⟩ := @Registry.exists_get_of_mem_revisions _ (.revision revision) rfl hr
  have hrevision : t.revision = revision := Registry.revision_of_get ht
  rw [Registry.resolveName, ht]
  simp only [Table.lookupName, Value.checkKey_eq_ok_iff.mpr hkey, bind, Except.bind]
  cases t.byName? event with
  | some schema => exact .inl ⟨schema, rfl⟩
  | none => exact .inr (by rw [hrevision])

/-- What does not resolve is reported with the class, unless it cannot be printed itself. -/
theorem reports_resolve_of_refused {revision : Revision} {event : Value} {r : Refusal}
    (hr : g.resolveName (.revision revision) event = refuse r) :
    (resolve g source className (.revision revision) event).Reports OfDefinition
      (r.printable ∧ className.printable) := by
  cases hprint : r.printable with
  | true =>
    rw [refuse_of_printable hprint] at hr
    rw [resolve, hr]
    exact reports_refuse (.definition _) (and_iff_right rfl).symm
  | false =>
    rw [refuse_of_not_printable hprint] at hr
    rw [resolve, hr]
    exact reports_misused _ fun h => Bool.false_ne_true h.1

theorem reports_resolve (g : Registry) (source : String) (className : Value) (revision : Revision)
    (event : Value) : (resolve g source className (.revision revision) event).Reports OfDefinition
      (ReadsEvent g className revision event) := by
  by_cases hr : revision ∈ g.revisions
  · by_cases hkey : event.hashable
    · rcases resolveName_cases hr hkey with ⟨schema, hschema⟩ | hunknown
      · rw [resolve, hschema]
        exact reports_ok schema ⟨fun _ => hkey, fun h => absurd hschema (h schema)⟩
      · refine (reports_resolve_of_refused hunknown).congr ⟨fun h => ?_, fun h => ?_⟩
        · exact ⟨fun _ => hkey, fun _ => ⟨h.2, fun _ => Bool.or_eq_true_iff.mp h.1⟩⟩
        · have hnone : ∀ schema, g.resolveName (.revision revision) event ≠ .ok schema := by
            intro schema hschema
            rw [hunknown] at hschema
            cases hschema
          obtain ⟨hclass, hevent⟩ := h.prints hnone
          exact ⟨Bool.or_eq_true_iff.mpr (hevent hr), hclass⟩
    · obtain ⟨t, ht⟩ := @Registry.exists_get_of_mem_revisions _ (.revision revision) rfl hr
      rw [resolve, Registry.resolveName, ht]
      simp only [Table.lookupName, Value.checkKey_of_not_hashable hkey, bind, Except.bind]
      exact reports_misused _ fun h => hkey (h.key hr)
  · have hunknown : g.resolveName (.revision revision) event =
        refuse (.unknownRevision revision.text) := by
      rw [Registry.resolveName, Registry.get_of_not_mem_revisions rfl hr]
      rfl
    refine (reports_resolve_of_refused hunknown).congr ⟨fun h => ?_, fun h => ?_⟩
    · exact ⟨fun hmem => absurd hmem hr, fun _ => ⟨h.2, fun hmem => absurd hmem hr⟩⟩
    · refine ⟨rfl, (h.prints fun schema hschema => ?_).1⟩
      rw [hunknown] at hschema
      cases hschema

theorem resolve_eq_ok_iff {revision event : Value} {schema : Schema} :
    resolve g source className revision event = .ok schema ↔
      g.resolveName revision event = .ok schema := by
  refine ⟨resolve_eq_ok, fun h => ?_⟩
  rw [resolve, h]

theorem checkSlots_eq (revision : Revision) (event : Value) (schema : Schema) (slots : List Value) :
    checkSlots source className revision event schema slots =
      match lacking? schema slots with
      | none => .ok ()
      | some slot =>
        refuse (.definition (.memberWithoutSlot source className revision event slot)) := by
  induction slots with
  | nil => rfl
  | cons slot slots ih =>
    rw [checkSlots, lacking?, List.find?_cons]
    cases schema.slotNames.any (·.equal slot) with
    | true => exact ih
    | false => rfl

theorem reports_checkSlots (revision : Revision) (event : Value) (schema : Schema)
    (slots : List Value) :
    (checkSlots source className revision event schema slots).Reports OfDefinition
      (∀ slot ∈ lacking? schema slots,
        className.printable ∧ event.printable ∧ slot.printable) := by
  rw [checkSlots_eq]
  cases lacking? schema slots with
  | none => exact reports_ok () fun _ h => nomatch h
  | some slot =>
    refine reports_refuse (.definition _) ?_
    simp only [Option.mem_some, forall_eq', Refusal.printable, DefinitionFault.printable,
      Bool.and_eq_true, and_assoc]

theorem checkSlots_eq_ok_iff {revision : Revision} {event : Value} {schema : Schema}
    {slots : List Value} : checkSlots source className revision event schema slots = .ok () ↔
      lacking? schema slots = none := by
  rw [checkSlots_eq]
  cases lacking? schema slots with
  | none => simp
  | some slot => simp [refuse]

/-- What is read of a member once its event is resolved. -/
def ofSchema (source : String) (className : Value) (revision : Revision) (event : Value)
    (es : Entries) (schema : Schema) : Attempt Member := do
  let ignored ← (Value.map es).entryOrEmpty "ignore" (.list []) >>= Value.iterate
  Value.checkKeys ignored
  let renamed ← (Value.map es).entryOrEmpty "slots" (.map []) >>= Value.iterate
  checkSlots source className revision event schema (renamed ++ Value.distinct ignored)
  let rename ← (Value.map es).entryOrEmpty "slots" (.map []) >>= Value.entries
  return ⟨revision, schema.code, schema.name, rename, Value.distinct ignored⟩

theorem ofEntry_of_revision {es : Entries} {named : Value}
    (hrevision : es.lookup? (.str "revision") = some named) :
    ofEntry g source className (.map es) = Revision.read named >>= fun revision =>
      resolve g source className (.revision revision) (es.getOr "event" className) >>=
        ofSchema source className revision (es.getOr "event" className) es := by
  rw [ofEntry, Value.subscript?_map, hrevision]
  rfl

theorem reports_ofSchema (revision : Revision) (event : Value) (es : Entries) (schema : Schema) :
    (ofSchema source className revision event es schema).Reports OfDefinition
      (ReadsSlots className event schema es) := by
  refine (Value.reports_elements es "ignore" rfl fun ignored =>
    (Value.reports_checkKeys ignored).check Value.checkKeys_eq_ok_iff
      (Value.reports_elements es "slots" rfl fun renamed =>
        (reports_checkSlots revision event schema _).check checkSlots_eq_ok_iff
          (Value.reports_mapping es "slots" fun rename => reports_ok _ trivial))).congr ?_
  simp only [and_true]
  refine exists_congr fun ignored => and_congr_right fun _ => and_congr_right fun hkeys => ?_
  exact imp_iff_right hkeys

/-- **One member** is reported if it is readable. -/
theorem reports_ofEntry (g : Registry) (source : String) (className entry : Value) :
    (ofEntry g source className entry).Reports OfDefinition (Readable g className entry) := by
  cases entry with
  | map es =>
    cases hrevision : Entries.lookup? es (.str "revision") with
    | none =>
      rw [ofEntry, Value.subscript?_map, hrevision]
      refine reports_refuse (.definition _) ?_
      simp only [Readable, Value.exists_map_iff, hrevision, reduceCtorEq, false_implies,
        implies_true, and_true, forall_const]
      exact Iff.rfl
    | some named =>
      rw [ofEntry_of_revision hrevision]
      refine (Value.reports_read ((reports_resolve g source className _ _).bind fun schema _ =>
        reports_ofSchema _ _ es schema)).congr ?_
      simp only [Readable, Value.exists_map_iff, hrevision, Option.some.injEq, forall_eq',
        resolve_eq_ok_iff, reduceCtorEq, false_implies, true_and]
      exact (readsMapping_iff g className named es).symm
  | _ =>
    refine reports_misused _ ?_
    rintro ⟨es, hes, -⟩
    cases hes

/-- **The members of a class** are reported if each of them that is come to is readable. -/
theorem reports_ofEntries (g : Registry) (source : String) (className : Value)
    (entries : List Value) : (ofEntries g source className entries).Reports OfDefinition
      (EachComeTo (ofEntries g source className) (fun _ => Readable g className) entries) :=
  @reports_load _ _ OfDefinition (fun _ => ofEntries g source className)
    (fun _ => ofEntry g source className) (fun _ => rfl) (fun _ _ _ => rfl) (Readable g className)
    (fun _ => reports_ofEntry g source className) 0 entries

end Member

/-! ### Classes -/

namespace EquivalenceClass

variable {g : Registry} {source : String}

/-- A mapping with a name is **readable** as a class if its members can be gone through and are
readable as far as they are come to, and then the slots that are compared in any order can be gone
through and can be keys. -/
def ReadsMapping (g : Registry) (source : String) (name : Value) (es : Entries) : Prop :=
  ∃ entries, (es.getOr "members" .null).Gives entries ∧
    EachComeTo (Member.ofEntries g source name) (fun _ => Member.Readable g name) entries ∧
    ∀ members, Member.ofEntries g source name entries = .ok members →
      ∃ unordered, (es.getOr "order_insensitive" .null).Gives unordered ∧
        ∀ slot ∈ unordered, slot.hashable

/-- A class is **readable** if it lacks a name, which is then what it is refused for, or if it is a
mapping that is readable with its name. -/
inductive Readable (g : Registry) (source : String) : Value → Prop
  | nameless {entry : Value} (h : entry.Lacks "name") : Readable g source entry
  | mapping {es : Entries} (h : ∀ name, es.lookup? (.str "name") = some name →
      ReadsMapping g source name es) : Readable g source (.map es)

theorem ofEntry_of_name {es : Entries} {name : Value} (hname : es.lookup? (.str "name") = some name) :
    ofEntry g source (.map es) =
      (((Value.map es).entryOrEmpty "members" (.list []) >>= Value.iterate) >>= fun entries =>
        Member.ofEntries g source name entries >>= fun members =>
          ((Value.map es).entryOrEmpty "order_insensitive" (.list []) >>= Value.iterate) >>=
            fun unordered => Value.checkKeys unordered >>= fun _ =>
              .ok ⟨name, members, Value.distinct unordered⟩) := by
  have hheld := Value.holds_map_iff.mpr ⟨name, hname⟩
  rw [ofEntry, hheld, Value.subscript?_map, hname]
  rfl

/-- **One class** is reported if it is readable. -/
theorem reports_ofEntry (g : Registry) (source : String) (entry : Value) :
    (ofEntry g source entry).Reports OfDefinition (Readable g source entry) := by
  rcases entry.holds_cases "name" with ⟨held, hheld⟩ | ⟨m, hm⟩
  · cases held with
    | false =>
      rw [ofEntry, hheld]
      exact reports_refuse_of_printable (.definition _) rfl (.nameless hheld)
    | true =>
      cases entry with
      | map es =>
        obtain ⟨name, hname⟩ := Value.holds_map_iff.mp hheld
        rw [ofEntry_of_name hname]
        refine (Value.reports_elements es "members" rfl fun entries =>
          (Member.reports_ofEntries g source name entries).bind fun members _ =>
            Value.reports_elements es "order_insensitive" rfl fun unordered =>
              (Value.reports_checkKeys unordered).bind_true fun _ _ => reports_ok _ trivial).congr ?_
        constructor
        · intro h
          refine .mapping fun name' hname' => ?_
          obtain rfl := Option.some.inj (hname.symm.trans hname')
          exact h
        · intro h
          cases h with
          | nameless h => cases hheld.symm.trans h
          | mapping h => exact h name hname
      | _ =>
        rw [ofEntry, hheld]
        refine reports_misused _ fun h => ?_
        cases h with
        | nameless h => cases hheld.symm.trans h
  · rw [ofEntry, hm]
    refine reports_misused m fun h => ?_
    cases h with
    | nameless h => cases hm.symm.trans h
    | mapping => cases hm

end EquivalenceClass

/-! ### Equivalence definitions -/

namespace EquivalenceTable

variable {g : Registry} {source : String}

/-- The class that the first of some members that are taken belongs to. -/
def holder? (t : EquivalenceTable) (ms : List Member) : Option EquivalenceClass :=
  ms.findSome? fun m => t.classAt? m.revision (.int m.code)

/-- **Adding** a class is reported if the class that its event is taken by, should there be one, can be
named. -/
theorem reports_add (t : EquivalenceTable) (c : EquivalenceClass) :
    (t.add c).Reports OfDefinition (∀ d ∈ t.holder? c.members, d.name.printable) := by
  have hfree (ms : List Member) : (t.checkFree ms).Reports OfDefinition
      (∀ d ∈ t.holder? ms, d.name.printable) := by
    induction ms with
    | nil => exact reports_ok () fun _ h => nomatch h
    | cons m ms ih =>
      rw [checkFree, holder?, List.findSome?_cons]
      cases t.classAt? m.revision (.int m.code) with
      | none => exact ih
      | some d =>
        refine reports_refuse (.definition _) ?_
        simp only [Option.mem_some, forall_eq']
        exact Iff.rfl
  exact (hfree c.members).bind_true fun _ _ => reports_ok _ trivial

theorem addEntries_concat (t : EquivalenceTable) (entries : List Value) (entry : Value) :
    addEntries g source t (entries ++ [entry]) =
      addEntries g source t entries >>= fun t' =>
        EquivalenceClass.ofEntry g source entry >>= fun c => t'.add c := by
  induction entries generalizing t with
  | nil =>
    change (EquivalenceClass.ofEntry g source entry >>= fun c => t.add c >>= pure) =
      EquivalenceClass.ofEntry g source entry >>= fun c => t.add c
    simp only [bind_pure]
  | cons e entries ih =>
    rw [List.cons_append, addEntries, addEntries, bind_assoc]
    simp only [bind_assoc, ih]

/-- A class is **readable after** the classes of a table if it is readable, and the one of them that
takes its event, should there be one, can be named. -/
def ReadsClass (g : Registry) (source : String) (t : EquivalenceTable) (entry : Value) : Prop :=
  EquivalenceClass.Readable g source entry ∧
    ∀ c, EquivalenceClass.ofEntry g source entry = .ok c →
      ∀ d ∈ t.holder? c.members, d.name.printable

/-- **The classes of a definition** are reported if each of them that is come to is readable after
those before it. -/
theorem reports_addEntries (g : Registry) (source : String) (t : EquivalenceTable)
    (entries : List Value) : (addEntries g source t entries).Reports OfDefinition
      (EachComeTo (addEntries g source t) (ReadsClass g source) entries) :=
  reports_run ⟨t, rfl⟩ (fun entries entry => ⟨_, addEntries_concat t entries entry, fun t' _ =>
    (EquivalenceClass.reports_ofEntry g source entry).bind fun c _ => reports_add t' c⟩) entries

/-- An equivalence definition is **readable** if it is a mapping whose classes can be gone through,
and each class that is come to is readable after those before it. -/
def ReadableDefinition (g : Registry) (source : String) (definition : Value) : Prop :=
  ∃ es, definition.Maps es ∧ ∃ entries, (Entries.getOr es "classes" .null).Gives entries ∧
    EachComeTo (addEntries g source empty) (ReadsClass g source) entries

/-- **Building an equivalence table** is reported if the definition is readable. -/
theorem reports_build (g : Registry) (source : String) (definition : Value) :
    (build g definition source).Reports OfDefinition (ReadableDefinition g source definition) := by
  -- What does not count as true is read as an empty mapping.
  have hbuild : build g definition source =
      (((if definition.truthy then definition else .map []).entryOrEmpty "classes" (.list []) >>=
        Value.iterate) >>= addEntries g source empty) := by
    rw [bind_assoc]
    rfl
  rw [hbuild]
  refine (Value.reports_elements_of _ "classes" rfl fun entries =>
    reports_addEntries g source empty entries).congr (exists_congr fun es => ?_)
  rw [Value.maps_iff]

end EquivalenceTable

/-! ### Registrations documents -/

namespace Registration

/-- A number is **readable** if it is an integer, which is taken as it is, or can be printed. -/
def ReadableNumber : Value → Prop
  | .int _ => True
  | v => v.printable

/-- A registration is **readable** if it is a mapping whose source can be printed; and, should it have
a code, that is readable, its operands can be gone through, and those that are come to are readable. -/
def Readable (entry : Value) : Prop :=
  ∃ es, entry = .map es ∧
    (∀ source, Entries.lookup? es (.str "source") = some source → source.printable) ∧
    ∀ v, Entries.lookup? es (.str "code") = some v → ReadableNumber v ∧
      ∀ code, numberOf v = .ok code → ∃ raw, (Entries.getOr es "operands" .null).Gives raw ∧
        EachComeTo numbersOf (fun _ => ReadableNumber) raw

theorem reports_numberOf (v : Value) : (numberOf v).Reports OfInput (ReadableNumber v) := by
  cases v with
  | int n => exact reports_ok n trivial
  | _ =>
    -- What is refused has been printed already.
    refine (Value.reports_print (Q := True) fun hprint => ?_).congr (and_iff_left trivial)
    split
    · exact reports_ok _ trivial
    · exact reports_refuse_of_printable (.input _) hprint trivial

theorem reports_numbersOf (vs : List Value) :
    (numbersOf vs).Reports OfInput (EachComeTo numbersOf (fun _ => ReadableNumber) vs) :=
  @reports_load _ _ OfInput (fun _ => numbersOf) (fun _ => numberOf) (fun _ => rfl)
    (fun _ _ _ => rfl) ReadableNumber (fun _ => reports_numberOf) 0 vs

theorem reports_inSource {α : Type} (source : String) {x : Attempt α} {P : Prop}
    (hx : x.Reports OfInput P) : (inSource source x).Reports OfInput P := by
  constructor
  · intro hP
    rcases hx.reported hP with ⟨a, rfl⟩ | ⟨_, ⟨fault⟩, hprint, rfl⟩
    · exact .inl ⟨a, rfl⟩
    · have hwhole : (Refusal.input (.registration source fault)).printable := hprint
      exact .inr ⟨_, .input _, hwhole, refuse_of_printable hwhole⟩
  · intro hP
    obtain ⟨m, rfl⟩ := hx.misused hP
    exact ⟨m, rfl⟩

theorem ofEntry_of_code {index : Nat} {es : Entries} {v : Value}
    (hcode : es.lookup? (.str "code") = some v) :
    ofEntry index (.map es) =
      (es.getOr "source" (.str ("#" ++ Text.decimal index))).print >>= fun source =>
        inSource source (numberOf v) >>= fun code =>
          ((Value.map es).entryOrEmpty "operands" (.list []) >>= Value.iterate) >>= fun raw =>
            inSource source (numbersOf raw) >>= fun operands =>
              .ok ⟨source, code, .list (operands.map .int)⟩ := by
  have hheld := Value.holds_map_iff.mpr ⟨v, hcode⟩
  rw [ofEntry, hheld, Value.subscript?_map, hcode]
  rfl

theorem ofEntry_of_codeless {index : Nat} {es : Entries} (hcode : es.lookup? (.str "code") = none) :
    ofEntry index (.map es) =
      (es.getOr "source" (.str ("#" ++ Text.decimal index))).print >>= fun source =>
        refuse (.input (.missingCode source)) := by
  have hheld : (Value.map es).holds "code" = .ok false := Value.lacks_map_iff.mpr hcode
  rw [ofEntry, hheld]
  rfl

theorem printable_source_iff {es : Entries} {place : String} :
    (es.getOr "source" (.str place)).printable ↔
      ∀ source, es.lookup? (.str "source") = some source → source.printable := by
  rw [Entries.getOr]
  cases es.lookup? (.str "source") with
  | none => exact iff_of_true rfl fun source h => absurd h (Option.some_ne_none source).symm
  | some source => simp only [Option.getD_some, Option.some.injEq, forall_eq']

/-- **One registration** is reported if it is readable. -/
theorem reports_ofEntry (index : Nat) (entry : Value) :
    (ofEntry index entry).Reports OfInput (Readable entry) := by
  cases entry with
  | map es =>
    simp only [Readable, Value.exists_map_iff, ← @printable_source_iff es ("#" ++ Text.decimal index)]
    cases hcode : Entries.lookup? es (.str "code") with
    | none =>
      rw [ofEntry_of_codeless hcode]
      refine Value.reports_print fun _ => reports_refuse_of_printable (.input _) rfl ?_
      exact fun _ h => nomatch h
    | some v =>
      rw [ofEntry_of_code hcode]
      refine (Value.reports_print fun _ =>
        (reports_inSource _ (reports_numberOf v)).bind fun code _ =>
          Value.reports_elements es "operands" rfl fun raw =>
            (reports_inSource _ (reports_numbersOf raw)).bind_true fun operands _ =>
              reports_ok _ trivial).congr ?_
      simp only [Option.some.injEq, forall_eq', inSource_eq_ok]
  | _ =>
    refine reports_misused _ ?_
    rintro ⟨es, hes, -⟩
    cases hes

/-- **The registrations of a list** are reported if each of them that is come to is readable. -/
theorem reports_ofEntries (index : Nat) (entries : List Value) :
    (ofEntries index entries).Reports OfInput
      (EachComeTo (ofEntries index) (fun _ => Readable) entries) :=
  @reports_load _ _ OfInput ofEntries ofEntry (fun _ => rfl) (fun _ _ _ => rfl) Readable
    reports_ofEntry index entries

/-- A registrations document is **readable** if it is a mapping whose registrations can be gone
through, and each registration that is come to is readable. -/
def ReadableDocument (document : Value) : Prop :=
  ∃ es, document = .map es ∧ ∃ entries, (Entries.getOr es "registrations" .null).Gives entries ∧
    EachComeTo (ofEntries 0) (fun _ => Readable) entries

/-- **Reading a registrations document** is reported if the document is readable. -/
theorem reports_ofDocument (document : Value) :
    (ofDocument document).Reports OfInput (ReadableDocument document) := by
  have hread : ofDocument document =
      ((document.entryOrEmpty "registrations" (.list []) >>= Value.iterate) >>= ofEntries 0) := by
    rw [bind_assoc]
    rfl
  rw [hread]
  exact Value.reports_elements_of document "registrations" rfl fun entries =>
    reports_ofEntries 0 entries

end Registration

end EventDialects
