import EventDialects.Bundled.Form
import EventDialects.Proofs.Definition.Slot
import EventDialects.Proofs.Registry.Coherence
import Mathlib.Data.List.Nodup

/-!
# What a dialect definition makes

The events of a definition are gone through in the order of the document.  For each of them the code
is read from its key, then the entry must be a mapping with a name, then its slots are read, and
then the event is registered, under a code and a name that are new.  The first event that fails one
of these ends it all.  So a definition makes either the table of all its events or the failure of
one, and which of the two is said here for every definition whose parts are of the expected kinds
(`Table.Shaped`).

Two keys may write one code in different ways, and what is compared is the code; the error of a name
that is there already mentions the code under which it is.  What is wrong with a slot is told with
all that its entry says where the entry is incomplete, and a number in it may be too long for that;
and so may a number that stands for the revision.  Neither is refused then.

* `Table.registerEntry_answers`: **one event** is declared, or it is refused for its first fault.
* `Table.registerEntries_answers`: **a run over events** registers all of them, or ends with one.
* `Table.build_exactly`: **what a definition makes**.
* `Table.build_misused_longTitle`: a revision that cannot be printed is neither loaded nor refused.
-/

namespace EventDialects

open List (Forall₂)
open Text (beyondPrint)

theorem Value.equal_text_iff {v : Value} {n : String} : v.equal (.str n) ↔ v = .str n :=
  ⟨fun h => equal_str_iff.mp (equal_symm h), fun h => h ▸ equal_str_iff.mpr rfl⟩

namespace Table

/-! ### What the parts of a definition say -/

/-- The code that a key **writes**: a number itself, and a text the literal in it. -/
def WritesCode (key : Value) (code : Int) : Prop :=
  key = .int code ∨ ∃ s, key = .str s ∧ Numeral.literal? s.toList = some code

/-- The entries of an event's slots: none if nothing or something empty is said of them. -/
def SlotsAre (es : Entries) (fss : List Entries) : Prop :=
  (es.getOr "slots" .null).truthy = false ∧ fss = [] ∨ es.getOr "slots" .null = .list (fss.map .map)

/-- The events of a definition: none if nothing or something empty is said of them. -/
def EventsAre (es events : Entries) : Prop :=
  (es.getOr "events" .null).truthy = false ∧ events = [] ∨ es.getOr "events" .null = .map events

/-- A key and an event **of the expected kinds**: the key is a number or a text; and if the event is
a mapping with a name, then this is a text, and its slots are mappings, with texts for decoders. -/
structure Shaped (key event : Value) : Prop where
  key : (∃ n, key = .int n) ∨ ∃ s, key = .str s
  event : ∀ (es : Entries) (name : Value), event = .map es → es.lookup? (.str "name") = some name →
    (∃ s, name = .str s) ∧ ∃ fss, SlotsAre es fss ∧ ∀ fs ∈ fss, Slot.DecoderIsText fs

/-- **What a key and its event declare**, in a dialect of a revision and an operand width. -/
structure Declares (r : Revision) (bits key event : Value) (s : Schema) : Prop where
  code : WritesCode key s.code
  entry : ∃ (es : Entries) (fss : List Entries), event = .map es ∧
    es.lookup? (.str "name") = some s.name ∧ SlotsAre es fss ∧
    Forall₂ (Slot.Declares bits) fss s.slots
  revision : s.revision = some r

/-- **How an event fails** after some events: by the first fault in the order of the checks. -/
inductive FailsAfter (source : String) (r : Revision) (bits : Value) (taken : List Schema)
    (key event : Value) : Failure → Prop
  | badCode (h : ∀ code, ¬ WritesCode key code) :
      FailsAfter source r bits taken key event (.refused (.definition (.badCode source key)))
  | nameless {code : Int} (hcode : WritesCode key code)
      (h : ∀ es : Entries, event = .map es → es.lookup? (.str "name") = none) :
      FailsAfter source r bits taken key event (.refused (.definition (.namelessEvent source code)))
  | slot {code : Int} {es : Entries} {name : Value} {fss : List Entries} {fault : SlotEntryFault}
      (hcode : WritesCode key code) (hevent : event = .map es)
      (hname : es.lookup? (.str "name") = some name) (hslots : SlotsAre es fss)
      (hfault : Slot.FirstMisdeclared bits fss fault) (hprint : fault.printable) :
      FailsAfter source r bits taken key event (.refused (.definition (.slot source name fault)))
  | unprintable {code : Int} {es : Entries} {name : Value} {fss : List Entries}
      {fault : SlotEntryFault} (hcode : WritesCode key code) (hevent : event = .map es)
      (hname : es.lookup? (.str "name") = some name) (hslots : SlotsAre es fss)
      (hfault : Slot.FirstMisdeclared bits fss fault) (hprint : fault.printable = false) :
      FailsAfter source r bits taken key event (.misuse .tooLong)
  | duplicateCode {s other : Schema} (h : Declares r bits key event s) (hmem : other ∈ taken)
      (hcode : other.code = s.code) :
      FailsAfter source r bits taken key event (.refused (.duplicateCode r.text s.code))
  | duplicateName {s other : Schema} (h : Declares r bits key event s)
      (hnew : ∀ other ∈ taken, other.code ≠ s.code) (hmem : other ∈ taken)
      (hname : other.name = s.name) :
      FailsAfter source r bits taken key event (.refused (.duplicateName r.text s.name other.code))

theorem SlotsAre.iterate_eq {es : Entries} {fss : List Entries} (h : SlotsAre es fss) :
    ((Value.map es).entryOrEmpty "slots" (.list []) >>= Value.iterate) = .ok (fss.map .map) := by
  rw [Value.entryOrEmpty_map]
  rcases h with ⟨hempty, rfl⟩ | hlist
  · rw [hempty]
    rfl
  · rw [hlist]
    cases fss with
    | nil => rfl
    | cons fs fss => rfl

theorem SlotsAre.unique {es : Entries} {fss fss' : List Entries} (h : SlotsAre es fss)
    (h' : SlotsAre es fss') : fss = fss' := by
  have hsame := Except.ok.inj (h.iterate_eq.symm.trans h'.iterate_eq)
  exact List.map_injective_iff.mpr (fun _ _ he => Value.map.inj he) hsame

theorem EventsAre.entries_eq {es events : Entries} (h : EventsAre es events) :
    ((Value.map es).entryOrEmpty "events" (.map []) >>= Value.entries) = .ok events := by
  rw [Value.entryOrEmpty_map]
  rcases h with ⟨hempty, rfl⟩ | hmap
  · rw [hempty]
    rfl
  · rw [hmap]
    cases events with
    | nil => rfl
    | cons e events => rfl

/-! ### One event -/

variable {source : String} {t : Table} {key event : Value}

theorem codeOfEvent_of_writes {code : Int} (h : WritesCode key code) :
    codeOfEvent source key = .ok code := by
  rcases h with rfl | ⟨s, rfl, hs⟩
  · rfl
  · rw [codeOfEvent, codeOfKey, hs]

theorem codeOfEvent_of_bad (hkey : (∃ n, key = .int n) ∨ ∃ s, key = .str s)
    (h : ∀ code, ¬ WritesCode key code) :
    codeOfEvent source key = refuse (.definition (.badCode source key)) := by
  rcases hkey with ⟨n, rfl⟩ | ⟨s, rfl⟩
  · exact absurd (.inl rfl) (h n)
  · have hnone : Numeral.literal? s.toList = none :=
      Option.eq_none_iff_forall_ne_some.mpr fun code hs => h code (.inr ⟨s, rfl, hs⟩)
    rw [codeOfEvent, codeOfKey, hnone]
    rfl

def extend (t : Table) (schemas : List Schema) : Table :=
  ⟨t.revision, t.title, t.operandBits, t.schemas ++ schemas, false⟩

theorem registerEntry_of_code {code : Int} (hcode : WritesCode key code) {es : Entries}
    {n : String} (hname : es.lookup? (.str "name") = some (.str n)) {fss : List Entries}
    (hslots : SlotsAre es fss) :
    registerEntry source t key (.map es) =
      (Slot.ofEntries source (.str n) t.operandBits (fss.map .map) >>= fun slots =>
        t.register code ⟨code, .str n, slots, none⟩ >>= fun p => .ok p.2) := by
  have hiterate := hslots.iterate_eq
  rw [Attempt.bind_eq_ok] at hiterate
  obtain ⟨found, hfound, hiterate⟩ := hiterate
  rw [registerEntry, codeOfEvent_of_writes hcode, Value.hasEntry_map,
    Value.entryOr_of_lookup? hname, hname, hfound]
  have hprint : (Value.str n).print = .ok n := rfl
  simp only [bind, Except.bind, Option.isSome_some, hiterate, hprint]
  rfl

theorem exists_byCode?_iff {code : Int} :
    (∃ other, t.byCode? (.int code) = some other) ↔ ∃ other ∈ t.schemas, other.code = code := by
  rw [← Option.isSome_iff_exists, byCode?, List.find?_isSome]
  simp only [Value.equal_int, beq_iff_eq]

theorem byCode?_of_new {code : Int} (h : ∀ other ∈ t.schemas, other.code ≠ code) :
    t.byCode? (.int code) = none := by
  refine Option.eq_none_iff_forall_ne_some.mpr fun other hother => ?_
  obtain ⟨other', hmem, he⟩ := exists_byCode?_iff.mp ⟨other, hother⟩
  exact h other' hmem he

theorem exists_byName?_iff {n : String} :
    (∃ other, t.byName? (.str n) = some other) ↔ ∃ other ∈ t.schemas, other.name = .str n := by
  rw [← Option.isSome_iff_exists, byName?, List.find?_isSome]
  simp only [Value.equal_text_iff]

theorem register_of_fresh (hopen : t.isSealed = false) {s : Schema} {n : String}
    (hname : s.name = .str n) (hcode : ∀ other ∈ t.schemas, other.code ≠ s.code)
    (hnew : ∀ other ∈ t.schemas, other.name ≠ s.name) (hrevision : s.revision = some t.revision) :
    t.register s.code ⟨s.code, s.name, s.slots, none⟩ = .ok (s, t.extend [s]) := by
  have hbyName : t.byName? s.name = none := by
    rw [hname]
    refine Option.eq_none_iff_forall_ne_some.mpr fun other hother => ?_
    obtain ⟨other', hmem, he⟩ := exists_byName?_iff.mp ⟨other, hother⟩
    exact hnew other' hmem (he.trans hname.symm)
  have hkey : s.name.hashable := by
    rw [hname]
    rfl
  have hadopt : t.adopt s.code ⟨s.code, s.name, s.slots, none⟩ = s := by
    rw [adopt, ← hrevision]
  refine register_eq_ok_iff.mpr
    ⟨hopen, byCode?_of_new hcode, hkey, hbyName, hadopt.symm, ?_⟩
  rw [hadopt]
  rfl

theorem register_of_taken_code (hopen : t.isSealed = false) {schema other : Schema} {code : Int}
    (hmem : other ∈ t.schemas) (hcode : other.code = code) :
    t.register code schema = refuse (.duplicateCode t.revision.text code) := by
  obtain ⟨other', hother'⟩ := exists_byCode?_iff.mpr ⟨other, hmem, hcode⟩
  exact register_of_code hopen hother'

theorem register_of_taken_name (hopen : t.isSealed = false)
    (hdistinct : (t.schemas.map (·.name)).Nodup) {schema other : Schema} {n : String} {code : Int}
    (hnew : ∀ other ∈ t.schemas, other.code ≠ code) (hname : schema.name = .str n)
    (hmem : other ∈ t.schemas) (htaken : other.name = schema.name) :
    t.register code schema =
      refuse (.duplicateName t.revision.text schema.name other.code) := by
  have hbyName : t.byName? schema.name = some other := by
    refine find?_eq_some_of_unique hmem ?_ fun x hx he => ?_
    · rw [htaken, hname]
      exact Value.equal_text_iff.mpr rfl
    · rw [hname, Value.equal_text_iff, ← hname, ← htaken] at he
      exact List.inj_on_of_nodup_map hdistinct hx hmem he
  exact register_of_name hopen (byCode?_of_new hnew) (by rw [hname]; rfl) hbyName

section Shaped

variable (hshape : Shaped key event)

include hshape

/-- The slots of an event that is declared are read, and its name is a text. -/
theorem registerEntry_of_declares {s : Schema}
    (h : Declares t.revision t.operandBits key event s) :
    registerEntry source t key event =
        (t.register s.code ⟨s.code, s.name, s.slots, none⟩ >>= fun p => .ok p.2) ∧
      ∃ n, s.name = .str n := by
  obtain ⟨es, fss, rfl, hname, hslots, hall⟩ := h.entry
  obtain ⟨⟨n, htext⟩, fss', hslots', hdecoders⟩ := hshape.event es s.name rfl hname
  obtain rfl := hslots.unique hslots'
  rw [htext] at hname ⊢
  rw [registerEntry_of_code h.code hname hslots,
    ((Slot.ofEntries_answers hdecoders).ok s.slots).mpr hall]
  exact ⟨rfl, n, rfl⟩

/-- The slots of an event with a faulty one are refused, if the fault can be printed. -/
theorem registerEntry_of_firstMisdeclared {code : Int} {es : Entries} {name : Value}
    {fss : List Entries} {fault : SlotEntryFault} (hcode : WritesCode key code)
    (hevent : event = .map es) (hname : es.lookup? (.str "name") = some name)
    (hslots : SlotsAre es fss) (hfault : Slot.FirstMisdeclared t.operandBits fss fault) :
    registerEntry source t key event =
        .error (Failure.refused (.definition (.slot source name fault))).raised ∧
      name.printable := by
  subst hevent
  obtain ⟨⟨n, rfl⟩, fss', hslots', hdecoders⟩ := hshape.event es name rfl hname
  obtain rfl := hslots.unique hslots'
  rw [registerEntry_of_code hcode hname hslots,
    ((Slot.ofEntries_answers hdecoders).error _).mpr ⟨fault, hfault, rfl⟩]
  exact ⟨rfl, rfl⟩

theorem registerEntry_of_fails (hopen : t.isSealed = false)
    (hdistinct : (t.schemas.map (·.name)).Nodup) {e : Failure}
    (h : FailsAfter source t.revision t.operandBits t.schemas key event e) :
    registerEntry source t key event = .error e := by
  cases h with
  | badCode h =>
    obtain ⟨n, rfl⟩ | ⟨s, rfl⟩ := hshape.key
    · exact absurd (.inl rfl) (h n)
    · rw [registerEntry, codeOfEvent_of_bad (.inr ⟨s, rfl⟩) h]
      rfl
  | nameless hcode h =>
    have hnone : event.hasEntry "name" = false := by
      cases event with
      | map es =>
        rw [Value.hasEntry_map, h es rfl]
        rfl
      | _ => rfl
    rw [registerEntry, codeOfEvent_of_writes hcode, hnone]
    rfl
  | slot hcode hevent hname hslots hfault hprint =>
    obtain ⟨herror, hname⟩ :=
      registerEntry_of_firstMisdeclared hshape hcode hevent hname hslots hfault
    rw [herror, Failure.raised_of_printable]
    exact Bool.and_eq_true_iff.mpr ⟨hname, hprint⟩
  | unprintable hcode hevent hname hslots hfault hprint =>
    obtain ⟨herror, -⟩ :=
      registerEntry_of_firstMisdeclared hshape hcode hevent hname hslots hfault
    rw [herror, Failure.raised_of_not_printable]
    exact Bool.and_eq_false_iff.mpr (.inr hprint)
  | duplicateCode h hmem hcode =>
    rw [(registerEntry_of_declares hshape h).1, register_of_taken_code hopen hmem hcode]
    rfl
  | @duplicateName s other h hnew hmem hname =>
    obtain ⟨heq, n, htext⟩ := registerEntry_of_declares hshape h
    have hregister : t.register s.code ⟨s.code, s.name, s.slots, none⟩ = refuse _ :=
      register_of_taken_name hopen hdistinct hnew htext hmem hname
    rw [heq, hregister, htext]
    rfl

/-- An event is declared under a new code and a new name, or there is a first fault. -/
theorem declares_or_fails (source : String) (r : Revision) (bits : Value) (taken : List Schema) :
    (∃ s, Declares r bits key event s ∧ (∀ other ∈ taken, other.code ≠ s.code) ∧
      ∀ other ∈ taken, other.name ≠ s.name) ∨
    ∃ e, FailsAfter source r bits taken key event e := by
  by_cases hcode : ∃ code, WritesCode key code
  · obtain ⟨code, hcode⟩ := hcode
    by_cases hnamed : ∃ (es : Entries) (name : Value), event = .map es ∧
      es.lookup? (.str "name") = some name
    · obtain ⟨es, name, rfl, hname⟩ := hnamed
      obtain ⟨-, fss, hslots, hdecoders⟩ := hshape.event es name rfl hname
      rcases Slot.declare_or_firstMisdeclared bits fss with ⟨slots, hall⟩ | ⟨fault, hfault⟩
      · have h : Declares r bits key (.map es) ⟨code, name, slots, some r⟩ :=
          ⟨hcode, ⟨es, fss, rfl, hname, hslots, hall⟩, rfl⟩
        by_cases htaken : ∃ other ∈ taken, other.code = code
        · obtain ⟨other, hmem, hother⟩ := htaken
          exact .inr ⟨_, .duplicateCode h hmem hother⟩
        · push Not at htaken
          by_cases hnames : ∃ other ∈ taken, other.name = name
          · obtain ⟨other, hmem, hother⟩ := hnames
            exact .inr ⟨_, .duplicateName h htaken hmem hother⟩
          · push Not at hnames
            exact .inl ⟨_, h, htaken, hnames⟩
      · cases hprint : fault.printable with
        | true => exact .inr ⟨_, .slot hcode rfl hname hslots hfault hprint⟩
        | false => exact .inr ⟨_, .unprintable hcode rfl hname hslots hfault hprint⟩
    · refine .inr ⟨_, .nameless hcode fun es hes => ?_⟩
      exact Option.eq_none_iff_forall_ne_some.mpr fun name hname => hnamed ⟨es, name, hes, hname⟩
  · exact .inr ⟨_, .badCode fun code h => hcode ⟨code, h⟩⟩

/-- **One event**, after those of an open table: it is declared and both its code and its name are
new, or it is refused for its first fault. -/
theorem registerEntry_answers (hopen : t.isSealed = false)
    (hdistinct : (t.schemas.map (·.name)).Nodup) :
    (registerEntry source t key event).Answers
      (fun t' => ∃ s, Declares t.revision t.operandBits key event s ∧
        (∀ other ∈ t.schemas, other.code ≠ s.code) ∧ (∀ other ∈ t.schemas, other.name ≠ s.name) ∧
        t' = t.extend [s])
      (FailsAfter source t.revision t.operandBits t.schemas key event) := by
  refine Attempt.answers_of_total ?_ ?_ ?_
  · rintro t' ⟨s, h, hcode, hnew, rfl⟩
    obtain ⟨heq, n, hname⟩ := registerEntry_of_declares hshape h
    rw [heq, register_of_fresh hopen hname hcode hnew h.revision]
    rfl
  · exact fun e he => registerEntry_of_fails hshape hopen hdistinct he
  · rcases declares_or_fails hshape source t.revision t.operandBits t.schemas with
      ⟨s, h, hcode, hnew⟩ | hfails
    · exact .inl ⟨_, s, h, hcode, hnew, rfl⟩
    · exact .inr hfails

end Shaped

/-! ### A run over events -/

/-- Events **load** after some others as schemas if each declares one, under a code and a name that
neither those nor an event before it has. -/
inductive LoadsAfter (r : Revision) (bits : Value) :
    List Schema → Entries → List Schema → Prop
  | nil {taken : List Schema} : LoadsAfter r bits taken [] []
  | cons {taken : List Schema} {key event : Value} {events : Entries} {s : Schema}
      {new : List Schema} (h : Declares r bits key event s)
      (hcode : ∀ other ∈ taken, other.code ≠ s.code) (hname : ∀ other ∈ taken, other.name ≠ s.name)
      (hrest : LoadsAfter r bits (taken ++ [s]) events new) :
      LoadsAfter r bits taken ((key, event) :: events) (s :: new)

/-- A run over events **ends** with a failure after some others if the events before one load, and
that one fails. -/
def EndsAfter (source : String) (r : Revision) (bits : Value) (taken : List Schema)
    (events : Entries) (e : Failure) : Prop :=
  ∃ before key event after new, events = before ++ (key, event) :: after ∧
    LoadsAfter r bits taken before new ∧ FailsAfter source r bits (taken ++ new) key event e

theorem loadsAfter_cons_iff {r : Revision} {bits : Value} {taken schemas : List Schema}
    {events : Entries} : LoadsAfter r bits taken ((key, event) :: events) schemas ↔
      ∃ s new, Declares r bits key event s ∧ (∀ other ∈ taken, other.code ≠ s.code) ∧
        (∀ other ∈ taken, other.name ≠ s.name) ∧ LoadsAfter r bits (taken ++ [s]) events new ∧
        schemas = s :: new := by
  constructor
  · rintro (_ | ⟨h, hcode, hname, hrest⟩)
    exact ⟨_, _, h, hcode, hname, hrest, rfl⟩
  · rintro ⟨s, new, h, hcode, hname, hrest, rfl⟩
    exact .cons h hcode hname hrest

theorem endsAfter_cons_iff {r : Revision} {bits : Value} {taken : List Schema} {events : Entries}
    {e : Failure} : EndsAfter source r bits taken ((key, event) :: events) e ↔
      FailsAfter source r bits taken key event e ∨
        ∃ s, Declares r bits key event s ∧ (∀ other ∈ taken, other.code ≠ s.code) ∧
          (∀ other ∈ taken, other.name ≠ s.name) ∧
          EndsAfter source r bits (taken ++ [s]) events e := by
  constructor
  · rintro ⟨before, key', event', after, new, hsplit, hload, hfail⟩
    cases before with
    | nil =>
      cases hload
      obtain ⟨he, -⟩ := List.cons.inj hsplit
      cases he
      rw [List.append_nil] at hfail
      exact .inl hfail
    | cons p before =>
      obtain ⟨rfl, rfl⟩ := List.cons.inj hsplit
      obtain ⟨s, new, h, hcode, hname, hrest, rfl⟩ := loadsAfter_cons_iff.mp hload
      refine .inr ⟨s, h, hcode, hname, before, key', event', after, new, rfl, hrest, ?_⟩
      rwa [List.append_assoc, List.singleton_append]
  · rintro (hfail | ⟨s, h, hcode, hname, before, key', event', after, new, rfl, hload, hfail⟩)
    · exact ⟨[], key, event, events, [], rfl, .nil, by rwa [List.append_nil]⟩
    · refine ⟨(key, event) :: before, key', event', after, s :: new, rfl,
        .cons h hcode hname hload, ?_⟩
      rwa [List.append_assoc, List.singleton_append] at hfail

theorem extend_nil (hopen : t.isSealed = false) : t.extend [] = t := by
  rw [extend, List.append_nil, ← hopen]

theorem extend_extend (schemas schemas' : List Schema) :
    (t.extend schemas).extend schemas' = t.extend (schemas ++ schemas') := by
  simp only [extend, List.append_assoc]

/-- **A run over events**, after those of an open table: all of them load, or it ends with the first
that fails. -/
theorem registerEntries_answers {events : Entries} : ∀ {t : Table}, t.isSealed = false →
    (t.schemas.map (·.name)).Nodup → (∀ e ∈ events, Shaped e.1 e.2) →
      (registerEntries source t events).Answers
        (fun t' => ∃ new, LoadsAfter t.revision t.operandBits t.schemas events new ∧
          t' = t.extend new)
        (EndsAfter source t.revision t.operandBits t.schemas events) := by
  induction events with
  | nil =>
    intro t hopen _ _
    refine (Attempt.answers_ok t).congr (fun t' => ?_) fun e => ?_
    · constructor
      · rintro rfl
        exact ⟨[], .nil, (extend_nil hopen).symm⟩
      · rintro ⟨new, hload, rfl⟩
        cases hload
        exact (extend_nil hopen).symm
    · refine ⟨False.elim, ?_⟩
      rintro ⟨before, key, event, after, new, hsplit, -⟩
      cases before <;> cases hsplit
  | cons e events ih =>
    obtain ⟨key, event⟩ := e
    intro t hopen hdistinct hshape
    obtain ⟨hfirst, hshape⟩ := List.forall_mem_cons.mp hshape
    have hrest : ∀ t', (∃ s, Declares t.revision t.operandBits key event s ∧
        (∀ other ∈ t.schemas, other.code ≠ s.code) ∧ (∀ other ∈ t.schemas, other.name ≠ s.name) ∧
        t' = t.extend [s]) →
        (registerEntries source t' events).Answers
          (fun t'' => ∃ new, LoadsAfter t'.revision t'.operandBits t'.schemas events new ∧
            t'' = t'.extend new)
          (EndsAfter source t'.revision t'.operandBits t'.schemas events) := by
      rintro _ ⟨s, -, -, hname, rfl⟩
      refine ih rfl ?_ hshape
      rw [extend, List.map_append, List.nodup_append]
      refine ⟨hdistinct, List.nodup_singleton _, fun name hmem name' hmem' => ?_⟩
      obtain ⟨other, hother, rfl⟩ := List.mem_map.mp hmem
      rw [List.map_singleton, List.mem_singleton] at hmem'
      rw [hmem']
      exact hname other hother
    refine ((registerEntry_answers hfirst hopen hdistinct).bind hrest).congr (fun t' => ?_)
      fun e => ?_
    · constructor
      · rintro ⟨_, ⟨s, h, hcode, hname, rfl⟩, new, hload, rfl⟩
        exact ⟨s :: new, .cons h hcode hname hload, extend_extend [s] new⟩
      · rintro ⟨_, hload, rfl⟩
        obtain ⟨s, new, h, hcode, hname, hload', rfl⟩ := loadsAfter_cons_iff.mp hload
        exact ⟨_, ⟨s, h, hcode, hname, rfl⟩, new, hload', (extend_extend [s] new).symm⟩
    · rw [endsAfter_cons_iff]
      refine or_congr Iff.rfl ?_
      constructor
      · rintro ⟨_, ⟨s, h, hcode, hname, rfl⟩, hends⟩
        exact ⟨s, h, hcode, hname, hends⟩
      · rintro ⟨s, h, hcode, hname, hends⟩
        exact ⟨_, ⟨s, h, hcode, hname, rfl⟩, hends⟩

/-! ### A definition -/

/-- Events **load** as schemas if each declares one, and no two have one code or one name. -/
structure Loads (r : Revision) (bits : Value) (events : Entries) (schemas : List Schema) :
    Prop where
  declares : Forall₂ (fun e => Declares r bits e.1 e.2) events schemas
  codes : (schemas.map (·.code)).Nodup
  names : (schemas.map (·.name)).Nodup

theorem loadsAfter_iff {r : Revision} {bits : Value} {events : Entries} :
    ∀ {taken schemas : List Schema}, LoadsAfter r bits taken events schemas ↔
      Loads r bits events schemas ∧ ∀ s ∈ schemas,
        (∀ other ∈ taken, other.code ≠ s.code) ∧ ∀ other ∈ taken, other.name ≠ s.name := by
  induction events with
  | nil =>
    intro taken schemas
    constructor
    · rintro ⟨⟩
      exact ⟨⟨.nil, .nil, .nil⟩, fun _ hs => absurd hs List.not_mem_nil⟩
    · rintro ⟨⟨⟨⟩, -, -⟩, -⟩
      exact .nil
  | cons e events ih =>
    intro taken schemas
    rw [loadsAfter_cons_iff]
    constructor
    · rintro ⟨s, new, h, hcode, hname, hrest, rfl⟩
      obtain ⟨⟨hall, hcodes, hnames⟩, hfresh⟩ := ih.mp hrest
      simp only [List.forall_mem_append, List.forall_mem_singleton] at hfresh
      refine ⟨⟨.cons h hall, ?_, ?_⟩, List.forall_mem_cons.mpr ⟨⟨hcode, hname⟩, fun s' hs' => ?_⟩⟩
      · refine List.nodup_cons.mpr ⟨fun hmem => ?_, hcodes⟩
        obtain ⟨s', hs', he⟩ := List.mem_map.mp hmem
        exact (hfresh s' hs').1.2 he.symm
      · refine List.nodup_cons.mpr ⟨fun hmem => ?_, hnames⟩
        obtain ⟨s', hs', he⟩ := List.mem_map.mp hmem
        exact (hfresh s' hs').2.2 he.symm
      · exact ⟨(hfresh s' hs').1.1, (hfresh s' hs').2.1⟩
    · rintro ⟨⟨hall, hcodes, hnames⟩, hfresh⟩
      obtain ⟨s, new, h, hrest, rfl⟩ := List.forall₂_cons_left_iff.mp hall
      obtain ⟨hcode, hcodes⟩ := List.nodup_cons.mp hcodes
      obtain ⟨hname, hnames⟩ := List.nodup_cons.mp hnames
      obtain ⟨⟨hnewCode, hnewName⟩, hfresh⟩ := List.forall_mem_cons.mp hfresh
      refine ⟨s, new, h, hnewCode, hnewName,
        ih.mpr ⟨⟨hrest, hcodes, hnames⟩, fun s' hs' => ?_⟩, rfl⟩
      simp only [List.forall_mem_append, List.forall_mem_singleton]
      exact ⟨⟨(hfresh s' hs').1, fun he => hcode (List.mem_map.mpr ⟨s', hs', he.symm⟩)⟩,
        (hfresh s' hs').2, fun he => hname (List.mem_map.mpr ⟨s', hs', he.symm⟩)⟩

theorem loadsAfter_nil_iff {r : Revision} {bits : Value} {events : Entries}
    {schemas : List Schema} :
    LoadsAfter r bits [] events schemas ↔ Loads r bits events schemas := by
  rw [loadsAfter_iff]
  exact and_iff_left fun _ _ => ⟨fun _ h => absurd h List.not_mem_nil,
    fun _ h => absurd h List.not_mem_nil⟩

theorem build_eq {es events : Entries} {title : Value}
    (hrevision : es.lookup? (.str "revision") = some title) (hevents : EventsAre es events)
    (htitle : title.printable) (hvariant : (es.getOr "variant" (.str "")).printable) :
    build (.map es) source = registerEntries source (empty
      ⟨title.text, (es.getOr "variant" (.str "")).text⟩ (es.getOr "title" .null)
      (es.getOr "operand_bits" (.int 32))) events := by
  have hentries := hevents.entries_eq
  rw [Attempt.bind_eq_ok] at hentries
  obtain ⟨found, hfound, hentries⟩ := hentries
  rw [build, Value.hasEntry_map, Value.entryOr_of_lookup? hrevision, hrevision, hfound]
  simp only [bind, Except.bind, Option.isSome_some, Value.entryOr_map, hentries,
    Value.print_eq_ok.mpr ⟨htitle, rfl⟩, Value.print_eq_ok.mpr ⟨hvariant, rfl⟩]
  rfl

theorem build_of_unprintable {es : Entries} {title : Value}
    (hrevision : es.lookup? (.str "revision") = some title)
    (hlong : title.printable = false ∨ (es.getOr "variant" (.str "")).printable = false) :
    build (.map es) source = misused .tooLong := by
  rw [build, Value.hasEntry_map, Value.entryOr_of_lookup? hrevision, hrevision]
  simp only [bind, Except.bind, Option.isSome_some, Value.entryOr_map]
  cases htitle : title.printable with
  | false =>
    rw [Value.print_eq_error.mpr ⟨htitle, rfl⟩]
    rfl
  | true =>
    have hvariant := hlong.resolve_left (by rw [htitle]; decide)
    rw [Value.print_eq_ok.mpr ⟨htitle, rfl⟩, Value.print_eq_error.mpr ⟨hvariant, rfl⟩]
    rfl

/-- **What a definition makes.**  A mapping with a revision that can be printed, whose events are of
the expected kinds, makes the open table of all its events, in their order and under the codes that
their keys write, if each of them declares one and no two have one code or one name.  Otherwise the
first event that does not is what it is refused for, by the first of its faults, unless that is the
fault of a slot's entry and cannot be printed.  A mapping with a revision that cannot be printed is
not refused. -/
theorem build_exactly {es events : Entries} {title : Value}
    (hrevision : es.lookup? (.str "revision") = some title) (hevents : EventsAre es events)
    (hshape : ∀ e ∈ events, Shaped e.1 e.2) {r : Revision} {variant bits : Value}
    (hvariant : variant = es.getOr "variant" (.str "")) (hr : r = ⟨title.text, variant.text⟩)
    (hbits : bits = es.getOr "operand_bits" (.int 32)) :
    (title.printable → variant.printable →
      (∀ t, build (.map es) source = .ok t ↔ ∃ schemas, Loads r bits events schemas ∧
        t = ⟨r, es.getOr "title" .null, bits, schemas, false⟩) ∧
      ∀ e, build (.map es) source = .error e ↔ ∃ before key event after schemas,
        events = before ++ (key, event) :: after ∧ Loads r bits before schemas ∧
          FailsAfter source r bits schemas key event e) ∧
    (title.printable = false ∨ variant.printable = false →
      build (.map es) source = misused .tooLong) := by
  subst hvariant hr hbits
  refine ⟨fun htitle hvariant => ?_, build_of_unprintable hrevision⟩
  have hanswers : (registerEntries source (empty ⟨title.text, (es.getOr "variant" (.str "")).text⟩
      (es.getOr "title" .null) (es.getOr "operand_bits" (.int 32))) events).Answers _ _ :=
    registerEntries_answers rfl List.nodup_nil hshape
  rw [build_eq hrevision hevents htitle hvariant]
  refine ⟨fun t => (hanswers.ok t).trans ?_, fun e => (hanswers.error e).trans ?_⟩
  · exact exists_congr fun schemas => and_congr_left fun _ => loadsAfter_nil_iff
  · constructor
    · rintro ⟨before, key, event, after, new, hsplit, hload, hfail⟩
      exact ⟨before, key, event, after, new, hsplit, loadsAfter_nil_iff.mp hload, hfail⟩
    · rintro ⟨before, key, event, after, new, hsplit, hload, hfail⟩
      exact ⟨before, key, event, after, new, hsplit, loadsAfter_nil_iff.mpr hload, hfail⟩

/-- An event with one slot, of which nothing but its name and its kind is said. -/
def turnEntry : Entries :=
  [(.str "name", .str "Turn"), (.str "slots", .list [Bundled.number "count"])]

def leapEntry : Entries := [(.str "name", .str "Leap")]

/-- A definition with some events and an operand width. -/
def sixteenBit (events : Entries) : Entries :=
  [(.str "revision", .str "FE14"), (.str "operand_bits", .int 16), (.str "events", .map events)]

def turnSchema : Schema :=
  ⟨16, .str "Turn", [⟨.str "count", .rawInteger, none, .int 16, .bool true, .int 1,
    by decide +kernel⟩], some ⟨"FE14", ""⟩⟩

/-- The code that two keys write can have one event only: the definition with the first of them
makes a table, and the definition with both is refused. -/
theorem build_exactly_twoSpellings :
    build (.map (sixteenBit [(.str "0x10", .map turnEntry)])) "fe14.yaml" =
        .ok ⟨⟨"FE14", ""⟩, .null, .int 16, [turnSchema], false⟩ ∧
      build (.map (sixteenBit [(.str "0x10", .map turnEntry), (.int 16, .map leapEntry)]))
        "fe14.yaml" = .error (.refused (.duplicateCode "FE14" 16)) := by
  have hturn : Declares ⟨"FE14", ""⟩ (.int 16) (.str "0x10") (.map turnEntry) turnSchema :=
    ⟨.inr ⟨"0x10", rfl, by decide +kernel⟩, ⟨turnEntry, [_], rfl, rfl, .inr rfl,
      .cons ⟨rfl, rfl, rfl, rfl, rfl, rfl⟩ .nil⟩, rfl⟩
  have hleap : Declares ⟨"FE14", ""⟩ (.int 16) (.int 16) (.map leapEntry)
      ⟨16, .str "Leap", [], some ⟨"FE14", ""⟩⟩ :=
    ⟨.inl rfl, ⟨leapEntry, [], rfl, rfl, .inl ⟨rfl, rfl⟩, .nil⟩, rfl⟩
  have hturnShape : Shaped (.str "0x10") (.map turnEntry) := by
    refine ⟨.inr ⟨_, rfl⟩, fun es name hes hname => ?_⟩
    cases hes
    cases hname
    exact ⟨⟨_, rfl⟩, [_], .inr rfl, List.forall_mem_singleton.mpr ⟨"", rfl⟩⟩
  have hleapShape : Shaped (.int 16) (.map leapEntry) := by
    refine ⟨.inl ⟨_, rfl⟩, fun es name hes hname => ?_⟩
    cases hes
    cases hname
    exact ⟨⟨_, rfl⟩, [], .inl ⟨rfl, rfl⟩, fun _ h => absurd h List.not_mem_nil⟩
  have hload : Loads ⟨"FE14", ""⟩ (.int 16) [(.str "0x10", .map turnEntry)] [turnSchema] :=
    ⟨.cons hturn .nil, List.nodup_singleton _, List.nodup_singleton _⟩
  constructor
  · obtain ⟨hbuild, -⟩ := @build_exactly "fe14.yaml" (sixteenBit [(.str "0x10", .map turnEntry)])
      _ _ rfl (.inr rfl) (List.forall_mem_singleton.mpr hturnShape) _ _ _ rfl rfl rfl
    obtain ⟨hok, -⟩ := hbuild rfl rfl
    exact (hok _).mpr ⟨_, hload, rfl⟩
  · have hshapes : ∀ e ∈ [((.str "0x10" : Value), Value.map turnEntry), (.int 16, .map leapEntry)],
        Shaped e.1 e.2 :=
      List.forall_mem_cons.mpr ⟨hturnShape, List.forall_mem_singleton.mpr hleapShape⟩
    obtain ⟨hbuild, -⟩ := @build_exactly "fe14.yaml"
      (sixteenBit [(.str "0x10", .map turnEntry), (.int 16, .map leapEntry)]) _ _ rfl (.inr rfl)
      hshapes _ _ _ rfl rfl rfl
    obtain ⟨-, herror⟩ := hbuild rfl rfl
    exact (herror _).mpr ⟨[_], _, _, [], _, rfl, hload,
      .duplicateCode hleap (List.mem_singleton_self _) rfl⟩

/-- A definition of no events whose revision is a number too long to be printed. -/
def longTitle : Entries := [(.str "revision", .int beyondPrint), (.str "events", .map [])]

/-- It has nothing that an event could be refused for, and makes no table. -/
theorem build_misused_longTitle : EventsAre longTitle [] ∧
    (∀ r bits, Loads r bits [] []) ∧ build (.map longTitle) "long.yaml" = misused .tooLong := by
  have hlong : (Value.int beyondPrint).printable = false := Value.not_printable_beyondPrint
  exact ⟨.inr rfl, fun _ _ => ⟨.nil, .nil, .nil⟩, build_of_unprintable rfl (.inl hlong)⟩

end Table

end EventDialects
