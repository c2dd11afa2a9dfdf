import EventDialects.Proofs.Definition.Dialect
import EventDialects.Proofs.Registration
import EventDialects.Proofs.Registry.Loading
import EventDialects.Proofs.Reporting.Attempt

/-!
# Which dialect definitions are readable

A dialect definition may hold anything at any place, and each part of it is taken for something: the
events for a mapping, a key for a number, an event for a mapping, its slots for a list of mappings, a
decoder and a name for keys.  Some of this is checked, and refused as a fault of the definition;
whatever is not checked comes out raw, and so does a number that is too long to be printed where the
revision, a name or the fault is to be printed.  Here the second case is told from the first for every
definition.

* `Slot.reports_ofEntry`, `Slot.reports_ofEntries`: **slot entries**.
* `Table.reports_registerEntry`, `Table.reports_registerEntries`: **events**, each after those before
  it.
* `Table.reports_build`: **building a dialect** is reported exactly if the definition is readable.
-/

namespace EventDialects

open Attempt

/-- The refusals of a **dialect** definition: of something in it, or of a code or a name that is
there twice. -/
inductive Refusal.OfDialect : Refusal → Prop
  | definition (fault : DefinitionFault) : OfDialect (.definition fault)
  | duplicateCode (revision : String) (code : Int) : OfDialect (.duplicateCode revision code)
  | duplicateName (revision : String) (name : Value) (code : Int) :
      OfDialect (.duplicateName revision name code)

open Refusal (OfDialect)

/-! ### Slots -/

namespace Slot

/-- What is named for a decoder is **usable** if it can be a key, and can be printed. -/
structure UsableDecoder (name : Value) : Prop where
  key : name.hashable
  prints : name.printable

/-- A slot entry is **readable** if it lacks its name or its kind and can be printed, being refused for
what it lacks; or if it is a mapping whose kind can be printed, and, if the kind of slot needs a
decoder, what it names for one is usable. -/
inductive Readable : Value → Prop
  | incomplete {entry : Value} (h : entry.Lacks "name" ∨ entry.Lacks "kind")
      (hprint : entry.printable) : Readable entry
  | mapping {fs : Entries} {name kind : Value} (hname : fs.lookup? (.str "name") = some name)
      (hkind : fs.lookup? (.str "kind") = some kind) (hprint : kind.printable)
      (hdecoder : ∀ k : SlotKind, kind = .str k.name → k.needsDecoder →
        UsableDecoder (fs.getOr "decoder" (.str ""))) : Readable (.map fs)

variable {source : String} {event bits : Value}

theorem reports_refuseEntry {α : Type} {fault : SlotEntryFault} {P : Prop} (hevent : event.printable)
    (h : fault.printable ↔ P) :
    (refuseEntry source event fault : Attempt α).Reports OfDialect P := by
  refine reports_refuse (.definition _) (Iff.trans ?_ h)
  exact (Bool.and_eq_true_iff (x := event.printable)).trans (and_iff_right hevent)

theorem printable_of_find?_decoder {name : Value} {d : Decoder}
    (h : Decoder.all.find? (fun d => (Value.str d.name).equal name) = some d) : name.printable := by
  have hequal : (Value.str d.name).equal name := by simpa using List.find?_some h
  rw [Value.equal_str_iff.mp hequal]
  rfl

/-- An entry that is refused for what it lacks is readable if it can be printed. -/
theorem printable_iff_readable {entry : Value} (h : entry.Lacks "name" ∨ entry.Lacks "kind") :
    entry.printable ↔ Readable entry := by
  refine ⟨.incomplete h, fun hread => ?_⟩
  cases hread with
  | incomplete _ hprint => exact hprint
  | mapping hname hkind =>
    rcases h with h | h
    · cases hname.symm.trans (Value.lacks_map_iff.mp h)
    · cases hkind.symm.trans (Value.lacks_map_iff.mp h)

variable (hevent : event.printable)

include hevent

theorem reports_decoderOfEntry (k : SlotKind) (fs : Entries) :
    (decoderOfEntry source event k (.map fs)).Reports OfDialect
      (k.needsDecoder → UsableDecoder (fs.getOr "decoder" (.str ""))) := by
  by_cases hneeds : k.needsDecoder
  · suffices hx : (decoderOfEntry source event k (.map fs)).Reports OfDialect
        (UsableDecoder (fs.getOr "decoder" (.str ""))) from
      hx.congr ⟨fun h _ => h, fun h => h hneeds⟩
    simp only [decoderOfEntry, hneeds, Value.entryOr_map, Decoder.ofName, bind, Except.bind]
    generalize fs.getOr "decoder" (.str "") = name
    by_cases hkey : name.hashable
    · rw [Value.checkKey_eq_ok_iff.mpr hkey]
      cases hfound : Decoder.all.find? fun d => (Value.str d.name).equal name with
      | some d => exact reports_ok (some d) ⟨hkey, printable_of_find?_decoder hfound⟩
      | none =>
        cases hprint : name.printable with
        | true =>
          simp only [Failure.raised_of_printable (f := .unknownDecoder name) hprint]
          exact reports_refuseEntry hevent (iff_of_true hprint ⟨hkey, hprint⟩)
        | false =>
          simp only [Failure.raised_of_not_printable (f := .unknownDecoder name) hprint]
          exact reports_misused _ fun h => Bool.eq_false_iff.mp hprint h.prints
    · rw [Value.checkKey_of_not_hashable hkey]
      exact reports_misused _ fun h => hkey h.key
  · have hnone : decoderOfEntry source event k (.map fs) = .ok none := by
      simp only [decoderOfEntry, hneeds]
      rfl
    rw [hnone]
    exact reports_ok none fun h => absurd h hneeds

theorem reports_ofEntry_of_complete {fs : Entries}
    {name kind : Value} (hname : fs.lookup? (.str "name") = some name)
    (hkind : fs.lookup? (.str "kind") = some kind) :
    (ofEntry source event bits (.map fs)).Reports OfDialect (kind.printable ∧ ∀ k : SlotKind,
      kind = .str k.name → k.needsDecoder → UsableDecoder (fs.getOr "decoder" (.str ""))) := by
  cases hk : SlotKind.ofValue? kind with
  | none =>
    have hunknown := SlotKind.ofValue?_eq_none_iff.mp hk
    rw [ofEntry_of_unknownKind hname hkind hunknown]
    exact reports_refuseEntry hevent
      (and_iff_left fun k hk' => absurd hk' (hunknown k)).symm
  | some k =>
    obtain rfl := SlotKind.ofValue?_eq_some_iff.mp hk
    rw [ofEntry_of_kind hname hkind]
    refine ((reports_decoderOfEntry hevent k fs).bind_true fun decoder _ => ?_).congr ?_
    · split
      · exact reports_ok _ trivial
      · exact reports_refuseEntry hevent (iff_of_true rfl trivial)
    · refine ⟨fun h => ⟨rfl, fun k' hk' => ?_⟩, fun h => h.2 k rfl⟩
      have hsame := SlotKind.ofValue?_name k
      rw [hk', SlotKind.ofValue?_name] at hsame
      rwa [Option.some.inj hsame]

/-- **One entry** is reported if it is readable. -/
theorem reports_ofEntry (entry : Value) :
    (ofEntry source event bits entry).Reports OfDialect (Readable entry) := by
  rcases entry.holds_cases "name" with ⟨named, hnamed⟩ | ⟨m, hm⟩
  · obtain ⟨kinded, hkinded⟩ := Value.exists_holds hnamed "kind"
    cases named with
    | false =>
      rw [ofEntry, hnamed]
      exact reports_refuseEntry hevent (printable_iff_readable (.inl hnamed))
    | true =>
      cases kinded with
      | false =>
        rw [ofEntry, hnamed, hkinded]
        exact reports_refuseEntry hevent (printable_iff_readable (.inr hkinded))
      | true =>
        have hcomplete : ¬ (entry.Lacks "name" ∨ entry.Lacks "kind") := by
          rintro (h | h)
          · cases hnamed.symm.trans h
          · cases hkinded.symm.trans h
        cases entry with
        | map fs =>
          obtain ⟨name, hname⟩ := Value.holds_map_iff.mp hnamed
          obtain ⟨kind, hkind⟩ := Value.holds_map_iff.mp hkinded
          refine (reports_ofEntry_of_complete hevent hname hkind).congr
            ⟨fun h => .mapping hname hkind h.1 h.2, fun h => ?_⟩
          cases h with
          | incomplete h => exact absurd h hcomplete
          | mapping _ hkind' hprint hdecoder =>
            obtain rfl := Option.some.inj (hkind.symm.trans hkind')
            exact ⟨hprint, hdecoder⟩
        | _ =>
          rw [ofEntry, hnamed, hkinded]
          refine reports_misused _ fun h => ?_
          cases h with
          | incomplete h => exact hcomplete h
  · rw [ofEntry, hm]
    refine reports_misused m fun h => ?_
    cases h with
    | incomplete h =>
      rcases h with h | h
      · cases hm.symm.trans h
      · obtain ⟨b, hb⟩ := Value.exists_holds h "name"
        cases hm.symm.trans hb
    | mapping => cases hm

/-- **The entries of an event** are reported if each of them that is come to is readable. -/
theorem reports_ofEntries (entries : List Value) :
    (ofEntries source event bits entries).Reports OfDialect
      (EachComeTo (ofEntries source event bits) (fun _ => Readable) entries) :=
  @reports_load _ _ OfDialect (fun _ => ofEntries source event bits)
    (fun _ => ofEntry source event bits) (fun _ => rfl) (fun _ _ _ => rfl) Readable
    (fun _ => reports_ofEntry hevent) 0 entries

end Slot

/-! ### Events -/

namespace Table

/-- A key is **readable** if it is a text or a number, and not an infinite one. -/
def ReadableKey : Value → Prop
  | .str _ | .bool _ | .int _ => True
  | .float x => ∀ negative, x ≠ .infinite negative
  | _ => False

/-- A mapping with a name is **readable** after the events of a table if its name can be printed, its
slots can be gone through and are readable as far as they are come to, and its name can be a key.  The
name need not be a key if the code is taken, as that is then what the event is refused for. -/
def ReadsMapping (t : Table) (source : String) (code : Int) (name : Value) (es : Entries) : Prop :=
  name.printable ∧ ∃ entries, (es.getOr "slots" .null).Gives entries ∧
    EachComeTo (Slot.ofEntries source name t.operandBits) (fun _ => Slot.Readable) entries ∧
    ∀ slots, Slot.ofEntries source name t.operandBits entries = .ok slots →
      t.byCode? (.int code) = none → name.hashable

/-- An event under a key is **readable** after the events of a table if the key is, and, should the
key write a code and the event be a mapping with a name, the mapping is. -/
structure ReadsEvent (t : Table) (source : String) (key event : Value) : Prop where
  readableKey : ReadableKey key
  mapping : ∀ code, codeOfKey key = .ok code → ∀ es, event = .map es →
    ∀ name, Entries.lookup? es (.str "name") = some name → t.ReadsMapping source code name es

variable {source : String} {t : Table}

theorem reports_codeOfEvent (source : String) (key : Value) :
    (codeOfEvent source key).Reports OfDialect (ReadableKey key) := by
  cases key with
  | str s =>
    rw [codeOfEvent, codeOfKey]
    cases Numeral.literal? s.toList with
    | some n => exact reports_ok n trivial
    | none => exact reports_refuse_of_printable (.definition _) rfl trivial
  | float x =>
    cases x with
    | finite negative q =>
      obtain ⟨n, hn⟩ : ∃ n, (Binary64.finite negative q).truncate? = some n := by
        cases negative <;> exact ⟨_, rfl⟩
      rw [codeOfEvent, codeOfKey, hn]
      exact reports_ok n fun _ => Binary64.noConfusion
    | infinite negative =>
      exact reports_misused _ fun h => h negative rfl
    | nan =>
      exact reports_refuse_of_printable (.definition _) rfl fun _ => Binary64.noConfusion
  | bool b => exact reports_ok _ trivial
  | int n => exact reports_ok n trivial
  | _ => exact reports_misused _ id

theorem reports_register (hopen : t.isSealed = false) (code : Int) (schema : Schema)
    (hprint : schema.name.printable) :
    (t.register code schema).Reports OfDialect
      (t.byCode? (.int code) = none → schema.name.hashable) := by
  cases hcode : t.byCode? (.int code) with
  | some other =>
    rw [register_of_code hopen hcode]
    exact reports_refuse_of_printable (.duplicateCode _ _) rfl fun h => by cases h
  | none =>
    by_cases hkey : schema.name.hashable
    · cases hname : t.byName? schema.name with
      | some other =>
        rw [register_of_name hopen hcode hkey hname]
        exact reports_refuse_of_printable (.duplicateName _ _ _) hprint fun _ => hkey
      | none =>
        rw [register_eq_ok_iff.mpr ⟨hopen, hcode, hkey, hname, rfl, rfl⟩]
        exact reports_ok _ fun _ => hkey
    · have hcheck := Value.checkKey_of_not_hashable hkey
      have hmisused : t.register code schema = misused (.unhashable schema.name.typeName) := by
        simp only [register, hopen, hcode, hcheck, bind, Except.bind]
        rfl
      rw [hmisused]
      exact reports_misused _ fun h => hkey (h rfl)

theorem registerEntry_of_name {key : Value} {code : Int} (hcode : codeOfKey key = .ok code)
    {es : Entries} {name : Value} (hname : es.lookup? (.str "name") = some name) :
    registerEntry source t key (.map es) = name.print >>= fun _ =>
      (((Value.map es).entryOrEmpty "slots" (.list []) >>= Value.iterate) >>= fun entries =>
        Slot.ofEntries source name t.operandBits entries >>= fun slots =>
          t.register code ⟨code, name, slots, none⟩ >>= fun p => .ok p.2) := by
  have hevent : codeOfEvent source key = .ok code := by rw [codeOfEvent, hcode]
  rw [registerEntry, hevent, Value.hasEntry_map, Value.entryOr_of_lookup? hname, hname]
  simp only [bind_assoc]
  rfl

theorem codeOfEvent_eq_ok_iff {key : Value} {code : Int} :
    codeOfEvent source key = .ok code ↔ codeOfKey key = .ok code := by
  rw [codeOfEvent]
  split
  · rename_i h
    simp only [h, refuse, reduceCtorEq]
  · exact Iff.rfl

theorem registerEntry_of_nameless {key event : Value} {code : Int}
    (hcode : codeOfKey key = .ok code) (h : event.hasEntry "name" = false) :
    registerEntry source t key event = refuse (.definition (.namelessEvent source code)) := by
  rw [registerEntry, codeOfEvent_eq_ok_iff.mpr hcode, h]
  rfl

theorem reports_registerEntry_of_code (hopen : t.isSealed = false) {key : Value} {code : Int}
    (hcode : codeOfKey key = .ok code) (event : Value) :
    (registerEntry source t key event).Reports OfDialect (∀ es, event = .map es →
      ∀ name, Entries.lookup? es (.str "name") = some name →
        t.ReadsMapping source code name es) := by
  rcases event.hasEntry_cases "name" with ⟨es, name, rfl, hname⟩ | ⟨hnameless, hnone⟩
  · rw [registerEntry_of_name hcode hname]
    -- The name is printed first, so that what is read after it may take that for granted.
    refine (Value.reports_print fun hprint => Value.reports_elements es "slots" rfl fun entries =>
      (Slot.reports_ofEntries hprint entries).bind fun slots _ =>
        (reports_register hopen code ⟨code, name, slots, none⟩ hprint).bind_true fun p _ =>
          reports_ok p.2 trivial).congr ?_
    simp only [Value.map.injEq, forall_eq', hname, Option.some.injEq]
    exact Iff.rfl
  · rw [registerEntry_of_nameless hcode hnameless]
    refine reports_refuse_of_printable (.definition _) rfl fun es hes name hname => ?_
    cases (hnone es hes).symm.trans hname

/-- **One event** after those of an open table is reported if it is readable there. -/
theorem reports_registerEntry (hopen : t.isSealed = false) (key event : Value) :
    (registerEntry source t key event).Reports OfDialect (t.ReadsEvent source key event) := by
  by_cases hkey : ReadableKey key
  · rcases (reports_codeOfEvent source key).reported hkey with
      ⟨code, hcode⟩ | ⟨r, hr, hprint, hrefused⟩
    · rw [codeOfEvent_eq_ok_iff] at hcode
      refine (reports_registerEntry_of_code hopen hcode event).congr
        ⟨fun h => ⟨hkey, fun code' hcode' => ?_⟩, fun h => h.mapping code hcode⟩
      cases hcode.symm.trans hcode'
      exact h
    · have hread : t.ReadsEvent source key event := by
        refine ⟨hkey, fun code hcode => ?_⟩
        rw [← @codeOfEvent_eq_ok_iff source, hrefused] at hcode
        cases hcode
      rw [registerEntry, hrefused]
      exact ⟨fun _ => .inr ⟨r, hr, hprint, rfl⟩, fun h => absurd hread h⟩
  · obtain ⟨m, hm⟩ := (reports_codeOfEvent source key).misused hkey
    rw [registerEntry, hm]
    exact reports_misused m fun h => hkey h.readableKey

/-! ### Dialect definitions -/

theorem registerEntries_concat (events : Entries) (e : Value × Value) :
    registerEntries source t (events ++ [e]) =
      registerEntries source t events >>= fun t' => registerEntry source t' e.1 e.2 := by
  induction events generalizing t with
  | nil =>
    rw [List.nil_append, registerEntries]
    simp only [bind, Except.bind, registerEntries]
    cases registerEntry source t e.1 e.2 <;> rfl
  | cons e' events ih =>
    rw [List.cons_append, registerEntries, registerEntries, bind_assoc]
    simp only [ih]

theorem isSealed_of_registerEntries {events : Entries} : ∀ {t t' : Table}, t.isSealed = false →
    registerEntries source t events = .ok t' → t'.isSealed = false := by
  induction events with
  | nil =>
    intro t t' hopen h
    cases h
    exact hopen
  | cons e events ih =>
    intro t t' _ h
    obtain ⟨t₁, h₁, h⟩ := Attempt.bind_eq_ok.mp h
    obtain ⟨_, _, _, _, _, -, -, hreg⟩ := exists_register_of_registerEntry h₁
    obtain ⟨-, -, -, -, -, rfl⟩ := register_eq_ok_iff.mp hreg
    exact ih rfl h

/-- **The events of a definition** are reported if each that is come to is readable after those
before it. -/
theorem reports_registerEntries (hopen : t.isSealed = false) (events : Entries) :
    (registerEntries source t events).Reports OfDialect
      (EachComeTo (registerEntries source t) (fun t' e => t'.ReadsEvent source e.1 e.2) events) :=
  reports_run ⟨t, rfl⟩ (fun events e => ⟨_, registerEntries_concat events e, fun _ h =>
    reports_registerEntry (isSealed_of_registerEntries hopen h) e.1 e.2⟩) events

/-- The table that a definition begins with. -/
def headOf (es : Entries) (title : Value) : Table :=
  empty ⟨title.text, (es.getOr "variant" (.str "")).text⟩ (es.getOr "title" .null)
    (es.getOr "operand_bits" (.int 32))

/-- A dialect definition is **readable** if, should it be a mapping that names a revision, the revision
and the variant can be printed, its events are a mapping, and each of them that is come to is readable
after those before it. -/
def ReadableDefinition (source : String) (definition : Value) : Prop :=
  ∀ es, definition = .map es → ∀ title, Entries.lookup? es (.str "revision") = some title →
    title.printable ∧ (Entries.getOr es "variant" (.str "")).printable ∧
      ∃ events, (Entries.getOr es "events" .null).Maps events ∧
        EachComeTo (registerEntries source (headOf es title))
          (fun t e => t.ReadsEvent source e.1 e.2) events

theorem build_of_revision {es : Entries} {title : Value}
    (hrevision : es.lookup? (.str "revision") = some title) : build (.map es) source =
      title.print >>= fun titleText => (es.getOr "variant" (.str "")).print >>= fun variantText =>
        ((Value.map es).entryOrEmpty "events" (.map []) >>= Value.entries) >>= fun events =>
          registerEntries source (empty ⟨titleText, variantText⟩ (es.getOr "title" .null)
            (es.getOr "operand_bits" (.int 32))) events := by
  rw [build, Value.hasEntry_map, Value.entryOr_of_lookup? hrevision, hrevision]
  simp only [bind_assoc]
  rfl

/-- **Building a dialect** is reported if the definition is readable. -/
theorem reports_build (source : String) (definition : Value) :
    (build definition source).Reports OfDialect (ReadableDefinition source definition) := by
  rcases definition.hasEntry_cases "revision" with ⟨es, title, rfl, hrevision⟩ | ⟨hmissing, hnone⟩
  · rw [build_of_revision hrevision]
    refine (Value.reports_print fun _ => Value.reports_print fun _ =>
      Value.reports_mapping es "events" fun events =>
        reports_registerEntries (t := headOf es title) rfl events).congr ?_
    simp only [ReadableDefinition, Value.map.injEq, forall_eq', hrevision, Option.some.injEq]
  · rw [build_missingRevision hmissing]
    refine reports_refuse_of_printable (.definition _) rfl fun es hes title htitle => ?_
    cases (hnone es hes).symm.trans htitle

end Table

end EventDialects
