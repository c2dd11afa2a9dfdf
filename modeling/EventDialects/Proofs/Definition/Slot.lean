import EventDialects.Definition.Dialect
import EventDialects.Proofs.List
import EventDialects.Proofs.Value.Equality

/-!
# What the slots of a definition declare

The entry of a slot is a mapping.  It must say a name and a kind, and a decoder if the kind needs
one; what it does not say of the width, the sign and the fields has a default.  The checks are made
in an order, and the entries of an event are read in theirs, so of several faults the first one is
refused.  Here both are said as relations: what an entry declares (`Slot.Declares`), and what is
wrong with it (`Slot.Misdeclared`).

An attempt **answers** two such relations if it succeeds with what the one has, and fails with what
the other has (`Attempt.Answers`).  Answers of the parts make the answers of the whole.

* `Attempt.Answers.bind`, `Attempt.answers_of_total`: how answers are put together and found.
* `Slot.ofEntry_answers`: **one entry** declares a slot or has a fault.
* `Slot.ofEntries_answers`: **the entries of an event** declare its slots, or one is the first with
  a fault.
-/

namespace EventDialects

open List (Forall₂)

/-! ### Attempts with known answers -/

namespace Attempt

variable {α β : Type}

/-- An attempt **answers** exactly some results and some failures. -/
structure Answers (x : Attempt α) (P : α → Prop) (Q : Failure → Prop) : Prop where
  ok : ∀ a, x = .ok a ↔ P a
  error : ∀ e, x = .error e ↔ Q e

theorem answers_ok (a : α) : Answers (.ok a) (a = ·) fun _ => False :=
  ⟨fun _ => by rw [Except.ok.injEq], fun _ => ⟨(nomatch ·), False.elim⟩⟩

theorem Answers.congr {x : Attempt α} {P P' : α → Prop} {Q Q' : Failure → Prop} (h : x.Answers P Q)
    (hP : ∀ a, P a ↔ P' a) (hQ : ∀ e, Q e ↔ Q' e) : x.Answers P' Q' :=
  ⟨fun a => (h.ok a).trans (hP a), fun e => (h.error e).trans (hQ e)⟩

/-- **One after the other**: the second attempt is made with a result of the first. -/
theorem Answers.bind {x : Attempt α} {f : α → Attempt β} {P : α → Prop} {Q : Failure → Prop}
    {P' : α → β → Prop} {Q' : α → Failure → Prop} (hx : x.Answers P Q)
    (hf : ∀ a, P a → (f a).Answers (P' a) (Q' a)) :
    (x >>= f : Attempt β).Answers (fun b => ∃ a, P a ∧ P' a b)
      fun e => Q e ∨ ∃ a, P a ∧ Q' a e := by
  constructor
  · intro b
    rw [bind_eq_ok]
    refine exists_congr fun a => ?_
    rw [hx.ok]
    exact and_congr_right fun ha => (hf a ha).ok b
  · intro e
    rw [bind_eq_error, hx.error]
    refine or_congr Iff.rfl (exists_congr fun a => ?_)
    rw [hx.ok]
    exact and_congr_right fun ha => (hf a ha).error e

/-- **Answers are found** by going through the results and the failures, if there is always one. -/
theorem answers_of_total {x : Attempt α} {P : α → Prop} {Q : Failure → Prop}
    (hok : ∀ a, P a → x = .ok a) (herror : ∀ e, Q e → x = .error e)
    (htotal : (∃ a, P a) ∨ ∃ e, Q e) : x.Answers P Q := by
  constructor
  · refine fun a => ⟨fun h => ?_, hok a⟩
    rcases htotal with ⟨a', ha'⟩ | ⟨e, he⟩
    · cases h.symm.trans (hok a' ha')
      exact ha'
    · cases h.symm.trans (herror e he)
  · refine fun e => ⟨fun h => ?_, herror e⟩
    rcases htotal with ⟨a, ha⟩ | ⟨e', he'⟩
    · cases h.symm.trans (hok a ha)
    · cases h.symm.trans (herror e' he')
      exact he'

end Attempt

/-! ### What a mapping says -/

/-- What a mapping says under a name, or else a default. -/
def Entries.getOr (es : Entries) (name : String) (default : Value) : Value :=
  (es.lookup? (.str name)).getD default

namespace Value

theorem entryOr_map (es : Entries) (name : String) (default : Value) :
    (Value.map es).entryOr name default = .ok (es.getOr name default) := rfl

theorem entryOr_of_lookup? {es : Entries} {name : String} {v : Value}
    (h : es.lookup? (.str name) = some v) (default : Value) :
    (Value.map es).entryOr name default = .ok v := by
  rw [entryOr_map, Entries.getOr, h]
  rfl

theorem entryOrEmpty_map (es : Entries) (name : String) (empty : Value) :
    (Value.map es).entryOrEmpty name empty =
      .ok (if (es.getOr name .null).truthy then es.getOr name .null else empty) := rfl

theorem subscript?_map (es : Entries) (name : String) :
    (Value.map es).subscript? name = .ok (es.lookup? (.str name)) := rfl

theorem isSome_lookup? (es : Entries) (name : String) :
    (Entries.lookup? es (.str name)).isSome = es.any (·.1.equal (.str name)) := by
  rw [Entries.lookup?, Option.isSome_map, List.isSome_find?]

theorem holds_map (es : Entries) (name : String) :
    (Value.map es).holds name = .ok (Entries.lookup? es (.str name)).isSome := by
  rw [isSome_lookup?]
  rfl

theorem hasEntry_map (es : Entries) (name : String) :
    (Value.map es).hasEntry name = (Entries.lookup? es (.str name)).isSome := by
  rw [isSome_lookup?]
  rfl

end Value

/-! ### Kinds and decoders -/

theorem SlotKind.ofValue?_eq_some_iff {v : Value} {k : SlotKind} :
    ofValue? v = some k ↔ v = .str k.name := by
  constructor
  · intro h
    cases v with
    | str s =>
      have hs := List.find?_some h
      rw [beq_iff_eq] at hs
      rw [hs]
    | _ => cases h
  · rintro rfl
    exact ofValue?_name k

theorem SlotKind.ofValue?_eq_none_iff {v : Value} :
    ofValue? v = none ↔ ∀ k : SlotKind, v ≠ .str k.name := by
  simp only [Option.eq_none_iff_forall_ne_some, ne_eq, ofValue?_eq_some_iff]

/-- The fields that a kind of slot may have: two or four for a coordinate, one for any other. -/
def SlotKind.Allows (k : SlotKind) (fields : Value) : Prop :=
  if k = .coordinate then (Value.int 2).equal fields ∨ (Value.int 4).equal fields
  else (Value.int 1).equal fields

instance (k : SlotKind) (fields : Value) : Decidable (k.Allows fields) :=
  inferInstanceAs (Decidable (if k = .coordinate then
    (Value.int 2).equal fields ∨ (Value.int 4).equal fields else (Value.int 1).equal fields))

/-- The fields that a slot of a kind has if nothing is said of them. -/
def SlotKind.usualFields (k : SlotKind) : Int := if k = .coordinate then 2 else 1

def SlotKind.fieldsFault (k : SlotKind) (name fields : Value) : SlotFault :=
  if k = .coordinate then .coordinateFields name fields else .singleField name k.name

theorem Decoder.ofName_name {d : Decoder} (h : d ∈ all) : ofName (.str d.name) = .ok d := by
  have hunique : ∀ x ∈ all, ∀ d ∈ all, x.name = d.name → x = d := by decide
  have hfind : (all.find? fun x => (Value.str x.name).equal (.str d.name)) = some d := by
    refine find?_eq_some_of_unique h (Value.equal_str_iff.mpr rfl) fun x hx hname => ?_
    rw [Value.equal_str_iff, Value.str.injEq] at hname
    exact hunique x hx d h hname.symm
  rw [ofName, Value.checkKey_eq_ok_iff.mpr rfl, hfind]
  rfl

theorem Decoder.ofName_unknown {s : String} (h : ∀ d ∈ all, s ≠ d.name) :
    ofName (.str s) = .error (.unknownDecoder (.str s)) := by
  have hraised : (Failure.unknownDecoder (.str s)).raised = .unknownDecoder (.str s) := rfl
  have hfind : (all.find? fun x => (Value.str x.name).equal (.str s)) = none := by
    refine List.find?_eq_none.mpr fun d hd hname => ?_
    rw [Value.equal_str_iff, Value.str.injEq] at hname
    exact h d hd hname
  rw [ofName, Value.checkKey_eq_ok_iff.mpr rfl, hfind, hraised]
  rfl

namespace Slot

/-! ### One entry -/

/-- The decoder that an entry **names** for a kind: one that there is, if the kind needs one. -/
def NamesDecoder (k : SlotKind) (fs : Entries) (decoder : Option Decoder) : Prop :=
  if k.needsDecoder then
    ∃ d ∈ Decoder.all, decoder = some d ∧ fs.getOr "decoder" (.str "") = .str d.name
  else decoder = none

/-- **What an entry declares**, the width of the dialect's operands given. -/
structure Declares (bits : Value) (fs : Entries) (s : Slot) : Prop where
  name : fs.lookup? (.str "name") = some s.name
  kind : fs.lookup? (.str "kind") = some (.str s.kind.name)
  decoder : NamesDecoder s.kind fs s.decoder
  bits : s.bits = fs.getOr "bits" bits
  /-- Only references into the text section are not signed. -/
  signed : s.signed = fs.getOr "signed" (.bool s.kind.refKind?.isNone)
  fields : s.fields = fs.getOr "fields" (.int s.kind.usualFields)

/-- **What is wrong with an entry**: the first fault in the order of the checks. -/
inductive Misdeclared (fs : Entries) : SlotEntryFault → Prop
  | incomplete (h : fs.lookup? (.str "name") = none ∨ fs.lookup? (.str "kind") = none) :
      Misdeclared fs (.incomplete (.map fs))
  | unknownKind {name kind : Value} (hname : fs.lookup? (.str "name") = some name)
      (hkind : fs.lookup? (.str "kind") = some kind) (h : ∀ k : SlotKind, kind ≠ .str k.name) :
      Misdeclared fs (.unknownKind kind)
  | unknownDecoder {name : Value} {k : SlotKind} (hname : fs.lookup? (.str "name") = some name)
      (hkind : fs.lookup? (.str "kind") = some (.str k.name)) (hneeds : k.needsDecoder)
      (h : ∀ d ∈ Decoder.all, fs.getOr "decoder" (.str "") ≠ .str d.name) :
      Misdeclared fs (.unknownDecoder (fs.getOr "decoder" (.str "")))
  | fields {name : Value} {k : SlotKind} {decoder : Option Decoder}
      (hname : fs.lookup? (.str "name") = some name)
      (hkind : fs.lookup? (.str "kind") = some (.str k.name)) (hdecoder : NamesDecoder k fs decoder)
      (h : ¬ k.Allows (fs.getOr "fields" (.int k.usualFields))) :
      Misdeclared fs (.illFormed (k.fieldsFault name (fs.getOr "fields" (.int k.usualFields))))

def DecoderIsText (fs : Entries) : Prop := ∃ s, fs.getOr "decoder" (.str "") = .str s

variable {source : String} {event bits : Value} {fs : Entries}

theorem not_missing_of_namesDecoder {k : SlotKind} {decoder : Option Decoder}
    (h : NamesDecoder k fs decoder) : ¬ (k.needsDecoder ∧ decoder.isNone) := by
  rintro ⟨hneeds, hnone⟩
  rw [NamesDecoder, if_pos hneeds] at h
  obtain ⟨d, -, rfl, -⟩ := h
  cases hnone

theorem fault?_eq {name fields : Value} {k : SlotKind} {decoder : Option Decoder}
    (hdecoder : NamesDecoder k fs decoder) : fault? name k decoder fields =
      if k.Allows fields then none else some (k.fieldsFault name fields) := by
  rw [fault?, if_neg (not_missing_of_namesDecoder hdecoder)]
  by_cases hk : k = .coordinate
  · simp only [if_pos hk, SlotKind.Allows, SlotKind.fieldsFault]
  · simp only [if_neg hk, SlotKind.Allows, SlotKind.fieldsFault]

theorem decoderOfEntry_of_names {k : SlotKind} {decoder : Option Decoder}
    (h : NamesDecoder k fs decoder) :
    decoderOfEntry source event k (.map fs) = .ok decoder := by
  rw [NamesDecoder] at h
  rw [decoderOfEntry]
  by_cases hneeds : k.needsDecoder
  · rw [if_pos hneeds] at h
    obtain ⟨d, hd, rfl, hname⟩ := h
    simp only [hneeds, Value.entryOr_map, hname, bind, Except.bind, Decoder.ofName_name hd]
    rfl
  · rw [if_neg hneeds] at h
    simp only [hneeds, h]
    rfl

theorem decoderOfEntry_of_unknown {k : SlotKind} (hneeds : k.needsDecoder)
    (htext : DecoderIsText fs)
    (h : ∀ d ∈ Decoder.all, fs.getOr "decoder" (.str "") ≠ .str d.name) :
    decoderOfEntry source event k (.map fs) =
      refuseEntry source event (.unknownDecoder (fs.getOr "decoder" (.str ""))) := by
  obtain ⟨s, hs⟩ := htext
  have hunknown : ∀ d ∈ Decoder.all, s ≠ d.name := fun d hd he => h d hd (by rw [hs, he])
  rw [decoderOfEntry]
  simp only [hneeds, Value.entryOr_map, hs, bind, Except.bind, Decoder.ofName_unknown hunknown]
  rfl

theorem make_self (s : Slot) :
    make s.name s.kind s.decoder s.bits s.signed s.fields = .ok s := by
  rw [make]
  split
  · rfl
  · rename_i fault h
    rw [s.wellFormed] at h
    cases h

theorem make_of_fault {name bits signed fields : Value} {k : SlotKind} {decoder : Option Decoder}
    {fault : SlotFault} (h : fault? name k decoder fields = some fault) :
    make name k decoder bits signed fields = .error fault := by
  rw [make]
  split
  · rename_i hnone
    rw [hnone] at h
    cases h
  · rename_i fault' hfault
    rw [hfault] at h
    cases h
    rfl

/-- An entry with a name and a kind that there is makes what its other words say. -/
theorem ofEntry_of_kind {name : Value} {k : SlotKind}
    (hname : fs.lookup? (.str "name") = some name)
    (hkind : fs.lookup? (.str "kind") = some (.str k.name)) :
    ofEntry source event bits (.map fs) =
      (decoderOfEntry source event k (.map fs) >>= fun decoder =>
        match make name k decoder (fs.getOr "bits" bits)
          (fs.getOr "signed" (.bool k.refKind?.isNone))
          (fs.getOr "fields" (.int k.usualFields)) with
        | .ok s => .ok s
        | .error fault => refuseEntry source event (.illFormed fault)) := by
  rw [ofEntry, Value.holds_map, Value.holds_map, Value.subscript?_map, Value.subscript?_map, hname,
    hkind]
  simp only [bind, Except.bind, Option.getD_some, SlotKind.ofValue?_name, Value.entryOr_map,
    Option.isSome_some]
  rfl

theorem ofEntry_of_unknownKind {name kind : Value} (hname : fs.lookup? (.str "name") = some name)
    (hkind : fs.lookup? (.str "kind") = some kind) (h : ∀ k : SlotKind, kind ≠ .str k.name) :
    ofEntry source event bits (.map fs) = refuseEntry source event (.unknownKind kind) := by
  rw [ofEntry, Value.holds_map, Value.holds_map, Value.subscript?_map, hname, hkind]
  simp only [bind, Except.bind, Option.getD_some, SlotKind.ofValue?_eq_none_iff.mpr h,
    Option.isSome_some]
  rfl

theorem ofEntry_of_declares {s : Slot} (h : Declares bits fs s) :
    ofEntry source event bits (.map fs) = .ok s := by
  rw [ofEntry_of_kind h.name h.kind, decoderOfEntry_of_names h.decoder, ← h.bits, ← h.signed,
    ← h.fields]
  simp only [bind, Except.bind, make_self]

theorem ofEntry_of_misdeclared (htext : DecoderIsText fs) {fault : SlotEntryFault}
    (h : Misdeclared fs fault) :
    ofEntry source event bits (.map fs) = refuseEntry source event fault := by
  cases h with
  | incomplete h =>
    rw [ofEntry, Value.holds_map, Value.holds_map]
    cases hname : fs.lookup? (.str "name") with
    | none => rfl
    | some name =>
      rw [hname] at h
      rw [h.resolve_left (Option.some_ne_none name)]
      rfl
  | unknownKind hname hkind h => exact ofEntry_of_unknownKind hname hkind h
  | unknownDecoder hname hkind hneeds h =>
    rw [ofEntry_of_kind hname hkind, decoderOfEntry_of_unknown hneeds htext h]
    rfl
  | @fields name k decoder hname hkind hdecoder h =>
    have hfault : fault? name k decoder (fs.getOr "fields" (.int k.usualFields)) = _ :=
      (fault?_eq hdecoder).trans (if_neg h)
    rw [ofEntry_of_kind hname hkind, decoderOfEntry_of_names hdecoder]
    simp only [bind, Except.bind, make_of_fault hfault]

theorem declares_or_misdeclared (bits : Value) (fs : Entries) :
    (∃ s, Declares bits fs s) ∨ ∃ fault, Misdeclared fs fault := by
  cases hname : fs.lookup? (.str "name") with
  | none => exact .inr ⟨_, .incomplete (.inl hname)⟩
  | some name =>
    cases hkind : fs.lookup? (.str "kind") with
    | none => exact .inr ⟨_, .incomplete (.inr hkind)⟩
    | some kind =>
      cases hk : SlotKind.ofValue? kind with
      | none => exact .inr ⟨_, .unknownKind hname hkind (SlotKind.ofValue?_eq_none_iff.mp hk)⟩
      | some k =>
        rw [SlotKind.ofValue?_eq_some_iff.mp hk] at hkind
        by_cases hdecoder : ∃ decoder, NamesDecoder k fs decoder
        · obtain ⟨decoder, hdecoder⟩ := hdecoder
          by_cases hfields : k.Allows (fs.getOr "fields" (.int k.usualFields))
          · have hwell : fault? name k decoder (fs.getOr "fields" (.int k.usualFields)) = none :=
              (fault?_eq hdecoder).trans (if_pos hfields)
            exact .inl ⟨⟨name, k, decoder, fs.getOr "bits" bits,
              fs.getOr "signed" (.bool k.refKind?.isNone), _, hwell⟩,
              hname, hkind, hdecoder, rfl, rfl, rfl⟩
          · exact .inr ⟨_, .fields hname hkind hdecoder hfields⟩
        · by_cases hneeds : k.needsDecoder
          · refine .inr ⟨_, .unknownDecoder hname hkind hneeds fun d hd he => hdecoder ⟨some d, ?_⟩⟩
            rw [NamesDecoder, if_pos hneeds]
            exact ⟨d, hd, rfl, he⟩
          · refine absurd ⟨none, ?_⟩ hdecoder
            rw [NamesDecoder, if_neg hneeds]

/-- **One entry** declares a slot, or it is refused for what is wrong with it. -/
theorem ofEntry_answers (htext : DecoderIsText fs) :
    (ofEntry source event bits (.map fs)).Answers (Declares bits fs) fun e =>
      ∃ fault, Misdeclared fs fault ∧
        e = (Failure.refused (.definition (.slot source event fault))).raised := by
  refine Attempt.answers_of_total (fun s => ofEntry_of_declares) ?_ ?_
  · rintro e ⟨fault, hfault, rfl⟩
    exact ofEntry_of_misdeclared htext hfault
  · rcases declares_or_misdeclared bits fs with h | ⟨fault, hfault⟩
    · exact .inl h
    · exact .inr ⟨_, fault, hfault, rfl⟩

/-! ### The entries of an event -/

/-- The first of some entries with something wrong, and what that is. -/
def FirstMisdeclared (bits : Value) (fss : List Entries) (fault : SlotEntryFault) : Prop :=
  ∃ before fs after, fss = before ++ fs :: after ∧ (∀ f ∈ before, ∃ s, Declares bits f s) ∧
    Misdeclared fs fault

theorem firstMisdeclared_cons_iff {fss : List Entries} {fault : SlotEntryFault} :
    FirstMisdeclared bits (fs :: fss) fault ↔
      Misdeclared fs fault ∨ (∃ s, Declares bits fs s) ∧ FirstMisdeclared bits fss fault := by
  constructor
  · rintro ⟨before, f, after, hsplit, hbefore, hfault⟩
    cases before with
    | nil =>
      obtain ⟨rfl, -⟩ := List.cons.inj hsplit
      exact .inl hfault
    | cons f' before =>
      obtain ⟨rfl, rfl⟩ := List.cons.inj hsplit
      obtain ⟨hfirst, hbefore⟩ := List.forall_mem_cons.mp hbefore
      exact .inr ⟨hfirst, before, f, after, rfl, hbefore, hfault⟩
  · rintro (hfault | ⟨hfirst, before, f, after, rfl, hbefore, hfault⟩)
    · exact ⟨[], fs, fss, rfl, fun _ h => absurd h List.not_mem_nil, hfault⟩
    · exact ⟨fs :: before, f, after, rfl, List.forall_mem_cons.mpr ⟨hfirst, hbefore⟩, hfault⟩

/-- Either all of some entries declare slots, or one is the first with something wrong. -/
theorem declare_or_firstMisdeclared (bits : Value) (fss : List Entries) :
    (∃ slots, Forall₂ (Declares bits) fss slots) ∨ ∃ fault, FirstMisdeclared bits fss fault := by
  rcases forall_or_exists_first (fun fs => ∃ s, Declares bits fs s) fss with
    hall | ⟨before, fs, after, rfl, hbefore, hfs⟩
  · exact .inl (exists_forall₂_of_forall hall)
  · obtain ⟨fault, hfault⟩ := (declares_or_misdeclared bits fs).resolve_left hfs
    exact .inr ⟨fault, before, fs, after, rfl, hbefore, hfault⟩

/-- **The entries of an event** declare its slots, or the first that has something wrong with it is
refused. -/
theorem ofEntries_answers {fss : List Entries} (htext : ∀ fs ∈ fss, DecoderIsText fs) :
    (ofEntries source event bits (fss.map .map)).Answers (Forall₂ (Declares bits) fss) fun e =>
      ∃ fault, FirstMisdeclared bits fss fault ∧
        e = (Failure.refused (.definition (.slot source event fault))).raised := by
  induction fss with
  | nil =>
    refine (Attempt.answers_ok []).congr (fun slots => ?_) fun e => ?_
    · rw [List.forall₂_nil_left_iff, eq_comm]
    · refine ⟨False.elim, ?_⟩
      rintro ⟨fault, ⟨before, f, after, hsplit, -⟩, -⟩
      cases before <;> cases hsplit
  | cons fs fss ih =>
    obtain ⟨hfs, htext⟩ := List.forall_mem_cons.mp htext
    have hrest (s : Slot) := (ih htext).bind fun slots _ => Attempt.answers_ok (s :: slots)
    refine ((ofEntry_answers hfs).bind fun s _ => hrest s).congr (fun slots => ?_) fun e => ?_
    · rw [List.forall₂_cons_left_iff]
      simp only [exists_and_left, eq_comm]
    · simp only [firstMisdeclared_cons_iff, and_false, exists_false, or_false, or_and_right,
        exists_or, and_assoc, exists_and_left, exists_and_right]

end Slot

end EventDialects
