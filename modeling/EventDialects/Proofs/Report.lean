import EventDialects.Proofs.Codec.Domain
import EventDialects.Proofs.Migration
import EventDialects.Report

/-!
# What a report says

Checking a registration resolves its event, decodes its operands and encodes them again.  Of all the
ways in which the three stages can fail, four are left for a registration of integers: a record that
was decoded always encodes back, and what a slot's decoder refuses is refused in the slot's name.
`Registry.Diagnosis` lists the four, and success, by what is wrong with the registration.

This takes a registry of regular schemas (`Schema.Regular`).  A definition may also give a slot a
fraction for the number of its fields, and then checking a registration of its event fails otherwise.

* `Report.failures_eq_add`: failures are counted by category, or are mismatches.
* `Registry.Diagnosis.check`, `Registry.exists_diagnosis`: the outcome of a check is its diagnosis,
  and there always is one.
* `Registry.check_and_report`: **checking never crashes**, and the counts of a report add up.
* `Registry.check_misused_crossing`: it does with a slot that has a fraction for its fields.
-/

namespace EventDialects

open List (Forall₂)

namespace Report

/-! ### Counting outcomes -/

theorem sum_filter_ne_zero (counts : List (Category × Nat)) :
    ((counts.filter (·.2 ≠ 0)).map (·.2)).sum = (counts.map (·.2)).sum := by
  induction counts with
  | nil => rfl
  | cons c counts ih =>
    by_cases h : c.2 = 0
    · rw [List.filter_cons_of_neg (by simp [h]), ih, List.map_cons, List.sum_cons, h, Nat.zero_add]
    · rw [List.filter_cons_of_pos (by simp [h]), List.map_cons, List.sum_cons, ih, List.map_cons,
        List.sum_cons]

/-- Every category is counted once. -/
theorem sum_counts (r : Report) :
    (r.counts.map (·.2)).sum = r.outcomes.countP (·.category.isSome) := by
  rw [counts, sum_filter_ne_zero, List.map_map]
  show (Category.all.map fun c => r.outcomes.countP (·.category == some c)).sum = _
  induction r.outcomes with
  | nil => rfl
  | cons o os ih =>
    simp only [Category.all, List.map_cons, List.map_nil, List.sum_cons, List.sum_nil,
      List.countP_cons] at ih ⊢
    cases o.category with
    | none => simpa using ih
    | some c => cases c <;> simp <;> omega

theorem countP_ok_add {os : List Outcome} (h : ∀ o ∈ os, o.mismatch → o.category = none) :
    os.countP Outcome.ok + (os.countP (·.category.isSome) + os.countP (·.mismatch)) =
      os.length := by
  induction os with
  | nil => rfl
  | cons o os ih =>
    obtain ⟨registration, event, category, message, mismatch⟩ := o
    obtain ⟨ho, hos⟩ := List.forall_mem_cons.mp h
    have := ih hos
    simp only [List.countP_cons, List.length_cons, Outcome.ok]
    cases mismatch with
    | true =>
      obtain rfl : category = none := ho rfl
      simp
      omega
    | false => cases category <;> simp <;> omega

/-- **Failures are counted by category**, or are mismatches. -/
theorem failures_eq_add {r : Report} (h : ∀ o ∈ r.outcomes, o.mismatch → o.category = none) :
    r.failures = (r.counts.map (·.2)).sum + r.mismatches := by
  have htotal : r.outcomes.countP Outcome.ok + r.failures = r.outcomes.length := r.failures_eq
  have hsplit := countP_ok_add h
  rw [sum_counts, mismatches]
  omega

end Report

/-- A slot is **regular** if its name can be printed, its fields are whole and it has a range of raw
operands. -/
structure Slot.Regular (s : Slot) : Prop where
  name : s.name.printable
  fields : s.spanIsFloat = false
  range : ∃ low high, s.range = .ok (low, high)

theorem Slot.regular_iff {s : Slot} :
    s.Regular ↔ s.name.printable ∧ s.spanIsFloat = false ∧ s.range.toOption.isSome := by
  rw [Attempt.isSome_toOption_iff, Prod.exists]
  exact ⟨fun h => ⟨h.name, h.fields, h.range⟩, fun h => ⟨h.1, h.2.1, h.2.2⟩⟩

instance : DecidablePred Slot.Regular := fun _ => decidable_of_iff _ Slot.regular_iff.symm

/-- A schema is **regular** if its name can be printed and its slots are regular. -/
structure Schema.Regular (schema : Schema) : Prop where
  name : schema.name.printable
  slots : ∀ s ∈ schema.slots, s.Regular

instance : DecidablePred Schema.Regular := fun schema =>
  decidable_of_iff (schema.name.printable ∧ ∀ s ∈ schema.slots, s.Regular)
    ⟨fun h => ⟨h.1, h.2⟩, fun h => ⟨h.1, h.2⟩⟩

namespace Registry

/-! ### One registration -/

/-- What is wrong with a registration, and the event that it is reported for. -/
inductive Diagnosis (g : Registry) (revision : Value) (code : Int) (ns : List Int) :
    Option Category → Value → Prop
  /-- The revision is not published. -/
  | unknownRevision (h : Revision.ofValue revision ∉ g.revisions) :
      Diagnosis g revision code ns (some .unknownRevision) .null
  /-- The revision has no event with the code. -/
  | unknownEvent {t : Table} (ht : g.get revision = .ok t) (h : ∀ s ∈ t.schemas, s.code ≠ code) :
      Diagnosis g revision code ns (some .unknownEvent) .null
  /-- The event takes another number of operands. -/
  | arityMismatch {s : Schema} (hs : g.resolve revision (.int code) = .ok s)
      (h : s.arity ≠ .int ns.length) :
      Diagnosis g revision code ns (some .arityMismatch) s.name
  /-- A slot does not admit its operands. -/
  | slotDecodeError {s : Schema} (hs : g.resolve revision (.int code) = .ok s)
      (hlen : s.arity = .int ns.length)
      (h : ∃ piece ∈ Schema.pieces s.slots ns, ¬ piece.1.Admits piece.2) :
      Diagnosis g revision code ns (some .slotDecodeError) s.name
  /-- Nothing is wrong. -/
  | fine {s : Schema} (hs : g.resolve revision (.int code) = .ok s)
      (hlen : s.arity = .int ns.length)
      (h : ∀ piece ∈ Schema.pieces s.slots ns, piece.1.Admits piece.2) :
      Diagnosis g revision code ns none s.name

variable {g : Registry} {revision : Value} {r : Registration}

theorem check_of_refused {event : Value} {refusal : Refusal} {c : Category}
    (h : g.roundTrip revision r = (event, .error (.refused refusal)))
    (hc : refusal.category? = some c) :
    g.check revision r = .ok ⟨r, event, some c, refusal.message, false⟩ := by
  rw [check, h]
  simp only [Refusal.classify_eq_ok_iff.mpr hc]
  rfl

theorem check_of_ok {event : Value} {ns : List Int} (h : g.roundTrip revision r = (event, .ok ns))
    (hr : r.operands = .list (ns.map .int)) :
    g.check revision r = .ok ⟨r, event, none, "", false⟩ := by
  rw [check, h]
  simp only [hr, Value.iterate, bind, Except.bind, Value.equalAll_self, if_true]
  rfl

theorem roundTrip_of_error {e : Failure} (h : g.resolve revision (.int r.code) = .error e) :
    g.roundTrip revision r = (.null, .error e) := by
  rw [roundTrip, h]

theorem roundTrip_of_resolve {s : Schema} (h : g.resolve revision (.int r.code) = .ok s) :
    g.roundTrip revision r = (s.name, s.decode r.operands >>= s.encode) := by
  simp only [roundTrip, h, decode, bind, Except.bind]

theorem resolve_of_get {t : Table} {code : Int} (ht : g.get revision = .ok t)
    (h : ∀ s ∈ t.schemas, s.code ≠ code) :
    g.resolve revision (.int code) =
      .error (.refused (.unknownEvent t.revision.text (.int code))) := by
  have hnone : t.byCode? (.int code) = none := by
    refine List.find?_eq_none.mpr fun s hs => ?_
    rw [Value.equal_int, beq_iff_eq]
    exact h s hs
  have hkey : Value.checkKey (.int code) = .ok () := Value.checkKey_eq_ok_iff.mpr rfl
  simp only [resolve, ht, Table.lookup, hkey, hnone, bind, Except.bind]
  exact refuse_of_printable rfl

theorem mem_schemas_of_resolve {code : Value} {s : Schema} (h : g.resolve revision code = .ok s) :
    ∃ t ∈ g.tables, s ∈ t.schemas := by
  obtain ⟨t, ht, -, hs⟩ := resolve_eq_ok_iff.mp h
  exact ⟨t, mem_tables_of_get ht, List.mem_of_find?_eq_some hs⟩

/-- A registration that decodes is a success: what was decoded encodes to what it was decoded
from. -/
theorem check_of_decode {s : Schema} (hs : g.resolve revision (.int r.code) = .ok s)
    {ns : List Int} (hr : r.operands = .list (ns.map .int)) {record : Record}
    (hdecode : s.decode (.list (ns.map .int)) = .ok record) :
    g.check revision r = .ok ⟨r, s.name, none, "", false⟩ := by
  obtain ⟨hlen, arguments, harguments, rfl⟩ := Schema.decode_eq_ok_iff.mp hdecode
  have hencode : s.encode (s.recordOf arguments) = .ok ns :=
    Schema.encode_recordOf hlen harguments
  have hround : g.roundTrip revision r = (s.name, .ok ns) := by
    rw [roundTrip_of_resolve hs, hr, hdecode]
    exact congrArg _ hencode
  exact check_of_ok hround hr

section Regular

variable (hregular : ∀ t ∈ g.tables, ∀ schema ∈ t.schemas, schema.Regular)
include hregular

theorem regular_of_resolve {code : Value} {schema : Schema}
    (h : g.resolve revision code = .ok schema) : schema.Regular := by
  obtain ⟨t, ht, hs⟩ := mem_schemas_of_resolve h
  exact hregular t ht schema hs

theorem arity_of_resolve {code : Value} {s : Schema} (h : g.resolve revision code = .ok s)
    {n : Nat} : s.arity = .int n ↔ n = s.span := by
  have hs := regular_of_resolve hregular h
  rw [Schema.arity_eq_span fun slot hslot => (hs.slots slot hslot).fields,
    Value.int.injEq, Int.ofNat_inj, eq_comm]

theorem exists_decode_iff_of_resolve {code : Value} {s : Schema} {ns : List Int}
    (h : g.resolve revision code = .ok s) :
    (∃ record, s.decode (.list (ns.map .int)) = .ok record) ↔ s.arity = .int ns.length ∧
      ∀ piece ∈ Schema.pieces s.slots ns, piece.1.Admits piece.2 := by
  have hs := regular_of_resolve hregular h
  simp only [Schema.decode_eq_ok_iff, arity_of_resolve hregular h]
  constructor
  · rintro ⟨_, hlen, arguments, harguments, -⟩
    have hadmits :=
      Schema.exists_decodeSlots_iff (fun slot hslot => (hs.slots slot hslot).fields) hlen
    exact ⟨hlen, hadmits.mp ⟨arguments, harguments⟩⟩
  · rintro ⟨hlen, h⟩
    have hadmits :=
      Schema.exists_decodeSlots_iff (fun slot hslot => (hs.slots slot hslot).fields) hlen
    obtain ⟨arguments, harguments⟩ := hadmits.mpr h
    exact ⟨_, hlen, arguments, harguments, rfl⟩

/-- **The outcome of a check is its diagnosis.** -/
theorem Diagnosis.check {ns : List Int} {category : Option Category} {event : Value}
    (hprint : revision.printable) (hns : ∀ n ∈ ns, Text.writable n)
    (hr : r.operands = .list (ns.map .int))
    (h : g.Diagnosis revision r.code ns category event) :
    ∃ message, g.check revision r = .ok ⟨r, event, category, message, false⟩ := by
  cases h with
  | unknownRevision h =>
    have hresolve : g.resolve revision (.int r.code) =
        refuse (.unknownRevision (Revision.ofValue revision).text) :=
      resolve_unknown (Revision.read_eq_ok.mpr ⟨hprint, rfl⟩) (find?_eq_none_iff.mpr h) _
    exact ⟨_, check_of_refused (roundTrip_of_error hresolve) rfl⟩
  | unknownEvent ht h =>
    exact ⟨_, check_of_refused (roundTrip_of_error (resolve_of_get ht h)) rfl⟩
  | @arityMismatch s hs h =>
    have hschema := regular_of_resolve hregular hs
    have hfields := fun slot hslot => (hschema.slots slot hslot).fields
    rw [ne_eq, arity_of_resolve hregular hs] at h
    have hround : g.roundTrip revision r =
        (s.name, .error (.refused (.arityMismatch s.name s.arity ns.length))) := by
      rw [roundTrip_of_resolve hs, hr, Schema.decode_list, List.length_map,
        if_neg (mt (Schema.equal_arity_iff hfields).mp h), refuse_of_printable (by exact hschema.name)]
      rfl
    exact ⟨_, check_of_refused hround rfl⟩
  | @slotDecodeError s hs hlen h =>
    have hslots := (regular_of_resolve hregular hs).slots
    cases hdecode : s.decode (.list (ns.map .int)) with
    | ok record =>
      obtain ⟨-, hadmits⟩ := (exists_decode_iff_of_resolve hregular hs).mp ⟨record, hdecode⟩
      obtain ⟨piece, hpiece, hbad⟩ := h
      exact absurd (hadmits piece hpiece) hbad
    | error e =>
      rw [arity_of_resolve hregular hs] at hlen
      obtain ⟨hbad, -⟩ | ⟨-, slot, hslot, ⟨-, hrange⟩ | ⟨cause, hcause, rfl⟩⟩ :=
        Schema.decode_eq_error (fun slot hslot => (hslots slot hslot).fields)
          (Value.isSome_integer?_of_ints ns) hdecode
      · exact absurd ((List.length_map _).trans hlen) hbad
      · obtain ⟨low, high, hok⟩ := (hslots slot hslot).range
        rw [hrange] at hok
        cases hok
      · have hlong : cause.printable := hcause.printable fun v hv => by
          obtain ⟨n, hn, rfl⟩ := List.mem_map.mp hv
          exact hns n hn
        have hraised : (Failure.refused (.slotDecode slot.name cause)).raised =
            .refused (.slotDecode slot.name cause) :=
          Failure.raised_of_printable
            (Bool.and_eq_true_iff.mpr ⟨(hslots slot hslot).name, hlong⟩)
        have hround : g.roundTrip revision r =
            (s.name, .error (.refused (.slotDecode slot.name cause))) := by
          rw [roundTrip_of_resolve hs, hr, hdecode, hraised]
          rfl
        exact ⟨_, check_of_refused hround rfl⟩
  | @fine s hs hlen h =>
    obtain ⟨record, hdecode⟩ := (exists_decode_iff_of_resolve hregular hs).mpr ⟨hlen, h⟩
    exact ⟨_, check_of_decode hs hr hdecode⟩

omit hregular in
/-- There is a diagnosis for every registration. -/
theorem exists_diagnosis (hg : g.Reachable) (hprint : revision.printable) (code : Int)
    (ns : List Int) :
    ∃ category event, g.Diagnosis revision code ns category event := by
  -- What is wrong is looked for in the order of the stages.
  by_cases hrevision : Revision.ofValue revision ∈ g.revisions
  · obtain ⟨t, ht⟩ := exists_get_of_mem_revisions hprint hrevision
    by_cases hcode : ∀ s ∈ t.schemas, s.code ≠ code
    · exact ⟨_, _, .unknownEvent ht hcode⟩
    · push Not at hcode
      obtain ⟨s, hmem, rfl⟩ := hcode
      have hs : g.resolve revision (.int s.code) = .ok s :=
        resolve_eq_ok_iff.mpr ⟨t, ht, rfl, (hg.coherent t (mem_tables_of_get ht)).byCode?_eq hmem⟩
      by_cases hlen : s.arity = .int ns.length
      · by_cases hadmits : ∀ piece ∈ Schema.pieces s.slots ns, piece.1.Admits piece.2
        · exact ⟨_, _, .fine hs hlen hadmits⟩
        · push Not at hadmits
          exact ⟨_, _, .slotDecodeError hs hlen hadmits⟩
      · exact ⟨_, _, .arityMismatch hs hlen⟩
  · exact ⟨_, _, .unknownRevision hrevision⟩

theorem exists_decode_iff {code : Int} {ns : List Int} :
    (∃ record, g.decode revision (.int code) (.list (ns.map .int)) = .ok record) ↔
      ∃ event, g.Diagnosis revision code ns none event := by
  simp only [decode, Attempt.bind_eq_ok]
  constructor
  · rintro ⟨record, s, hs, hdecode⟩
    obtain ⟨hlen, h⟩ := (exists_decode_iff_of_resolve hregular hs).mp ⟨record, hdecode⟩
    exact ⟨s.name, .fine hs hlen h⟩
  · rintro ⟨_, hfine⟩
    cases hfine with
    | @fine s hs hlen h =>
      obtain ⟨record, hdecode⟩ := (exists_decode_iff_of_resolve hregular hs).mpr ⟨hlen, h⟩
      exact ⟨record, s, hs, hdecode⟩

theorem exists_check (hg : g.Reachable) (hprint : revision.printable) {ns : List Int}
    (hns : ∀ n ∈ ns, Text.writable n) (hr : r.operands = .list (ns.map .int)) :
    ∃ o, g.check revision r = .ok o ∧ o.registration = r ∧ o.mismatch = false ∧
      ∀ category event, g.Diagnosis revision r.code ns category event ↔
        category = o.category ∧ event = o.event := by
  obtain ⟨category, event, hdiagnosis⟩ := exists_diagnosis hg hprint r.code ns
  obtain ⟨message, hcheck⟩ := hdiagnosis.check hregular hprint hns hr
  refine ⟨_, hcheck, rfl, rfl, fun category' event' => ⟨fun h => ?_, ?_⟩⟩
  · obtain ⟨message', hcheck'⟩ := h.check hregular hprint hns hr
    have heq := Except.ok.inj (hcheck'.symm.trans hcheck)
    exact ⟨congrArg Outcome.category heq, congrArg Outcome.event heq⟩
  · rintro ⟨rfl, rfl⟩
    exact hdiagnosis

/-! ### All registrations -/

theorem ok_eq_isSome_decode (hg : g.Reachable) (hprint : revision.printable) {ns : List Int}
    (hns : ∀ n ∈ ns, Text.writable n) (hr : r.operands = .list (ns.map .int)) {o : Outcome}
    (ho : g.check revision r = .ok o) :
    o.ok = (g.decode revision (.int r.code) r.operands).toOption.isSome := by
  obtain ⟨o', ho', -, hmismatch, hdiagnosis⟩ := exists_check hregular hg hprint hns hr
  obtain rfl : o' = o := Except.ok.inj (ho'.symm.trans ho)
  have hok : o'.ok ↔ o'.category = none := by
    rw [Outcome.ok, hmismatch, Bool.not_false, Bool.and_true, Option.isNone_iff_eq_none]
  rw [Bool.eq_iff_iff, hok, Attempt.isSome_toOption_iff, hr, exists_decode_iff hregular]
  constructor
  · intro hnone
    exact ⟨o'.event, (hdiagnosis none o'.event).mpr ⟨hnone.symm, rfl⟩⟩
  · rintro ⟨event, hfine⟩
    exact ((hdiagnosis none event).mp hfine).1.symm

theorem exists_checkAll (hg : g.Reachable) (hprint : revision.printable)
    {rs : List Registration} (hrs : ∀ r ∈ rs, ∃ ns : List Int,
      r.operands = .list (ns.map .int) ∧ ∀ n ∈ ns, Text.writable n) :
    ∃ os, g.checkAll revision rs = .ok os ∧ os.map (·.registration) = rs ∧
      (∀ o ∈ os, o.mismatch = false) ∧ os.countP Outcome.ok =
        rs.countP (fun r => (g.decode revision (.int r.code) r.operands).toOption.isSome) := by
  induction rs with
  | nil => exact ⟨[], rfl, rfl, fun _ h => absurd h List.not_mem_nil, rfl⟩
  | cons r rs ih =>
    obtain ⟨⟨ns, hr, hns⟩, hrs⟩ := List.forall_mem_cons.mp hrs
    obtain ⟨o, ho, hregistration, hmismatch, -⟩ := exists_check hregular hg hprint hns hr
    obtain ⟨os, hos, hregistrations, hmismatches, hcount⟩ := ih hrs
    refine ⟨o :: os, ?_, ?_, List.forall_mem_cons.mpr ⟨hmismatch, hmismatches⟩, ?_⟩
    · simp only [checkAll, ho, hos, bind, Except.bind]
      rfl
    · rw [List.map_cons, hregistration, hregistrations]
    · rw [List.countP_cons, List.countP_cons, hcount, ok_eq_isSome_decode hregular hg hprint hns hr ho]

/-- **Checking regular schemas never crashes.**  For a registration of integers that can be printed
there is an outcome, and it is the one diagnosis that the registration has: the revision is not
published, or has no event with the code, or the event takes another number of operands, or a slot
does not admit its operands, or nothing is wrong.  A report has one outcome for each registration, in
order; its successes are the registrations that decode, and its failures are those that it counts by
category. -/
theorem check_and_report (hg : g.Reachable) (hprint : revision.printable) :
    (∀ (r : Registration) (ns : List Int), (∀ n ∈ ns, Text.writable n) →
      r.operands = .list (ns.map .int) →
      ∃ o, g.check revision r = .ok o ∧ o.registration = r ∧ o.mismatch = false ∧
        o.category ≠ some .slotEncodeError ∧ o.category ≠ some .schemaMismatch ∧
        ∀ category event, g.Diagnosis revision r.code ns category event ↔
          category = o.category ∧ event = o.event) ∧
    ∀ rs : List Registration, (∀ r ∈ rs, ∃ ns : List Int,
        r.operands = .list (ns.map .int) ∧ ∀ n ∈ ns, Text.writable n) →
      ∃ report, g.report revision rs = .ok report ∧
        report.outcomes.map (·.registration) = rs ∧
        report.successes =
          rs.countP (fun r => (g.decode revision (.int r.code) r.operands).toOption.isSome) ∧
        report.failures = (report.counts.map (·.2)).sum := by
  refine ⟨fun r ns hns hr => ?_, fun rs hrs => ?_⟩
  · obtain ⟨o, ho, hregistration, hmismatch, hdiagnosis⟩ := exists_check hregular hg hprint hns hr
    have hfound := (hdiagnosis o.category o.event).mpr ⟨rfl, rfl⟩
    refine ⟨o, ho, hregistration, hmismatch, ?_, ?_, hdiagnosis⟩
    · intro hc
      rw [hc] at hfound
      cases hfound
    · intro hc
      rw [hc] at hfound
      cases hfound
  · obtain ⟨os, hos, hregistrations, hmismatches, hcount⟩ :=
      exists_checkAll hregular hg hprint hrs
    have hreport : g.report revision rs = .ok ⟨revision, os⟩ := by
      simp only [report, hos, bind, Except.bind]
      rfl
    refine ⟨_, hreport, hregistrations, hcount, ?_⟩
    have hnone : Report.mismatches ⟨revision, os⟩ = 0 := by
      refine List.countP_eq_zero.mpr fun o ho => ?_
      rw [hmismatches o ho]
      exact Bool.false_ne_true
    rw [Report.failures_eq_add, hnone, Nat.add_zero]
    intro o ho hmismatch
    rw [hmismatches o ho] at hmismatch
    cases hmismatch

end Regular

/-- Registrations as they are found in scripts: two with as many operands as a turn takes, one with
fewer, and one of an event that nobody has defined. -/
def extracted : List Registration :=
  [⟨"chapter01", 1, .list ([129, 0, -1, 31, -32768, 5].map .int)⟩,
    ⟨"chapter01", 1, .list ([256, 0, -1, 31, -32768, 5].map .int)⟩,
    ⟨"chapter02", 1, .list ([129].map .int)⟩, ⟨"chapter02", 7, .list ([].map .int)⟩]

theorem check_and_report_turns :
    (∃ o, turns.check (.str "FE14") ⟨"chapter02", 1, .list ([129].map .int)⟩ = .ok o ∧
      o.category = some .arityMismatch ∧ o.event = .str "Turn") ∧
    ∃ report, turns.report (.str "FE14") extracted = .ok report ∧ report.successes = 1 ∧
      (report.counts.map (·.2)).sum = 3 := by
  have hregular : ∀ t ∈ turns.tables, ∀ schema ∈ t.schemas, schema.Regular := by decide +kernel
  have hprint : (Value.str "FE14").printable := rfl
  obtain ⟨hcheck, hreport⟩ := check_and_report hregular turns_reachable hprint
  have hname : turns.resolveName (.str "FE14") (.str "Turn") = .ok handheldTurn := rfl
  have hresolve : turns.resolve (.str "FE14") (.int handheldTurn.code) = .ok handheldTurn :=
    resolve_of_resolveName turns_reachable hname
  constructor
  · obtain ⟨o, ho, -, -, -, -, hdiagnosis⟩ := hcheck ⟨"chapter02", 1, _⟩ [129] (by decide) rfl
    have hfew : [129].length ≠ handheldTurn.span := by decide +kernel
    obtain ⟨hcategory, hevent⟩ := (hdiagnosis _ _).mp
      (.arityMismatch hresolve (mt (arity_of_resolve hregular hresolve).mp hfew))
    exact ⟨o, ho, hcategory.symm, hevent.symm⟩
  · obtain ⟨report, hok, hregistrations, hsuccesses, hfailures⟩ := hreport extracted (by
      intro r hr
      simp only [extracted, List.mem_cons, List.not_mem_nil, or_false] at hr
      rcases hr with rfl | rfl | rfl | rfl <;> exact ⟨_, rfl, by decide⟩)
    have hone : report.successes = 1 := hsuccesses.trans (by decide +kernel)
    have hfour : report.outcomes.length = 4 := by
      rw [← List.length_map, hregistrations]
      rfl
    have htotal := report.failures_eq
    exact ⟨report, hok, hone, by omega⟩

/-- A crossing of two places, the second of which is declared with a fraction for its fields. -/
def crossing : Schema where
  code := 2
  name := .str "Crossing"
  slots := [
    ⟨.str "from", .coordinate, none, .int 32, .bool true, .int 2, by decide +kernel⟩,
    ⟨.str "to", .coordinate, none, .int 32, .bool true, .float (.ofInt 2), by decide +kernel⟩]
  revision := some ⟨"FE14", ""⟩

def crossings : Registry := ⟨[⟨⟨"FE14", ""⟩, .null, .null, [crossing], true⟩]⟩

/-- The crossing is published and its slots have ranges, and checking a registration of it crashes. -/
theorem check_misused_crossing : crossings.Reachable ∧
    (∀ s ∈ crossing.slots, ∃ low high, s.range = .ok (low, high)) ∧
    crossings.check (.str "FE14") ⟨"chapter01", 2, .list ([1, 2, 3, 4].map .int)⟩ =
      misused .noCount := by
  refine ⟨?_, fun s hs => ?_, ?_⟩
  · exact Reachable.empty.register (Table.reachable_singleton (s := crossing) rfl rfl)
      (register_eq_ok_iff.mpr ⟨rfl, rfl, rfl⟩ : register _ (.revision ⟨"FE14", ""⟩) _ = _)
  · have hranges : ∀ s ∈ crossing.slots, s.range.toOption.isSome := by decide +kernel
    rw [← Prod.exists (p := fun range => s.range = .ok range), ← Attempt.isSome_toOption_iff]
    exact hranges s hs
  · exact Attempt.eq_misused_of_misuse? (by decide +kernel)

end Registry

end EventDialects
