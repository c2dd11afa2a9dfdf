import EventDialects.CommandLine.Answer
import EventDialects.Proofs.Registration
import EventDialects.Proofs.Registry.Decodable
import EventDialects.Proofs.Report

/-!
# The verdict of a check

The status of a check passes through many hands: the dialects are loaded, the document is read, its
registrations are read, each of them is resolved, decoded, encoded and compared, the outcomes are
counted, and what goes wrong on the way is caught and printed.  Zero comes out only at the end of
the one way on which nothing goes wrong.

A record that was decoded always encodes back to its operands, so a registration passes exactly if
it decodes, and a file exactly if everything in it does.  The revision of a file is printed before
anything is decoded, and must be printable even if the file lists no registrations.

* `Registry.decode_of_check`: what does not decode is no success.
* `Registry.exists_report_iff`: **a report without failures is one whose registrations decode**.
* `CommandLine.check_outcome_zero_iff`: a check comes out as zero exactly if the file passes.
* `CommandLine.check_status`: **the status is the verdict on the whole file**.
-/

namespace EventDialects

open List (Forall₂)
open Text

namespace Registry

/-! ### One registration -/

variable {g : Registry} {revision : Value} {r : Registration}

/-- A registration that is a success decodes. -/
theorem decode_of_check {o : Outcome} (h : g.check revision r = .ok o) (hok : o.ok) :
    ∃ record, g.decode revision (.int r.code) r.operands = .ok record := by
  rw [check] at h
  split at h
  · obtain ⟨category, -, h⟩ := Attempt.bind_eq_ok.mp h
    cases h
    cases hok
  · cases h
  · rename_i event ops hround
    cases hschema : g.resolve revision (.int r.code) with
    | error e =>
      rw [roundTrip_of_error hschema] at hround
      cases hround
    | ok schema =>
      rw [roundTrip_of_resolve hschema] at hround
      obtain ⟨record, hrecord, -⟩ := Attempt.bind_eq_ok.mp (Prod.mk.inj hround).2
      exact ⟨record, Attempt.bind_eq_ok.mpr ⟨schema, hschema, hrecord⟩⟩

/-! ### A report -/

theorem checkAll_eq_ok_iff {rs : List Registration} : ∀ {os : List Outcome},
    g.checkAll revision rs = .ok os ↔ Forall₂ (fun r o => g.check revision r = .ok o) rs os := by
  induction rs with
  | nil =>
    intro os
    simp [checkAll, eq_comm]
  | cons r rs ih =>
    intro os
    rw [List.forall₂_cons_left_iff, checkAll]
    simp only [Attempt.bind_eq_ok, ih, pure, Except.pure, Except.ok.injEq]
    constructor
    · rintro ⟨o, ho, os', hos, rfl⟩
      exact ⟨o, os', ho, hos, rfl⟩
    · rintro ⟨o, os', ho, hos, rfl⟩
      exact ⟨o, ho, os', hos, rfl⟩

end Registry

theorem Report.failures_eq_zero_iff {r : Report} :
    r.failures = 0 ↔ ∀ o ∈ r.outcomes, o.ok := by
  have htotal := r.failures_eq
  rw [← List.countP_eq_length, ← successes]
  omega

namespace Registry

variable {g : Registry} {revision : Value}

/-- **A report without failures is one whose registrations decode.** -/
theorem exists_report_iff {rs : List Registration}
    (hrs : ∀ r ∈ rs, ∃ ns : List Int, r.operands = .list (ns.map .int)) :
    (∃ report, g.report revision rs = .ok report ∧ report.failures = 0) ↔
      ∀ r ∈ rs, ∃ record, g.decode revision (.int r.code) r.operands = .ok record := by
  constructor
  · rintro ⟨report, hreport, hfailures⟩ r hr
    obtain ⟨os, hos, h⟩ := Attempt.bind_eq_ok.mp hreport
    cases h
    rw [Report.failures_eq_zero_iff] at hfailures
    obtain ⟨o, ho, hcheck⟩ := exists_mem_of_forall₂ (checkAll_eq_ok_iff.mp hos) r hr
    exact decode_of_check hcheck (hfailures o ho)
  · intro h
    have hchecks : ∃ os, Forall₂ (fun r o => g.check revision r = .ok o) rs os ∧
        ∀ o ∈ os, o.ok := by
      induction rs with
      | nil => exact ⟨[], .nil, fun _ ho => absurd ho List.not_mem_nil⟩
      | cons r rs ih =>
        obtain ⟨⟨ns, hr⟩, hrs⟩ := List.forall_mem_cons.mp hrs
        obtain ⟨⟨record, hrecord⟩, hrest⟩ := List.forall_mem_cons.mp h
        obtain ⟨schema, hschema, hdecode⟩ := Attempt.bind_eq_ok.mp hrecord
        rw [hr] at hdecode
        have hcheck := check_of_decode hschema hr hdecode
        obtain ⟨os, hos, hok⟩ := ih hrs hrest
        exact ⟨_ :: os, .cons hcheck hos, List.forall_mem_cons.mpr ⟨rfl, hok⟩⟩
    obtain ⟨os, hos, hok⟩ := hchecks
    refine ⟨⟨revision, os⟩, ?_, Report.failures_eq_zero_iff.mpr hok⟩
    exact Attempt.bind_eq_ok.mpr ⟨os, checkAll_eq_ok_iff.mpr hos, rfl⟩

theorem event_of_check {r : Registration} {o : Outcome} (h : g.check revision r = .ok o) :
    o.event = .null ∨ ∃ t ∈ g.tables, ∃ schema ∈ t.schemas, o.event = schema.name := by
  have hround : o.event = (g.roundTrip revision r).1 := by
    rw [check] at h
    split at h
    · rename_i heq
      obtain ⟨category, -, h⟩ := Attempt.bind_eq_ok.mp h
      cases h
      rw [heq]
    · cases h
    · rename_i heq
      obtain ⟨given, -, h⟩ := Attempt.bind_eq_ok.mp h
      dsimp only at h
      split at h
      · cases h
        rw [heq]
      · obtain ⟨_, -, h⟩ := Attempt.bind_eq_ok.mp h
        obtain ⟨_, -, h⟩ := Attempt.bind_eq_ok.mp h
        cases h
        rw [heq]
  rw [hround]
  cases hschema : g.resolve revision (.int r.code) with
  | error e =>
    rw [roundTrip_of_error hschema]
    exact .inl rfl
  | ok schema =>
    rw [roundTrip_of_resolve hschema]
    obtain ⟨t, ht, hmem⟩ := mem_schemas_of_resolve hschema
    exact .inr ⟨t, ht, schema, hmem, rfl⟩

/-- The events of a registry can be **named** if their names can be printed. -/
def PrintsNames (g : Registry) : Prop :=
  ∀ t ∈ g.tables, ∀ schema ∈ t.schemas, schema.name.printable

theorem printable_events (hg : g.PrintsNames) {rs : List Registration} {report : Report}
    (h : g.report revision rs = .ok report) : ∀ o ∈ report.outcomes, o.event.printable := by
  obtain ⟨os, hos, h⟩ := Attempt.bind_eq_ok.mp h
  cases h
  intro o ho
  obtain ⟨r, -, hcheck⟩ := exists_mem_of_forall₂ (checkAll_eq_ok_iff.mp hos).flip o ho
  rcases event_of_check hcheck with he | ⟨t, ht, schema, hschema, he⟩
  · rw [he]
    rfl
  · rw [he]
    exact hg t ht schema hschema

theorem outcomes_length {rs : List Registration} {report : Report}
    (h : g.report revision rs = .ok report) : report.outcomes.length = rs.length := by
  obtain ⟨os, hos, h⟩ := Attempt.bind_eq_ok.mp h
  cases h
  exact (checkAll_eq_ok_iff.mp hos).length_eq.symm

end Registry

/-! ### The lines of a report -/

namespace Report

theorem exists_line {o : Outcome} (h : o.event.printable) : ∃ l, line o = .ok l := by
  have hlabel : ∃ l, label o = .ok l := by
    rw [label, Value.print_eq_ok.mpr ⟨h, rfl⟩]
    split <;> exact ⟨_, rfl⟩
  obtain ⟨l, hl⟩ := hlabel
  exact ⟨_, Attempt.bind_eq_ok.mpr ⟨l, hl, rfl⟩⟩

theorem exists_mapM_line {os : List Outcome} (h : ∀ o ∈ os, o.event.printable) :
    ∃ ls, os.mapM line = .ok ls := by
  induction os with
  | nil => exact ⟨[], rfl⟩
  | cons o os ih =>
    obtain ⟨ho, hos⟩ := List.forall_mem_cons.mp h
    obtain ⟨l, hl⟩ := exists_line ho
    obtain ⟨ls, hls⟩ := ih hos
    exact ⟨l :: ls, by rw [List.mapM_cons, hl, hls]; rfl⟩

/-- **A report can be printed** if its revision and the events in it can; the totals come last. -/
theorem exists_lines {r : Report} (hrevision : r.revision.printable)
    (hevents : ∀ o ∈ r.outcomes, o.event.printable) :
    ∃ l ls, r.lines = .ok (l :: ls ++ [r.totals]) := by
  obtain ⟨outcomes, houtcomes⟩ := exists_mapM_line hevents
  have hlines : r.lines = .ok (["Compatibility report for " ++ r.revision.text, ""] ++ outcomes ++ [""]
      ++ r.counts.map (fun c => countLine c.1.name c.2)
      ++ (if r.mismatches ≠ 0 then [countLine "output_mismatch" r.mismatches] else [])
      ++ [r.totals]) := by
    rw [lines, Value.print_eq_ok.mpr ⟨hrevision, rfl⟩, houtcomes]
    rfl
  exact ⟨_, _, hlines⟩

end Report

/-! ### The rate of a report without failures -/

theorem Binary64.ofQuotient_self {n : Nat} (h : 0 < n) :
    ofQuotient false n n = .finite false one := by
  have hquanta : n * one / n = one := Nat.mul_div_cancel_left one h
  have hwidth : ¬ one.log2 + 1 ≤ precision := by decide +kernel
  have hone : one = twoTo 52 * twoTo (one.log2 + 1 - precision) := by decide +kernel
  have hpos : 0 < n * twoTo (one.log2 + 1 - precision) := Nat.mul_pos h (twoTo_pos _)
  have hsteps : n * one = twoTo 52 * (n * twoTo (one.log2 + 1 - precision)) := by
    rw [Nat.mul_left_comm, ← hone]
  have hround : roundQuanta n n = one := by
    simp only [roundQuanta]
    rw [hquanta, if_neg hwidth, hsteps, roundQuotient_exact _ hpos, ← hone]
  simp only [ofQuotient]
  rw [hround, if_pos (by decide +kernel)]

namespace Report

theorem onePlace_rate {r : Report} (h : r.failures = 0) :
    r.rate.onePlace = if r.outcomes.isEmpty then "0.0" else "100.0" := by
  have htotal : r.successes = r.outcomes.length := by
    have := r.failures_eq
    omega
  by_cases hempty : r.outcomes.isEmpty
  · rw [rate, if_pos hempty, if_pos hempty]
    decide +kernel
  · have hpos : 0 < r.outcomes.length := List.length_pos_iff.mpr (by simpa using hempty)
    rw [rate, if_neg hempty, if_neg hempty, htotal, Binary64.ofQuotient_self hpos]
    decide +kernel

/-- The line of totals of a report on some registrations without failures. -/
def passedLine (count : Nat) : String :=
  "Successes: " ++ decimal count ++ ", Failures: 0, Rate: "
    ++ (if count = 0 then "0.0" else "100.0") ++ "%"

theorem totals_of_failures {r : Report} (h : r.failures = 0) :
    r.totals = passedLine r.outcomes.length := by
  have htotal : r.successes = r.outcomes.length := by
    have := r.failures_eq
    omega
  have hzero : decimal (0 : Nat) = "0" := by decide +kernel
  -- Not by their equations, whose proofs would put texts together character by character.
  delta totals passedLine
  rw [onePlace_rate h, htotal, h, hzero]
  simp [String.append_assoc]

end Report

namespace CommandLine

/-! ### What is printed -/

theorem textOfLines_append (ls ls' : List String) :
    textOfLines (ls ++ ls') = textOfLines ls ++ textOfLines ls' := by
  simp only [textOfLines, List.map_append, String.join_append]

theorem textOfLines_intercalate (l : String) (ls : List String) :
    textOfLines ["\n".intercalate (l :: ls)] = textOfLines (l :: ls) := by
  induction ls generalizing l with
  | nil => simp [textOfLines]
  | cons l' ls ih =>
    have hjoin : textOfLines ["\n".intercalate (l :: l' :: ls)] =
        l ++ "\n" ++ textOfLines ["\n".intercalate (l' :: ls)] := by
      simp [textOfLines, String.intercalate_cons_cons, String.append_assoc]
    rw [hjoin, ih]
    simp [textOfLines, String.append_assoc]

/-! ### The way to the verdict -/

/-- The stages of a check, without what it prints. -/
theorem check_outcome (shelf : Shelf) (g : Registry) (path : String) :
    (check shelf g path).outcome = do
      let document ← registrationsAt shelf path
      let revision ← revisionNamed path document
      let rs ← Registration.ofDocument document
      let report ← g.report (.str revision) rs
      let _ ← report.text
      return if report.failures = 0 then 0 else 1 := by
  simp only [check, bind, Except.bind, pure, Except.pure]
  cases registrationsAt shelf path with
  | error e => rfl
  | ok document =>
    cases hrevision : revisionNamed path document with
    | error e => simp only [hrevision]
    | ok revision =>
      simp only [hrevision, Transcript.after]
      cases hrs : Registration.ofDocument document with
      | error e => rfl
      | ok rs =>
        cases hreport : g.report (.str revision) rs with
        | error e => simp only [hreport]
        | ok report =>
          simp only [hreport]
          cases report.text <;> rfl

/-- The document of a check is a mapping, and the revision is what it has under that name, printed. -/
theorem revisionNamed_eq_ok_iff {shelf : Shelf} {path revision : String} {document : Value} :
    registrationsAt shelf path = .ok document ∧ revisionNamed path document = .ok revision ↔
      ∃ es v, document = .map es ∧ shelf.document path = .ok (.map es) ∧
        Entries.lookup? es (.str "revision") = some v ∧ v.print = .ok revision := by
  constructor
  · rintro ⟨hdocument, hrevision⟩
    obtain ⟨found, hfound, hdocument⟩ := Attempt.bind_eq_ok.mp hdocument
    obtain ⟨held, hheld, hrevision⟩ := Attempt.bind_eq_ok.mp hrevision
    cases held with
    | false => cases hrevision
    | true =>
      obtain ⟨named, hnamed, hrevision⟩ := Attempt.bind_eq_ok.mp hrevision
      cases document with
      | map es =>
        obtain ⟨v, hv⟩ := Value.holds_map_iff.mp hheld
        cases hnamed
        by_cases htruthy : found.truthy
        · rw [if_pos htruthy] at hdocument
          cases hdocument
          rw [hv] at hrevision
          exact ⟨es, v, rfl, hfound, hv, hrevision⟩
        · -- What does not count is taken for an empty mapping, which names no revision.
          rw [if_neg htruthy] at hdocument
          cases hdocument
          cases hv
      | _ => cases hnamed
  · rintro ⟨es, v, rfl, hdocument, hv, hprint⟩
    have htruthy : (Value.map es).truthy := by
      cases es with
      | nil => cases hv
      | cons e es => rfl
    have hheld : (Value.map es).holds "revision" = .ok true := Value.holds_map_iff.mpr ⟨v, hv⟩
    refine ⟨Attempt.bind_eq_ok.mpr ⟨_, hdocument, by rw [if_pos htruthy]; rfl⟩, ?_⟩
    refine Attempt.bind_eq_ok.mpr ⟨true, hheld, ?_⟩
    exact Attempt.bind_eq_ok.mpr ⟨some v, congrArg Except.ok hv, hprint⟩

/-- A file **passes** with some registrations if the dialects can be loaded, the file is a mapping
that names a revision that can be printed and lists the registrations, and all of them decode under
that revision. -/
def Passes (shelf : Shelf) (directory : Option String) (path : String) (rs : List Registration) :
    Prop :=
  ∃ g es v, shelf.registry directory = .ok g ∧ shelf.document path = .ok (.map es) ∧
    Entries.lookup? es (.str "revision") = some v ∧ v.printable ∧
    Registration.ofDocument (.map es) = .ok rs ∧
    ∀ r ∈ rs, ∃ record, g.decode (.str v.text) (.int r.code) r.operands = .ok record

theorem exists_operands_of_ofDocument {document : Value} {rs : List Registration}
    (h : Registration.ofDocument document = .ok rs) :
    ∀ r ∈ rs, ∃ ns : List Int, r.operands = .list (ns.map .int) := by
  obtain ⟨entries, -, hrs⟩ := Registration.ofDocument_eq_ok_iff.mp h
  intro r hr
  obtain ⟨entry, -, hdeclares⟩ := exists_mem_of_forall₂ hrs.flip r hr
  exact hdeclares.exists_operands

theorem printsNames_of_registry {shelf : Shelf} {directory : Option String} {g : Registry}
    (h : shelf.registry directory = .ok g) : g.PrintsNames := by
  obtain ⟨documents, hdocuments⟩ : ∃ documents, Registry.ofDocuments documents = .ok g := by
    rw [Shelf.registry] at h
    split at h
    · exact ⟨_, h⟩
    · dsimp only at h
      split at h
      · cases h
      · obtain ⟨documents, -, h⟩ := Attempt.bind_eq_ok.mp h
        exact ⟨documents, h⟩
  exact fun t ht schema hschema =>
    (Table.declared_of_ofDocuments hdocuments t ht schema hschema).name

theorem exists_report_of_passes {shelf : Shelf} {directory : Option String} {g : Registry}
    (hload : shelf.registry directory = .ok g) {path : String} {rs : List Registration}
    (h : Passes shelf directory path rs) :
    ∃ revision document report l ls, registrationsAt shelf path = .ok document ∧
      revisionNamed path document = .ok revision ∧ Registration.ofDocument document = .ok rs ∧
      g.report (.str revision) rs = .ok report ∧ report.failures = 0 ∧
      report.lines = .ok (l :: ls ++ [report.totals]) := by
  obtain ⟨g', es, v, hload', hfile, hv, hprint, hrs, hdecode⟩ := h
  obtain rfl : g = g' := Except.ok.inj (hload.symm.trans hload')
  obtain ⟨hdocument, hrevision⟩ :=
    revisionNamed_eq_ok_iff.mpr ⟨es, v, rfl, hfile, hv, Value.print_eq_ok.mpr ⟨hprint, rfl⟩⟩
  obtain ⟨report, hreport, hfailures⟩ :=
    (Registry.exists_report_iff (exists_operands_of_ofDocument hrs)).mpr hdecode
  have hnamed : report.revision.printable := by
    obtain ⟨os, -, h⟩ := Attempt.bind_eq_ok.mp hreport
    cases h
    rfl
  obtain ⟨l, ls, hlines⟩ := Report.exists_lines hnamed
    (Registry.printable_events (printsNames_of_registry hload) hreport)
  exact ⟨_, _, report, l, ls, hdocument, hrevision, hrs, hreport, hfailures, hlines⟩

theorem check_outcome_zero_iff {shelf : Shelf} {directory : Option String} {g : Registry}
    (hload : shelf.registry directory = .ok g) {path : String} :
    (check shelf g path).outcome = .ok 0 ↔ ∃ rs, Passes shelf directory path rs := by
  have hstatus {n : Nat} : (if n = 0 then 0 else 1) = 0 ↔ n = 0 := by
    split <;> simp_all
  rw [check_outcome]
  simp only [Attempt.bind_eq_ok, pure, Except.pure, Except.ok.injEq, hstatus]
  constructor
  · rintro ⟨document, hdocument, revision, hrevision, rs, hrs, report, hreport, _, -, hfailures⟩
    obtain ⟨es, v, rfl, hfile, hv, hprinted⟩ := revisionNamed_eq_ok_iff.mp ⟨hdocument, hrevision⟩
    obtain ⟨hprint, rfl⟩ := Value.print_eq_ok.mp hprinted
    have hoperands := exists_operands_of_ofDocument hrs
    exact ⟨rs, g, es, v, hload, hfile, hv, hprint, hrs,
      (Registry.exists_report_iff hoperands).mp ⟨report, hreport, hfailures⟩⟩
  · rintro ⟨rs, hpasses⟩
    obtain ⟨revision, document, report, l, ls, hdocument, hrevision, hrs, hreport, hfailures, hlines⟩ :=
      exists_report_of_passes hload hpasses
    have htext : report.text = .ok ("\n".intercalate (l :: ls ++ [report.totals])) := by
      rw [Report.text, hlines]
      rfl
    exact ⟨_, hdocument, _, hrevision, rs, hrs, report, hreport, _, htext, hfailures⟩

theorem check_text_of_report {shelf : Shelf} {g : Registry} {path revision : String}
    {document : Value} {rs : List Registration} {report : Report}
    (hdocument : registrationsAt shelf path = .ok document)
    (hrevision : revisionNamed path document = .ok revision)
    (hrs : Registration.ofDocument document = .ok rs)
    (hreport : g.report (.str revision) rs = .ok report) {l : String} {ls : List String}
    (hlines : report.lines = .ok (l :: ls ++ [report.totals])) :
    (check shelf g path).text = textOfLines
      (("Testing registrations at '" ++ path ++ "' for game '" ++ revision ++ "'") :: l :: ls ++
        [report.totals]) := by
  simp only [check, bind, Except.bind, pure, Except.pure, hdocument, hrevision, hrs, hreport,
    Transcript.after, Report.text, hlines]
  rw [List.cons_append, textOfLines_intercalate, ← textOfLines_append]
  rfl

/-! ### The answer -/

theorem Transcript.status_answer_eq_zero_iff {t : Transcript} :
    t.answer.status = 0 ↔ t.outcome = .ok 0 := by
  cases h : t.outcome <;> simp [Transcript.answer, h]

/-- What is answered has no other status than zero if a transcript has none but zero and one. -/
theorem Transcript.status_answer_of_ne_zero {t : Transcript}
    (h : ∀ n, t.outcome = .ok n → n = 0 ∨ n = 1) (hne : t.answer.status ≠ 0) :
    t.answer.status = 1 := by
  rw [ne_eq, status_answer_eq_zero_iff] at hne
  cases ho : t.outcome with
  | error e => simp [Transcript.answer, ho]
  | ok n =>
    obtain rfl | rfl := h n ho
    · exact absurd ho hne
    · simp [Transcript.answer, ho]

theorem check_outcome_zero_or_one {shelf : Shelf} {g : Registry} {path : String} :
    ∀ n, (check shelf g path).outcome = .ok n → n = 0 ∨ n = 1 := by
  intro n h
  rw [check_outcome] at h
  obtain ⟨document, -, h⟩ := Attempt.bind_eq_ok.mp h
  obtain ⟨revision, -, h⟩ := Attempt.bind_eq_ok.mp h
  obtain ⟨rs, -, h⟩ := Attempt.bind_eq_ok.mp h
  obtain ⟨report, -, h⟩ := Attempt.bind_eq_ok.mp h
  obtain ⟨_, -, h⟩ := Attempt.bind_eq_ok.mp h
  obtain rfl : (if report.failures = 0 then 0 else 1) = n := Except.ok.inj h
  split
  · exact .inl rfl
  · exact .inr rfl

theorem ofArguments_check (path : String) :
    Invocation.ofArguments ["check", path] = ⟨none, none, ["check", path]⟩ := by
  simp [Invocation.ofArguments, Invocation.dialectsOption, Invocation.formatOption]

theorem ofArguments_check_dialects (directory path : String) :
    Invocation.ofArguments [Invocation.dialectsOption, directory, "check", path] =
      ⟨some directory, none, ["check", path]⟩ := by
  rw [Invocation.ofArguments_dialects, ofArguments_check]
  rfl

/-- What an invocation prints that checks a file, and how it ends. -/
def checkWith (shelf : Shelf) (directory : Option String) (path : String) : Transcript :=
  match shelf.registry directory with
  | .error e => ⟨"", .error e⟩
  | .ok g => check shelf g path

variable {shelf : Shelf} {arguments : List String} {directory format : Option String}
  {path : String}

theorem answerTo_check
    (harguments : Invocation.ofArguments arguments = ⟨directory, format, ["check", path]⟩)
    (hformat : (RecordFormat.ofName? (format.getD "yaml")).isSome) :
    answerTo shelf arguments = (checkWith shelf directory path).answer := by
  obtain ⟨output, houtput⟩ := Option.isSome_iff_exists.mp hformat
  have hcommand : Command.ofWords? ["check", path] = some (.check path) := by
    simp [Command.ofWords?]
  rw [answerTo, harguments, answer, checkWith]
  simp only [Invocation.format?, houtput, List.isEmpty_cons, Bool.false_eq_true, if_false,
    hcommand]
  cases shelf.registry directory <;> rfl

theorem checkWith_outcome_zero_iff :
    (checkWith shelf directory path).outcome = .ok 0 ↔ ∃ rs, Passes shelf directory path rs := by
  cases hload : shelf.registry directory with
  | error e =>
    simp [checkWith, Passes, hload]
  | ok g =>
    rw [checkWith, hload]
    exact check_outcome_zero_iff hload

theorem checkWith_text {rs : List Registration} (h : Passes shelf directory path rs) :
    ∃ before, (checkWith shelf directory path).text =
      textOfLines (before ++ [Report.passedLine rs.length]) := by
  have hpasses := h
  obtain ⟨g, -, -, hload, -⟩ := h
  obtain ⟨revision, document, report, l, ls, hdocument, hrevision, hrs, hreport, hfailures, hlines⟩ :=
    exists_report_of_passes hload hpasses
  rw [checkWith, hload, ← Registry.outcomes_length hreport, ← Report.totals_of_failures hfailures]
  exact ⟨_, check_text_of_report hdocument hrevision hrs hreport hlines⟩

/-- **The status is the verdict on the whole file.**  It is zero exactly if the dialects can be
loaded, the file is a mapping that names a revision that can be printed and lists registrations, and
every one of them decodes under that revision; the last line printed then says that there were no
failures, and as many successes as registrations.  In all other cases it is one.  And the
registrations are complete: there is one for each entry that a document lists, in order, and all codes
and operands are integers. -/
theorem check_status
    (harguments : Invocation.ofArguments arguments = ⟨directory, format, ["check", path]⟩)
    (hformat : (RecordFormat.ofName? (format.getD "yaml")).isSome) :
    ((answerTo shelf arguments).status = 0 ↔ ∃ rs, Passes shelf directory path rs) ∧
      ((∀ rs, ¬ Passes shelf directory path rs) → (answerTo shelf arguments).status = 1) ∧
      (∀ rs, Passes shelf directory path rs → ∃ before,
        (answerTo shelf arguments).text =
          textOfLines (before ++ [Report.passedLine rs.length])) ∧
      ∀ document rs, Registration.ofDocument document = .ok rs → ∃ entries,
        Registration.Lists document entries ∧ entries.length = rs.length ∧
        Forall₂ (fun entry r => Registration.Declares entry.2 entry.1 r) entries.zipIdx rs ∧
        ∀ r ∈ rs, ∃ ns : List Int, r.operands = .list (ns.map .int) := by
  have hzero : (answerTo shelf arguments).status = 0 ↔ ∃ rs, Passes shelf directory path rs := by
    rw [answerTo_check harguments hformat, Transcript.status_answer_eq_zero_iff]
    exact checkWith_outcome_zero_iff
  refine ⟨hzero, fun hfails => ?_, fun rs hpasses => ?_, fun document rs hrs => ?_⟩
  · have hne : (answerTo shelf arguments).status ≠ 0 :=
      fun h => (hzero.mp h).elim hfails
    rw [answerTo_check harguments hformat] at hne ⊢
    refine Transcript.status_answer_of_ne_zero ?_ hne
    unfold checkWith
    split
    · intro n hn
      cases hn
    · exact check_outcome_zero_or_one
  · have hok := checkWith_outcome_zero_iff.mpr ⟨rs, hpasses⟩
    rw [answerTo_check harguments hformat, Transcript.answer, hok]
    exact checkWith_text hpasses
  · obtain ⟨entries, hentries, hdeclares⟩ := Registration.ofDocument_eq_ok_iff.mp hrs
    refine ⟨entries, hentries, ?_, hdeclares, exists_operands_of_ofDocument hrs⟩
    rw [← hdeclares.length_eq, List.length_zipIdx]

/-- A directory of one dialect, and a file with registrations of its one event. -/
def outpost : Shelf where
  document path :=
    if path = "patrols.yaml" then
      .ok (Bundled.fields [("revision", .str "FE14"), ("registrations", .list
        [Bundled.fields [("code", .str "0x01"), ("operands", .list [.int 3, .str "08"])],
          Bundled.fields [("source", .str "gate"), ("code", .int 1),
            ("operands", .list [.int (-1), .int 0])]])])
    else .error (.missingFile path)
  listing? path :=
    if path = "dialects" then
      some [("fates.yaml", .ok (Bundled.dialect "FE14" "Fates" "3ds" 6 32
        [Bundled.event 1 "Patrol" [Bundled.point "place"]]))]
    else none

theorem check_status_outpost : ∃ rs, Passes outpost (some "dialects") "patrols.yaml" rs ∧
    ∃ before, (answerTo outpost ["--dialects", "dialects", "check", "patrols.yaml"]).text =
      textOfLines (before ++ [Report.passedLine rs.length]) := by
  obtain ⟨hzero, -, htext, -⟩ := @check_status outpost _ _ _ _
    (ofArguments_check_dialects "dialects" "patrols.yaml") rfl
  obtain ⟨rs, hrs⟩ := hzero.mp (by decide +kernel)
  exact ⟨rs, hrs, htext rs hrs⟩

/-- The dialect of the outpost, and a file that names a revision by a number too long to be printed
and lists no registrations. -/
def longRevision : Shelf where
  document _ := .ok (Bundled.fields [("revision", .int beyondPrint)])
  listing? := outpost.listing?

/-- The file does not pass, although nothing in it fails to decode. -/
theorem check_status_longRevision :
    (∃ g, longRevision.registry (some "dialects") = .ok g) ∧
      Registration.ofDocument (Bundled.fields [("revision", .int beyondPrint)]) = .ok [] ∧
      (answerTo longRevision ["--dialects", "dialects", "check", "long.yaml"]).status = 1 := by
  refine ⟨Attempt.isSome_toOption_iff.mp (by decide +kernel), rfl, by decide +kernel⟩

end CommandLine

end EventDialects
