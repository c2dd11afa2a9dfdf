import EventDialects.Failure
import EventDialects.Registration
import Mathlib.Data.List.Forall2

/-!
# What a registrations document lists

Reading the registrations of a document stops at the first entry that has no code or a number that
nothing can be made of.  So a list that is read is complete: it has one registration for each entry,
in order, and nothing of an entry is left out.

* `numbersOf_eq_ok_iff`: numbers are read one by one.
* `Registration.ofEntry_eq_ok_iff`: what an entry **declares**.
* `Registration.ofDocument_eq_ok_iff`: **there is one registration for each entry**.
-/

namespace EventDialects

open List (Forall₂)
open Text

theorem numbersOf_eq_ok_iff {vs : List Value} : ∀ {ns : List Int},
    numbersOf vs = .ok ns ↔ Forall₂ (fun v n => numberOf v = .ok n) vs ns := by
  induction vs with
  | nil =>
    intro ns
    simp [numbersOf, eq_comm]
  | cons v vs ih =>
    intro ns
    rw [List.forall₂_cons_left_iff]
    simp only [← ih, numbersOf, bind, Except.bind]
    cases numberOf v with
    | error fault => simp
    | ok n =>
      cases numbersOf vs with
      | error fault => simp
      | ok ms => simp [pure, Except.pure, eq_comm]

theorem Value.holds_map_iff {es : Entries} {name : String} :
    (Value.map es).holds name = .ok true ↔ ∃ v, Entries.lookup? es (.str name) = some v := by
  rw [holds, Except.ok.injEq, List.any_eq_true, Entries.lookup?,
    ← Option.isSome_iff_exists, Option.isSome_map, List.find?_isSome]

namespace Registration

theorem inSource_eq_ok {α : Type} {source : String} {x : Attempt α} {a : α} :
    inSource source x = .ok a ↔ x = .ok a := by
  unfold inSource
  split
  · simp [refuse]
  · exact Iff.rfl

/-- An entry at a place **declares** a registration: its source by name, or by the place if it has
none, which can be printed; the number that its code writes; and the numbers that its operands
write, in order. -/
structure Declares (index : Nat) (entry : Value) (r : Registration) : Prop where
  source : ∃ named, entry.entryOr "source" (.str ("#" ++ decimal index)) = .ok named ∧
    named.print = .ok r.source
  code : ∃ v, entry.subscript? "code" = .ok (some v) ∧ numberOf v = .ok r.code
  operands : ∃ found raw ns, entry.entryOrEmpty "operands" (.list []) = .ok found ∧
    found.iterate = .ok raw ∧ Forall₂ (fun v n => numberOf v = .ok n) raw ns ∧
    r.operands = .list (ns.map .int)

theorem ofEntry_eq_ok_iff {index : Nat} {entry : Value} {r : Registration} :
    ofEntry index entry = .ok r ↔ Declares index entry r := by
  constructor
  · intro h
    obtain ⟨named, hnamed, h⟩ := Attempt.bind_eq_ok.mp h
    obtain ⟨source, hsource, h⟩ := Attempt.bind_eq_ok.mp h
    obtain ⟨held, hheld, h⟩ := Attempt.bind_eq_ok.mp h
    cases held with
    | false =>
      simp only [Bool.not_false, if_true] at h
      cases h
    | true =>
      obtain ⟨found, hfound, h⟩ := Attempt.bind_eq_ok.mp h
      obtain ⟨code, hcode, h⟩ := Attempt.bind_eq_ok.mp h
      obtain ⟨listed, hlisted, h⟩ := Attempt.bind_eq_ok.mp h
      obtain ⟨raw, hraw, h⟩ := Attempt.bind_eq_ok.mp h
      obtain ⟨ns, hns, h⟩ := Attempt.bind_eq_ok.mp h
      cases h
      refine ⟨⟨named, hnamed, hsource⟩, ?_, listed, raw, ns, hlisted, hraw, ?_, rfl⟩
      · cases entry with
        | map es =>
          obtain ⟨v, hv⟩ := Value.holds_map_iff.mp hheld
          cases hfound
          rw [hv] at hcode
          exact ⟨v, congrArg Except.ok hv, inSource_eq_ok.mp hcode⟩
        | _ => cases hfound
      · exact numbersOf_eq_ok_iff.mp (inSource_eq_ok.mp hns)
  · rintro ⟨⟨named, hnamed, hsource⟩, ⟨v, hv, hcode⟩, found, raw, ns, hfound, hraw, hns, hoperands⟩
    obtain ⟨source, code, operands⟩ := r
    obtain rfl : operands = .list (ns.map .int) := hoperands
    cases entry with
    | map es =>
      have hlookup : Entries.lookup? es (.str "code") = some v := Except.ok.inj hv
      have hheld := Value.holds_map_iff.mpr ⟨v, hlookup⟩
      have hnumbers := numbersOf_eq_ok_iff.mpr hns
      simp only [ofEntry, bind, Except.bind, hnamed, hsource, hheld, hv, hcode, hfound, hraw,
        hnumbers, Option.getD_some, inSource, Bool.not_true, Bool.false_eq_true, if_false, pure,
        Except.pure]
    | _ => cases hv

theorem ofEntries_eq_ok_iff {entries : List Value} : ∀ {index : Nat} {rs : List Registration},
    ofEntries index entries = .ok rs ↔
      Forall₂ (fun entry r => Declares entry.2 entry.1 r) (entries.zipIdx index) rs := by
  induction entries with
  | nil =>
    intro index rs
    simp [ofEntries, eq_comm]
  | cons entry entries ih =>
    intro index rs
    rw [List.zipIdx_cons, List.forall₂_cons_left_iff, ofEntries]
    simp only [Attempt.bind_eq_ok, ofEntry_eq_ok_iff, ih, pure, Except.pure, Except.ok.injEq]
    constructor
    · rintro ⟨r, hr, rs', hrs, rfl⟩
      exact ⟨r, rs', hr, hrs, rfl⟩
    · rintro ⟨r, rs', hr, hrs, rfl⟩
      exact ⟨r, hr, rs', hrs, rfl⟩

/-- A document **lists** entries under its registrations; without any it lists none. -/
def Lists (document : Value) (entries : List Value) : Prop :=
  ∃ found, document.entryOrEmpty "registrations" (.list []) = .ok found ∧
    found.iterate = .ok entries

/-- **There is one registration for each entry** of a document, in order. -/
theorem ofDocument_eq_ok_iff {document : Value} {rs : List Registration} :
    ofDocument document = .ok rs ↔ ∃ entries, Lists document entries ∧
      Forall₂ (fun entry r => Declares entry.2 entry.1 r) entries.zipIdx rs := by
  simp only [ofDocument, Attempt.bind_eq_ok, ofEntries_eq_ok_iff, Lists]
  constructor
  · rintro ⟨found, hfound, entries, hentries, hrs⟩
    exact ⟨entries, ⟨found, hfound, hentries⟩, hrs⟩
  · rintro ⟨entries, ⟨found, hfound, hentries⟩, hrs⟩
    exact ⟨found, hfound, entries, hentries, hrs⟩

theorem Declares.exists_operands {index : Nat} {entry : Value} {r : Registration}
    (h : Declares index entry r) : ∃ ns : List Int, r.operands = .list (ns.map .int) := by
  obtain ⟨-, -, ns, -, -, -, hoperands⟩ := h.operands
  exact ⟨ns, hoperands⟩

end Registration

end EventDialects
