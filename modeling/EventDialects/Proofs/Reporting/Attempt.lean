import EventDialects.Proofs.Definition.Slot
import EventDialects.Proofs.Value.Entries
import Mathlib.Data.List.Induction

/-!
# What is reported

An operation that goes through a document can succeed, or be refused by an error that says what is
wrong with the document; or a part of the document is not what the operation takes it for, or cannot
be printed where it has to be, and the mistake comes out raw.  An attempt **reports** under a
condition if the last happens exactly when the condition fails (`Attempt.Reports`).  Conditions are
put together as attempts are: one after the other, and in a run over a list.  A run stops at the first
element that is refused, so only of the elements that are **come to** anything is asked
(`EachComeTo`).

* `Attempt.reports_refuse`: a refusal reports if its message can be printed.
* `Attempt.Reports.bind`: **one after the other**.
* `Attempt.reports_run`: **a run** over a list reports if each element that is come to is readable.
* `Value.reports_elements`, `Value.reports_mapping`: **elements and mappings** in a document.
-/

namespace EventDialects

namespace Attempt

variable {α β : Type} {x : Attempt α} {K : Refusal → Prop} {P Q : Prop}

/-- An attempt **reports** by some refusals under a condition: if the condition holds, it succeeds or
is refused by one of them with a message that can be printed, and otherwise it fails by a misuse. -/
structure Reports (x : Attempt α) (K : Refusal → Prop) (P : Prop) : Prop where
  reported : P → (∃ a, x = .ok a) ∨ ∃ r, K r ∧ r.printable ∧ x = .error (.refused r)
  misused : ¬ P → ∃ m, x = misused m

theorem reports_ok (a : α) (h : P) : Reports (.ok a) K P :=
  ⟨fun _ => .inl ⟨a, rfl⟩, fun hP => absurd h hP⟩

theorem reports_refuse {r : Refusal} (hr : K r) (h : r.printable ↔ P) :
    Reports (refuse r : Attempt α) K P :=
  ⟨fun hP => .inr ⟨r, hr, h.mpr hP, refuse_of_printable (h.mpr hP)⟩,
    fun hP => ⟨.tooLong, refuse_of_not_printable (Bool.eq_false_iff.mpr (mt h.mp hP))⟩⟩

theorem reports_refuse_of_printable {r : Refusal} (hr : K r) (hprint : r.printable) (h : P) :
    Reports (refuse r : Attempt α) K P :=
  reports_refuse hr (iff_of_true hprint h)

theorem reports_misused (m : Misuse) (h : ¬ P) : Reports (misused m : Attempt α) K P :=
  ⟨fun hP => absurd hP h, fun _ => ⟨m, rfl⟩⟩

theorem Reports.congr (h : x.Reports K P) (hPQ : P ↔ Q) : x.Reports K Q :=
  ⟨fun hQ => h.reported (hPQ.mpr hQ), fun hQ => h.misused (mt hPQ.mp hQ)⟩

/-- **One after the other**: the second attempt must report with what the first one gave. -/
theorem Reports.bind {f : α → Attempt β} {Q : α → Prop} (hx : x.Reports K P)
    (hf : ∀ a, x = .ok a → (f a).Reports K (Q a)) :
    (x >>= f : Attempt β).Reports K (P ∧ ∀ a, x = .ok a → Q a) := by
  constructor
  · rintro ⟨hP, hQ⟩
    rcases hx.reported hP with ⟨a, rfl⟩ | ⟨r, hr, hprint, rfl⟩
    · exact (hf a rfl).reported (hQ a rfl)
    · exact .inr ⟨r, hr, hprint, rfl⟩
  · intro h
    by_cases hP : P
    · obtain ⟨a, ha⟩ := not_forall.mp fun hQ => h ⟨hP, hQ⟩
      obtain ⟨hx, hQ⟩ := Classical.not_imp.mp ha
      rw [hx]
      exact (hf a hx).misused hQ
    · obtain ⟨m, rfl⟩ := hx.misused hP
      exact ⟨m, rfl⟩

theorem Reports.bind_true {f : α → Attempt β} (hx : x.Reports K P)
    (hf : ∀ a, x = .ok a → (f a).Reports K True) : (x >>= f : Attempt β).Reports K P :=
  (hx.bind hf).congr (and_iff_left fun _ _ => trivial)

theorem Reports.bind_exists {f : α → Attempt β} {Q : α → Prop} (hx : x.Reports K (∃ a, x = .ok a))
    (hf : ∀ a, x = .ok a → (f a).Reports K (Q a)) :
    (x >>= f : Attempt β).Reports K (∃ a, x = .ok a ∧ Q a) := by
  refine (hx.bind hf).congr ⟨fun ⟨⟨a, ha⟩, hQ⟩ => ⟨a, ha, hQ a ha⟩, ?_⟩
  rintro ⟨a, ha, hQ⟩
  refine ⟨⟨a, ha⟩, fun b hb => ?_⟩
  rwa [← Except.ok.inj (ha.symm.trans hb)]

/-- A **check** gives nothing but that it was passed. -/
theorem Reports.check {x : Attempt Unit} {y : Attempt β} {R : Prop} (hx : x.Reports K P)
    (hpassed : x = .ok () ↔ Q) (hy : y.Reports K R) :
    (x >>= fun _ => y : Attempt β).Reports K (P ∧ (Q → R)) := by
  refine (hx.bind fun _ _ => hy).congr (and_congr_right fun _ => ?_)
  exact ⟨fun h hQ => h () (hpassed.mpr hQ), fun h _ hok => h (hpassed.mp hok)⟩

/-! ### Runs -/

variable {σ : Type}

/-- In a run over a list, something holds of **each element that is come to**: of every one for which
the run over the elements before it succeeds, and of what that run gave. -/
def EachComeTo (run : List α → Attempt σ) (p : σ → α → Prop) (xs : List α) : Prop :=
  ∀ before x after s, xs = before ++ x :: after → run before = .ok s → p s x

theorem eachComeTo_of_forall {run : List α → Attempt σ} {p : σ → α → Prop} {xs : List α}
    (h : ∀ x ∈ xs, ∀ s, p s x) : EachComeTo run p xs := by
  rintro before x after s rfl -
  exact h x (List.mem_append_right before List.mem_cons_self) s

theorem eachComeTo_concat {run : List α → Attempt σ} {p : σ → α → Prop} {xs : List α} {x : α} :
    EachComeTo run p (xs ++ [x]) ↔ EachComeTo run p xs ∧ ∀ s, run xs = .ok s → p s x := by
  constructor
  · intro h
    refine ⟨fun before y after s hxs => h before y (after ++ [x]) s ?_, fun s => h xs x [] s rfl⟩
    rw [hxs, List.append_assoc, List.cons_append]
  · rintro ⟨hxs, hx⟩ before y after s hsplit hrun
    rcases List.eq_nil_or_concat after with rfl | ⟨after, z, rfl⟩
    · obtain ⟨rfl, hy⟩ := List.append_inj' hsplit rfl
      obtain rfl := (List.cons.inj hy).1
      exact hx s hrun
    · rw [List.concat_eq_append, ← List.cons_append, ← List.append_assoc] at hsplit
      exact hxs before y after s (List.append_inj' hsplit rfl).1 hrun

/-- **A run reports** if each element that is come to is readable.  The induction is from the end of
the list: a run over one element more is the run so far and one step after it. -/
theorem reports_run {run : List α → Attempt σ} {p : σ → α → Prop} (hnil : ∃ s, run [] = .ok s)
    (hconcat : ∀ xs x, ∃ step : σ → Attempt σ, run (xs ++ [x]) = run xs >>= step ∧
      ∀ s, run xs = .ok s → (step s).Reports K (p s x)) (xs : List α) :
    (run xs).Reports K (EachComeTo run p xs) := by
  induction xs using List.reverseRecOn with
  | nil =>
    obtain ⟨s, hs⟩ := hnil
    rw [hs]
    exact reports_ok s (eachComeTo_of_forall fun _ hx => absurd hx List.not_mem_nil)
  | append_singleton xs x ih =>
    obtain ⟨step, hrun, hstep⟩ := hconcat xs x
    rw [hrun]
    exact (ih.bind hstep).congr eachComeTo_concat.symm

/-- Entries that are read one by one, each at its place, are those of a list without the last one,
and the last one. -/
theorem load_concat {load : Nat → List α → Attempt (List β)} {one : Nat → α → Attempt β}
    (hnil : ∀ i, load i [] = .ok [])
    (hcons : ∀ i x xs, load i (x :: xs) =
      one i x >>= fun b => load (i + 1) xs >>= fun bs => .ok (b :: bs)) (i : Nat) (xs : List α)
    (x : α) : load i (xs ++ [x]) =
      load i xs >>= fun bs => one (i + xs.length) x >>= fun b => .ok (bs ++ [b]) := by
  induction xs generalizing i with
  | nil =>
    rw [List.nil_append, hcons, hnil]
    simp only [bind, Except.bind, hnil, List.length_nil, Nat.add_zero, List.nil_append]
  | cons y xs ih =>
    have hplace : i + 1 + xs.length = i + (xs.length + 1) := by omega
    rw [List.cons_append, hcons, hcons, ih, List.length_cons, hplace]
    simp only [bind, Except.bind]
    cases one i y with
    | error e => rfl
    | ok b =>
      cases load (i + 1) xs with
      | error e => rfl
      | ok bs => cases one (i + (xs.length + 1)) x <;> rfl

/-- **Entries that are read one by one** report if each that is come to is readable. -/
theorem reports_load {load : Nat → List α → Attempt (List β)} {one : Nat → α → Attempt β}
    (hnil : ∀ i, load i [] = .ok [])
    (hcons : ∀ i x xs, load i (x :: xs) =
      one i x >>= fun b => load (i + 1) xs >>= fun bs => .ok (b :: bs))
    {p : α → Prop} (hone : ∀ i x, (one i x).Reports K (p x)) (i : Nat) (xs : List α) :
    (load i xs).Reports K (EachComeTo (load i) (fun _ x => p x) xs) := by
  refine reports_run ⟨[], hnil i⟩ (fun xs x => ⟨_, load_concat hnil hcons i xs x, fun bs _ => ?_⟩) xs
  exact (hone _ x).bind_true fun b _ => reports_ok _ trivial

end Attempt

open Attempt

namespace Value

/-! ### The parts of a document -/

variable {K : Refusal → Prop}

/-- A value **lacks** a name if one can be looked for in it, and it is not there. -/
def Lacks (v : Value) (name : String) : Prop := v.holds name = .ok false

theorem lacks_map_iff {es : Entries} {name : String} :
    (Value.map es).Lacks name ↔ es.lookup? (.str name) = none := by
  rw [Lacks, holds_map, Except.ok.injEq, Option.isSome_eq_false_iff, Option.isNone_iff_eq_none]

theorem holds_cases (v : Value) (name : String) :
    (∃ b, v.holds name = .ok b) ∨ ∃ m, v.holds name = misused m := by
  cases v <;> first | exact .inl ⟨_, rfl⟩ | exact .inr ⟨_, rfl⟩

theorem exists_holds {v : Value} {name : String} {b : Bool} (h : v.holds name = .ok b)
    (other : String) : ∃ b', v.holds other = .ok b' := by
  cases v <;> first | exact ⟨_, rfl⟩ | cases h

/-- A value is a mapping with something under a name, or it is taken for one without. -/
theorem hasEntry_cases (v : Value) (name : String) :
    (∃ es found, v = .map es ∧ Entries.lookup? es (.str name) = some found) ∨
      v.hasEntry name = false ∧ ∀ es, v = .map es → Entries.lookup? es (.str name) = none := by
  cases v with
  | map es =>
    cases hfound : Entries.lookup? es (.str name) with
    | some found => exact .inl ⟨es, found, rfl, hfound⟩
    | none =>
      refine .inr ⟨by rw [hasEntry_map, hfound, Option.isSome_none], fun es' hes => ?_⟩
      cases hes
      exact hfound
  | _ =>
    refine .inr ⟨rfl, fun es hes => ?_⟩
    cases hes

theorem exists_map_iff {es : Entries} {p : Entries → Prop} :
    (∃ es', Value.map es = .map es' ∧ p es') ↔ p es := by
  simp only [map.injEq, exists_eq_left']

/-- A value **gives** some elements: those that it is gone through by, and none if it does not count
as true. -/
def Gives (v : Value) (xs : List Value) : Prop :=
  if v.truthy then v.iterate = .ok xs else xs = []

theorem reports_iterate (v : Value) : v.iterate.Reports K (∃ xs, v.iterate = .ok xs) := by
  cases hv : v.iterate with
  | ok xs => exact reports_ok xs ⟨xs, rfl⟩
  | error e =>
    obtain ⟨m, rfl⟩ : ∃ m, e = .misuse m := by
      cases v with
      | variant f raw =>
        rw [iterate] at hv
        split at hv
        · cases hv
        · cases hv
          exact ⟨_, rfl⟩
      | _ => cases hv <;> exact ⟨_, rfl⟩
    refine reports_misused m ?_
    rintro ⟨xs, hxs⟩
    cases hxs

/-- What is found under a name of a mapping gives the elements that the mapping is read for. -/
theorem elements_eq_ok_iff {es : Entries} {name : String} {empty : Value}
    (hempty : empty.iterate = .ok []) {xs : List Value} :
    ((Value.map es).entryOrEmpty name empty >>= iterate) = .ok xs ↔
      (es.getOr name .null).Gives xs := by
  change iterate (if (es.getOr name .null).truthy then es.getOr name .null else empty) = .ok xs ↔ _
  by_cases htruthy : (es.getOr name .null).truthy
  · rw [Gives, if_pos htruthy, if_pos htruthy]
  · rw [Gives, if_neg htruthy, if_neg htruthy, hempty, Except.ok.injEq, eq_comm]

/-- **Elements can be had** of a mapping if what is found under the name gives some, and what comes
after must report with them. -/
theorem reports_elements {β : Type} (es : Entries) (name : String) {empty : Value}
    (hempty : empty.iterate = .ok []) {f : List Value → Attempt β} {Q : List Value → Prop}
    (hf : ∀ xs, (f xs).Reports K (Q xs)) :
    (((Value.map es).entryOrEmpty name empty >>= iterate) >>= f : Attempt β).Reports K
      (∃ xs, (es.getOr name .null).Gives xs ∧ Q xs) := by
  have hx : ((Value.map es).entryOrEmpty name empty >>= iterate).Reports K
      (∃ xs, ((Value.map es).entryOrEmpty name empty >>= iterate) = .ok xs) := reports_iterate _
  refine (hx.bind_exists fun xs _ => hf xs).congr (exists_congr fun xs => and_congr_left fun _ => ?_)
  exact elements_eq_ok_iff hempty

/-- Elements can be had **of a value** if it is a mapping and they can be had of that. -/
theorem reports_elements_of {β : Type} (v : Value) (name : String) {empty : Value}
    (hempty : empty.iterate = .ok []) {f : List Value → Attempt β} {Q : List Value → Prop}
    (hf : ∀ xs, (f xs).Reports K (Q xs)) :
    ((v.entryOrEmpty name empty >>= iterate) >>= f : Attempt β).Reports K
      (∃ es, v = .map es ∧ ∃ xs, (Entries.getOr es name .null).Gives xs ∧ Q xs) := by
  cases v with
  | map es =>
    rw [exists_map_iff]
    exact reports_elements es name hempty hf
  | _ =>
    refine reports_misused _ ?_
    rintro ⟨es, hes, -⟩
    cases hes

theorem reports_entries (v : Value) : v.entries.Reports K (∃ es, v.entries = .ok es) := by
  cases v with
  | map es => exact reports_ok es ⟨es, rfl⟩
  | _ =>
    refine reports_misused _ ?_
    rintro ⟨es, hes⟩
    cases hes

/-- A value **maps** some keys to values if it is a mapping of them; one that does not count as true
maps none. -/
def Maps (v : Value) (es : Entries) : Prop := v.truthy = false ∧ es = [] ∨ v = .map es

theorem maps_iff {v : Value} {es : Entries} :
    v.Maps es ↔ (if v.truthy then v else .map []) = .map es := by
  cases htruthy : v.truthy with
  | false =>
    constructor
    · rintro (⟨-, rfl⟩ | rfl)
      · rfl
      · cases es with
        | nil => rfl
        | cons => cases htruthy
    · intro h
      cases h
      exact .inl ⟨htruthy, rfl⟩
  | true =>
    refine ⟨fun h => h.resolve_left fun hfalse => ?_, .inr⟩
    cases htruthy.symm.trans hfalse.1

/-- What is found under a name of a mapping maps the keys that the mapping is read for. -/
theorem entries_eq_ok_iff {es fs : Entries} {name : String} :
    ((Value.map es).entryOrEmpty name (.map []) >>= entries) = .ok fs ↔
      (es.getOr name .null).Maps fs := by
  change entries (if (es.getOr name .null).truthy then es.getOr name .null else .map []) = _ ↔ _
  rw [maps_iff]
  generalize (if (es.getOr name .null).truthy then es.getOr name .null else .map []) = found
  cases found <;> simp [entries, misused]

/-- **A mapping can be had** of a mapping if what is found under the name is one, and what comes after
must report with it. -/
theorem reports_mapping {β : Type} (es : Entries) (name : String) {f : Entries → Attempt β}
    {Q : Entries → Prop} (hf : ∀ fs, (f fs).Reports K (Q fs)) :
    (((Value.map es).entryOrEmpty name (.map []) >>= entries) >>= f : Attempt β).Reports K
      (∃ fs, (es.getOr name .null).Maps fs ∧ Q fs) := by
  have hx : ((Value.map es).entryOrEmpty name (.map []) >>= entries).Reports K
      (∃ fs, ((Value.map es).entryOrEmpty name (.map []) >>= entries) = .ok fs) := reports_entries _
  refine (hx.bind_exists fun fs _ => hf fs).congr (exists_congr fun fs => and_congr_left fun _ => ?_)
  exact entries_eq_ok_iff

/-! ### Printing -/

theorem printable_of_showable {v : Value} (h : v.showable) : v.printable := by
  cases v with
  | variant f raw => exact Bool.or_eq_true_iff.mpr (.inr h)
  | _ => exact h

theorem printable_of_lookup? {es : Entries} (h : (Value.map es).printable) {name : String} {v : Value}
    (hv : es.lookup? (.str name) = some v) : v.printable := by
  obtain ⟨e, he, rfl⟩ := Option.map_eq_some_iff.mp hv
  exact printable_of_showable (entriesShowable_iff.mp h e (List.mem_of_find?_eq_some he)).2

/-- **Printing** a value reports if it can be printed, and what comes after must then report with its
text. -/
theorem reports_print {β : Type} {v : Value} {f : String → Attempt β} {Q : Prop}
    (hf : v.printable → (f v.text).Reports K Q) :
    (v.print >>= f : Attempt β).Reports K (v.printable ∧ Q) := by
  rw [print]
  split
  · exact (hf ‹_›).congr (and_iff_right ‹_›).symm
  · exact reports_misused .tooLong fun h => absurd h.1 ‹_›

/-- Reading a revision reports if it can be printed, and what comes after must then report with it. -/
theorem reports_read {β : Type} {v : Value} {f : Revision → Attempt β} {Q : Prop}
    (hf : (f (.ofValue v)).Reports K Q) :
    (Revision.read v >>= f : Attempt β).Reports K (v.printable ∧ Q) := by
  rw [Revision.read]
  split
  · exact hf.congr (and_iff_right ‹_›).symm
  · exact reports_misused .tooLong fun h => absurd h.1 ‹_›

/-! ### Keys -/

theorem checkKey_of_not_hashable {v : Value} (h : ¬ v.hashable) :
    v.checkKey = misused (.unhashable v.typeName) :=
  if_neg h

theorem reports_checkKey (v : Value) : v.checkKey.Reports K v.hashable := by
  by_cases h : v.hashable
  · rw [checkKey_eq_ok_iff.mpr h]
    exact reports_ok () h
  · rw [checkKey_of_not_hashable h]
    exact reports_misused _ h

theorem reports_checkKeys (vs : List Value) :
    (checkKeys vs).Reports K (∀ v ∈ vs, v.hashable) := by
  induction vs with
  | nil => exact reports_ok () fun _ h => absurd h List.not_mem_nil
  | cons v vs ih =>
    rw [checkKeys, List.forall_mem_cons]
    refine ((reports_checkKey v).check checkKey_eq_ok_iff ih).congr ?_
    exact and_congr_right fun hv => imp_iff_right hv

end Value

end EventDialects
