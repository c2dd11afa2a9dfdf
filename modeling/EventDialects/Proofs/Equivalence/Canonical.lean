import EventDialects.Equivalence.Table
import EventDialects.Proofs.Value.Entries

/-!
# Canonical names and canonical arguments

A member of an equivalence class renames the slots of its event and may ignore some of them.  An
ignored slot is left out only if the other record has no slot of the same canonical name, so what a
record contributes to a comparison depends on the other record.

The functions that compute this check on the way whether names can be keys, and put the arguments
into a mapping one after the other.  `Member.Keys` says when they succeed, which they always do on
names, and what they compute then has a plain form: `Member.canonical` renames, `Member.omits` says
what is left out, and `Member.canonicalize` does both to all entries at once.

* `RenamesNames.keys`: **on names nothing is refused**.
* `checkKeys_canonicalNames_iff`, `canonicalArguments_of_keys`: what is computed otherwise.
* `canonicalize_ofPairs`: if no two slots get equal canonical names, it does not matter whether the
  arguments are put into a mapping before or after the renaming.
-/

namespace EventDialects

namespace Member

def canonical (m : Member) (slot : Value) : Value :=
  ((m.rename.reverse.find? fun p => p.1.equal slot).map (·.2)).getD slot

/-- Whether a slot is left out against a record with other canonical names. -/
def omits (m : Member) (others : List Value) (slot : Value) : Bool :=
  m.ignore.any (·.equal slot) && !others.any (·.equal (m.canonical slot))

/-- The entries that are not left out, under their canonical names. -/
def canonicalize (m : Member) (others : List Value) (es : Entries) : Entries :=
  (es.filter fun e => !m.omits others e.1).map fun e => (m.canonical e.1, e.2)

/-- A member **renames names** if what the slots that it renames are called, here and in the class,
can be keys. -/
def RenamesNames (m : Member) : Prop := ∀ p ∈ m.rename, p.1.hashable ∧ p.2.hashable

instance (m : Member) : Decidable m.RenamesNames :=
  inferInstanceAs (Decidable (∀ p ∈ m.rename, p.1.hashable ∧ p.2.hashable))

variable {m : Member}

/-! ### Renaming -/

theorem canonical_eq_or (m : Member) (slot : Value) :
    m.canonical slot = slot ∨ ∃ p ∈ m.rename, m.canonical slot = p.2 := by
  rw [canonical]
  cases h : m.rename.reverse.find? fun p => p.1.equal slot with
  | none => exact Or.inl rfl
  | some p => exact Or.inr ⟨p, List.mem_reverse.mp (List.mem_of_find?_eq_some h), rfl⟩

theorem hashable_canonical (hm : m.RenamesNames) {slot : Value} (h : slot.hashable) :
    (m.canonical slot).hashable := by
  rcases m.canonical_eq_or slot with he | ⟨p, hp, he⟩
  · rw [he]
    exact h
  · rw [he]
    exact (hm p hp).2

/-- Equal slots have equal canonical names: the same renaming is found for both, or none. -/
theorem canonical_congr {x y : Value} (h : x.equal y) :
    (m.canonical x).equal (m.canonical y) := by
  have hfind : (m.rename.reverse.find? fun p => p.1.equal x) =
      m.rename.reverse.find? fun p => p.1.equal y := by
    rw [funext fun p : Value × Value => Value.equal_congr_right h p.1]
  rw [canonical, canonical, hfind]
  cases hp : m.rename.reverse.find? fun p => p.1.equal y with
  | none => exact h
  | some p => exact Value.equal_self p.2

theorem omits_congr (others : List Value) {x y : Value} (h : x.equal y) :
    m.omits others x = m.omits others y := by
  have hxy := canonical_congr (m := m) h
  rw [omits, omits, funext fun z => Value.equal_congr_right h z,
    funext fun z => Value.equal_congr_right hxy z]

/-! ### What is refused -/

/-- A member can look a slot up, and use its canonical name as a key. -/
structure Keys (m : Member) (slot : Value) : Prop where
  renamed : Value.checkKeys (m.rename.map (·.1)) = .ok ()
  hashable : slot.hashable
  canonical : (m.canonical slot).hashable

theorem RenamesNames.keys (hm : m.RenamesNames) {slot : Value} (h : slot.hashable) :
    m.Keys slot := by
  refine ⟨?_, h, hashable_canonical hm h⟩
  rw [Value.checkKeys_eq_ok_iff]
  intro v hv
  obtain ⟨p, hp, rfl⟩ := List.mem_map.mp hv
  exact (hm p hp).1

theorem canonicalName_eq_ok_iff {slot name : Value} : m.canonicalName slot = .ok name ↔
    (Value.checkKeys (m.rename.map (·.1)) = .ok () ∧ slot.hashable) ∧ name = m.canonical slot := by
  rw [canonicalName, Attempt.bind_eq_ok, ← Value.checkKey_eq_ok_iff]
  constructor
  · rintro ⟨_, hrename, h⟩
    obtain ⟨_, hslot, h⟩ := Attempt.bind_eq_ok.mp h
    cases h
    exact ⟨⟨hrename, hslot⟩, rfl⟩
  · rintro ⟨⟨hrename, hslot⟩, rfl⟩
    exact ⟨(), hrename, Attempt.bind_eq_ok.mpr ⟨(), hslot, rfl⟩⟩

theorem canonicalNames_eq_ok_iff {slots : List Value} : ∀ {names : List Value},
    m.canonicalNames slots = .ok names ↔
      (∀ slot ∈ slots, Value.checkKeys (m.rename.map (·.1)) = .ok () ∧ slot.hashable) ∧
        names = slots.map m.canonical := by
  induction slots with
  | nil =>
    intro names
    constructor
    · intro h
      cases h
      exact ⟨fun _ hslot => absurd hslot List.not_mem_nil, rfl⟩
    · rintro ⟨-, rfl⟩
      rfl
  | cons slot slots ih =>
    intro names
    simp only [canonicalNames, Attempt.bind_eq_ok, canonicalName_eq_ok_iff, ih, pure, Except.pure,
      Except.ok.injEq, List.forall_mem_cons, List.map_cons]
    constructor
    · rintro ⟨_, ⟨hslot, rfl⟩, _, ⟨hslots, rfl⟩, rfl⟩
      exact ⟨⟨hslot, hslots⟩, rfl⟩
    · rintro ⟨⟨hslot, hslots⟩, rfl⟩
      exact ⟨_, ⟨hslot, rfl⟩, _, ⟨hslots, rfl⟩, rfl⟩

/-- The canonical names of some slots can be gathered, and all be keys, exactly if the member can
look all slots up. -/
theorem checkKeys_canonicalNames_iff {slots names : List Value} :
    m.canonicalNames slots = .ok names ∧ Value.checkKeys names = .ok () ↔
      (∀ slot ∈ slots, m.Keys slot) ∧ names = slots.map m.canonical := by
  rw [canonicalNames_eq_ok_iff]
  constructor
  · rintro ⟨⟨hslots, rfl⟩, hnames⟩
    rw [Value.checkKeys_eq_ok_iff, List.forall_mem_map] at hnames
    exact ⟨fun slot hslot => ⟨(hslots slot hslot).1, (hslots slot hslot).2, hnames slot hslot⟩, rfl⟩
  · rintro ⟨hslots, rfl⟩
    refine ⟨⟨fun slot hslot => ?_, rfl⟩, ?_⟩
    · exact ⟨(hslots slot hslot).renamed, (hslots slot hslot).hashable⟩
    · rw [Value.checkKeys_eq_ok_iff, List.forall_mem_map]
      exact fun slot hslot => (hslots slot hslot).canonical

theorem drops_of_keys {slot : Value} (h : m.Keys slot) (others : List Value) :
    m.drops others slot (m.canonical slot) = .ok (m.omits others slot) := by
  have hslot := Value.checkKey_eq_ok_iff.mpr h.hashable
  have hname := Value.checkKey_eq_ok_iff.mpr h.canonical
  rw [drops, omits, hslot]
  cases m.ignore.any (·.equal slot) with
  | false => rfl
  | true =>
    simp only [if_true, hname]
    rfl

theorem canonicalize_cons (m : Member) (others : List Value) (e : Value × Value) (es : Entries) :
    m.canonicalize others (e :: es) = if m.omits others e.1 then m.canonicalize others es
      else (m.canonical e.1, e.2) :: m.canonicalize others es := by
  rw [canonicalize, List.filter_cons]
  cases m.omits others e.1 <;> rfl

/-- The loop puts the arguments that are not left out into the mapping, one after the other. -/
theorem collect_of_keys (others : List Value) {ps : List (Value × Value)} : ∀ {es : Entries},
    (∀ p ∈ ps, m.Keys p.1) → m.collect others es ps =
      .ok ((m.canonicalize others ps).foldl (fun es p => es.insert p.1 p.2) es) := by
  induction ps with
  | nil => intro es _; rfl
  | cons p ps ih =>
    intro es h
    obtain ⟨slot, v⟩ := p
    obtain ⟨hp, hps⟩ := List.forall_mem_cons.mp h
    have hname := canonicalName_eq_ok_iff.mpr ⟨⟨hp.renamed, hp.hashable⟩, rfl⟩
    have hkey := Value.checkKey_eq_ok_iff.mpr hp.canonical
    rw [collect, hname, canonicalize_cons]
    simp only [bind, Except.bind, drops_of_keys hp others]
    cases m.omits others slot with
    | true => exact ih hps
    | false =>
      simp only [hkey]
      exact ih hps

/-- The canonical arguments of a record are its named arguments without those that are left out, put
into a mapping under their canonical names. -/
theorem canonicalArguments_of_keys (others : List Value) {r : Record}
    (h : ∀ slot ∈ r.slotNames, m.Keys slot) : m.canonicalArguments r others =
      .ok (Entries.ofPairs (m.canonicalize others r.named)) :=
  collect_of_keys others fun p hp => h p.1 (List.of_mem_zip hp).1

/-! ### Before and after the renaming -/

/-- A member **keeps** some slots **apart** if no two of them have equal canonical names. -/
def KeepsApart (m : Member) (slots : List Value) : Prop :=
  ∀ x ∈ slots, ∀ y ∈ slots, (m.canonical x).equal (m.canonical y) → x.equal y

instance (m : Member) (slots : List Value) : Decidable (m.KeepsApart slots) :=
  inferInstanceAs (Decidable (∀ x ∈ slots, ∀ y ∈ slots,
    (m.canonical x).equal (m.canonical y) → x.equal y))

theorem canonicalize_insert_of_omits {others : List Value} {slot : Value}
    (hslot : m.omits others slot) (es : Entries) (v : Value) :
    m.canonicalize others (es.insert slot v) = m.canonicalize others es := by
  induction es with
  | nil => rw [Entries.insert, canonicalize_cons, if_pos hslot]
  | cons e es ih =>
    rw [Entries.insert]
    by_cases he : e.1.equal slot
    · have homits : m.omits others e.1 := (omits_congr others he).trans hslot
      rw [if_pos he, canonicalize_cons, if_pos homits, canonicalize_cons, if_pos homits]
    · rw [if_neg he, canonicalize_cons, canonicalize_cons, ih]

theorem canonicalize_insert_of_not_omits {others : List Value} {slot : Value}
    (hslot : ¬ m.omits others slot) {es : Entries}
    (hes : ∀ e ∈ es, (m.canonical e.1).equal (m.canonical slot) → e.1.equal slot) (v : Value) :
    m.canonicalize others (es.insert slot v) =
      (m.canonicalize others es).insert (m.canonical slot) v := by
  induction es with
  | nil =>
    rw [Entries.insert, canonicalize_cons, if_neg hslot]
    rfl
  | cons e es ih =>
    obtain ⟨hinj, hes⟩ := List.forall_mem_cons.mp hes
    rw [Entries.insert, canonicalize_cons m others e es]
    by_cases he : e.1.equal slot
    · have homits : ¬ m.omits others e.1 := by
        rw [omits_congr others he]
        exact hslot
      rw [if_pos he, if_neg homits, canonicalize_cons, if_neg homits, Entries.insert,
        if_pos (canonical_congr he)]
    · rw [if_neg he, canonicalize_cons, ih hes]
      by_cases homits : m.omits others e.1
      · rw [if_pos homits, if_pos homits]
      · rw [if_neg homits, if_neg homits, Entries.insert, if_neg fun h => he (hinj h)]

/-- If a member keeps slots apart, it does not matter whether their arguments are put into a mapping
before or after the renaming.  The induction is on the arguments, over any mapping that they are put
into: all its keys are slots too, so that they are kept apart from the next one. -/
theorem foldl_insert_canonicalize {slots : List Value}
    (hapart : m.KeepsApart slots) (others : List Value) {ps : List (Value × Value)} :
    ∀ {es : Entries}, (∀ p ∈ ps, p.1 ∈ slots) → (∀ e ∈ es, e.1 ∈ slots) →
      (m.canonicalize others ps).foldl (fun es p => es.insert p.1 p.2) (m.canonicalize others es) =
        m.canonicalize others (ps.foldl (fun es p => es.insert p.1 p.2) es) := by
  induction ps with
  | nil => intro es _ _; rfl
  | cons p ps ih =>
    intro es hps hes
    obtain ⟨hp, hps⟩ := List.forall_mem_cons.mp hps
    have hes' : ∀ e ∈ es.insert p.1 p.2, e.1 ∈ slots := fun e he =>
      (Entries.forall_mem_insert (fun e he => ⟨hes e he, trivial⟩) hp
        (q := fun _ => True) trivial e he).1
    rw [List.foldl_cons, ← ih hps hes', canonicalize_cons]
    by_cases homits : m.omits others p.1
    · rw [if_pos homits, canonicalize_insert_of_omits homits]
    · have hinj : ∀ e ∈ es, (m.canonical e.1).equal (m.canonical p.1) → e.1.equal p.1 :=
        fun e he => hapart e.1 (hes e he) p.1 hp
      rw [if_neg homits, List.foldl_cons, canonicalize_insert_of_not_omits homits hinj]

theorem canonicalize_ofPairs {slots : List Value}
    (hapart : m.KeepsApart slots) (others : List Value) {ps : List (Value × Value)}
    (h : ∀ p ∈ ps, p.1 ∈ slots) : Entries.ofPairs (m.canonicalize others ps) =
      m.canonicalize others (Entries.ofPairs ps) :=
  foldl_insert_canonicalize hapart others h fun _ he => absurd he List.not_mem_nil

end Member

end EventDialects
