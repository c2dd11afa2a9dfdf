import EventDialects.Proofs.Codec.Domain
import EventDialects.Proofs.Registry.Loading

/-!
# Which loaded events can be decoded

Loading a definition checks the kind, the decoder and the fields of each slot.  The width of a slot
is taken as it is written, and so is a number of fields that is equal to a whole one without being
one.  Both show themselves only when operands are decoded: a width that is none has no range, and a
slice of the operands needs a whole number.

A slot is **sound** if neither can happen.  Operands that are all zero tell whether the slots of an
event are sound: zero is within every range and has a variant for every decoder that a definition
may name, so nothing is left that zeros could be refused for.

A refusal names the slot and the operand.  The name of an event is printed when it is loaded, but
that of a slot is not, and it may be a number that is too long, as an operand may.

* `Slot.exists_range_iff`: which widths have a range.
* `Schema.decodeSlots_zeros`: zeros are never refused.
* `Table.declared_of_build`: what loading a definition has checked of every event.
* `Table.reports_of_build`: **loaded events whose slots are sound decode or report**, and no others.
-/

namespace EventDialects

namespace Slot

/-! ### Slots that a definition declares -/

theorem make_eq_ok {name bits signed fields : Value} {kind : SlotKind} {decoder : Option Decoder}
    {s : Slot} (h : make name kind decoder bits signed fields = .ok s) : s.decoder = decoder := by
  rw [make] at h
  split at h <;> cases h
  rfl

theorem mem_all_of_decoderOfEntry {source : String} {event entry : Value} {kind : SlotKind}
    {decoder : Option Decoder} (h : decoderOfEntry source event kind entry = .ok decoder) :
    ∀ d ∈ decoder, d ∈ Decoder.all := by
  intro d hd
  rw [decoderOfEntry] at h
  split at h
  · cases h
    cases hd
  · obtain ⟨name, -, h⟩ := Attempt.bind_eq_ok.mp h
    cases hname : Decoder.ofName name with
    | error e =>
      rw [hname] at h
      cases e <;> cases h
    | ok d' =>
      rw [hname] at h
      cases h
      cases hd
      obtain ⟨_, -, hfind⟩ := Attempt.bind_eq_ok.mp hname
      split at hfind <;> cases hfind
      exact List.mem_of_find?_eq_some ‹_›

theorem mem_all_of_ofEntry {source : String} {event bits entry : Value} {s : Slot}
    (h : ofEntry source event bits entry = .ok s) : ∀ d ∈ s.decoder, d ∈ Decoder.all := by
  rw [ofEntry] at h
  obtain ⟨named, -, h⟩ := Attempt.bind_eq_ok.mp h
  split at h
  · cases h
  · obtain ⟨kinded, -, h⟩ := Attempt.bind_eq_ok.mp h
    split at h
    · cases h
    · obtain ⟨kindName, -, h⟩ := Attempt.bind_eq_ok.mp h
      dsimp only at h
      split at h
      · cases h
      · obtain ⟨decoder, hdecoder, h⟩ := Attempt.bind_eq_ok.mp h
        obtain ⟨signed, -, h⟩ := Attempt.bind_eq_ok.mp h
        obtain ⟨name, -, h⟩ := Attempt.bind_eq_ok.mp h
        obtain ⟨bits, -, h⟩ := Attempt.bind_eq_ok.mp h
        obtain ⟨fields, -, h⟩ := Attempt.bind_eq_ok.mp h
        split at h <;> cases h
        rw [make_eq_ok ‹_›]
        exact mem_all_of_decoderOfEntry hdecoder

theorem mem_all_of_ofEntries {source : String} {event bits : Value} {entries : List Value} :
    ∀ {slots : List Slot}, ofEntries source event bits entries = .ok slots →
      ∀ s ∈ slots, ∀ d ∈ s.decoder, d ∈ Decoder.all := by
  induction entries with
  | nil =>
    intro slots h
    cases h
    exact fun _ hs => absurd hs List.not_mem_nil
  | cons entry entries ih =>
    intro slots h
    obtain ⟨s, hs, h⟩ := Attempt.bind_eq_ok.mp h
    obtain ⟨rest, hrest, h⟩ := Attempt.bind_eq_ok.mp h
    cases h
    exact List.forall_mem_cons.mpr ⟨mem_all_of_ofEntry hs, ih hrest⟩

/-! ### Sound slots -/

/-- The bits of a width that are left for the number itself. -/
def valueBits (s : Slot) (bits : Int) : Int := if s.signed.truthy then bits - 1 else bits

/-- A slot is **sound** if its fields are counted by a whole number, and if its width is one: a
whole number that, with the sign of signed operands put aside, is not negative and can be shifted by.
The operand of an undocumented slot is taken as it is, so that its width does not matter. -/
structure Sound (s : Slot) : Prop where
  fields : s.spanIsFloat = false
  width : s.kind ≠ .unknown → ∃ bits, s.bits.integer? = some bits ∧
    0 ≤ s.valueBits bits ∧ s.valueBits bits ≤ shiftLimit

theorem sound_iff {s : Slot} : s.Sound ↔ s.spanIsFloat = false ∧ (s.kind = .unknown ∨
    s.bits.integer?.any fun bits => 0 ≤ s.valueBits bits ∧ s.valueBits bits ≤ shiftLimit) := by
  simp only [Option.any_eq_true, decide_eq_true_eq, or_iff_not_imp_left]
  exact ⟨fun h => ⟨h.fields, h.width⟩, fun h => ⟨h.1, h.2⟩⟩

instance : DecidablePred Slot.Sound := fun _ => decidable_of_iff _ sound_iff.symm

theorem exists_wordCountOf_iff {bits : Int} :
    (∃ count, wordCountOf bits = .ok count) ↔ 0 ≤ bits ∧ bits ≤ shiftLimit := by
  simp only [wordCountOf_eq_ok]
  exact ⟨fun ⟨_, hpos, hle, _⟩ => ⟨hpos, hle⟩, fun ⟨hpos, hle⟩ => ⟨_, hpos, hle, rfl⟩⟩

theorem exists_range_iff {s : Slot} : (∃ low high, s.range = .ok (low, high)) ↔
    ∃ bits, s.bits.integer? = some bits ∧ 0 ≤ s.valueBits bits ∧ s.valueBits bits ≤ shiftLimit := by
  simp only [range_eq_ok, ← exists_wordCountOf_iff, valueBits]
  cases s.signed.truthy with
  | true =>
    constructor
    · rintro ⟨_, _, bits, hbits, half, hhalf, -⟩
      exact ⟨bits, hbits, half, hhalf⟩
    · rintro ⟨bits, hbits, half, hhalf⟩
      exact ⟨_, _, bits, hbits, half, hhalf, rfl, rfl⟩
  | false =>
    constructor
    · rintro ⟨_, _, bits, hbits, count, hcount, -⟩
      exact ⟨bits, hbits, count, hcount⟩
    · rintro ⟨bits, hbits, count, hcount⟩
      exact ⟨_, _, bits, hbits, count, hcount, rfl, rfl⟩

theorem wordCountOf_pos {bits count : Int} (h : wordCountOf bits = .ok count) : 0 < count := by
  obtain ⟨-, -, rfl⟩ := wordCountOf_eq_ok.mp h
  exact Int.natCast_pos.mpr (Nat.pow_pos (by decide))

theorem zero_mem_range {s : Slot} {low high : Int} (h : s.range = .ok (low, high)) :
    low ≤ 0 ∧ 0 ≤ high := by
  obtain ⟨bits, -, h⟩ := range_eq_ok.mp h
  split at h
  · obtain ⟨half, hhalf, rfl, rfl⟩ := h
    have := wordCountOf_pos hhalf
    omega
  · obtain ⟨count, hcount, rfl, rfl⟩ := h
    have := wordCountOf_pos hcount
    omega

theorem exists_range_of_checkWidth {s : Slot} {v : Value} (h : s.checkWidth v = .ok ()) :
    ∃ low high, s.range = .ok (low, high) := by
  obtain ⟨⟨low, high⟩, hrange, -⟩ := Attempt.bind_eq_ok.mp h
  exact ⟨low, high, hrange⟩

theorem exists_range_of_fitting {s : Slot} {raw : List Value} {v : Value}
    (h : s.fitting raw = .ok v) : ∃ low high, s.range = .ok (low, high) := by
  obtain ⟨_, -, h⟩ := Attempt.bind_eq_ok.mp h
  obtain ⟨_, hwidth, -⟩ := Attempt.bind_eq_ok.mp h
  exact exists_range_of_checkWidth hwidth

theorem span_pos (s : Slot) : 0 < s.span := by
  rw [span]
  split
  · split <;> decide
  · decide

/-- A slot that makes an argument of operands has a range, unless it takes them as they are. -/
theorem exists_range_of_argumentOf {s : Slot} {raw : List Value} {v : Value}
    (hk : s.kind ≠ .unknown) (hlen : raw.length = s.span) (h : s.argumentOf raw = .ok v) :
    ∃ low high, s.range = .ok (low, high) := by
  cases hs : s.kind with
  | unknown => exact absurd hs hk
  | coordinate =>
    cases raw with
    | nil => exact absurd hlen (Nat.ne_of_lt s.span_pos)
    | cons first rest =>
      obtain ⟨-, hwidths⟩ := (coordinate_eq_ok hs).mp h
      exact exists_range_of_checkWidth (checkWidths_cons.mp hwidths).1
  | rawInteger =>
    rw [argumentOf, hs] at h
    exact exists_range_of_fitting h
  | characterId | functionRef | stringRef | bitflags | enumValue =>
    rw [argumentOf, hs] at h
    obtain ⟨_, hfitting, -⟩ := Attempt.bind_eq_ok.mp h
    exact exists_range_of_fitting hfitting

end Slot

namespace Attempt

/-! ### Zeros -/

/-- An attempt is **never refused** if it succeeds or fails by a misuse. -/
def NeverRefused {α : Type} (x : Attempt α) : Prop := (∃ a, x = .ok a) ∨ ∃ m, x = misused m

theorem NeverRefused.bind {α β : Type} {x : Attempt α} {f : α → Attempt β} (hx : NeverRefused x)
    (hf : ∀ a, x = .ok a → NeverRefused (f a)) : NeverRefused (x >>= f) := by
  rcases hx with ⟨a, rfl⟩ | ⟨m, rfl⟩
  · exact hf a rfl
  · exact .inr ⟨m, rfl⟩

end Attempt

namespace Slot

open Attempt (NeverRefused)

theorem checkWidth_zero (s : Slot) : NeverRefused (s.checkWidth (.int 0)) := by
  cases hrange : s.range with
  | ok bounds => exact .inl ⟨(), checkWidth_eq_ok_iff.mpr ⟨_, _, hrange, zero_mem_range hrange⟩⟩
  | error e =>
    have hwidth : s.checkWidth (.int 0) = .error e := by rw [checkWidth, hrange]; rfl
    rw [hwidth]
    rcases range_eq_error hrange with rfl | rfl | rfl <;> exact .inr ⟨_, rfl⟩

theorem checkWidths_zeros (s : Slot) (k : Nat) :
    NeverRefused (s.checkWidths (List.replicate k (.int 0))) := by
  induction k with
  | zero => exact .inl ⟨(), rfl⟩
  | succ k ih => exact s.checkWidth_zero.bind fun _ _ => ih

theorem fitting_zeros (s : Slot) (k : Nat) :
    NeverRefused (s.fitting (List.replicate k (.int 0))) := by
  cases k with
  | zero => exact .inr ⟨_, rfl⟩
  | succ k => exact s.checkWidth_zero.bind fun _ _ => .inl ⟨_, rfl⟩

theorem eq_zero_of_fitting {s : Slot} {k : Nat} {v : Value}
    (h : s.fitting (List.replicate k (.int 0)) = .ok v) : v = .int 0 := by
  cases k with
  | zero => cases h
  | succ k => exact eq_of_fitting h

/-- The decoders that definitions may name have a variant for zero. -/
theorem exists_decode_zero {d : Decoder} (h : d ∈ Decoder.all) :
    ∃ v, d.decode (.int 0) = .ok v := by
  rw [Decoder.exists_decode_iff]
  simp only [Decoder.all, List.mem_cons, List.not_mem_nil, or_false] at h
  rcases h with rfl | rfl | rfl
  · exact (show (0 : Int) ∈ Family.spawnEffect.raws by decide)
  · exact (show (0 : Int) ∈ Family.cannonType.raws by decide)
  · exact ⟨Int.le_refl 0, Nat.zero_and _⟩

/-- A slot never refuses zeros. -/
theorem argumentOf_zeros {s : Slot} (hd : ∀ d ∈ s.decoder, d ∈ Decoder.all) (k : Nat) :
    NeverRefused (s.argumentOf (List.replicate k (.int 0))) := by
  cases hs : s.kind with
  | rawInteger => rw [argumentOf, hs]; exact s.fitting_zeros k
  | coordinate =>
    rw [argumentOf, hs]
    exact (s.checkWidths_zeros k).bind fun _ _ => .inl ⟨_, rfl⟩
  | characterId | functionRef | stringRef =>
    rw [argumentOf, hs]
    exact (s.fitting_zeros k).bind fun _ _ => .inl ⟨_, rfl⟩
  | bitflags | enumValue =>
    rw [argumentOf, hs]
    refine (s.fitting_zeros k).bind fun v hv => ?_
    obtain rfl := eq_zero_of_fitting hv
    cases hdecoder : s.decoder with
    | none => exact .inr ⟨_, rfl⟩
    | some d => exact .inl (exists_decode_zero (hd d hdecoder))
  | unknown =>
    rw [argumentOf, hs]
    cases k with
    | zero => exact .inr ⟨_, rfl⟩
    | succ k => exact .inl ⟨_, rfl⟩

end Slot

namespace Schema

open Attempt (NeverRefused)

theorem decodeSlots_zeros {slots : List Slot} (hd : ∀ s ∈ slots, ∀ d ∈ s.decoder, d ∈ Decoder.all) :
    ∀ k : Nat, NeverRefused (decodeSlots slots (List.replicate k (.int 0))) := by
  induction slots with
  | nil => exact fun _ => .inl ⟨_, rfl⟩
  | cons s slots ih =>
    intro k
    obtain ⟨hds, hdrest⟩ := List.forall_mem_cons.mp hd
    have hcount : NeverRefused s.operandCount := by
      rw [Slot.operandCount]
      split
      · exact .inr ⟨_, rfl⟩
      · exact .inl ⟨_, rfl⟩
    refine hcount.bind fun n _ => ?_
    rw [List.take_replicate, List.drop_replicate]
    have hslot : NeverRefused (s.decode (List.replicate (min n k) (.int 0))) := by
      rw [Slot.decode]
      rcases Slot.argumentOf_zeros hds (min n k) with ⟨v, hv⟩ | ⟨m, hm⟩
      · exact .inl ⟨v, by rw [hv]; rfl⟩
      · exact .inr ⟨m, by rw [hm]; rfl⟩
    exact hslot.bind fun _ _ => (ih hdrest (k - n)).bind fun _ _ => .inl ⟨_, rfl⟩

/-- Slots that make arguments of as many operands as they span are sound. -/
theorem sound_of_decodeSlots {slots : List Slot} : ∀ {raw arguments : List Value},
    raw.length = spanOf slots → decodeSlots slots raw = .ok arguments → ∀ s ∈ slots, s.Sound := by
  induction slots with
  | nil => exact fun _ _ s hs => absurd hs List.not_mem_nil
  | cons s slots ih =>
    intro raw arguments hlen h
    obtain ⟨v, rest, -, hfields, hv, hrest⟩ := decodeSlots_cons_eq_ok.mp h
    obtain ⟨htake, hdrop⟩ := length_of_spanOf_cons hlen
    refine List.forall_mem_cons.mpr ⟨⟨hfields, fun hk => ?_⟩, ih hdrop hrest⟩
    exact Slot.exists_range_iff.mp (Slot.exists_range_of_argumentOf hk htake hv)

/-! ### Events -/

/-- Decoding **reports** on operands if it makes a record of them, or refuses their number, or
refuses them in the name of a slot. -/
def Reports (schema : Schema) (operands : Value) : Prop :=
  (∃ record, schema.decode operands = .ok record) ∨
    (∃ n, schema.decode operands =
      .error (.refused (.arityMismatch schema.name schema.arity n))) ∨
    ∃ s ∈ schema.slots, ∃ cause, schema.decode operands = .error (.refused (.slotDecode s.name cause))

/-- An event whose slots are sound reports on all whole numbers, unless it refuses them with a
message that cannot be printed. -/
theorem reports_or_tooLong_of_sound {schema : Schema} (hname : schema.name.printable)
    (hsound : ∀ s ∈ schema.slots, s.Sound) {raw : List Value}
    (hraw : ∀ v ∈ raw, v.integer?.isSome) :
    schema.Reports (.list raw) ∨ schema.decode (.list raw) = misused .tooLong ∧
      ((∃ v ∈ raw, v.printable = false) ∨ ∃ s ∈ schema.slots, s.name.printable = false) := by
  cases h : schema.decode (.list raw) with
  | ok record => exact .inl (.inl ⟨record, h⟩)
  | error e =>
    obtain ⟨-, rfl⟩ | ⟨-, s, hs, ⟨hk, hrange⟩ | ⟨cause, hcause, rfl⟩⟩ :=
      decode_eq_error (fun s hs => (hsound s hs).fields) hraw h
    · rw [Failure.raised_of_printable (by exact hname)] at h
      exact .inl (.inr (.inl ⟨_, h⟩))
    · obtain ⟨low, high, hok⟩ := Slot.exists_range_iff.mpr ((hsound s hs).width hk)
      rw [hrange] at hok
      cases hok
    · cases hprint : (Refusal.slotDecode s.name cause).printable with
      | true =>
        rw [Failure.raised_of_printable (by exact hprint)] at h
        exact .inl (.inr (.inr ⟨s, hs, cause, h⟩))
      | false =>
        refine .inr ⟨congrArg Except.error (Failure.raised_of_not_printable (by exact hprint)), ?_⟩
        rcases Bool.and_eq_false_iff.mp hprint with hslot | hcauseNot
        · exact .inr ⟨s, hs, hslot⟩
        · left
          by_contra hall
          simp only [not_exists, not_and, Bool.not_eq_false] at hall
          rw [hcause.printable hall] at hcauseNot
          cases hcauseNot

/-- Zeros, as many as an event asks for, are a misuse unless its slots are sound. -/
theorem decode_zeros {schema : Schema}
    (hd : ∀ s ∈ schema.slots, ∀ d ∈ s.decoder, d ∈ Decoder.all) {n : Nat}
    (hn : (Value.int n).equal schema.arity) (hunsound : ¬ ∀ s ∈ schema.slots, s.Sound) :
    ∃ m, schema.decode (.list (List.replicate n (.int 0))) = misused m := by
  rw [decode_list, List.length_replicate, if_pos hn]
  rcases decodeSlots_zeros hd n with ⟨arguments, h⟩ | ⟨m, h⟩
  · -- Fields that are no whole number are found even if the number of operands is rounded.
    rw [equal_arity_iff (spanIsFloat_of_decodeSlots h)] at hn
    exact absurd (sound_of_decodeSlots (List.length_replicate.trans hn) h) hunsound
  · exact ⟨m, by rw [h]; rfl⟩

end Schema

namespace Table

/-! ### Tables -/

/-- What loading a definition has checked of an event: its name can be printed, and its decoders are
among those that definitions may name. -/
structure Declared (schema : Schema) : Prop where
  name : schema.name.printable
  decoders : ∀ s ∈ schema.slots, ∀ d ∈ s.decoder, d ∈ Decoder.all

theorem declared_of_registerEntries {source : String} {events : Entries} : ∀ {t t' : Table},
    (∀ schema ∈ t.schemas, Declared schema) → registerEntries source t events = .ok t' →
      ∀ schema ∈ t'.schemas, Declared schema := by
  induction events with
  | nil =>
    intro t t' ht h
    cases h
    exact ht
  | cons e events ih =>
    intro t t' ht h
    obtain ⟨t₁, h₁, h⟩ := Attempt.bind_eq_ok.mp h
    obtain ⟨code, name, entries, slots, bound, hname, hslots, hreg⟩ :=
      exists_register_of_registerEntry h₁
    obtain ⟨rfl, hschemas⟩ := register_schemas hreg
    refine ih (fun schema hschema => ?_) h
    rw [hschemas] at hschema
    rcases List.mem_append.mp hschema with hschema | hschema
    · exact ht schema hschema
    · rw [List.mem_singleton.mp hschema]
      exact ⟨hname, Slot.mem_all_of_ofEntries hslots⟩

theorem declared_of_build {definition : Value} {source : String} {t : Table}
    (h : build definition source = .ok t) : ∀ schema ∈ t.schemas, Declared schema := by
  obtain ⟨_, _, _, _, -, h⟩ := exists_registerEntries_of_build h
  exact declared_of_registerEntries (fun _ hs => absurd hs List.not_mem_nil) h

theorem declared_of_ofDocuments {documents : List (String × Value)} {g : Registry}
    (h : Registry.ofDocuments documents = .ok g) :
    ∀ t ∈ g.tables, ∀ schema ∈ t.schemas, Declared schema := by
  have hall {ds : List (String × Value)} : ∀ {g g' : Registry},
      (∀ t ∈ g.tables, ∀ schema ∈ t.schemas, Declared schema) → g.registerAll ds = .ok g' →
        ∀ t ∈ g'.tables, ∀ schema ∈ t.schemas, Declared schema := by
    induction ds with
    | nil =>
      intro g g' hg h
      cases h
      exact hg
    | cons d ds ih =>
      intro g g' hg h
      obtain ⟨t, hbuild, h⟩ := Attempt.bind_eq_ok.mp h
      obtain ⟨g₁, hreg, h⟩ := Attempt.bind_eq_ok.mp h
      refine ih (fun t' ht' => ?_) h
      rw [Registry.register_tables hreg] at ht'
      rcases List.mem_append.mp ht' with ht' | ht'
      · exact hg t' ht'
      · rw [List.mem_singleton.mp ht']
        exact fun schema hschema => declared_of_build hbuild schema hschema
  obtain ⟨sorted, -, h⟩ := Attempt.bind_eq_ok.mp h
  exact hall (fun _ ht => absurd ht List.not_mem_nil) h

/-- **Loaded events whose slots are sound decode or report, and no others.**  They do so on all whole
numbers, unless they refuse them with a message that cannot be printed, because an operand or the
name of a slot is too long.  A definition may declare widths that are none: such an event is loaded
like any other, and zeros, as many as it asks for, are neither decoded nor refused. -/
theorem reports_of_build {definition : Value} {source : String} {t : Table} {schema : Schema}
    (h : build definition source = .ok t) (hschema : schema ∈ t.schemas) :
    ((∀ s ∈ schema.slots, s.Sound) → ∀ raw : List Value, (∀ v ∈ raw, v.integer?.isSome) →
      schema.Reports (.list raw) ∨ schema.decode (.list raw) = misused .tooLong ∧
        ((∃ v ∈ raw, v.printable = false) ∨ ∃ s ∈ schema.slots, s.name.printable = false)) ∧
    ∀ n : Nat, (Value.int n).equal schema.arity → (¬ ∀ s ∈ schema.slots, s.Sound) →
      ∃ m, schema.decode (.list (List.replicate n (.int 0))) = misused m :=
  have hdeclared := declared_of_build h schema hschema
  ⟨fun hsound _ hraw => Schema.reports_or_tooLong_of_sound hdeclared.name hsound hraw,
    fun _ hn hunsound => Schema.decode_zeros hdeclared.decoders hn hunsound⟩

/-- A definition with an ordinary event, and with one whose slot is zero bits wide. -/
def widths : Value :=
  Bundled.dialect "FE14" "Fates" "3ds" 6 32
    [Bundled.event 1 "Turn" [Bundled.number "turn", Bundled.outcome "flags"],
      Bundled.event 2 "Void" [Bundled.fields
        [("name", .str "turns"), ("kind", .str "raw_integer"), ("bits", .int 0)]]]

theorem reports_of_build_widths : ∃ t turn void, build widths "fe14.yaml" = .ok t ∧
    t.schemas = [turn, void] ∧
      (∀ raw : List Value, (∀ v ∈ raw, v.integer?.isSome ∧ v.printable) →
        turn.Reports (.list raw)) ∧
      ∃ m, void.decode (.list [.int 0]) = misused m := by
  have hload : ((build widths "fe14.yaml").toOption.map fun t => t.schemas.map fun schema =>
      (decide (∀ s ∈ schema.slots, s.name.printable), decide (∀ s ∈ schema.slots, s.Sound),
        (Value.int 1).equal schema.arity)) =
        some [(true, true, false), (true, false, true)] := by
    decide +kernel
  obtain ⟨t, ht, hschemas⟩ := Option.map_eq_some_iff.mp hload
  replace ht := Attempt.eq_ok_of_toOption ht
  obtain ⟨turn, rest, hlist, hturn, hrest⟩ := List.map_eq_cons_iff.mp hschemas
  obtain ⟨void, rest, rfl, hvoid, hrest⟩ := List.map_eq_cons_iff.mp hrest
  obtain rfl := List.map_eq_nil_iff.mp hrest
  simp only [Prod.mk.injEq, decide_eq_true_eq, decide_eq_false_iff_not] at hturn hvoid
  obtain ⟨hnames, hsound, -⟩ := hturn
  obtain ⟨-, hunsound, harity⟩ := hvoid
  have hmem (schema : Schema) (h : schema ∈ [turn, void]) : schema ∈ t.schemas := hlist ▸ h
  refine ⟨t, turn, void, ht, hlist, ?_, ?_⟩
  · intro raw hraw
    rcases (reports_of_build ht (hmem turn (by simp))).1 hsound raw fun v hv => (hraw v hv).1 with
      hreports | ⟨-, ⟨v, hv, hlong⟩ | ⟨s, hs, hlong⟩⟩
    · exact hreports
    · exact absurd (hraw v hv).2 (Bool.eq_false_iff.mp hlong)
    · exact absurd (hnames s hs) (Bool.eq_false_iff.mp hlong)
  · exact (reports_of_build ht (hmem void (by simp))).2 1 harity hunsound

/-- The event with no bits is loaded, and what decoding it fails with is not reported. -/
theorem not_reports_void : ∃ t, build widths "fe14.yaml" = .ok t ∧ ∃ void ∈ t.schemas,
    void.decode (.list [.int 0]) = misused .negativeWidth ∧ ¬ void.Reports (.list [.int 0]) := by
  have hrun : ((build widths "fe14.yaml").toOption.bind fun t =>
      (t.byCode? (.int 2)).bind fun void => (void.decode (.list [.int 0])).misuse?) =
        some .negativeWidth := by
    decide +kernel
  obtain ⟨t, ht, hrun⟩ := Option.bind_eq_some_iff.mp hrun
  obtain ⟨void, hvoid, hrun⟩ := Option.bind_eq_some_iff.mp hrun
  have hdecode := Attempt.eq_misused_of_misuse? hrun
  refine ⟨t, Attempt.eq_ok_of_toOption ht, void, List.mem_of_find?_eq_some hvoid, hdecode, ?_⟩
  rintro (⟨record, h⟩ | ⟨n, h⟩ | ⟨s, -, cause, h⟩) <;> rw [hdecode] at h <;> cases h

end Table

end EventDialects
