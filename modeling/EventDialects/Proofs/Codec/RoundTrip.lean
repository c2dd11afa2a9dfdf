import EventDialects.Proofs.Codec.Slot

/-!
# Decoding and encoding are inverse to each other

Decoding cuts the operands into the slots' spans and makes an argument of each piece; encoding lays
the pieces end to end again.  `Slot.Encodes` says how one piece and one argument belong together,
and `Schema.Encodes` is the same for a list of slots, whose operands are the pieces in order.  Both
functions are compared with that relation, by induction on the slots, so that every round trip is an
inversion of one followed by the other.

* `encodeSlots_eq_ok_iff`: **encoding lays the pieces end to end**.
* `encodes_of_decodeSlots`, `Encodes.decodeSlots`: decoding cuts them where encoding joined them.
* `encode_eq_of_decode`: **decode, then encode** gives the operands back.
* `decode_eq_of_encode`: **encode, then decode** gives a record with equal arguments.
-/

namespace EventDialects

open List (Forall₂)
open Value (Alike)

namespace Schema

/-! ### The operands of some slots -/

/-- The arguments of some slots and their operands, one piece for each slot in order. -/
inductive Encodes : List Slot → List Value → List Int → Prop
  | nil : Encodes [] [] []
  | cons {s : Slot} {slots : List Slot} {v : Value} {arguments : List Value} {piece rest : List Int}
      (hs : s.Encodes v piece) (hslots : Encodes slots arguments rest) :
      Encodes (s :: slots) (v :: arguments) (piece ++ rest)

/-- **Encoding lays the pieces end to end.** -/
theorem encodeSlots_eq_ok_iff : ∀ {slots : List Slot} {arguments : List Value} {ops : List Int},
    arguments.length = slots.length →
      (encodeSlots slots arguments = .ok ops ↔ Encodes slots arguments ops) := by
  intro slots
  induction slots with
  | nil =>
    intro arguments ops hlen
    obtain rfl := List.length_eq_zero_iff.mp hlen
    simp only [encodeSlots, Except.ok.injEq]
    constructor
    · rintro rfl; exact .nil
    · rintro ⟨⟩; rfl
  | cons s slots ih =>
    intro arguments ops hlen
    cases arguments with
    | nil => cases hlen
    | cons v arguments =>
      simp only [encodeSlots, Attempt.bind_eq_ok, Slot.operandsOf_eq_ok_iff,
        ih (Nat.succ.inj hlen), pure, Except.pure, Except.ok.injEq]
      constructor
      · rintro ⟨piece, hs, rest, hslots, rfl⟩
        exact .cons hs hslots
      · intro h
        cases h with
        | cons hs hslots => exact ⟨_, hs, _, hslots, rfl⟩

def spanOf (slots : List Slot) : Nat := slots.foldr (fun slot n => slot.span + n) 0

theorem length_of_spanOf_cons {α : Type} {s : Slot} {slots : List Slot} {ops : List α}
    (h : ops.length = spanOf (s :: slots)) :
    (ops.take s.span).length = s.span ∧ (ops.drop s.span).length = spanOf slots := by
  rw [spanOf, List.foldr_cons, ← spanOf] at h
  rw [List.length_take, List.length_drop]
  omega

theorem Encodes.length_eq {slots : List Slot} {arguments : List Value} {ops : List Int}
    (h : Encodes slots arguments ops) : ops.length = spanOf slots := by
  induction h with
  | nil => rfl
  | cons hs _ ih => rw [List.length_append, hs.length_eq, ih, spanOf, spanOf, List.foldr_cons]

theorem Encodes.arguments_length {slots : List Slot} {arguments : List Value} {ops : List Int}
    (h : Encodes slots arguments ops) : arguments.length = slots.length := by
  induction h with
  | nil => rfl
  | cons _ _ ih => rw [List.length_cons, List.length_cons, ih]

theorem operandCount_eq_ok {s : Slot} {n : Nat} :
    s.operandCount = .ok n ↔ s.spanIsFloat = false ∧ n = s.span := by
  rw [Slot.operandCount]
  cases s.spanIsFloat with
  | true => simp [misused]
  | false => simp [eq_comm]

theorem decode_slot_eq_ok {s : Slot} {raw : List Value} {v : Value} :
    s.decode raw = .ok v ↔ s.argumentOf raw = .ok v := by
  rw [Slot.decode]
  cases s.argumentOf raw with
  | ok w => rfl
  | error e => cases e <;> simp [Slot.inSlot, refuse]

/-- A decoded slot took its span of the operands, and the slots after it the rest. -/
theorem decodeSlots_cons_eq_ok {s : Slot} {slots : List Slot} {raw arguments : List Value} :
    decodeSlots (s :: slots) raw = .ok arguments ↔ ∃ v rest, arguments = v :: rest ∧
      s.spanIsFloat = false ∧ s.argumentOf (raw.take s.span) = .ok v ∧
      decodeSlots slots (raw.drop s.span) = .ok rest := by
  simp only [decodeSlots, Attempt.bind_eq_ok, operandCount_eq_ok, decode_slot_eq_ok, pure,
    Except.pure, Except.ok.injEq]
  constructor
  · rintro ⟨_, ⟨hf, rfl⟩, v, hv, rest, hrest, rfl⟩
    exact ⟨v, rest, rfl, hf, hv, hrest⟩
  · rintro ⟨v, rest, rfl, hf, hv, hrest⟩
    exact ⟨_, ⟨hf, rfl⟩, v, hv, rest, hrest, rfl⟩

theorem spanIsFloat_of_decodeSlots {slots : List Slot} : ∀ {raw arguments : List Value},
    decodeSlots slots raw = .ok arguments → ∀ s ∈ slots, s.spanIsFloat = false := by
  induction slots with
  | nil => intro _ _ _ s hs; cases hs
  | cons s slots ih =>
    intro raw arguments h
    obtain ⟨_, _, -, hf, -, hrest⟩ := decodeSlots_cons_eq_ok.mp h
    exact List.forall_mem_cons.mpr ⟨hf, ih hrest⟩

/-- **Decode, then encode**, for some slots: the arguments have the operands they were made of. -/
theorem encodes_of_decodeSlots {slots : List Slot} : ∀ {ns : List Int} {arguments : List Value},
    ns.length = spanOf slots → decodeSlots slots (ns.map .int) = .ok arguments →
      Encodes slots arguments ns := by
  induction slots with
  | nil =>
    intro ns arguments hlen h
    obtain rfl := List.length_eq_zero_iff.mp hlen
    cases h
    exact .nil
  | cons s slots ih =>
    intro ns arguments hlen h
    obtain ⟨v, rest, rfl, -, hv, hrest⟩ := decodeSlots_cons_eq_ok.mp h
    obtain ⟨htake, hdrop⟩ := length_of_spanOf_cons hlen
    rw [← List.map_take] at hv
    rw [← List.map_drop] at hrest
    have hpiece : s.Encodes v (ns.take s.span) := Slot.encodes_of_argumentOf htake hv
    have hslots := ih hdrop hrest
    rw [← List.take_append_drop s.span ns]
    exact .cons hpiece hslots

/-- **Encode, then decode**, for some slots: the operands decode to arguments alike. -/
theorem Encodes.decodeSlots {slots : List Slot} {arguments : List Value} {ops : List Int}
    (h : Encodes slots arguments ops) (hfloat : ∀ s ∈ slots, s.spanIsFloat = false)
    (hsingle : ∀ s ∈ slots, ∀ d ∈ s.decoder, d.Single) :
    ∃ ws, Schema.decodeSlots slots (ops.map .int) = .ok ws ∧ Forall₂ Alike arguments ws := by
  induction h with
  | nil => exact ⟨[], rfl, .nil⟩
  | @cons s slots v arguments piece rest hs _ ih =>
    obtain ⟨hf, hfs⟩ := List.forall_mem_cons.mp hfloat
    obtain ⟨hd, hds⟩ := List.forall_mem_cons.mp hsingle
    obtain ⟨w, hw, halike⟩ := hs.argumentOf hd
    obtain ⟨ws, hws, halikes⟩ := ih hfs hds
    have hlen : s.span = (piece.map Value.int).length := by rw [List.length_map, hs.length_eq]
    refine ⟨w :: ws, decodeSlots_cons_eq_ok.mpr ⟨w, ws, rfl, hf, ?_, ?_⟩, .cons halike halikes⟩
    · rw [List.map_append, hlen, List.take_left, hw]
    · rw [List.map_append, hlen, List.drop_left, hws]

theorem Encodes.congr {slots : List Slot} {vs ws : List Value} {ops : List Int}
    (ha : Forall₂ Alike vs ws) (h : Encodes slots vs ops) : Encodes slots ws ops := by
  induction h generalizing ws with
  | nil => cases ha; exact .nil
  | cons hs _ ih =>
    cases ha with
    | cons hv hvs => exact .cons (hs.congr hv) (ih hvs)

theorem Encodes.equal_of_alike {slots : List Slot} {vs ws : List Value} {ops : List Int}
    (h : Encodes slots vs ops) (ha : Forall₂ Alike vs ws) :
    Forall₂ (fun v w => v.equal w) vs ws := by
  induction h generalizing ws with
  | nil => cases ha; exact .nil
  | cons _ _ ih =>
    cases ha with
    | cons hv hvs => exact .cons hv.equal (ih hvs)

theorem Encodes.isArgument {slots : List Slot} {arguments : List Value} {ops : List Int}
    (h : Encodes slots arguments ops) : ∀ v ∈ arguments, v.IsArgument := by
  induction h with
  | nil => intro v hv; cases hv
  | cons hs _ ih => exact List.forall_mem_cons.mpr ⟨hs.isArgument, ih⟩

/-- The pieces of the operands are cut where the slots say, whatever the arguments are. -/
theorem Encodes.alike {slots : List Slot} {vs ws : List Value} {ops : List Int}
    (hv : Encodes slots vs ops) (hw : Encodes slots ws ops) : Forall₂ Alike vs ws := by
  induction hv generalizing ws with
  | nil => cases hw; exact .nil
  | @cons s slots v vs piece rest hs _ ih =>
    generalize hops : piece ++ rest = ops at hw
    cases hw with
    | @cons _ _ w ws piece' rest' hs' hws =>
      obtain ⟨rfl, rfl⟩ := List.append_inj hops (hs.length_eq.trans hs'.length_eq.symm)
      exact .cons (hs.alike hs') (ih hws)

/-! ### Records -/

/-- The record that decoding makes of the slots' arguments. -/
def recordOf (schema : Schema) (arguments : List Value) : Record :=
  ⟨schema.revisionValue, .int schema.code, schema.name, schema.slotNames, arguments⟩

@[simp] theorem printable_revisionValue (schema : Schema) : schema.revisionValue.printable := by
  unfold revisionValue
  split <;> rfl

theorem arity_eq_span {schema : Schema} (h : ∀ s ∈ schema.slots, s.spanIsFloat = false) :
    schema.arity = .int schema.span := by
  have hany : schema.slots.any Slot.spanIsFloat = false := by
    rw [List.any_eq_false]
    intro s hs
    rw [h s hs]
    decide
  rw [arity, hany]
  rfl

theorem equal_arity_iff {schema : Schema} (h : ∀ s ∈ schema.slots, s.spanIsFloat = false)
    {n : Nat} : (Value.int n).equal schema.arity ↔ n = schema.span := by
  rw [arity_eq_span h, Value.equal_int, beq_iff_eq]
  exact Int.ofNat_inj

theorem decode_list (schema : Schema) (raw : List Value) : schema.decode (.list raw) =
    if (Value.int raw.length).equal schema.arity then
      decodeSlots schema.slots raw >>= fun arguments => .ok (schema.recordOf arguments)
    else refuse (.arityMismatch schema.name schema.arity raw.length) := by
  cases h : (Value.int raw.length).equal schema.arity <;>
    simp only [decode, Value.iterate, bind, Except.bind, h] <;> rfl

theorem exists_recordOf_of_decode {schema : Schema} {operands : Value} {record : Record}
    (h : schema.decode operands = .ok record) : ∃ arguments, record = schema.recordOf arguments := by
  obtain ⟨raw, -, h⟩ := Attempt.bind_eq_ok.mp h
  dsimp only at h
  split at h
  · cases h
  · obtain ⟨arguments, -, h⟩ := Attempt.bind_eq_ok.mp h
    cases h
    exact ⟨arguments, rfl⟩

/-- **Decoding** integers succeeds exactly if there are as many as the slots span and every slot
makes an argument of its own. -/
theorem decode_eq_ok_iff {schema : Schema} {ns : List Int} {record : Record} :
    schema.decode (.list (ns.map .int)) = .ok record ↔ ns.length = schema.span ∧
      ∃ arguments, decodeSlots schema.slots (ns.map .int) = .ok arguments ∧
        record = schema.recordOf arguments := by
  have harity {arguments : List Value} (h : decodeSlots schema.slots (ns.map .int) = .ok arguments) :
      (Value.int (ns.map Value.int).length).equal schema.arity ↔ ns.length = schema.span := by
    rw [List.length_map]
    exact equal_arity_iff (spanIsFloat_of_decodeSlots h)
  rw [decode_list]
  split
  · rename_i hlen
    simp only [Attempt.bind_eq_ok, Except.ok.injEq]
    constructor
    · rintro ⟨arguments, h, rfl⟩
      exact ⟨(harity h).mp hlen, arguments, h, rfl⟩
    · rintro ⟨-, arguments, h, rfl⟩
      exact ⟨arguments, h, rfl⟩
  · rename_i hlen
    constructor
    · intro h
      cases h
    · rintro ⟨hspan, arguments, h, -⟩
      exact absurd ((harity h).mpr hspan) hlen

theorem mismatch_ne_ok {α : Type} {schema : Schema} {record : Record} {x : α} :
    schema.mismatch record ≠ .ok x := by
  intro h
  simp only [mismatch, Attempt.bind_eq_ok, refuse, reduceCtorEq, and_false, exists_false] at h

/-- **Encoding** a record succeeds exactly if it has the schema's slots and every slot has operands
for its argument. -/
theorem encode_eq_ok_iff {schema : Schema} {record : Record} {ops : List Int} :
    schema.encode record = .ok ops ↔
      Forall₂ (fun a b => a.equal b) record.slotNames schema.slotNames ∧
        record.arguments.length = schema.slots.length ∧
        Encodes schema.slots record.arguments ops := by
  rw [encode]
  split
  · rename_i h
    constructor
    · intro hm
      exact absurd hm mismatch_ne_ok
    · rintro ⟨hnames, hlen, -⟩
      rw [Bool.not_eq_true'] at h
      rcases h with h | h
      · exact absurd hlen h
      · rw [Value.equalAll_iff.mpr hnames] at h
        cases h
  · rename_i h
    rw [not_or, Decidable.not_not, Bool.not_eq_true', Bool.not_eq_false, Value.equalAll_iff] at h
    rw [encodeSlots_eq_ok_iff h.1]
    exact ⟨fun he => ⟨h.2, h.1, he⟩, fun he => he.2.2⟩

theorem encode_recordOf {schema : Schema} {ns : List Int} {arguments : List Value}
    (hlen : ns.length = schema.span)
    (h : decodeSlots schema.slots (ns.map .int) = .ok arguments) :
    schema.encode (schema.recordOf arguments) = .ok ns :=
  encode_eq_ok_iff.mpr ⟨List.forall₂_same.mpr fun name _ => Value.equal_self name,
    decodeSlots_length h, encodes_of_decodeSlots hlen h⟩

/-! ### The round trips -/

/-- **Decode, then encode** gives the operands back: same number, same order, same values.  The
slots may be any the rules allow, of any widths for which decoding succeeds, with decoders of either
sort and with any names, which may repeat. -/
theorem encode_eq_of_decode {schema : Schema} {ops : List Int} {record : Record}
    (h : schema.decode (.list (ops.map .int)) = .ok record) : schema.encode record = .ok ops := by
  obtain ⟨hlen, arguments, hslots, rfl⟩ := decode_eq_ok_iff.mp h
  exact encode_recordOf hlen hslots

/-- An ambush in an area, with a slot for every rule and one name twice. -/
def ambush : Schema where
  code := 7
  name := .str "Ambush"
  slots := [
    ⟨.str "area", .coordinate, none, .int 16, .bool true, .int 4, by decide +kernel⟩,
    ⟨.str "outcome", .bitflags, some (.flagSet "battle_flags" .battleFlag), .int 8, .bool false,
      .int 1, by decide +kernel⟩,
    ⟨.str "effect", .enumValue, some (.choice "spawn_effects" .spawnEffect), .int 4, .bool true,
      .int 1, by decide +kernel⟩,
    ⟨.str "pad", .unknown, none, .int 0, .bool true, .int 1, by decide +kernel⟩,
    ⟨.str "leader", .characterId, none, .int 16, .bool false, .int 1, by decide +kernel⟩,
    ⟨.str "pad", .rawInteger, none, .int 16, .bool true, .int 1, by decide +kernel⟩]
  revision := none

theorem encode_eq_of_decode_ambush : ∃ record,
    ambush.decode (.list ([0, -1, 31, -32768, 255, 5, 100000, 65535, 32767].map .int)) = .ok record ∧
      ambush.encode record = .ok [0, -1, 31, -32768, 255, 5, 100000, 65535, 32767] := by
  have hok : (ambush.decode (.list ([0, -1, 31, -32768, 255, 5, 100000, 65535, 32767].map
      .int))).toOption.isSome := by decide +kernel
  obtain ⟨record, h⟩ := Option.isSome_iff_exists.mp hok
  have hdecode := Attempt.eq_ok_of_toOption h
  exact ⟨record, hdecode, encode_eq_of_decode hdecode⟩

/-- **Encode, then decode** gives the record back, whatever its arguments were: a list of as many
integers as the slots span, which decodes to the schema's own record with equal arguments.  Sets of
flags come back as frozen sets.  Fields are whole numbers here, as a slot's fields are meant to be:
no operands can be cut off for a coordinate of `2.0` fields. -/
theorem decode_eq_of_encode {schema : Schema} {record : Record} {ops : List Int}
    (hfields : ∀ s ∈ schema.slots, s.spanIsFloat = false)
    (hdecoders : ∀ s ∈ schema.slots, ∀ d ∈ s.decoder, d ∈ Decoder.all)
    (h : schema.encode record = .ok ops) :
    schema.arity = .int ops.length ∧ ∃ decoded,
      schema.decode (.list (ops.map .int)) = .ok decoded ∧
      decoded.revision = schema.revisionValue ∧ decoded.code = .int schema.code ∧
      decoded.event = schema.name ∧ Value.equalAll decoded.slotNames record.slotNames ∧
      Value.equalAll decoded.arguments record.arguments := by
  obtain ⟨hnames, -, hencodes⟩ := encode_eq_ok_iff.mp h
  have hsingle : ∀ s ∈ schema.slots, ∀ d ∈ s.decoder, d.Single :=
    fun s hs d hd => Decoder.single_of_mem_all (hdecoders s hs d hd)
  obtain ⟨ws, hws, halike⟩ := hencodes.decodeSlots hfields hsingle
  have hequal := hencodes.equal_of_alike halike
  refine ⟨by rw [arity_eq_span hfields, hencodes.length_eq]; rfl, schema.recordOf ws,
    decode_eq_ok_iff.mpr ⟨hencodes.length_eq, ws, hws, rfl⟩, rfl, rfl, rfl, ?_, ?_⟩
  · exact Value.equalAll_symm (Value.equalAll_iff.mpr hnames)
  · exact Value.equalAll_symm (Value.equalAll_iff.mpr hequal)

/-- An ambush put together by hand, with a set in another order than the flags'. -/
def ambushRecord : Record where
  revision := .str "unknown"
  code := .null
  event := .str "Raid"
  slotNames := ambush.slotNames
  arguments := [.tuple [.int 0, .int (-1), .int 31, .int (-32768)],
    .set [.variant .battleFlag 128, .variant .battleFlag 1],
    .variant .spawnEffect 5, .int 100000, .ref .pid (.int 65535), .int 32767]

theorem decode_eq_of_encode_ambush :
    ambush.encode ambushRecord = .ok [0, -1, 31, -32768, 129, 5, 100000, 65535, 32767] ∧
      ambush.arity = .int 9 ∧ ∃ decoded, ambush.decode
        (.list ([0, -1, 31, -32768, 129, 5, 100000, 65535, 32767].map .int)) = .ok decoded ∧
      decoded.revision = .null ∧ decoded.code = .int 7 ∧ decoded.event = .str "Ambush" ∧
      Value.equalAll decoded.slotNames ambush.slotNames ∧
      Value.equalAll decoded.arguments ambushRecord.arguments := by
  have hencode : ambush.encode ambushRecord =
      .ok [0, -1, 31, -32768, 129, 5, 100000, 65535, 32767] :=
    Attempt.eq_ok_of_toOption (by decide +kernel)
  exact ⟨hencode, decode_eq_of_encode (by decide +kernel) (by decide +kernel) hencode⟩

end Schema

end EventDialects
