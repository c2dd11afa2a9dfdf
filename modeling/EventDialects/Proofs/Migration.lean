import EventDialects.Proofs.Codec.RoundTrip
import EventDialects.Proofs.Registry.Coherence
import EventDialects.Proofs.Value.Order

/-!
# Migrating records

`Registry.encodeFor` encodes a record for another revision: it finds the event there by name, takes
the arguments in the order of that revision's slots, and encodes them.  What a record says is what
it says under each slot name, and this file shows that it says the same after the migration.

The argument goes through the names.  The slot names of both sides are equal once sorted, so every
name of the one side has an equal one on the other, and the first place of a name does not depend on
which of the equal names is looked up.  Decoding then gives arguments alike, place by place, and
places carry over to names.

* `argument_congr`: equal names have the same argument.
* `encodeFor_eq_ok_iff`: what migrating checks and what it encodes.
* `exists_argument_of_forall₂`: what holds place by place holds name by name.
* `decode_of_encodeFor`: **migration preserves meaning**, and the way there and back gives the
  operands back.
-/

namespace EventDialects

open List (Forall₂)
open Value (Alike SameSorted)

namespace Record

/-! ### Arguments by name -/

theorem argument_eq_ok_iff {r : Record} {name v : Value} :
    r.argument name = .ok v ↔ ∃ i, r.position? name = some i ∧ r.arguments[i]? = some v := by
  constructor
  · intro h
    rw [argument] at h
    cases hi : r.position? name with
    | none => simp [hi] at h
    | some i =>
      cases hv : r.arguments[i]? with
      | none => simp [hi, hv, misused] at h
      | some w =>
        simp only [hi, hv, Except.ok.injEq] at h
        exact ⟨i, rfl, h ▸ hv⟩
  · rintro ⟨i, hi, hv⟩
    exact argument_eq_of_getElem? hi hv

theorem position?_congr {r : Record} {name name' : Value} (h : name.equal name') :
    r.position? name = r.position? name' := by
  rw [position?, position?, funext fun x => Value.equal_congr_right h x]

/-- **Equal names have the same argument.** -/
theorem argument_congr {r : Record} {name name' v : Value} (h : name.equal name') :
    r.argument name = .ok v ↔ r.argument name' = .ok v := by
  rw [argument_eq_ok_iff, argument_eq_ok_iff, position?_congr h]

theorem position?_eq_some_iff {r : Record} {name : Value} {i : Nat} :
    r.position? name = some i ↔ ∃ h : i < r.slotNames.length, r.slotNames[i].equal name ∧
      ∀ j (hj : j < i), ¬ (r.slotNames.get ⟨j, Nat.lt_trans hj h⟩).equal name :=
  List.findIdx?_eq_some_iff_getElem

theorem exists_position? {r : Record} {name : Value} (h : ∃ x ∈ r.slotNames, x.equal name) :
    ∃ i, r.position? name = some i := by
  rw [← Option.isSome_iff_exists, position?, List.findIdx?_isSome, List.any_eq_true]
  exact h

theorem exists_argument_of_forall₂ {record : Record} (migrated : Record) {vs : List Value}
    {R : Value → Value → Prop}
    (hvs : Forall₂ (fun name v => record.argument name = .ok v) migrated.slotNames vs)
    (hr : Forall₂ R vs migrated.arguments) {name : Value}
    (hname : ∃ x ∈ migrated.slotNames, x.equal name) :
    ∃ v w, record.argument name = .ok v ∧ migrated.argument name = .ok w ∧ R v w := by
  obtain ⟨i, hi⟩ := exists_position? hname
  obtain ⟨hlt, he, -⟩ := position?_eq_some_iff.mp hi
  have hlv : i < vs.length := hvs.length_eq ▸ hlt
  have hlw : i < migrated.arguments.length := hr.length_eq ▸ hlv
  refine ⟨vs[i], migrated.arguments[i], ?_, ?_, hr.get hlv hlw⟩
  · exact (argument_congr he).mp (hvs.get hlt hlv)
  · exact argument_eq_of_getElem? hi (List.getElem?_eq_getElem hlw)

/-- If no two slots have equal names, each argument stands under the name of its slot. -/
theorem forall₂_argument {r : Record} (hdistinct : r.slotNames.Pairwise fun x y => ¬ x.equal y)
    (hlen : r.arguments.length = r.slotNames.length) :
    Forall₂ (fun name v => r.argument name = .ok v) r.slotNames r.arguments := by
  refine List.forall₂_iff_get.mpr ⟨hlen.symm, fun i hi hv => ?_⟩
  refine argument_eq_of_getElem? ?_ (List.getElem?_eq_getElem hv)
  refine position?_eq_some_iff.mpr ⟨hi, Value.equal_self _, fun j hj => ?_⟩
  exact List.pairwise_iff_getElem.mp hdistinct j i _ hi hj

/-- If there are as many arguments as names, the argument under a name is that of the first slot
with an equal one. -/
theorem exists_named_of_mem {r : Record} (hlen : r.arguments.length = r.slotNames.length)
    {name : Value} (hname : ∃ x ∈ r.slotNames, x.equal name) :
    ∃ p ∈ r.named, p.1.equal name ∧ r.argument name = .ok p.2 := by
  obtain ⟨i, hi⟩ := exists_position? hname
  obtain ⟨hlt, he, -⟩ := position?_eq_some_iff.mp hi
  have hlv : i < r.arguments.length := hlen.symm ▸ hlt
  have hlz : i < r.named.length := by rw [named, List.length_zip]; omega
  refine ⟨r.named[i], List.getElem_mem hlz, ?_, ?_⟩
  · simpa [named] using he
  · refine argument_eq_of_getElem? hi ?_
    simp [named, List.getElem?_eq_getElem hlv]

end Record

namespace Registry

open Schema (Encodes)

/-! ### One migration -/

theorem argumentsOf_eq_ok_iff {record : Record} {names : List Value} : ∀ {vs : List Value},
    argumentsOf record names = .ok vs ↔
      Forall₂ (fun name v => record.argument name = .ok v) names vs := by
  induction names with
  | nil => intro vs; simp [argumentsOf, eq_comm]
  | cons name names ih =>
    intro vs
    simp only [argumentsOf, Attempt.bind_eq_ok, ih, pure, Except.pure, Except.ok.injEq,
      List.forall₂_cons_left_iff]
    constructor
    · rintro ⟨v, hv, vs, hvs, rfl⟩
      exact ⟨v, vs, hv, hvs, rfl⟩
    · rintro ⟨v, vs, hv, hvs, rfl⟩
      exact ⟨v, hv, vs, hvs, rfl⟩

/-- A record is reordered for a schema exactly if it has the schema's slot names in some order. -/
theorem reorder_eq_ok_iff {schema : Schema} {record reordered : Record} :
    reorder schema record = .ok reordered ↔ SameSorted record.slotNames schema.slotNames ∧
      ∃ vs, Forall₂ (fun name v => record.argument name = .ok v) schema.slotNames vs ∧
        reordered = ⟨record.revision, record.code, record.event, schema.slotNames, vs⟩ := by
  simp only [reorder, Attempt.bind_eq_ok]
  constructor
  · rintro ⟨actual, hactual, expected, hexpected, h⟩
    cases he : Value.equalAll actual expected with
    | false =>
      rw [he] at h
      obtain ⟨_, hm, -⟩ := Attempt.bind_eq_ok.mp h
      exact absurd hm Schema.mismatch_ne_ok
    | true =>
      rw [he] at h
      obtain ⟨vs, hvs, h⟩ := Attempt.bind_eq_ok.mp h
      cases h
      exact ⟨⟨actual, expected, hactual, hexpected, he⟩, vs, argumentsOf_eq_ok_iff.mp hvs, rfl⟩
  · rintro ⟨⟨actual, expected, hactual, hexpected, he⟩, vs, hvs, rfl⟩
    refine ⟨actual, hactual, expected, hexpected, ?_⟩
    rw [he]
    exact Attempt.bind_eq_ok.mpr ⟨vs, argumentsOf_eq_ok_iff.mpr hvs, rfl⟩

/-- **Migrating a record** succeeds exactly if its event has a schema in the other revision with the
same slot names in some order, and the arguments under them have operands there. -/
theorem encodeFor_eq_ok_iff {g : Registry} {revision : Value} {record : Record} {ops : List Int} :
    g.encodeFor revision record = .ok ops ↔ ∃ schema vs,
      g.resolveName revision record.event = .ok schema ∧
      SameSorted record.slotNames schema.slotNames ∧
      Forall₂ (fun name v => record.argument name = .ok v) schema.slotNames vs ∧
      Encodes schema.slots vs ops := by
  simp only [encodeFor, Attempt.bind_eq_ok, reorder_eq_ok_iff, Schema.encode_eq_ok_iff]
  constructor
  · rintro ⟨schema, hschema, _, ⟨hnames, vs, hvs, rfl⟩, -, -, hops⟩
    exact ⟨schema, vs, hschema, hnames, hvs, hops⟩
  · rintro ⟨schema, vs, hschema, hnames, hvs, hops⟩
    refine ⟨schema, hschema, _, ⟨hnames, vs, hvs, rfl⟩, ?_, ?_, hops⟩
    · exact List.forall₂_same.mpr fun x _ => Value.equal_self x
    · exact hvs.length_eq.symm.trans (List.length_map _)

/-! ### There and back -/

/-- A decoded record has the names of its schema's slots, and its arguments have the operands that
they were made of. -/
theorem exists_schema_of_decode {g : Registry} {revision code : Value} {ns : List Int}
    {record : Record} (h : g.decode revision code (.list (ns.map .int)) = .ok record) :
    ∃ schema, g.resolve revision code = .ok schema ∧ record.event = schema.name ∧
      record.slotNames = schema.slotNames ∧ Encodes schema.slots record.arguments ns := by
  obtain ⟨schema, hschema, hdecode⟩ := Attempt.bind_eq_ok.mp h
  obtain ⟨hlen, arguments, harguments, rfl⟩ := Schema.decode_eq_ok_iff.mp hdecode
  exact ⟨schema, hschema, rfl, rfl, Schema.encodes_of_decodeSlots hlen harguments⟩

/-- The way back: a record with arguments alike under every name of a decoded one has the operands
that this one was decoded from. -/
theorem encodeFor_of_decode {g : Registry} (hg : g.Reachable) {revision code : Value}
    {source : List Int} {record migrated : Record}
    (h : g.decode revision code (.list (source.map .int)) = .ok record)
    (hevent : migrated.event.hashable ∧ migrated.event.equal record.event)
    (hnames : SameSorted migrated.slotNames record.slotNames)
    (hdistinct : record.slotNames.Pairwise fun x y => ¬ x.equal y)
    (halike : ∀ name ∈ record.slotNames, ∃ v w, record.argument name = .ok v ∧
      migrated.argument name = .ok w ∧ v.Alike w) :
    g.encodeFor revision migrated = .ok source := by
  obtain ⟨schema, hschema, he, hslots, hencodes⟩ := exists_schema_of_decode h
  have hlen : record.arguments.length = record.slotNames.length := by
    rw [hencodes.arguments_length, hslots, Schema.slotNames, List.length_map]
  have hself := Record.forall₂_argument hdistinct hlen
  obtain ⟨ws, hws, halikes⟩ : ∃ ws,
      Forall₂ (fun name w => migrated.argument name = .ok w) record.slotNames ws ∧
        Forall₂ Alike record.arguments ws := by
    refine exists_forall₂ hself fun name hname v hv => ?_
    obtain ⟨v', w, hv', hw, hvw⟩ := halike name hname
    obtain rfl : v' = v := Except.ok.inj (hv'.symm.trans hv)
    exact ⟨w, hw, hvw⟩
  rw [hslots] at hnames hws
  refine encodeFor_eq_ok_iff.mpr ⟨schema, ws, ?_, hnames, hws, hencodes.congr halikes⟩
  exact resolveName_of_resolve hg hschema hevent.1 (Value.equal_symm (he ▸ hevent.2))

/-- **Migration preserves meaning.**  What a record is encoded to for another revision decodes
there, under the code that the event has there, to a record with the same slot names and an equal
argument under each of them, in whatever order both revisions have their slots.  The fields of the
slots there are whole numbers, and their decoders are those that definitions may name.  If the record
was itself decoded and no two of its slots have equal names, migrating it back gives the operands
that it was decoded from. -/
theorem decode_of_encodeFor {g : Registry} (hg : g.Reachable) {revision : Value} {record : Record}
    {schema : Schema} {ops : List Int}
    (hschema : g.resolveName revision record.event = .ok schema)
    (hfields : ∀ s ∈ schema.slots, s.spanIsFloat = false)
    (hdecoders : ∀ s ∈ schema.slots, ∀ d ∈ s.decoder, d ∈ Decoder.all)
    (h : g.encodeFor revision record = .ok ops) :
    ∃ migrated, g.decode revision (.int schema.code) (.list (ops.map .int)) = .ok migrated ∧
      (Value.set migrated.slotNames).equal (.set record.slotNames) ∧
      (∀ name ∈ record.slotNames, ∃ v w, record.argument name = .ok v ∧
        migrated.argument name = .ok w ∧ w.equal v) ∧
      (record.slotNames.Pairwise (fun x y => ¬ x.equal y) →
        ∀ (origin code : Value) (source : List Int),
          g.decode origin code (.list (source.map .int)) = .ok record →
            g.encodeFor origin migrated = .ok source) := by
  obtain ⟨schema', vs, hschema', hnames, hvs, hencodes⟩ := encodeFor_eq_ok_iff.mp h
  obtain rfl : schema' = schema := Except.ok.inj (hschema'.symm.trans hschema)
  obtain ⟨ws, hws, halike⟩ := hencodes.decodeSlots hfields
    fun s hs d hd => Decoder.single_of_mem_all (hdecoders s hs d hd)
  have hequal := hencodes.equal_of_alike halike
  have hname : ∀ name ∈ record.slotNames, ∃ x ∈ schema'.slotNames, x.equal name := by
    intro name hname
    obtain ⟨x, hx, he⟩ := hnames.exists_equal name hname
    exact ⟨x, hx, Value.equal_symm he⟩
  refine ⟨schema'.recordOf ws, ?_, ?_, ?_, ?_⟩
  · exact Attempt.bind_eq_ok.mpr ⟨schema', resolve_of_resolveName hg hschema,
      Schema.decode_eq_ok_iff.mpr ⟨hencodes.length_eq, ws, hws, rfl⟩⟩
  · exact (Value.equal_iff_of_elements? rfl).mpr ⟨_, rfl, hnames.symm.exists_equal, hname⟩
  · intro name hn
    obtain ⟨v, w, hv, hw, he⟩ :=
      Record.exists_argument_of_forall₂ (schema'.recordOf ws) hvs hequal (hname name hn)
    exact ⟨v, w, hv, hw, Value.equal_symm he⟩
  · intro hdistinct origin code source hdecode
    exact encodeFor_of_decode hg hdecode (name_of_resolveName hg hschema) hnames.symm hdistinct
      fun name hn => Record.exists_argument_of_forall₂ _ hvs halike (hname name hn)

def handheldTurn : Schema where
  code := 1
  name := .str "Turn"
  slots := [
    ⟨.str "flags", .bitflags, some (.flagSet "battle_flags" .battleFlag), .int 8, .bool false,
      .int 1, by decide +kernel⟩,
    ⟨.str "region", .coordinate, none, .int 16, .bool true, .int 4, by decide +kernel⟩,
    ⟨.str "turn", .rawInteger, none, .int 8, .bool true, .int 1, by decide +kernel⟩]
  revision := some ⟨"FE14", ""⟩

/-- A turn as another revision has it: with its slots in another order, wider, and with one that
nobody has documented. -/
def consoleTurn : Schema where
  code := 9
  name := .str "Turn"
  slots := [
    ⟨.str "turn", .unknown, none, .int 16, .bool true, .int 1, by decide +kernel⟩,
    ⟨.str "flags", .bitflags, some (.flagSet "battle_flags" .battleFlag), .int 16, .bool true,
      .int 1, by decide +kernel⟩,
    ⟨.str "region", .coordinate, none, .int 32, .bool true, .int 4, by decide +kernel⟩]
  revision := some ⟨"FE9", ""⟩

def turns : Registry :=
  ⟨[⟨⟨"FE14", ""⟩, .null, .null, [handheldTurn], true⟩,
    ⟨⟨"FE9", ""⟩, .null, .null, [consoleTurn], true⟩]⟩

theorem turns_reachable : turns.Reachable := by
  have handheld := Reachable.empty.register (Table.reachable_singleton (s := handheldTurn) rfl rfl)
    (register_eq_ok_iff.mpr ⟨rfl, rfl, rfl⟩ : register _ (.revision ⟨"FE14", ""⟩) _ = _)
  exact handheld.register (Table.reachable_singleton (s := consoleTurn) rfl rfl)
    (register_eq_ok_iff.mpr ⟨rfl, rfl, rfl⟩ : register _ (.revision ⟨"FE9", ""⟩) _ = _)

theorem decode_of_encodeFor_turn : ∃ record migrated,
    turns.decode (.str "FE14") (.int 1) (.list ([129, 0, -1, 31, -32768, 5].map .int)) =
        .ok record ∧
      turns.encodeFor (.str "FE9") record = .ok [5, 129, 0, -1, 31, -32768] ∧
      turns.decode (.str "FE9") (.int 9) (.list ([5, 129, 0, -1, 31, -32768].map .int)) =
        .ok migrated ∧
      turns.encodeFor (.str "FE14") migrated = .ok [129, 0, -1, 31, -32768, 5] := by
  have hthere : ((turns.decode (.str "FE14") (.int 1)
      (.list ([129, 0, -1, 31, -32768, 5].map .int))).toOption.bind fun record =>
        (turns.encodeFor (.str "FE9") record).toOption) = some [5, 129, 0, -1, 31, -32768] := by
    decide +kernel
  obtain ⟨record, hrecord, hencode⟩ := Option.bind_eq_some_iff.mp hthere
  replace hrecord := Attempt.eq_ok_of_toOption hrecord
  replace hencode := Attempt.eq_ok_of_toOption hencode
  obtain ⟨schema, hschema, hevent, hslots, -⟩ := exists_schema_of_decode hrecord
  have hname : turns.resolveName (.str "FE14") (.str "Turn") = .ok handheldTurn := rfl
  have hsource : turns.resolve (.str "FE14") (.int handheldTurn.code) = .ok handheldTurn :=
    resolve_of_resolveName turns_reachable hname
  obtain rfl : schema = handheldTurn := Except.ok.inj (hschema.symm.trans hsource)
  have htarget : turns.resolveName (.str "FE9") record.event = .ok consoleTurn := by
    rw [hevent]
    rfl
  obtain ⟨migrated, hdecode, -, -, hback⟩ :=
    decode_of_encodeFor turns_reachable htarget (by decide +kernel) (by decide +kernel) hencode
  refine ⟨record, migrated, hrecord, hencode, hdecode, hback ?_ _ _ _ hrecord⟩
  rw [hslots]
  decide +kernel

end Registry

end EventDialects
