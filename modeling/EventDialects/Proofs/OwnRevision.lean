import EventDialects.Proofs.Codec.Refusal
import EventDialects.Proofs.Migration
import EventDialects.Proofs.Registry.Loading

/-!
# Encoding by name for a record's own revision

`Schema.encode` takes the arguments of a record by position, `Registry.encodeFor` by name.  For a
record that already has the slots of its schema both should come to the same.  They do not quite.

Encoding by position compares the number of arguments first.  By name, an argument without a slot is
never looked up, and a slot without an argument is out of bounds.  And where two slots have equal
names, both get the argument of the first one.

* `Schema.Shapes`: a record has the event and the slots of a schema, and any number of arguments.
* `Registry.encodeFor_eq_encode_iff`: **both ways agree exactly if there is an argument for each
  slot**, for slot names that can be sorted.
* `Registry.encodeFor_of_build_iff`: **a decoded record encodes to its operands exactly if slots
  with equal names have equal arguments**, for slot names that can be sorted.
-/

namespace EventDialects

open List (Forall₂)
open Value (Alike SameSorted IsUnordered)

/-- A record has the **shape** of a schema if its event is the schema's and its slots are named as
the schema's slots are, in the same order.  How many arguments it has is left open. -/
structure Schema.Shapes (schema : Schema) (record : Record) : Prop where
  event : schema.name.equal record.event
  hashable : record.event.hashable
  slotNames : Value.equalAll record.slotNames schema.slotNames

namespace Schema.Shapes

variable {schema : Schema} {record : Record}

/-- If no two slots have equal names, each slot's name stands at the slot's own place. -/
theorem position? (h : schema.Shapes record)
    (hdistinct : schema.slotNames.Pairwise fun x y => ¬ x.equal y) (i : Nat)
    (hi : i < schema.slotNames.length) : record.position? schema.slotNames[i] = some i := by
  have hnames := Value.equalAll_iff.mp h.slotNames
  have hi' : i < record.slotNames.length := hnames.length_eq ▸ hi
  refine Record.position?_eq_some_iff.mpr ⟨hi', hnames.get hi' hi, fun j hj hji => ?_⟩
  have hj' : j < schema.slotNames.length := Nat.lt_trans hj hi
  have hjr : j < record.slotNames.length := Nat.lt_trans hj hi'
  -- An equal name at an earlier place would be the schema's own name there, and thus a second one.
  have hjj : schema.slotNames[j].equal record.slotNames[j] :=
    Value.equal_symm (hnames.get hjr hj')
  exact List.pairwise_iff_getElem.mp hdistinct j i hj' hi hj (Value.equal_trans hjj hji)

end Schema.Shapes

namespace Registry

open Schema (Encodes)

/-! ### Taking arguments by name -/

theorem argumentsOf_eq_error {record : Record} {names : List Value} {e : Failure}
    (h : argumentsOf record names = .error e) :
    ∃ name ∈ names, record.argument name = .error e := by
  induction names with
  | nil => cases h
  | cons name names ih =>
    rw [argumentsOf] at h
    rcases Attempt.bind_eq_error.mp h with h | ⟨v, -, h⟩
    · exact ⟨name, List.mem_cons_self, h⟩
    · rcases Attempt.bind_eq_error.mp h with h | ⟨vs, -, h⟩
      · obtain ⟨name', hname', he⟩ := ih h
        exact ⟨name', List.mem_cons_of_mem name hname', he⟩
      · cases h

section

variable {record : Record} {names : List Value}
  (hplaces : ∀ i (hi : i < names.length), record.position? names[i] = some i)

include hplaces

/-- With enough arguments, names take theirs from the front and leave the rest. -/
theorem argumentsOf_eq_take (hlen : names.length ≤ record.arguments.length) :
    argumentsOf record names = .ok (record.arguments.take names.length) := by
  have htake : names.length = (record.arguments.take names.length).length := by
    rw [List.length_take, Nat.min_eq_left hlen]
  refine argumentsOf_eq_ok_iff.mpr (List.forall₂_iff_get.mpr ⟨htake, fun i hi hv => ?_⟩)
  refine Record.argument_eq_of_getElem? (hplaces i hi) ?_
  rw [List.get_eq_getElem, List.getElem_take]
  exact List.getElem?_eq_getElem _

theorem argumentsOf_eq_outOfBounds (hlen : record.arguments.length < names.length) :
    argumentsOf record names = misused .outOfBounds := by
  cases h : argumentsOf record names with
  | ok vs =>
    -- The name behind the last argument would have to have one.
    have hvs := argumentsOf_eq_ok_iff.mp h
    have hargument := hvs.get hlen (hvs.length_eq ▸ hlen)
    obtain ⟨i, hi, hv⟩ := Record.argument_eq_ok_iff.mp hargument
    obtain rfl : record.arguments.length = i := Option.some.inj ((hplaces _ hlen).symm.trans hi)
    rw [List.getElem?_eq_none (Nat.le_refl _)] at hv
    cases hv
  | error e =>
    obtain ⟨name, hname, he⟩ := argumentsOf_eq_error h
    obtain ⟨i, hi, rfl⟩ := List.getElem_of_mem hname
    rw [Record.argument, hplaces i hi] at he
    cases hv : record.arguments[i]? with
    | some v => simp [hv] at he
    | none => simp only [hv] at he; cases he; rfl

end

theorem reorder_of_sameSorted {schema : Schema} {record : Record}
    (h : SameSorted record.slotNames schema.slotNames) :
    reorder schema record = argumentsOf record schema.slotNames >>= fun vs =>
      .ok { record with slotNames := schema.slotNames, arguments := vs } := by
  obtain ⟨actual, expected, hactual, hexpected, he⟩ := h
  simp only [reorder, hactual, hexpected, bind, Except.bind, he]
  rfl

/-! ### By position and by name -/

section

variable {g : Registry} {revision name : Value} {schema : Schema} {record : Record}
  {sorted : List Value} (hschema : g.resolveName revision name = .ok schema)
  (hshape : schema.Shapes record)

include hschema hshape

theorem resolveName_event : g.resolveName revision record.event = .ok schema := by
  obtain ⟨t, ht, -, hs⟩ := resolveName_eq_ok_iff.mp hschema
  have hfound : schema.name.equal name := by simpa using List.find?_some hs
  have hname : name.equal record.event :=
    Value.equal_trans (Value.equal_symm hfound) hshape.event
  refine resolveName_eq_ok_iff.mpr ⟨t, ht, hshape.hashable, ?_⟩
  rw [Table.byName?, ← funext fun s : Schema => Value.equal_congr_right hname s.name]
  exact hs

theorem encodeFor_of_sort (hsort : Value.sort schema.slotNames = .ok sorted) :
    g.encodeFor revision record = argumentsOf record schema.slotNames >>= fun vs =>
      Schema.encode schema { record with slotNames := schema.slotNames, arguments := vs } := by
  have hsame := SameSorted.of_equalAll hshape.slotNames hsort
  simp only [encodeFor, resolveName_event hschema hshape, bind, Except.bind,
    reorder_of_sameSorted hsame]
  cases argumentsOf record schema.slotNames <;> rfl

theorem encodeFor_of_sort_error {e : Failure} (hsort : Value.sort schema.slotNames = .error e) :
    ∃ e', g.encodeFor revision record = .error e' ∧ IsUnordered e' := by
  -- The record's names are sorted first.  They are equal to the schema's, so they cannot be sorted
  -- either, though it may be over another pair of them that sorting fails.
  cases hactual : Value.sort record.slotNames with
  | ok actual =>
    obtain ⟨expected, _, hexpected, -⟩ :=
      SameSorted.of_equalAll (Value.equalAll_symm hshape.slotNames) hactual
    cases hexpected.symm.trans hsort
  | error e' =>
    refine ⟨e', ?_, Value.sortOn_eq_error hactual⟩
    simp only [encodeFor, resolveName_event hschema hshape, reorder, hactual, bind, Except.bind]

section

variable (hsort : Value.sort schema.slotNames = .ok sorted)
  (hdistinct : schema.slotNames.Pairwise fun x y => ¬ x.equal y)

include hsort hdistinct

theorem encodeFor_of_few (hlen : record.arguments.length < schema.slots.length) :
    g.encodeFor revision record = misused .outOfBounds := by
  have hnames : record.arguments.length < schema.slotNames.length := by
    rw [Schema.slotNames, List.length_map]
    exact hlen
  rw [encodeFor_of_sort hschema hshape hsort,
    argumentsOf_eq_outOfBounds (hshape.position? hdistinct) hnames]
  rfl

theorem encodeFor_of_enough (hlen : schema.slots.length ≤ record.arguments.length) :
    g.encodeFor revision record =
      Schema.encodeSlots schema.slots (record.arguments.take schema.slots.length) := by
  have hnames : schema.slotNames.length = schema.slots.length := List.length_map _
  rw [encodeFor_of_sort hschema hshape hsort,
    argumentsOf_eq_take (hshape.position? hdistinct) (hnames ▸ hlen), hnames]
  refine Schema.encode_of_fits ⟨Value.equalAll_self _, ?_⟩
  exact (List.length_take).trans (Nat.min_eq_left hlen)

end

/-- **Encoding by name and by position agree exactly if there is an argument for each slot**, for
slot names that can be sorted and an event name that can be printed.  With too few arguments the one
is out of bounds, and with too many it encodes the first ones; the other refuses the record in both
cases. -/
theorem encodeFor_eq_encode_iff (hname : schema.name.printable)
    (hdistinct : schema.slotNames.Pairwise fun x y => ¬ x.equal y) :
    (g.encodeFor revision record = schema.encode record ↔
        (∃ sorted, Value.sort schema.slotNames = .ok sorted) ∧
          record.arguments.length = schema.slots.length) ∧
      (record.arguments.length ≠ schema.slots.length →
        schema.encode record = schema.mismatch record) ∧
      ((∃ sorted, Value.sort schema.slotNames = .ok sorted) →
        (record.arguments.length < schema.slots.length →
          g.encodeFor revision record = misused .outOfBounds) ∧
        (schema.slots.length ≤ record.arguments.length → g.encodeFor revision record =
          schema.encode { record with
            arguments := record.arguments.take schema.slots.length })) := by
  have hrefused (hlen : record.arguments.length ≠ schema.slots.length) :
      schema.encode record = schema.mismatch record :=
    Schema.encode_of_not_fits fun hfits => hlen hfits.2
  refine ⟨⟨fun h => ?_, ?_⟩, hrefused, ?_⟩
  · cases hsort : Value.sort schema.slotNames with
    | error e =>
      obtain ⟨e', he', hunordered⟩ := encodeFor_of_sort_error hschema hshape hsort
      exact absurd (h.symm.trans he') (Schema.encode_ne_unordered hunordered)
    | ok sorted =>
      refine ⟨⟨sorted, rfl⟩, ?_⟩
      by_contra hlen
      -- By position the record is refused as a whole, which is no outcome of the way by name.
      rcases Nat.lt_or_gt_of_ne hlen with hlt | hgt
      · rw [encodeFor_of_few hschema hshape hsort hdistinct hlt] at h
        exact Schema.encode_ne_outOfBounds h.symm
      · rw [encodeFor_of_enough hschema hshape hsort hdistinct (Nat.le_of_lt hgt),
          hrefused hlen] at h
        exact Schema.encodeSlots_ne_mismatch hname h
  · rintro ⟨⟨sorted, hsort⟩, hlen⟩
    rw [encodeFor_of_enough hschema hshape hsort hdistinct (Nat.le_of_eq hlen.symm), ← hlen,
      List.take_length]
    exact (Schema.encode_of_fits ⟨hshape.slotNames, hlen⟩).symm
  · rintro ⟨sorted, hsort⟩
    refine ⟨encodeFor_of_few hschema hshape hsort hdistinct, fun hlen => ?_⟩
    rw [encodeFor_of_enough hschema hshape hsort hdistinct hlen, Schema.encode_of_fits]
    exact ⟨hshape.slotNames, (List.length_take).trans (Nat.min_eq_left hlen)⟩

end

def turnWith (arguments : List Value) : Record :=
  ⟨.revision ⟨"FE9", ""⟩, .int 9, .str "Turn", consoleTurn.slotNames, arguments⟩

theorem shapes_turnWith (arguments : List Value) : consoleTurn.Shapes (turnWith arguments) :=
  ⟨rfl, rfl, rfl⟩

def turnArguments : List Value := [.int 5, .set [], .tuple [.int 1, .int 2, .int 3, .int 4]]

theorem encodeFor_eq_encode_iff_turn :
    turns.encodeFor (.str "FE9") (turnWith turnArguments) =
      consoleTurn.encode (turnWith turnArguments) := by
  have hschema : turns.resolveName (.str "FE9") (.str "Turn") = .ok consoleTurn := rfl
  have hagree :=
    encodeFor_eq_encode_iff hschema (shapes_turnWith turnArguments) rfl (by decide +kernel)
  exact hagree.1.mpr ⟨Value.exists_sort_of_texts ["turn", "flags", "region"], rfl⟩

/-- An argument too many and an argument too few: only encoding by position refuses the record. -/
theorem encodeFor_ne_encode_turn :
    let refused : Attempt (List Int) := refuse (.schemaMismatch (.str "Turn")
      ["turn", "flags", "region"] ["turn", "flags", "region"])
    turns.encodeFor (.str "FE9") (turnWith (turnArguments ++ [.int 9])) = .ok [5, 0, 1, 2, 3, 4] ∧
      consoleTurn.encode (turnWith (turnArguments ++ [.int 9])) = refused ∧
      turns.encodeFor (.str "FE9") (turnWith (turnArguments.take 2)) = misused .outOfBounds ∧
      consoleTurn.encode (turnWith (turnArguments.take 2)) = refused := by
  refine ⟨Attempt.eq_ok_of_toOption ?_, rfl, rfl, rfl⟩
  decide +kernel

/-! ### Decoded records -/

section

variable {g : Registry} {revision code : Value} {ops : List Int} {record : Record}
  (hg : g.Reachable) (hdecode : g.decode revision code (.list (ops.map .int)) = .ok record)

include hg hdecode

theorem exists_resolveName_of_decode : ∃ schema,
    g.resolveName revision record.event = .ok schema ∧ record.slotNames = schema.slotNames ∧
      Encodes schema.slots record.arguments ops := by
  obtain ⟨schema, hschema, he, hslots, hencodes⟩ := exists_schema_of_decode hdecode
  refine ⟨schema, ?_, hslots, hencodes⟩
  rw [he]
  exact resolveName_of_resolve hg hschema (hashable_of_resolve hg hschema) (Value.equal_self _)

/-- What the way by name gives under each slot's name is equal to the slot's own argument. -/
theorem equal_of_encodeFor_of_decode (hencode : g.encodeFor revision record = .ok ops) :
    (∃ sorted, Value.sort record.slotNames = .ok sorted) ∧
      ∀ p ∈ record.named, ∀ q ∈ record.named, p.1.equal q.1 → p.2.equal q.2 := by
  obtain ⟨schema, hschema, hslots, hencodes⟩ := exists_resolveName_of_decode hg hdecode
  obtain ⟨schema', vs, hschema', ⟨sorted, _, hsort, -, -⟩, hvs, hencodes'⟩ :=
    encodeFor_eq_ok_iff.mp hencode
  obtain rfl : schema' = schema := Except.ok.inj (hschema'.symm.trans hschema)
  refine ⟨⟨sorted, hsort⟩, fun p hp q hq hpq => ?_⟩
  -- What is found by name has the operands of the slots' own arguments, so both are equal.
  have hequal := hencodes'.equal_of_alike (hencodes'.alike hencodes)
  rw [← hslots] at hvs
  have hplaces := forall₂_comp hvs hequal
  obtain ⟨v, hv, hvp⟩ := List.forall₂_zip hplaces hp
  obtain ⟨w, hw, hwq⟩ := List.forall₂_zip hplaces hq
  obtain rfl : v = w := Except.ok.inj (((Record.argument_congr hpq).mp hv).symm.trans hw)
  exact Value.equal_trans (Value.equal_symm hvp) hwq

theorem encodeFor_of_decode_of_equal {sorted : List Value}
    (hsort : Value.sort record.slotNames = .ok sorted)
    (hagree : ∀ p ∈ record.named, ∀ q ∈ record.named, p.1.equal q.1 → p.2.equal q.2) :
    g.encodeFor revision record = .ok ops := by
  obtain ⟨schema, hschema, hslots, hencodes⟩ := exists_resolveName_of_decode hg hdecode
  have hlen : record.arguments.length = record.slotNames.length := by
    rw [hencodes.arguments_length, hslots, Schema.slotNames, List.length_map]
  have hnamed : Forall₂ (fun name v => (name, v) ∈ record.named) record.slotNames
      record.arguments := List.forall₂_iff_zip.mpr ⟨hlen.symm, id⟩
  -- Under each name stands an argument like the slot's own, be it that of an earlier slot.
  obtain ⟨vs, hvs, halike⟩ : ∃ vs,
      Forall₂ (fun name v => record.argument name = .ok v) record.slotNames vs ∧
        Forall₂ Alike record.arguments vs := by
    refine exists_forall₂ hnamed fun name hname v hv => ?_
    obtain ⟨p, hp, hpe, hargument⟩ :=
      Record.exists_named_of_mem hlen ⟨name, hname, Value.equal_self name⟩
    have hsame := hagree (name, v) hv p hp (Value.equal_symm hpe)
    have harguments : ∀ q ∈ record.named, q.2.IsArgument := fun q hq =>
      hencodes.isArgument _ (List.of_mem_zip hq).2
    exact ⟨p.2, hargument, (harguments _ hv).alike_of_equal (harguments p hp) hsame⟩
  have hsame := SameSorted.of_equalAll (Value.equalAll_self record.slotNames) hsort
  rw [hslots] at hvs
  rw [hslots] at hsame
  exact encodeFor_eq_ok_iff.mpr ⟨schema, vs, hschema, hslots ▸ hsame, hvs, hencodes.congr halike⟩

end

/-- **A decoded record encodes by name, for its own revision, to the operands that it was made of,
exactly if slots with equal names have equal arguments**, for slot names that can be sorted.  The
definition is any that can be loaded: it may give several slots one name. -/
theorem encodeFor_of_build_iff {definition : Value} {source : String} {t : Table}
    {g g' : Registry} {revision code : Value} {ops : List Int} {record : Record}
    (hbuild : Table.build definition source = .ok t) (hg : g.Reachable)
    (hpublish : g.register revision t = .ok g')
    (hdecode : g'.decode revision code (.list (ops.map .int)) = .ok record) :
    g'.encodeFor revision record = .ok ops ↔
      (∃ sorted, Value.sort record.slotNames = .ok sorted) ∧
        ∀ p ∈ record.named, ∀ q ∈ record.named, p.1.equal q.1 → p.2.equal q.2 := by
  have hg' : g'.Reachable := hg.register (Table.build_reachable hbuild).1 hpublish
  constructor
  · intro hencode
    exact equal_of_encodeFor_of_decode hg' hdecode hencode
  · rintro ⟨⟨sorted, hsort⟩, hagree⟩
    exact encodeFor_of_decode_of_equal hg' hdecode hsort hagree

/-- A definition with an ordinary event, and with one whose slots have one name. -/
def pairs : Value :=
  Bundled.dialect "FE14" "Fates" "3ds" 6 32
    [Bundled.event 1 "Turn" [Bundled.number "turn", Bundled.point "place"],
      Bundled.event 2 "Pair" [Bundled.number "x", Bundled.number "x"]]

theorem encodeFor_of_build_iff_pairs : ∃ t g record,
    Table.build pairs "fe14.yaml" = .ok t ∧ empty.register (.str "FE14") t = .ok g ∧
      g.decode (.str "FE14") (.int 1) (.list ([3, -1, 2].map .int)) = .ok record ∧
      g.encodeFor (.str "FE14") record = .ok [3, -1, 2] := by
  have hrun : ((Table.build pairs "fe14.yaml").toOption.bind fun t =>
      (empty.register (.str "FE14") t).toOption.bind fun g =>
        (g.decode (.str "FE14") (.int 1) (.list ([3, -1, 2].map .int))).toOption.map fun record =>
          decide ((Value.sort record.slotNames).toOption.isSome ∧
            ∀ p ∈ record.named, ∀ q ∈ record.named, p.1.equal q.1 → p.2.equal q.2)) =
        some true := by
    decide +kernel
  obtain ⟨t, ht, hrun⟩ := Option.bind_eq_some_iff.mp hrun
  obtain ⟨g, hg, hrun⟩ := Option.bind_eq_some_iff.mp hrun
  obtain ⟨record, hrecord, hrun⟩ := Option.map_eq_some_iff.mp hrun
  obtain ⟨hsort, hagree⟩ := of_decide_eq_true hrun
  replace ht := Attempt.eq_ok_of_toOption ht
  replace hg := Attempt.eq_ok_of_toOption hg
  replace hrecord := Attempt.eq_ok_of_toOption hrecord
  obtain ⟨sorted, hsorted⟩ := Option.isSome_iff_exists.mp hsort
  refine ⟨t, g, record, ht, hg, hrecord, ?_⟩
  exact (encodeFor_of_build_iff ht .empty hg hrecord).mpr
    ⟨⟨sorted, Attempt.eq_ok_of_toOption hsorted⟩, hagree⟩

/-- Two slots with one name: both operands become that of the first slot. -/
theorem encodeFor_pair_ne : ∃ t g record,
    Table.build pairs "fe14.yaml" = .ok t ∧ empty.register (.str "FE14") t = .ok g ∧
      g.decode (.str "FE14") (.int 2) (.list ([1, 2].map .int)) = .ok record ∧
      g.encodeFor (.str "FE14") record = .ok [1, 1] := by
  have hrun : ((Table.build pairs "fe14.yaml").toOption.bind fun t =>
      (empty.register (.str "FE14") t).toOption.bind fun g =>
        (g.decode (.str "FE14") (.int 2) (.list ([1, 2].map .int))).toOption.bind fun record =>
          (g.encodeFor (.str "FE14") record).toOption) = some [1, 1] := by
    decide +kernel
  obtain ⟨t, ht, hrun⟩ := Option.bind_eq_some_iff.mp hrun
  obtain ⟨g, hg, hrun⟩ := Option.bind_eq_some_iff.mp hrun
  obtain ⟨record, hrecord, hrun⟩ := Option.bind_eq_some_iff.mp hrun
  exact ⟨t, g, record, Attempt.eq_ok_of_toOption ht, Attempt.eq_ok_of_toOption hg,
    Attempt.eq_ok_of_toOption hrecord, Attempt.eq_ok_of_toOption hrun⟩

end Registry

end EventDialects
