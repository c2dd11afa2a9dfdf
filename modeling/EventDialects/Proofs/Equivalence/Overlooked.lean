import EventDialects.Definition.Equivalence
import EventDialects.Proofs.Codec.Domain
import EventDialects.Proofs.Equivalence.Decision
import EventDialects.Proofs.Registry.Coherence

/-!
# Which arguments a comparison sees

The arguments of a record are put into a mapping under their canonical names, and of several slots
with one canonical name the last one counts.  Nothing keeps a definition from giving two slots the
same name in a class: it is checked that a renamed slot is there, and not what it is renamed to.  A
comparison that succeeds has therefore compared the arguments that are not **shadowed** by a later
slot, each with an equal counterpart in the other record; what a shadowed one holds does not matter.

All that is assumed here is that the verdict was positive.  So the functions are inverted without
supposing that the names can be compared, which a positive verdict says of those that count.

* `EquivalenceTable.areEquivalent_eq_ok_true_iff`: when a verdict is positive.
* `EquivalenceClass.Matches.covers`: an argument that counts and is not shadowed has a counterpart.
* `Member.collected_withArgument`: an argument that is shadowed is not collected.
* `EquivalenceTable.covers_of_areEquivalent`: **what a positive verdict says, and what it
  overlooks**.
-/

namespace EventDialects

/-- Records are equivalent exactly if they have members in one class and are compared there with
success. -/
theorem EquivalenceTable.areEquivalent_eq_ok_true_iff {t : EquivalenceTable} {a b : Record} :
    t.areEquivalent a b = .ok true ↔ ∃ i c ma mb, t.indexFor a.revision a.code = .ok (some i) ∧
      t.indexFor b.revision b.code = .ok (some i) ∧ t.classes[i]? = some c ∧
      c.memberFor a = .ok (some ma) ∧ c.memberFor b = .ok (some mb) ∧
      c.sameCallback ma mb a b = .ok true := by
  rw [areEquivalent, Attempt.bind_eq_ok]
  constructor
  · rintro ⟨found, hi, h⟩
    cases found with
    | none => cases h
    | some i =>
      obtain ⟨j, hj, h⟩ := Attempt.bind_eq_ok.mp h
      by_cases hji : j = some i
      · subst hji
        simp only [ne_eq, not_true, if_false] at h
        cases hc : t.classes[i]? with
        | none => rw [hc] at h; cases h
        | some c =>
          simp only [hc] at h
          obtain ⟨ma, hma, h⟩ := Attempt.bind_eq_ok.mp h
          obtain ⟨mb, hmb, h⟩ := Attempt.bind_eq_ok.mp h
          cases ma with
          | none => cases h
          | some ma =>
            cases mb with
            | none => cases h
            | some mb => exact ⟨i, c, ma, mb, hi, hj, hc, hma, hmb, h⟩
      · simp only [ne_eq, hji, not_false_eq_true, if_true] at h
        cases h
  · rintro ⟨i, c, ma, mb, hi, hj, hc, hma, hmb, h⟩
    refine ⟨some i, hi, Attempt.bind_eq_ok.mpr ⟨some i, hj, ?_⟩⟩
    simp only [ne_eq, not_true, if_false, hc]
    exact Attempt.bind_eq_ok.mpr ⟨some ma, hma, Attempt.bind_eq_ok.mpr ⟨some mb, hmb, h⟩⟩

/-! ### Counterparts -/

namespace Record

def withArgument (r : Record) (i : Nat) (v : Value) : Record :=
  { r with arguments := r.arguments.set i v }

theorem named_withArgument {r : Record} {i : Nat} {p : Value × Value} (hp : r.named[i]? = some p)
    (v : Value) :
    (r.withArgument i v).named = r.named.take i ++ (p.1, v) :: r.named.drop (i + 1) := by
  have hset : (r.withArgument i v).named = r.named.set i (p.1, v) := by
    refine List.ext_getElem? fun j => ?_
    simp only [named, withArgument] at hp ⊢
    grind
  obtain ⟨hi, -⟩ := List.getElem?_eq_some_iff.mp hp
  rw [hset, List.set_eq_take_append_cons_drop, if_pos hi]

theorem named_eq {r : Record} {i : Nat} {p : Value × Value} (hp : r.named[i]? = some p) :
    r.named = r.named.take i ++ p :: r.named.drop (i + 1) := by
  obtain ⟨hi, rfl⟩ := List.getElem?_eq_some_iff.mp hp
  rw [← List.drop_eq_getElem_cons hi, List.take_append_drop]

end Record

/-- A slot of a record is **shadowed** if a later one has an equal canonical name. -/
def Member.Shadowed (m : Member) (r : Record) (i : Nat) : Prop :=
  ∃ p q j, r.named[i]? = some p ∧ i < j ∧ r.named[j]? = some q ∧
    (m.canonical q.1).equal (m.canonical p.1)

theorem Member.canonicalize_append (m : Member) (others : List Value) (es fs : Entries) :
    m.canonicalize others (es ++ fs) = m.canonicalize others es ++ m.canonicalize others fs := by
  rw [canonicalize, List.filter_append, List.map_append]
  rfl

namespace EquivalenceClass

variable {c : EquivalenceClass} {ma mb : Member} {a b : Record} {others : List Value}

/-- A record **covers** another one if every argument of the other that counts against it, is not
compared as a group and is not shadowed has an equal one in it under an equal canonical name. -/
def Covers (c : EquivalenceClass) (ma mb : Member) (a b : Record) : Prop :=
  ∀ i p, b.named[i]? = some p → ¬ mb.omits (ma.canonicals a) p.1 → ¬ c.groups (mb.canonical p.1) →
    ¬ mb.Shadowed b i →
      ∃ q ∈ a.named, (ma.canonical q.1).equal (mb.canonical p.1) ∧ p.2.comparesEqual q.2

/-- **An argument that counts and is not shadowed has a counterpart.** -/
theorem Matches.covers
    (h : c.Matches (ma.collected others a) (mb.collected (ma.canonicals a) b)) :
    c.Covers ma mb a b := by
  intro i p hp hkept hgroups hshadowed
  have hpairs : mb.canonicalize (ma.canonicals a) b.named =
      mb.canonicalize (ma.canonicals a) (b.named.take i) ++ (mb.canonical p.1, p.2) ::
        mb.canonicalize (ma.canonicals a) (b.named.drop (i + 1)) := by
    conv_lhs => rw [Record.named_eq hp]
    rw [Member.canonicalize_append, Member.canonicalize_cons, if_neg hkept]
  have hlast : ∀ q ∈ mb.canonicalize (ma.canonicals a) (b.named.drop (i + 1)),
      ¬ q.1.equal (mb.canonical p.1) := by
    intro q hq he
    obtain ⟨q', hq', hname, -⟩ := Member.mem_canonicalize hq
    obtain ⟨j, hj⟩ := List.mem_iff_getElem?.mp hq'
    rw [List.getElem?_drop] at hj
    exact hshadowed ⟨p, q', i + 1 + j, hp, by omega, hj, hname ▸ he⟩
  -- The argument is what the mapping holds under its name, and so is its counterpart.
  obtain ⟨f, hf, hfv, hfk⟩ := Entries.exists_mem_ofPairs_of_last
    (mb.canonicalize (ma.canonicals a) (b.named.take i)) (mb.canonical p.1, p.2) hlast
  rw [← hpairs] at hf
  obtain ⟨e, he, hef⟩ := h.right f hf
  have hek : e.1.equal (mb.canonical p.1) := hfk.equal_of_equal hef
  have hvalue : e.2.comparesEqual f.2 := by
    refine h.values e he f hf (Value.equal_symm hef) ?_
    rwa [groups_congr hek]
  obtain ⟨x, hx, hxv, hxk⟩ := Entries.exists_mem_of_mem_ofPairs he
  obtain ⟨q, hq, hqk, hqv⟩ := Member.mem_canonicalize hx
  refine ⟨q, hq, ?_, ?_⟩
  · rw [hqk]
    exact Value.equal_symm (hxk.equal_of_equal (Value.equal_symm hek))
  · rw [hqv, ← hxv]
    exact Value.comparesEqual_symm (hfv ▸ hvalue)

theorem Matches.any_canonicals
    (h : c.Matches (ma.collected others a) (mb.collected (ma.canonicals a) b)) {i : Nat}
    {p : Value × Value} (hp : b.named[i]? = some p) (hkept : ¬ mb.omits (ma.canonicals a) p.1) :
    (ma.canonicals a).any (·.equal (mb.canonical p.1)) := by
  have hmem : (mb.canonical p.1, p.2) ∈ mb.canonicalize (ma.canonicals a) b.named :=
    List.mem_map.mpr ⟨p, List.mem_filter.mpr ⟨List.mem_of_getElem? hp, by simpa using hkept⟩, rfl⟩
  obtain ⟨f, hf, hfk⟩ := Entries.exists_mem_ofPairs_of_mem hmem
  obtain ⟨e, he, hef⟩ := h.right f hf
  have hkeys : ∀ e ∈ ma.collected others a, e.1 ∈ ma.canonicals a ∧ True := by
    refine Entries.forall_mem_ofPairs (q := fun _ => True) fun x hx => ?_
    obtain ⟨q, hq, hqk, -⟩ := Member.mem_canonicalize hx
    exact ⟨List.mem_map.mpr ⟨q.1, (List.of_mem_zip hq).1, hqk⟩, trivial⟩
  exact List.any_eq_true.mpr ⟨e.1, (hkeys e he).1, hfk.equal_of_equal hef⟩

end EquivalenceClass

/-- **An argument that is shadowed is not collected**, unless the slot that shadows it is left out.
-/
theorem Member.collected_withArgument {m : Member} {r : Record} {i : Nat} {others : List Value}
    (hshadowed : m.Shadowed r i)
    (hothers : ∀ p, r.named[i]? = some p → ¬ m.omits others p.1 →
      others.any (·.equal (m.canonical p.1))) (v : Value) :
    m.collected others (r.withArgument i v) = m.collected others r := by
  obtain ⟨p, q, j, hp, hij, hq, he⟩ := hshadowed
  rw [collected, collected, Record.named_withArgument hp]
  conv_rhs => rw [Record.named_eq hp]
  rw [canonicalize_append, canonicalize_append, canonicalize_cons, canonicalize_cons]
  by_cases hkept : m.omits others p.1
  · rw [if_pos hkept, if_pos hkept]
  · -- The slot that shadows it is not left out: the other record has a slot of its name too.
    have hqkept : m.omits others q.1 = false := by
      rw [omits, funext fun z => Value.equal_congr_right he z, hothers p hp hkept, Bool.not_true,
        Bool.and_false]
    have hqmem : q ∈ r.named.drop (i + 1) := by
      refine List.mem_iff_getElem?.mpr ⟨j - (i + 1), ?_⟩
      rw [List.getElem?_drop, Nat.add_sub_cancel' hij]
      exact hq
    have hlater : (m.canonical q.1, q.2) ∈ m.canonicalize others (r.named.drop (i + 1)) :=
      List.mem_map.mpr ⟨q, List.mem_filter.mpr ⟨hqmem, by rw [hqkept]; rfl⟩, rfl⟩
    rw [if_neg hkept, if_neg hkept]
    exact Entries.ofPairs_of_overwritten _ v p.2 ⟨_, hlater, Value.equal_symm he⟩

namespace EquivalenceTable

/-- **What a positive verdict says, and what it overlooks.**  Both records have members in one
class, and each covers the other: an argument that counts, is not compared as a group and is not
shadowed has an equal counterpart.  The arguments that are shadowed may be any: the verdict stays
the same. -/
theorem covers_of_areEquivalent {t : EquivalenceTable} {a b : Record}
    (h : t.areEquivalent a b = .ok true) :
    ∃ c ∈ t.classes, ∃ ma mb, c.memberFor a = .ok (some ma) ∧ c.memberFor b = .ok (some mb) ∧
      c.Covers mb ma b a ∧ c.Covers ma mb a b ∧
      (∀ i, ma.Shadowed a i → ∀ v, t.areEquivalent (a.withArgument i v) b = .ok true) ∧
      ∀ i, mb.Shadowed b i → ∀ v, t.areEquivalent a (b.withArgument i v) = .ok true := by
  obtain ⟨n, c, ma, mb, hna, hnb, hc, hma, hmb, hsame⟩ := areEquivalent_eq_ok_true_iff.mp h
  obtain ⟨ha, hb, hagree⟩ := EquivalenceClass.sameCallback_eq_ok_iff.mp hsame
  have hmatches := EquivalenceClass.matches_of_agree (Entries.distinct_ofPairs _) hagree
  refine ⟨c, List.mem_of_getElem? hc, ma, mb, hma, hmb, hmatches.symm.covers, hmatches.covers,
    fun i hi v => ?_, fun i hi v => ?_⟩
  · have hcollected := Member.collected_withArgument hi
      (fun p hp hkept => hmatches.symm.any_canonicals hp hkept) v
    refine areEquivalent_eq_ok_true_iff.mpr ⟨n, c, ma, mb, hna, hnb, hc, hma, hmb, ?_⟩
    refine EquivalenceClass.sameCallback_eq_ok_iff.mpr ⟨ha, hb, ?_⟩
    rw [hcollected]
    exact hagree
  · have hcollected := Member.collected_withArgument hi
      (fun p hp hkept => hmatches.any_canonicals hp hkept) v
    refine areEquivalent_eq_ok_true_iff.mpr ⟨n, c, ma, mb, hna, hnb, hc, hma, hmb, ?_⟩
    refine EquivalenceClass.sameCallback_eq_ok_iff.mpr ⟨ha, hb, ?_⟩
    rw [hcollected]
    exact hagree

def point : Schema where
  code := 1
  name := .str "Point"
  slots := [⟨.str "x", .rawInteger, none, .int 32, .bool true, .int 1, by decide +kernel⟩,
    ⟨.str "y", .rawInteger, none, .int 32, .bool true, .int 1, by decide +kernel⟩]
  revision := some ⟨"FE14", ""⟩

def points : Registry := ⟨[⟨⟨"FE14", ""⟩, .null, .null, [point], true⟩]⟩

/-- A definition that gives both slots one name. -/
def pointClasses : Value :=
  .map [(.str "classes", .list [.map [
    (.str "name", .str "Point"),
    (.str "members", .list [.map [
      (.str "revision", .str "FE14"),
      (.str "slots", .map [(.str "x", .str "z"), (.str "y", .str "z")])]])]])]

def pointMember : Member :=
  ⟨⟨"FE14", ""⟩, 1, .str "Point", [(.str "x", .str "z"), (.str "y", .str "z")], []⟩

def pointClass : EquivalenceClass := ⟨.str "Point", [pointMember], []⟩

def pointAt (x y : Int) : Record :=
  ⟨.revision ⟨"FE14", ""⟩, .int 1, .str "Point", [.str "x", .str "y"], [.int x, .int y]⟩

theorem covers_of_areEquivalent_point :
    EquivalenceTable.areEquivalent ⟨[pointClass]⟩ (pointAt 1 2) (pointAt 3 2) = .ok true ∧
      EquivalenceTable.areEquivalent ⟨[pointClass]⟩ (pointAt 5 2) (pointAt 3 2) = .ok true := by
  have htrue : EquivalenceTable.areEquivalent ⟨[pointClass]⟩ (pointAt 1 2) (pointAt 3 2) =
    .ok true := Attempt.eq_ok_of_toOption (by decide +kernel)
  obtain ⟨c, hc, ma, mb, hma, hmb, -, -, hoverlooked, -⟩ := covers_of_areEquivalent htrue
  obtain rfl := List.mem_singleton.mp hc
  obtain rfl := List.mem_singleton.mp
    (EquivalenceClass.mem_of_memberFor? (EquivalenceClass.memberFor?_of_memberFor hma))
  have hshadowed : pointMember.Shadowed (pointAt 1 2) 0 :=
    ⟨(.str "x", .int 1), (.str "y", .int 2), 1, rfl, Nat.zero_lt_one, rfl, by decide +kernel⟩
  exact ⟨htrue, hoverlooked 0 hshadowed (.int 5)⟩

theorem points_reachable : points.Reachable := by
  have htable : Table.Reachable ⟨⟨"FE14", ""⟩, .null, .null, [point], false⟩ :=
    .register (.empty ⟨"FE14", ""⟩ .null .null)
      (Table.register_eq_ok_iff.mpr ⟨rfl, rfl, rfl, rfl, rfl, rfl⟩ :
        Table.register _ 1 point = .ok (point, _))
  exact .register .empty htable
    (Registry.register_eq_ok_iff.mpr ⟨rfl, rfl, rfl⟩ :
      Registry.register _ (.revision ⟨"FE14", ""⟩) _ = _)

theorem points_decode {x y : Int} (hx : point.slots[0].Within x) (hy : point.slots[1].Within y) :
    points.decode (.str "FE14") (.int 1) (.list ([x, y].map .int)) = .ok (pointAt x y) := by
  have hname : points.resolveName (.str "FE14") (.str "Point") = .ok point := rfl
  have hresolve : points.resolve (.str "FE14") (.int point.code) = .ok point :=
    Registry.resolve_of_resolveName points_reachable hname
  have hslots : Schema.decodeSlots point.slots ([x, y].map .int) = .ok [.int x, .int y] :=
    Schema.decodeSlots_cons_eq_ok.mpr ⟨_, _, rfl, rfl,
      Slot.fitting_eq_ok.mpr ⟨rfl, Slot.checkWidth_eq_ok_iff.mpr hx⟩,
      Schema.decodeSlots_cons_eq_ok.mpr ⟨_, _, rfl, rfl,
        Slot.fitting_eq_ok.mpr ⟨rfl, Slot.checkWidth_eq_ok_iff.mpr hy⟩, rfl⟩⟩
  exact Attempt.bind_eq_ok.mpr ⟨point, hresolve,
    Schema.decode_eq_ok_iff.mpr ⟨rfl, _, hslots, rfl⟩⟩

/-- Points that differ in a number are equivalent: of two slots with one name in the class only the
last is compared. -/
theorem overlooked_point :
    points.Reachable ∧ build points pointClasses "equivalences.yaml" = .ok ⟨[pointClass]⟩ ∧
      points.decode (.str "FE14") (.int 1) (.list ([1, 2].map .int)) = .ok (pointAt 1 2) ∧
      points.decode (.str "FE14") (.int 1) (.list ([3, 2].map .int)) = .ok (pointAt 3 2) ∧
      EquivalenceTable.areEquivalent ⟨[pointClass]⟩ (pointAt 1 2) (pointAt 3 2) = .ok true ∧
      pointClass.memberFor (pointAt 1 2) = .ok (some pointMember) ∧
      pointClass.memberFor (pointAt 3 2) = .ok (some pointMember) ∧
      ∃ p ∈ (pointAt 1 2).named,
        ¬ pointMember.omits (pointMember.canonicals (pointAt 3 2)) p.1 ∧
        ¬ pointClass.groups (pointMember.canonical p.1) ∧
        ∀ q ∈ (pointAt 3 2).named,
          (pointMember.canonical q.1).equal (pointMember.canonical p.1) →
            ¬ p.2.comparesEqual q.2 := by
  have within {s : Slot} {n : Int} (h : (s.checkWidth (.int n)).toOption = some ()) : s.Within n :=
    Slot.checkWidth_eq_ok_iff.mp (Attempt.eq_ok_of_toOption h)
  have hmember (x y : Int) : pointClass.memberFor (pointAt x y) = .ok (some pointMember) := by
    have hmem : pointMember ∈ pointClass.members := List.mem_singleton.mpr rfl
    obtain ⟨m, hm⟩ := EquivalenceClass.exists_memberFor?_iff (r := pointAt x y).mpr
      ⟨pointMember, hmem, Member.isAt_iff.mpr ⟨rfl, Value.equal_self _⟩,
        Value.comparesEqual_iff.mpr ⟨Value.equal_self _, rfl⟩⟩
    obtain rfl := List.mem_singleton.mp (EquivalenceClass.mem_of_memberFor? hm)
    rw [EquivalenceClass.memberFor_eq rfl, hm]
  refine ⟨points_reachable, rfl, ?_, ?_, Attempt.eq_ok_of_toOption (by decide +kernel),
    hmember 1 2, hmember 3 2, (.str "x", .int 1), List.mem_cons_self, by decide +kernel,
    by decide +kernel, by decide +kernel⟩
  · exact points_decode (within (by decide +kernel)) (within (by decide +kernel))
  · exact points_decode (within (by decide +kernel)) (within (by decide +kernel))

end EquivalenceTable

end EventDialects
