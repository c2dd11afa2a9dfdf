import EventDialects.Proofs.Value.Equality
import EventDialects.Value.Key

/-!
# Mappings

A mapping keeps its entries in the order in which their keys were first put in, and a key that is
put in again gets the new value.  So no two of its keys are equal, and the entry under a key is the
only one.  Two mappings with the same keys can then be laid side by side, key by key.

* `distinct_ofPairs`: **no two keys of a mapping are equal**.
* `exists_mem_ofPairs_of_last`, `ofPairs_of_overwritten`: of several pairs with equal keys the last
  one counts, and the values of the others do not matter.
* `lookup?_insert`, `lookup?_eq_some_of_mem`: what is put in, and what is an entry, is found under its
  key.
* `exists_aligned`: mappings with the same keys can be put into the same order.
-/

namespace EventDialects

theorem Value.checkKeys_eq_ok_iff {vs : List Value} :
    Value.checkKeys vs = .ok () ↔ ∀ v ∈ vs, v.hashable := by
  induction vs with
  | nil => simp [Value.checkKeys]
  | cons v vs ih =>
    rw [Value.checkKeys, Attempt.bind_eq_ok, List.forall_mem_cons, ← Value.checkKey_eq_ok_iff, ← ih]
    exact ⟨fun ⟨(), hv, hvs⟩ => ⟨hv, hvs⟩, fun ⟨hv, hvs⟩ => ⟨(), hv, hvs⟩⟩

namespace Entries

open List (Forall₂)

/-- No two keys are equal. -/
def Distinct (es : Entries) : Prop := es.Pairwise fun e f => ¬ e.1.equal f.1

/-! ### Putting entries in -/

theorem forall_mem_insert {p q : Value → Prop} {es : Entries} {key v : Value}
    (h : ∀ e ∈ es, p e.1 ∧ q e.2) (hkey : p key) (hv : q v) :
    ∀ e ∈ es.insert key v, p e.1 ∧ q e.2 := by
  induction es with
  | nil => exact List.forall_mem_singleton.mpr ⟨hkey, hv⟩
  | cons e es ih =>
    obtain ⟨he, hes⟩ := List.forall_mem_cons.mp h
    rw [insert]
    split
    · exact List.forall_mem_cons.mpr ⟨⟨he.1, hv⟩, hes⟩
    · exact List.forall_mem_cons.mpr ⟨he, ih hes⟩

theorem forall_mem_ofPairs {p q : Value → Prop} {ps : List (Value × Value)}
    (h : ∀ e ∈ ps, p e.1 ∧ q e.2) : ∀ e ∈ ofPairs ps, p e.1 ∧ q e.2 := by
  refine List.foldlRecOn (motive := fun es : Entries => ∀ e ∈ es, p e.1 ∧ q e.2) ps _ ?_ ?_
  · intro e he
    cases he
  · intro es hes e he
    exact forall_mem_insert hes (h e he).1 (h e he).2

theorem Distinct.insert {es : Entries} (h : es.Distinct) (key v : Value) :
    (es.insert key v).Distinct := by
  induction es with
  | nil => exact List.pairwise_singleton _ _
  | cons e es ih =>
    obtain ⟨he, hes⟩ := List.pairwise_cons.mp h
    rw [Entries.insert]
    split
    · exact List.pairwise_cons.mpr ⟨he, hes⟩
    · rename_i hne
      refine List.pairwise_cons.mpr ⟨?_, ih hes⟩
      have hkeys := forall_mem_insert (p := fun k => ¬ e.1.equal k) (q := fun _ => True)
        (fun f hf => ⟨he f hf, trivial⟩) hne (v := v) trivial
      exact fun f hf => (hkeys f hf).1

/-- **No two keys of a mapping are equal.** -/
theorem distinct_ofPairs (ps : List (Value × Value)) : (ofPairs ps).Distinct :=
  List.foldlRecOn ps _ .nil fun _ hes e _ => hes.insert e.1 e.2

theorem lookup?_cons {α : Type} (e : Value × α) (es : Entries α) (k : Value) :
    Entries.lookup? (e :: es) k = if e.1.equal k then some e.2 else es.lookup? k := by
  rw [Entries.lookup?, List.find?_cons]
  cases e.1.equal k <;> rfl

/-- What is put in is found under its key, and everything else as before. -/
theorem lookup?_insert {α : Type} (es : Entries α) (key : Value) (v : α) (k : Value) :
    (es.insert key v).lookup? k = if key.equal k then some v else es.lookup? k := by
  induction es with
  | nil => exact lookup?_cons (key, v) [] k
  | cons e es ih =>
    rw [Entries.insert, lookup?_cons]
    by_cases he : e.1.equal key
    · rw [if_pos he, lookup?_cons, Value.equal_congr_left he]
      split <;> rfl
    · rw [if_neg he, lookup?_cons, ih]
      by_cases hek : e.1.equal k
      · have hk : ¬ key.equal k := fun hk =>
          he (Value.equal_trans hek (Value.equal_symm hk))
        rw [if_pos hek, if_pos hek, if_neg hk]
      · rw [if_neg hek, if_neg hek]

theorem insert_of_fresh {α : Type} {es : Entries α} {key : Value}
    (h : ∀ e ∈ es, ¬ e.1.equal key) (v : α) :
    es.insert key v = es ++ [(key, v)] := by
  induction es with
  | nil => rfl
  | cons e es ih =>
    obtain ⟨he, hes⟩ := List.forall_mem_cons.mp h
    rw [Entries.insert, if_neg he, ih hes, List.cons_append]

theorem foldl_insert_of_distinct {ps : List (Value × Value)} : ∀ {es : Entries},
    Distinct (es ++ ps) → ps.foldl (fun es p => es.insert p.1 p.2) es = es ++ ps := by
  induction ps with
  | nil => intro es _; rw [List.foldl_nil, List.append_nil]
  | cons p ps ih =>
    intro es h
    have hfresh : ∀ e ∈ es, ¬ e.1.equal p.1 := fun e he =>
      (List.pairwise_append.mp h).2.2 e he p List.mem_cons_self
    rw [List.foldl_cons, insert_of_fresh hfresh, ih, List.append_assoc, List.singleton_append]
    rwa [List.append_assoc, List.singleton_append]

theorem ofPairs_of_distinct {ps : Entries} (h : ps.Distinct) : ofPairs ps = ps :=
  foldl_insert_of_distinct (by rwa [List.nil_append])

/-! ### Where entries come from

An entry keeps the key that it was first put in under, and has the value that was last put in under
an equal one. -/

/-- An entry stands for a key if its own is that key or an equal one. -/
def StandsFor (e : Value × Value) (key : Value) : Prop := e.1 = key ∨ e.1.equal key

theorem StandsFor.equal_of_equal {e : Value × Value} {key k : Value} (h : StandsFor e key)
    (he : k.equal e.1) : k.equal key := by
  rcases h with rfl | h
  · exact he
  · exact Value.equal_trans he h

theorem mem_insert {es : Entries} {key v : Value} {e : Value × Value} (h : e ∈ es.insert key v) :
    e ∈ es ∨ e.2 = v ∧ StandsFor e key := by
  induction es with
  | nil =>
    rw [List.mem_singleton.mp h]
    exact .inr ⟨rfl, .inl rfl⟩
  | cons f es ih =>
    rw [Entries.insert] at h
    split at h
    · rename_i hf
      rcases List.mem_cons.mp h with rfl | h
      · exact .inr ⟨rfl, .inr hf⟩
      · exact .inl (List.mem_cons_of_mem f h)
    · rcases List.mem_cons.mp h with rfl | h
      · exact .inl List.mem_cons_self
      · exact (ih h).imp (List.mem_cons_of_mem f) id

theorem exists_mem_insert (es : Entries) (key v : Value) :
    ∃ e ∈ es.insert key v, e.2 = v ∧ StandsFor e key := by
  induction es with
  | nil => exact ⟨(key, v), List.mem_singleton_self _, rfl, .inl rfl⟩
  | cons f es ih =>
    rw [Entries.insert]
    split
    · rename_i hf
      exact ⟨_, List.mem_cons_self, rfl, .inr hf⟩
    · obtain ⟨e, he, hv⟩ := ih
      exact ⟨e, List.mem_cons_of_mem f he, hv⟩

theorem mem_insert_of_not_equal {es : Entries} {key : Value} {e : Value × Value} (he : e ∈ es)
    (hne : ¬ e.1.equal key) (v : Value) : e ∈ es.insert key v := by
  induction es with
  | nil => cases he
  | cons f es ih =>
    rw [Entries.insert]
    split
    · rename_i hf
      rcases List.mem_cons.mp he with rfl | he
      · exact absurd hf hne
      · exact List.mem_cons_of_mem _ he
    · rcases List.mem_cons.mp he with rfl | he
      · exact List.mem_cons_self
      · exact List.mem_cons_of_mem f (ih he)

theorem exists_key_insert {es : Entries} {e : Value × Value} (he : e ∈ es) (key v : Value) :
    ∃ f ∈ es.insert key v, f.1 = e.1 := by
  by_cases h : e.1.equal key
  · induction es with
    | nil => cases he
    | cons f es ih =>
      rw [Entries.insert]
      split
      · rcases List.mem_cons.mp he with rfl | he
        · exact ⟨_, List.mem_cons_self, rfl⟩
        · exact ⟨e, List.mem_cons_of_mem _ he, rfl⟩
      · rcases List.mem_cons.mp he with rfl | he
        · exact ⟨e, List.mem_cons_self, rfl⟩
        · obtain ⟨f', hf', hkey⟩ := ih he
          exact ⟨f', List.mem_cons_of_mem f hf', hkey⟩
  · exact ⟨e, mem_insert_of_not_equal he h v, rfl⟩

theorem exists_mem_ofPairs_of_mem {ps : List (Value × Value)} {p : Value × Value} (hp : p ∈ ps) :
    ∃ e ∈ ofPairs ps, StandsFor e p.1 := by
  obtain ⟨before, after, rfl⟩ := List.append_of_mem hp
  rw [ofPairs, List.foldl_append, List.foldl_cons]
  obtain ⟨e, he, -, hkey⟩ :=
    exists_mem_insert (before.foldl (fun es p => es.insert p.1 p.2) []) p.1 p.2
  refine List.foldlRecOn (motive := fun es : Entries => ∃ e ∈ es, StandsFor e p.1) after _
    ⟨e, he, hkey⟩ fun es ⟨e, he, hkey⟩ q _ => ?_
  obtain ⟨f, hf, hsame⟩ := exists_key_insert he q.1 q.2
  exact ⟨f, hf, by rwa [StandsFor, hsame]⟩

/-- An entry of a mapping has the value of one of the pairs, and stands for its key. -/
theorem exists_mem_of_mem_ofPairs {ps : List (Value × Value)} {e : Value × Value}
    (h : e ∈ ofPairs ps) : ∃ p ∈ ps, e.2 = p.2 ∧ StandsFor e p.1 := by
  have hall : ∀ e ∈ ofPairs ps, ∃ p ∈ ps, e.2 = p.2 ∧ StandsFor e p.1 := by
    refine List.foldlRecOn (motive := fun es : Entries =>
      ∀ e ∈ es, ∃ p ∈ ps, e.2 = p.2 ∧ StandsFor e p.1) ps _ ?_ ?_
    · intro e he
      cases he
    · intro es hes p hp e he
      rcases mem_insert he with he | he
      · exact hes e he
      · exact ⟨p, hp, he⟩
  exact hall e h

theorem exists_mem_ofPairs_of_last (ps : List (Value × Value)) (p : Value × Value)
    {qs : List (Value × Value)} (hlast : ∀ q ∈ qs, ¬ q.1.equal p.1) :
    ∃ e ∈ ofPairs (ps ++ p :: qs), e.2 = p.2 ∧ StandsFor e p.1 := by
  rw [ofPairs, List.foldl_append, List.foldl_cons]
  obtain ⟨e, he, hv, hkey⟩ :=
    exists_mem_insert (ps.foldl (fun es p => es.insert p.1 p.2) []) p.1 p.2
  refine ⟨e, ?_, hv, hkey⟩
  refine List.foldlRecOn (motive := fun es : Entries => e ∈ es) qs _ he fun es hes q hq => ?_
  refine mem_insert_of_not_equal hes (fun heq => hlast q hq ?_) q.2
  exact hkey.equal_of_equal (Value.equal_symm heq)

/-- Two mappings are the **same but** at a key if they have the same keys in the same order, and the
same values under all keys that are not equal to it. -/
def SameBut (key : Value) (es fs : Entries) : Prop :=
  Forall₂ (fun e f => e.1 = f.1 ∧ (e.1.equal key ∨ e.2 = f.2)) es fs

theorem sameBut_insert (key : Value) (es : Entries) (v w : Value) :
    SameBut key (es.insert key v) (es.insert key w) := by
  have hself (es : Entries) : SameBut key es es := List.forall₂_same.mpr fun _ _ => ⟨rfl, .inr rfl⟩
  induction es with
  | nil => exact .cons ⟨rfl, .inl (Value.equal_self key)⟩ .nil
  | cons e es ih =>
    rw [Entries.insert, Entries.insert]
    split
    · rename_i he
      exact .cons ⟨rfl, .inl he⟩ (hself es)
    · exact .cons ⟨rfl, .inr rfl⟩ ih

theorem SameBut.insert {key : Value} {es fs : Entries} (h : SameBut key es fs) (k v : Value) :
    SameBut key (es.insert k v) (fs.insert k v) := by
  induction h with
  | nil => exact .cons ⟨rfl, .inr rfl⟩ .nil
  | @cons e f es fs hef hrest ih =>
    rw [Entries.insert, Entries.insert, ← hef.1]
    split
    · exact .cons ⟨rfl, .inr rfl⟩ hrest
    · exact .cons hef ih

theorem SameBut.insert_eq {key : Value} {es fs : Entries} (h : SameBut key es fs)
    (hes : es.Distinct) {k : Value} (hk : key.equal k) (v : Value) :
    es.insert k v = fs.insert k v := by
  induction h with
  | nil => rfl
  | @cons e f es fs hef hrest ih =>
    obtain ⟨hfresh, hes⟩ := List.pairwise_cons.mp hes
    rw [Entries.insert, Entries.insert, ← hef.1]
    by_cases he : e.1.equal k
    · -- No other key is equal to this one, so the rest was the same already.
      have hsame : Forall₂ (fun e f => e = f) es fs := by
        refine forall₂_of_mem hrest fun e' he' f' _ hef' => ?_
        have hne : ¬ e'.1.equal key := fun heq =>
          hfresh e' he' (Value.equal_trans he (Value.equal_symm (Value.equal_trans heq hk)))
        exact Prod.ext hef'.1 (hef'.2.resolve_left hne)
      rw [List.forall₂_eq_eq_eq] at hsame
      rw [if_pos he, if_pos he, hsame]
    · have hvalue : e.2 = f.2 := hef.2.resolve_left fun heq => he (Value.equal_trans heq hk)
      rw [if_neg he, if_neg he, ih hes, Prod.ext hef.1 hvalue]

theorem ofPairs_of_overwritten (ps : List (Value × Value)) {key : Value} (v w : Value)
    {qs : List (Value × Value)} (h : ∃ q ∈ qs, key.equal q.1) :
    ofPairs (ps ++ (key, v) :: qs) = ofPairs (ps ++ (key, w) :: qs) := by
  have rest : ∀ {es fs : Entries}, es.Distinct → SameBut key es fs →
      qs.foldl (fun es p => es.insert p.1 p.2) es =
        qs.foldl (fun es p => es.insert p.1 p.2) fs := by
    induction qs with
    | nil =>
      obtain ⟨q, hq, -⟩ := h
      cases hq
    | cons q qs ih =>
      intro es fs hes hsame
      rw [List.foldl_cons, List.foldl_cons]
      by_cases hq : key.equal q.1
      · rw [hsame.insert_eq hes hq]
      · obtain ⟨q', hq', he⟩ := h
        rcases List.mem_cons.mp hq' with rfl | hq'
        · exact absurd he hq
        · exact ih ⟨q', hq', he⟩ (hes.insert q.1 q.2) (hsame.insert q.1 q.2)
  rw [ofPairs, ofPairs, List.foldl_append, List.foldl_append, List.foldl_cons, List.foldl_cons]
  exact rest ((distinct_ofPairs ps).insert key v) (sameBut_insert key _ v w)

/-! ### Looking entries up -/

theorem Distinct.eq_of_equal {es : Entries} (h : es.Distinct) {e f : Value × Value} (he : e ∈ es)
    (hf : f ∈ es) (hef : e.1.equal f.1) : e = f :=
  eq_of_pairwise_not (fun _ _ => Value.equal_symm) h he hf hef

theorem lookup?_eq_some_of_mem {es : Entries} (h : es.Distinct) {e : Value × Value} (he : e ∈ es)
    {key : Value} (hkey : e.1.equal key) : es.lookup? key = some e.2 := by
  have hunique : ∀ f ∈ es, f.1.equal key → f = e := fun f hf hfk =>
    h.eq_of_equal hf he (Value.equal_trans hfk (Value.equal_symm hkey))
  rw [lookup?, find?_eq_some_of_unique he hkey hunique]
  rfl

/-! ### Mappings with the same keys -/

/-- Mappings with the same keys can be put into the same order.  The induction is on the entries of
the first one: what is left of the second without the first entry's counterpart has the keys of the
rest, because no key is repeated on either side. -/
theorem exists_aligned {es : Entries} : ∀ {fs : Entries}, es.Distinct → fs.Distinct →
    (∀ e ∈ es, ∃ f ∈ fs, f.1.equal e.1) → (∀ f ∈ fs, ∃ e ∈ es, e.1.equal f.1) →
      ∃ gs : Entries, gs.Perm fs ∧ Forall₂ (fun e g => g.1.equal e.1) es gs := by
  induction es with
  | nil =>
    intro fs _ _ _ hfs
    cases fs with
    | nil => exact ⟨[], .refl _, .nil⟩
    | cons f fs =>
      obtain ⟨e, he, -⟩ := hfs f List.mem_cons_self
      cases he
  | cons e es ih =>
    intro fs hes hfs hef hfe
    obtain ⟨hrest, hes⟩ := List.pairwise_cons.mp hes
    obtain ⟨⟨f, hf, hfe₀⟩, hef⟩ := List.forall_mem_cons.mp hef
    obtain ⟨s, t, rfl⟩ := List.append_of_mem hf
    have hmoved : (f :: (s ++ t)).Perm (s ++ f :: t) := List.perm_middle.symm
    have hdistinct : (f :: (s ++ t)).Pairwise fun e f => ¬ e.1.equal f.1 :=
      hmoved.symm.pairwise hfs fun h he => h (Value.equal_symm he)
    obtain ⟨hrestf, hst⟩ := List.pairwise_cons.mp hdistinct
    have hef' : ∀ e' ∈ es, ∃ f' ∈ s ++ t, f'.1.equal e'.1 := by
      intro e' he'
      obtain ⟨f', hf', hfe'⟩ := hef e' he'
      rcases List.mem_cons.mp (hmoved.mem_iff.mpr hf') with rfl | hf'
      · exact absurd (Value.equal_trans (Value.equal_symm hfe₀) hfe') (hrest e' he')
      · exact ⟨f', hf', hfe'⟩
    have hfe' : ∀ f' ∈ s ++ t, ∃ e' ∈ es, e'.1.equal f'.1 := by
      intro f' hf'
      obtain ⟨e', he', he⟩ := hfe f' (hmoved.mem_iff.mp (List.mem_cons_of_mem f hf'))
      rcases List.mem_cons.mp he' with rfl | he'
      · exact absurd (Value.equal_trans hfe₀ he) (hrestf f' hf')
      · exact ⟨e', he', he⟩
    obtain ⟨gs, hgs, he⟩ := ih hes hst hef' hfe'
    exact ⟨f :: gs, (hgs.cons f).trans hmoved, .cons hfe₀ he⟩

end Entries

end EventDialects
