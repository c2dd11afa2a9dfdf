import EventDialects.Proofs.Text.Blank
import EventDialects.Value.Text
import Mathlib.Data.List.TakeWhile

/-!
# Reading the text form of a revision

Reading a text strips the blanks around it and splits it at the first slash.  A revision's own text
form is therefore read back as that revision only if its title holds no slash and no blanks stand
around the text; such a revision is **plain**.

Conversely, what is read holds as many characters as the text form had, so that nothing was
stripped.

A revision that was read from a text has no slash in its title, and its text form is the stripped
text again, but for a slash with nothing after it.  Only the loss of that slash can bring blanks to
the end: a title keeps the blanks before the slash.  So the text form of what was read is read as
the same revision unless the text **trails off** in this way, and reading twice is always enough.

* `ofText_text_iff`: **a text form is read back exactly if the revision is plain**.
* `ofText_cases`: a text is a title, or a title and a variant with a slash between them.
* `ofValue_text_ofValue_iff`: **what is read once is read again as the same**, unless the text trails
  off.
-/

namespace EventDialects

namespace Revision

open Text

/-- A revision is **plain** if its title has no slash and no blanks stand around its text form. -/
def Plain (r : Revision) : Prop := '/' ∉ r.title.toList ∧ strip r.text.toList = r.text.toList

instance (r : Revision) : Decidable r.Plain := inferInstanceAs (Decidable (_ ∧ _))

theorem toList_text (r : Revision) : r.text.toList =
    if r.variant = "" then r.title.toList else r.title.toList ++ '/' :: r.variant.toList := by
  rw [text]
  split
  · rfl
  · rw [String.toList_append, String.toList_append, List.append_assoc]
    rfl

theorem ofText_eq_iff {s : String} {r : Revision} : ofText s = r ↔
    (strip s.toList).takeWhile (· ≠ '/') = r.title.toList ∧
      ((strip s.toList).dropWhile (· ≠ '/')).drop 1 = r.variant.toList := by
  obtain ⟨title, variant⟩ := r
  rw [ofText, Revision.mk.injEq, ← String.toList_inj, ← String.toList_inj, String.toList_ofList,
    String.toList_ofList]

theorem plain_of_ofText_text {r : Revision} (h : ofText r.text = r) : r.Plain := by
  obtain ⟨ht, hv⟩ := ofText_eq_iff.mp h
  have hsplit := congrArg List.length
    (List.takeWhile_append_dropWhile (p := (· ≠ '/')) (l := strip r.text.toList))
  rw [List.length_append, ht] at hsplit
  replace hv := congrArg List.length hv
  rw [List.length_drop] at hv
  refine ⟨?_, (trimBy_sublist isBlank _).eq_of_length_le ?_⟩
  · intro hslash
    rw [← ht] at hslash
    simpa using List.mem_takeWhile_imp hslash
  · -- Title and variant were cut out of the stripped text, which is thus no shorter than the text.
    change r.text.toList.length ≤ (strip r.text.toList).length
    have htext := congrArg List.length (toList_text r)
    split at htext
    · omega
    · rename_i hne
      have hpos : 0 < r.variant.toList.length := by
        rw [List.length_pos_iff, ne_eq, String.toList_eq_nil_iff]
        exact hne
      rw [List.length_append, List.length_cons] at htext
      omega

theorem ofText_text {r : Revision} (h : r.Plain) : ofText r.text = r := by
  obtain ⟨htitle, hstrip⟩ := h
  have hall : ∀ c ∈ r.title.toList, decide (c ≠ '/') = true := fun c hc =>
    decide_eq_true fun he => htitle (he ▸ hc)
  rw [ofText_eq_iff, hstrip, toList_text]
  split
  · rename_i hv
    rw [← List.append_nil r.title.toList, List.takeWhile_append_of_pos hall,
      List.dropWhile_append_of_pos hall, hv]
    exact ⟨rfl, rfl⟩
  · rw [List.takeWhile_append_of_pos hall, List.dropWhile_append_of_pos hall]
    simp

/-- **A text form is read back exactly if the revision is plain.** -/
theorem ofText_text_iff {r : Revision} : ofText r.text = r ↔ r.Plain :=
  ⟨plain_of_ofText_text, ofText_text⟩

/-! ### Reading what was read -/

theorem takeWhile_slash {title : List Char} (h : '/' ∉ title) (variant : List Char) :
    (title ++ '/' :: variant).takeWhile (· ≠ '/') = title := by
  have hall : ∀ c ∈ title, decide (c ≠ '/') = true := fun c hc =>
    decide_eq_true fun he => h (he ▸ hc)
  rw [List.takeWhile_append_of_pos hall, List.takeWhile_cons_of_neg (by simp), List.append_nil]

/-- **A text, without the blanks around it, is a title, or a title and a variant** with a slash
between them. -/
theorem ofText_cases (s : String) : ∃ title : List Char, '/' ∉ title ∧
    ((strip s.toList = title ∧ ofText s = ⟨String.ofList title, ""⟩) ∨
      ∃ variant, strip s.toList = title ++ '/' :: variant ∧
        ofText s = ⟨String.ofList title, String.ofList variant⟩) := by
  have hsplit := List.takeWhile_append_dropWhile (p := (· ≠ '/')) (l := strip s.toList)
  refine ⟨(strip s.toList).takeWhile (· ≠ '/'), ?_, ?_⟩
  · intro h
    simpa using List.mem_takeWhile_imp h
  · cases hrest : (strip s.toList).dropWhile (· ≠ '/') with
    | nil =>
      rw [hrest, List.append_nil] at hsplit
      refine .inl ⟨hsplit.symm, ?_⟩
      rw [ofText, hrest]
      rfl
    | cons c variant =>
      have hc := List.head?_dropWhile_not (· ≠ '/') (strip s.toList)
      rw [hrest] at hc
      obtain rfl : c = '/' := by simpa using hc
      rw [hrest] at hsplit
      refine .inr ⟨variant, hsplit.symm, ?_⟩
      rw [ofText, hrest]
      rfl

/-- A text **trails off** if, without the blanks around it, it ends with its first slash and has a
blank before that. -/
def TrailsOff (s : String) : Prop :=
  ∃ body c, strip s.toList = body ++ [c, '/'] ∧ '/' ∉ body ∧ isBlank c

theorem trailsOff_iff {s : String} {title variant : List Char} (htitle : '/' ∉ title)
    (hs : strip s.toList = title ++ '/' :: variant) :
    TrailsOff s ↔ variant = [] ∧ ∃ c ∈ title.getLast?, isBlank c := by
  constructor
  · rintro ⟨body, c, hbody, hslash, hc⟩
    have hne : '/' ∉ body ++ [c] := by
      rw [List.mem_append, List.mem_singleton, not_or]
      refine ⟨hslash, fun he => ?_⟩
      rw [← he] at hc
      exact absurd hc (by decide)
    -- Both sides are cut at the first slash of the same text.
    have hsame : (body ++ [c]) ++ '/' :: [] = title ++ '/' :: variant := by
      rw [← hs, hbody, List.append_assoc]
      rfl
    have htake := congrArg (List.takeWhile (· ≠ '/')) hsame
    rw [takeWhile_slash hne, takeWhile_slash htitle] at htake
    rw [htake] at hsame
    have hvariant := List.cons.inj (List.append_cancel_left hsame)
    refine ⟨hvariant.2.symm, c, ?_, hc⟩
    rw [← htake, List.getLast?_append]
    rfl
  · rintro ⟨rfl, c, hc, hblank⟩
    obtain ⟨body, rfl⟩ := List.getLast?_eq_some_iff.mp hc
    rw [List.append_assoc] at hs
    exact ⟨body, c, hs, fun h => htitle (List.mem_append_left _ h), hblank⟩

theorem not_trailsOff_of_not_mem {s : String} (h : '/' ∉ s.toList) : ¬ TrailsOff s := by
  rintro ⟨body, c, hbody, -, -⟩
  have hmem : '/' ∈ strip s.toList := by
    rw [hbody]
    simp
  exact h ((trimBy_sublist isBlank _).subset hmem)

theorem ofText_congr {s t : String} (h : strip s.toList = strip t.toList) :
    ofText s = ofText t := by
  rw [ofText, ofText, h]

/-- The text form of what was read is the stripped text again, unless a slash with nothing after it
was lost; only then can the text trail off. -/
theorem text_ofText_cases (s : String) :
    ((ofText s).text.toList = strip s.toList ∧ ¬ TrailsOff s) ∨
      ∃ title, strip s.toList = title ++ ['/'] ∧ '/' ∉ title ∧
        ofText s = ⟨String.ofList title, ""⟩ := by
  obtain ⟨title, htitle, ⟨hs, hr⟩ | ⟨variant, hs, hr⟩⟩ := ofText_cases s
  · left
    refine ⟨by rw [hr, hs, toList_text, if_pos rfl, String.toList_ofList], ?_⟩
    rintro ⟨body, c, hbody, -, -⟩
    rw [← hs, hbody] at htitle
    simp at htitle
  · by_cases hv : variant = []
    · subst hv
      exact .inr ⟨title, hs, htitle, hr⟩
    · left
      have hne : String.ofList variant ≠ "" := by
        rw [ne_eq, ← String.toList_eq_nil_iff, String.toList_ofList]
        exact hv
      refine ⟨by rw [hr, hs, toList_text, if_neg hne, String.toList_ofList, String.toList_ofList], ?_⟩
      rw [trailsOff_iff htitle hs]
      exact fun h => hv h.1

/-- Reading the text form of what was read gives the same again, unless the text trails off. -/
theorem ofText_text_ofText_iff (s : String) :
    ofText (ofText s).text = ofText s ↔ ¬ TrailsOff s := by
  have hbare : Bare isBlank (strip s.toList) := bare_trimBy isBlank _
  rcases text_ofText_cases s with ⟨htext, hoff⟩ | ⟨title, hs, htitle, hr⟩
  · exact iff_of_true (ofText_congr (by rw [htext, strip_strip])) hoff
  · -- The text form is the title, so all that counts is whether a blank ends the title.
    have htext : (ofText s).text.toList = title := by
      rw [hr, toList_text, if_pos rfl, String.toList_ofList]
    have hplain : (ofText s).Plain ↔ Bare isBlank title := by
      rw [Plain, htext, strip, trimBy_eq_self_iff, hr, String.toList_ofList]
      exact and_iff_right htitle
    rw [ofText_text_iff, hplain, trailsOff_iff htitle hs]
    constructor
    · rintro h ⟨-, c, hc, hblank⟩
      exact h.last c hc hblank
    · intro h
      refine ⟨fun c hc => hbare.head c ?_, fun c hc hblank => h ⟨rfl, c, hc, hblank⟩⟩
      rw [hs]
      exact List.mem_head?_append_of_mem_head? hc

theorem not_trailsOff_text_ofText (s : String) : ¬ TrailsOff (ofText s).text := by
  rcases text_ofText_cases s with ⟨htext, hoff⟩ | ⟨title, -, htitle, hr⟩
  · rintro ⟨body, c, hbody, hslash, hblank⟩
    rw [htext, strip_strip] at hbody
    exact hoff ⟨body, c, hbody, hslash, hblank⟩
  · apply not_trailsOff_of_not_mem
    rwa [hr, toList_text, if_pos rfl, String.toList_ofList]

/-- **What is read once is read again as the same exactly if the text does not trail off**, and what
is read twice is read again as the same for every text. -/
theorem ofValue_text_ofValue_iff (s : String) :
    (ofValue (.str (ofValue (.str s)).text) = ofValue (.str s) ↔ ¬ TrailsOff s) ∧
      ofText (ofText (ofText s).text).text = ofText (ofText s).text :=
  ⟨ofText_text_ofText_iff s, (ofText_text_ofText_iff _).mpr (not_trailsOff_text_ofText s)⟩

/-- A blank before a final slash is not stripped when the text is read, and ends the text form. -/
theorem ofValue_text_ofValue_ne :
    ¬ ∀ s : String, ofValue (.str (ofValue (.str s)).text) = ofValue (.str s) :=
  fun h => absurd (h "FE12 /") (by decide +kernel)

end Revision

end EventDialects
