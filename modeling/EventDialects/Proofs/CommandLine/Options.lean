import EventDialects.CommandLine.Answer

/-!
# Options on the command line

A command line is a list of **parts**: words, and options with their values.  Reading it takes the
parts one after another, and an option takes the argument after it for its value, whatever that
looks like.  So the reading stays aligned with the parts, and all that is left of them are the words
and the last value of each option.  Where the options stand does not count.

Only at its end can a command line hold something else: an option that has no value left.  It is a
word like any other.

* `ofArguments_line`: **what is read** are the words and the last values, and a last argument alone.
* `exists_line`: every command line is made of parts, but for an option at its end.
* `answerTo_line_eq`: **options may stand anywhere**; the answer depends on the words and the last
  values.
-/

namespace EventDialects.CommandLine

/-- A part of a command line: a word, or an option with its value. -/
inductive Part
  | word (word : String)
  | dialects (directory : String)
  | format (name : String)
  deriving DecidableEq, Repr

/-- An argument is the **name of an option** if it is one of the two. -/
def IsOption (a : String) : Prop :=
  a = Invocation.dialectsOption ∨ a = Invocation.formatOption

instance (a : String) : Decidable (IsOption a) := inferInstanceAs (Decidable (_ ∨ _))

namespace Part

def arguments : Part → List String
  | .word w => [w]
  | .dialects directory => [Invocation.dialectsOption, directory]
  | .format name => [Invocation.formatOption, name]

def word? : Part → Option String
  | .word w => some w
  | _ => none

def dialects? : Part → Option String
  | .dialects directory => some directory
  | _ => none

def format? : Part → Option String
  | .format name => some name
  | _ => none

def line (ps : List Part) : List String := ps.flatMap arguments

def words (ps : List Part) : List String := ps.filterMap word?

def lastDialects (ps : List Part) : Option String := (ps.filterMap dialects?).getLast?

def lastFormat (ps : List Part) : Option String := (ps.filterMap format?).getLast?

/-! ### One part in front -/

section Front

variable (ps : List Part)

@[simp] theorem words_word (w : String) : words (.word w :: ps) = w :: words ps := rfl

@[simp] theorem words_dialects (d : String) : words (.dialects d :: ps) = words ps := rfl

@[simp] theorem words_format (f : String) : words (.format f :: ps) = words ps := rfl

@[simp] theorem lastDialects_word (w : String) :
    lastDialects (.word w :: ps) = lastDialects ps := rfl

@[simp] theorem lastDialects_dialects (d : String) :
    lastDialects (.dialects d :: ps) = (lastDialects ps).or (some d) := by
  rw [Option.or_some]
  exact List.getLast?_cons

@[simp] theorem lastDialects_format (f : String) :
    lastDialects (.format f :: ps) = lastDialects ps := rfl

@[simp] theorem lastFormat_word (w : String) : lastFormat (.word w :: ps) = lastFormat ps := rfl

@[simp] theorem lastFormat_dialects (d : String) :
    lastFormat (.dialects d :: ps) = lastFormat ps := rfl

@[simp] theorem lastFormat_format (f : String) :
    lastFormat (.format f :: ps) = (lastFormat ps).or (some f) := by
  rw [Option.or_some]
  exact List.getLast?_cons

end Front

end Part

open Invocation (ofArguments dialectsOption formatOption)
open EventDialects.CommandLine.Part

/-! ### The reading -/

theorem ofArguments_word {w : String} (h : ¬ IsOption w) (rest : List String) :
    ofArguments (w :: rest) =
      ⟨(ofArguments rest).dialects, (ofArguments rest).format, w :: (ofArguments rest).words⟩ := by
  rw [IsOption, not_or] at h
  cases rest with
  | nil => rfl
  | cons b rest => rw [ofArguments, if_neg h.1, if_neg h.2]

/-- **What is read** are the words, and of each option the last value; an argument that is left
alone at the end is a word. -/
theorem ofArguments_line {ps : List Part} (hwords : ∀ w ∈ words ps, ¬ IsOption w)
    (last : Option String) :
    ofArguments (line ps ++ last.toList) =
      ⟨lastDialects ps, lastFormat ps, words ps ++ last.toList⟩ := by
  induction ps with
  | nil => cases last <;> rfl
  | cons p ps ih =>
    cases p with
    | word w =>
      rw [words_word, List.forall_mem_cons] at hwords
      change ofArguments (w :: (line ps ++ last.toList)) = _
      rw [ofArguments_word hwords.1, ih hwords.2]
      simp
    | dialects d =>
      change ofArguments (dialectsOption :: d :: (line ps ++ last.toList)) = _
      rw [Invocation.ofArguments_dialects, ih hwords]
      simp
    | format f =>
      change ofArguments (formatOption :: f :: (line ps ++ last.toList)) = _
      rw [Invocation.ofArguments_format, ih hwords]
      simp

/-- **Every command line is made of parts**, but for an option at its end that has no value. -/
theorem exists_line (arguments : List String) : ∃ (ps : List Part) (last : Option String),
    arguments = line ps ++ last.toList ∧
    (∀ w ∈ words ps, ¬ IsOption w) ∧ ∀ a ∈ last, IsOption a := by
  -- As the arguments are read: an option and its value at a time, or a word.
  fun_induction ofArguments arguments with
  | case1 => exact ⟨[], none, rfl, by simp [words], by simp⟩
  | case2 a =>
    by_cases ha : IsOption a
    · exact ⟨[], some a, rfl, by simp [words], by simpa using ha⟩
    · exact ⟨[.word a], none, rfl, by simpa [words, word?] using ha, by simp⟩
  | case3 d rest _ ih =>
    obtain ⟨ps, last, rfl, hwords, hlast⟩ := ih
    exact ⟨.dialects d :: ps, last, rfl, hwords, hlast⟩
  | case4 f rest _ _ ih =>
    obtain ⟨ps, last, rfl, hwords, hlast⟩ := ih
    exact ⟨.format f :: ps, last, rfl, hwords, hlast⟩
  | case5 a b rest hdialects hformat _ ih =>
    obtain ⟨ps, last, hrest, hwords, hlast⟩ := ih
    refine ⟨.word a :: ps, last, by rw [hrest]; rfl, ?_, hlast⟩
    rw [words_word, List.forall_mem_cons]
    exact ⟨fun h => h.elim hdialects hformat, hwords⟩

/-! ### The answer -/

/-- The answer to a command line is the answer to its words and the last value of each option. -/
theorem answerTo_line (shelf : Shelf) {ps : List Part} (hwords : ∀ w ∈ words ps, ¬ IsOption w) :
    answerTo shelf (line ps) = answer shelf ⟨lastDialects ps, lastFormat ps, words ps⟩ := by
  have hread := ofArguments_line hwords none
  rw [Option.toList_none, List.append_nil, List.append_nil] at hread
  rw [answerTo, hread]

/-- **Options may stand anywhere.**  Two command lines with the same words, none of them the name of
an option, and with the same last value of each option get the same answer, wherever the options
stand between the words and whatever their values look like: the text and the status are those of
the words and the two last values. -/
theorem answerTo_line_eq (shelf : Shelf) (ps qs : List Part) {ws : List String}
    {directory format : Option String} (hws : ∀ w ∈ ws, ¬ IsOption w)
    (hps : words ps = ws ∧ lastDialects ps = directory ∧ lastFormat ps = format)
    (hqs : words qs = ws ∧ lastDialects qs = directory ∧ lastFormat qs = format) :
    answerTo shelf (line ps) = answer shelf ⟨directory, format, ws⟩ ∧
      answerTo shelf (line qs) = answerTo shelf (line ps) := by
  have hps' : answerTo shelf (line ps) = answer shelf ⟨directory, format, ws⟩ := by
    obtain ⟨rfl, rfl, rfl⟩ := hps
    exact answerTo_line shelf hws
  have hqs' : answerTo shelf (line qs) = answer shelf ⟨directory, format, ws⟩ := by
    obtain ⟨rfl, rfl, rfl⟩ := hqs
    exact answerTo_line shelf hws
  exact ⟨hps', hqs'.trans hps'.symm⟩

/-- With options at both ends, next to each other, and with values that look like options. -/
theorem answerTo_line_eq_decode :
    answerTo (Files.shelf ⟨[], []⟩)
        ["--format", "--dialects", "decode", "--dialects", "", "FE14", "0x10", "--format", "json"] =
      answer (Files.shelf ⟨[], []⟩) ⟨some "", some "json", ["decode", "FE14", "0x10"]⟩ ∧
    answerTo (Files.shelf ⟨[], []⟩)
        ["decode", "--format", "json", "FE14", "--dialects", "--format", "--dialects", "", "0x10"] =
      answerTo (Files.shelf ⟨[], []⟩)
        ["--format", "--dialects", "decode", "--dialects", "", "FE14", "0x10", "--format", "json"] :=
  answerTo_line_eq (Files.shelf ⟨[], []⟩)
    [.format "--dialects", .word "decode", .dialects "", .word "FE14", .word "0x10",
      .format "json"]
    [.word "decode", .format "json", .word "FE14", .dialects "--format", .dialects "",
      .word "0x10"]
    (by decide) ⟨rfl, rfl, rfl⟩ ⟨rfl, rfl, rfl⟩

end EventDialects.CommandLine
