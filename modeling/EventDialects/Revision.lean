import EventDialects.Text.Blank

/-!
# Revisions

A revision names one title's event dialect, or one variant of a title. Its text form is the title,
followed by a slash and the variant if there is one. Reading a text removes the blanks around it and
splits it at the first slash.
-/

namespace EventDialects

open Text

/-- One title's dialect, or one variant of it. -/
structure Revision where
  title : String
  variant : String
  deriving DecidableEq, Repr, Inhabited

namespace Revision

def text (r : Revision) : String :=
  if r.variant = "" then r.title else r.title ++ "/" ++ r.variant

/-- The revision that a text names. -/
def ofText (s : String) : Revision :=
  let cs := strip s.toList
  ⟨String.ofList (cs.takeWhile (· ≠ '/')), String.ofList ((cs.dropWhile (· ≠ '/')).drop 1)⟩

/-- Revisions in order: by title, then by variant, each by its characters' code points. -/
def before (a b : Revision) : Bool :=
  if a.title = b.title then decide (a.variant < b.variant) else decide (a.title < b.title)

example : ofText " FE12/JP " = ⟨"FE12", "JP"⟩ := by decide +kernel

end Revision

end EventDialects
