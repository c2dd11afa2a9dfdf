import EventDialects.Bundled.Console
import EventDialects.Bundled.Equivalences
import EventDialects.Bundled.Handheld
import EventDialects.Definition.Dialect
import EventDialects.Definition.Equivalence

/-!
# The bundled library

The registry of the bundled dialects and the table of the bundled equivalences, made of their
definitions as those of files are.
-/

namespace EventDialects.Bundled

/-- The bundled dialect definitions, each under its file name. -/
def documents : List (String × Value) :=
  [("fe10.yaml", radiantDawn), ("fe11.yaml", shadowDragon), ("fe12.yaml", newMystery),
    ("fe13.yaml", awakening), ("fe14.yaml", fates), ("fe15.yaml", shadowsOfValentia),
    ("fe9.yaml", pathOfRadiance)]

def registry : Attempt Registry := Registry.ofDocuments documents

def equivalencesFile : String := "equivalences.yaml"

def equivalenceTable (g : Registry) : Attempt EquivalenceTable :=
  EquivalenceTable.build g equivalences equivalencesFile

end EventDialects.Bundled
