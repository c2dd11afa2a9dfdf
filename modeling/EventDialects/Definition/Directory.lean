import EventDialects.Definition.Dialect

/-!
# Directories of dialect definitions

A directory of definitions is read file by file: every file with the ending `.yaml` is a dialect
definition but the one that holds the equivalences. The files are read in the order of their names,
and the first one that cannot be read ends the reading. The order in which the directory lists its
files does not matter.
-/

namespace EventDialects

abbrev Listing := List (String × Attempt Value)

namespace Listing

def definitionEnding : List Char := ['.', 'y', 'a', 'm', 'l']

/-- The files in a directory of definitions that are no dialects. -/
def otherFiles : List String := ["equivalences.yaml"]

def isDefinition (name : String) : Bool :=
  definitionEnding.isSuffixOf name.toList && !otherFiles.contains name

def definitions (l : Listing) : Listing :=
  (l.filter fun f => isDefinition f.1).mergeSort fun a b => !decide (b.1 < a.1)

/-- The documents of files, as far as all of them can be read. -/
def documents : Listing → Attempt (List (String × Value))
  | [] => .ok []
  | (name, document) :: rest => do
    let v ← document
    let vs ← documents rest
    return (name, v) :: vs

end Listing

namespace Registry

/-- The registry of a directory of definitions. -/
def ofListing (l : Listing) : Attempt Registry := do
  ofDocuments (← l.definitions.documents)

end Registry

end EventDialects
