import EventDialects.Bundled.Library
import EventDialects.Definition.Directory
import EventDialects.Document.Reader
import EventDialects.Files.Tree

/-!
# Shelves

A shelf is where definitions and registrations come from: the documents of files and the listings of
directories, by their paths. What a shelf does not hold is bundled with the library: without a path
the bundled definitions are taken.
-/

namespace EventDialects

/-- Documents and directories by path. -/
structure Shelf where
  /-- The document of the file at a path. -/
  document : String → Attempt Value
  /-- The files of the directory at a path, if there is such a directory. -/
  listing? : String → Option Listing

namespace Shelf

def given? (path : Option String) : Option String := path.filter (· ≠ "")

def dialect (shelf : Shelf) (path : String) : Attempt Table := do
  Table.build (← shelf.document (Path.normal path)) (Path.name path)

/-- The registry of the definitions in a directory, or the bundled one. -/
def registry (shelf : Shelf) (directory : Option String) : Attempt Registry :=
  match given? directory with
  | none => Bundled.registry
  | some path =>
    let path := Path.normal path
    match shelf.listing? path with
    | none => refuse (.definition (.missingDirectory path))
    | some listing => Registry.ofListing listing

/-- The table of the equivalence definition at a path, or of the bundled one, over a registry. -/
def equivalences (shelf : Shelf) (g : Registry) (path : Option String) :
    Attempt EquivalenceTable := do
  match given? path with
  | none => Bundled.equivalenceTable g
  | some path => EquivalenceTable.build g (← shelf.document (Path.normal path)) (Path.name path)

end Shelf

namespace Files

def document (fs : Files) (path : String) : Attempt Value := do
  Document.read (← fs.read path)

def shelf (fs : Files) : Shelf where
  document := fs.document
  listing? path := (fs.names? path).map fun names =>
    names.map fun name => (name, fs.document (Path.inDirectory path name))

end Files

end EventDialects
