import EventDialects.Failure
import EventDialects.Files.Path

/-!
# Files in memory

A small tree of text files under a working directory. It answers what a file system would: the text
at a path, the names in a directory, and why there is no such text.
-/

namespace EventDialects

abbrev Location := List String

/-- Text files and directories under a working directory. -/
structure Files where
  texts : List (Location × String)
  directories : List Location

namespace Files

def location (path : String) : Location := (Path.steps path.toList).map String.ofList

/-- The files of some paths with their texts; a path that ends in a slash is a directory. -/
def ofPaths (ps : List (String × String)) : Files :=
  let isDirectory := fun (p : String × String) => p.1.toList.getLast? == some '/'
  ⟨(ps.filter fun p => !isDirectory p).map fun p => (location p.1, p.2),
    (ps.filter isDirectory).map fun p => location p.1⟩

def locations (fs : Files) : List Location := fs.texts.map (·.1) ++ fs.directories

def textAt? (fs : Files) (l : Location) : Option String :=
  (fs.texts.find? (·.1 == l)).map (·.2)

/-- Whether a location is a directory: the working directory, one of the given ones, or one on the
way to something else. -/
def isDirectory (fs : Files) (l : Location) : Bool :=
  l.isEmpty || fs.directories.contains l
    || fs.locations.any fun m => l.isPrefixOf m && decide (l.length < m.length)

/-- Why a path leads nowhere. -/
inductive Obstacle
  | missing
  | notDirectory

/-- Goes from a location along the parts of a path. Each part but the last one must lead to a
directory. -/
def walk (fs : Files) (here : Location) : List (List Char) → Except Obstacle Location
  | [] => .ok here
  | part :: rest =>
    if !fs.isDirectory here then
      .error (if (fs.textAt? here).isSome then .notDirectory else .missing)
    else if part = [] ∨ part = ['.'] then walk fs here rest
    else if part = ['.', '.'] then
      if here.isEmpty then .error .missing else walk fs here.dropLast rest
    else walk fs (here ++ [String.ofList part]) rest

/-- The location that a path leads to. -/
def locate (fs : Files) (path : String) : Except Obstacle Location :=
  if path.isEmpty || path.toList.head? == some '/' then .error .missing
  else walk fs [] (Path.parts path.toList)

/-- The text of the file at a path. -/
def read (fs : Files) (path : String) : Attempt String :=
  match fs.locate path with
  | .error .missing => .error (.missingFile path)
  | .error .notDirectory => .error (.notDirectory path)
  | .ok l => match fs.textAt? l with
    | some text => .ok text
    | none => .error (if fs.isDirectory l then .isDirectory path else .missingFile path)

def namesIn (fs : Files) (l : Location) : List String :=
  (fs.locations.filterMap fun m =>
    if l.isPrefixOf m then m[l.length]? else none).eraseDups

def names? (fs : Files) (path : String) : Option (List String) :=
  match fs.locate path with
  | .ok l => if fs.isDirectory l then some (fs.namesIn l) else none
  | .error _ => none

end Files

end EventDialects
