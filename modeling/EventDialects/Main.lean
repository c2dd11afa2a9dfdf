import EventDialects.CommandLine.Answer

/-!
# The program

Reads the files that the arguments name, prints the answer and exits with its status.
-/

open EventDialects

def readDocument (path : String) : IO (Attempt Value) := do
  let place := (← IO.currentDir) / path
  if !(← place.pathExists) then return .error (.missingFile path)
  if ← place.isDir then return .error (.isDirectory path)
  try
    return Document.read (← IO.FS.readFile place)
  catch _ => return .error .malformed

/-- The files of a directory with their documents, if there is such a directory. -/
def readListing (directory : String) : IO (Option Listing) := do
  let place := (← IO.currentDir) / directory
  if !(← place.isDir) then return none
  let mut listing : Listing := []
  for file in ← place.readDir do
    let document ← readDocument (Path.inDirectory directory file.fileName)
    listing := (file.fileName, document) :: listing
  return some listing

def readShelf (i : Invocation) : IO Shelf := do
  let listing ← match Shelf.given? i.dialects with
    | some path => readListing (Path.normal path)
    | none => pure none
  let document ← match Command.ofWords? i.words with
    | some (.check path) => readDocument path
    | _ => pure (.error .malformed)
  return ⟨fun _ => document, fun _ => listing⟩

def main (arguments : List String) : IO UInt32 := do
  let i := Invocation.ofArguments arguments
  let answer := CommandLine.answer (← readShelf i) i
  let output ← IO.getStdout
  output.putStr answer.text
  return answer.status.toUInt32
