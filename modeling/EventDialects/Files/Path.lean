/-!
# Paths

A path names a file by the directories on the way to it. Its normal form has no empty and no
single-dot part, so that two ways of writing it give one text; a part of two dots stays, since what
it leads to depends on the directories themselves.
-/

namespace EventDialects.Path

def parts : List Char → List (List Char)
  | [] => [[]]
  | '/' :: s => [] :: parts s
  | c :: s => match parts s with
    | [] => [[c]]
    | part :: rest => (c :: part) :: rest

def steps (s : List Char) : List (List Char) := (parts s).filter fun p => p ≠ [] ∧ p ≠ ['.']

/-- The slashes in front of a path that starts at the root: one, or two if there are exactly two. -/
def root (s : List Char) : List Char :=
  match (s.takeWhile (· == '/')).length with
  | 0 => []
  | 2 => ['/', '/']
  | _ => ['/']

/-- The normal form of a path. -/
def normal (path : String) : String :=
  let s := path.toList
  let body := root s ++ ['/'].intercalate (steps s)
  if body.isEmpty then "." else String.ofList body

def name (path : String) : String := String.ofList ((steps path.toList).getLast?.getD [])

def inDirectory (directory file : String) : String := normal (directory ++ "/" ++ file)

example : normal "./a//b/../c/" = "a/b/../c" := by decide +kernel
example : normal "" = "." := by decide +kernel
example : name "d/x.yaml" = "x.yaml" := by decide +kernel

end EventDialects.Path
