/-! Paths as texts with `/` between their parts. Empty parts and `.` parts mean nothing, except that a
leading `.` is kept where a path is printed. -/

namespace FuzzyInference.Path

def isAbsolute (path : String) : Bool := path.toList.head? == some '/'

/-- A path below a directory; an absolute path stands for itself. -/
def join (directory path : String) : String :=
  if isAbsolute path || directory.isEmpty then path
  else if directory.toList.getLast? == some '/' then directory ++ path
  else directory ++ "/" ++ path

/-- The parts between slashes, empty ones included. -/
def splitParts : List Char → List (List Char)
  | [] => [[]]
  | c :: rest =>
    if c = '/' then [] :: splitParts rest
    else
      match splitParts rest with
      | [] => [[c]]
      | part :: parts => (c :: part) :: parts

/-- The parts that name something. -/
def parts (path : String) : List String :=
  ((splitParts path.toList).filter fun p => p ≠ [] ∧ p ≠ ['.']).map String.ofList

/-- How a path ends. -/
inductive Ending where
  | name
  /-- In a name with a slash behind it. -/
  | slash
  /-- In one dot or two, or in nothing but slashes. -/
  | dots
deriving DecidableEq, Repr

def ending (path : String) : Ending :=
  match ((splitParts path.toList).filter (· ≠ [])).getLast? with
  | none | some ['.'] | some ['.', '.'] => .dots
  | some _ => if path.toList.getLast? = some '/' then .slash else .name

/-- Cuts slashes and `.` parts from the end, given the path from its last character on. A `.` counts
as a part of its own only after a slash. -/
def dropIdle : List Char → List Char
  | '/' :: rest => dropIdle rest
  | '.' :: '/' :: rest => dropIdle rest
  | reversed => reversed

/-- The directory that holds what a path names, as it is written: without the last part and what
means nothing around it. A root has none, and neither has the empty path. -/
def parent? (path : String) : Option String :=
  let keepRoot (reversed : List Char) : String :=
    match reversed with
    | [] => if isAbsolute path then "/" else ""
    | cs => String.ofList cs.reverse
  match dropIdle path.toList.reverse with
  | [] => none
  | reversed => some (keepRoot (dropIdle (reversed.dropWhile (· != '/'))))

end FuzzyInference.Path
