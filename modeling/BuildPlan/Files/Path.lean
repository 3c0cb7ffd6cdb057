/-! # Paths

A path is a text whose names are separated by slashes. Two paths are compared by their components:
separators in a row count as one, and so does a dot between names. A dot at the start is a component
of its own. -/

namespace BuildPlan.Path

/-- The parts of a text between the given character. There is one part more than there are such
characters. -/
def splitOn (sep : Char) : List Char → List (List Char)
  | [] => [[]]
  | c :: s =>
    if c = sep then [] :: splitOn sep s
    else
      match splitOn sep s with
      | [] => [[c]]
      | part :: parts => (c :: part) :: parts

/-- Holds of paths that begin at the root. -/
def isAbsolute (path : String) : Bool := path.toList.head? = some '/'

/-- The names of a path, with the empty ones at doubled or closing separators. -/
def parts (path : String) : List String := (splitOn '/' path.toList).map String.ofList

/-- Whether the path begins at the root, and its components: the names without the empty ones and
without the dots behind the first name. -/
structure Components where
  absolute : Bool
  names : List String
  deriving DecidableEq, Repr

/-- The components of a path. -/
def components (path : String) : Components :=
  let absolute := isAbsolute path
  let names := (parts path).filter (!·.isEmpty)
  let kept :=
    match names with
    | "." :: more => if absolute then more.filter (· != ".") else "." :: more.filter (· != ".")
    | names => names.filter (· != ".")
  ⟨absolute, kept⟩

/-- Holds if two paths have the same components. -/
def same (p q : String) : Bool := components p = components q

/-- The path behind a directory. An absolute path stays what it is. -/
def join (directory path : String) : String :=
  if isAbsolute path || directory.isEmpty then path
  else if directory.toList.getLast? = some '/' then directory ++ path
  else directory ++ "/" ++ path

/-- The greatest number of bytes of a path that can be followed. -/
def maxBytes : Nat := 4095

/-- Holds of paths that cannot be followed, whatever they lead to. -/
def isTooLong (path : String) : Bool := maxBytes < path.utf8ByteSize

/-- A path in reverse without the separators and dots behind its last name. -/
def stripEnd : List Char → List Char
  | '/' :: '.' :: '/' :: s => stripEnd ('/' :: s)
  | '.' :: '/' :: s => stripEnd ('/' :: s)
  | '/' :: c :: s => stripEnd (c :: s)
  | s => s

/-- The path of the directory that holds what a path leads to, as far as the path says so. -/
def parent? (path : String) : Option String :=
  let reversed := stripEnd path.toList.reverse
  if reversed.isEmpty || reversed = ['/'] then none
  else
    match reversed.dropWhile (· != '/') with
    | [] => some ""
    | rest => some (String.ofList (stripEnd rest).reverse)

/-- The order of paths: by components, and a path before those that go on behind it. -/
def le : List String → List String → Bool
  | [], _ => true
  | _ :: _, [] => false
  | a :: as, b :: bs => a < b || (a = b && le as bs)

end BuildPlan.Path
