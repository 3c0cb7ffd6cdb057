/-! # Directory trees

A tree holds files, folders and links. A location is the list of names that leads from the top to a
place without passing a link. Files and folders may be closed: the content of a file cannot be read
then, the entries of a folder cannot be listed, or no path goes on from it. A tree is well-formed if
the entries of every folder have different names, and these are names. -/

namespace BuildPlan

/-- What may be done with a folder. -/
structure Access where
  /-- Its entries may be listed. -/
  list : Bool
  /-- Paths may go on from it. -/
  enter : Bool
  deriving DecidableEq, Repr

/-- A folder that is open. -/
def Access.full : Access := ⟨true, true⟩

/-- A file, a folder or a link. Of a file it is said whether its content can be read. -/
inductive Node where
  | file (readable : Bool) (content : List UInt8)
  | folder (access : Access) (entries : List (String × Node))
  | link (target : String)
  deriving Inhabited

/-- The names from the top to a place, none of which is a link. -/
abbrev Location : Type := List String

namespace Node

/-- An open folder without entries. -/
def empty : Node := .folder .full []

/-- Holds of folders. -/
def isFolder : Node → Bool
  | .folder _ _ => true
  | _ => false

/-- The entry of the given name. -/
def child? (name : String) : List (String × Node) → Option Node
  | [] => none
  | (n, node) :: rest => if n = name then some node else child? name rest

/-- The node at a location. -/
def at? : Node → Location → Option Node
  | node, [] => some node
  | .folder _ entries, name :: names => (child? name entries).bind (·.at? names)
  | _, _ :: _ => none

/-- Gives the entry of a name a node, in its place if the name is there. -/
def putChild (name : String) (node : Node) : List (String × Node) → List (String × Node)
  | [] => [(name, node)]
  | (n, old) :: rest => if n = name then (name, node) :: rest else (n, old) :: putChild name node rest

/-- Puts a leaf into the tree, with the folders that lead to it. -/
def put (leaf : Node) : List String → Node → Node
  | [], _ => leaf
  | name :: names, .folder access entries =>
    .folder access (putChild name (put leaf names ((child? name entries).getD empty)) entries)
  | _ :: _, other => other

mutual

/-- The number of folders in a tree. -/
def folders : Node → Nat
  | .file _ _ => 0
  | .link _ => 0
  | .folder _ entries => 1 + foldersOfEntries entries

/-- The number of folders in the entries of a folder. -/
def foldersOfEntries : List (String × Node) → Nat
  | [] => 0
  | (_, node) :: rest => folders node + foldersOfEntries rest

end

/-- Holds of what can be the name of an entry: it is one part of a path, and it leads neither nowhere
nor up. -/
def isName (name : String) : Bool :=
  !(name.isEmpty || name = "." || name = "..") && !name.toList.contains '/' &&
    !name.toList.contains '\x00'

/-- Holds of what can be the target of a link. -/
def isTarget (target : String) : Bool := !target.isEmpty && !target.toList.contains '\x00'

mutual

/-- Holds if the entries of every folder have different names, and names and targets are such. -/
def isFormed : Node → Bool
  | .file _ _ => true
  | .link target => isTarget target
  | .folder _ entries => decide (entries.map Prod.fst).Nodup && areFormed entries

/-- Holds if the names of entries are such, and the nodes are well-formed. -/
def areFormed : List (String × Node) → Bool
  | [] => true
  | (name, node) :: rest => isName name && isFormed node && areFormed rest

end

end Node

end BuildPlan
