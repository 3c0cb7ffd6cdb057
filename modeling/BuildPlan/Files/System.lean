import BuildPlan.Files.Path
import BuildPlan.Files.Tree

/-! # Following paths

A file system is a well-formed tree with a folder in which one works. A path is followed from this
folder, or from the top if it is absolute, and so is the target of a link from the folder of the link.
The top is its own parent. -/

namespace BuildPlan

/-- A tree and the folder from which relative paths are followed. -/
structure FileSystem where
  top : Node
  working : Location
  formed : top.isFormed = true
  standing : (top.at? working).any Node.isFolder = true

namespace FileSystem

/-- Nothing but the top. -/
def empty : FileSystem := ⟨.empty, [], rfl, rfl⟩

instance : Inhabited FileSystem := ⟨empty⟩

/-- The node at a location. -/
def at? (fs : FileSystem) (loc : Location) : Option Node := fs.top.at? loc

/-- Where a path begins that is followed from a location. -/
def origin (path : String) (start : Location) : Location := if Path.isAbsolute path then [] else start

/-- Follows names from a location. A link is followed by `follow`, with the names behind it. No name
but the empty one leads on from a folder that may not be entered. -/
def resolveStep (fs : FileSystem) (follow : Location → List String → Option Location) :
    Location → List String → Option Location
  | loc, [] => some loc
  | loc, name :: names =>
    match fs.at? loc with
    | some (.folder access entries) =>
      if name = "" then resolveStep fs follow loc names
      else if !access.enter then none
      else if name = "." then resolveStep fs follow loc names
      else if name = ".." then resolveStep fs follow loc.dropLast names
      else
        match Node.child? name entries with
        | none => none
        | some (.link target) => follow (origin target loc) (Path.parts target ++ names)
        | some _ => resolveStep fs follow (loc ++ [name]) names
    | _ => none

/-- Follows names from a location through so many links at most. -/
def resolveUpTo (fs : FileSystem) : Nat → Location → List String → Option Location
  | 0 => fun _ _ => none
  | n + 1 => resolveStep fs (resolveUpTo fs n)

/-- The number of links that may be followed to resolve one path. -/
def maxLinks : Nat := 40

/-- The location to which names lead from a location. -/
def resolve (fs : FileSystem) (start : Location) (names : List String) : Option Location :=
  resolveUpTo fs (maxLinks + 1) start names

/-- The location to which a path leads. A path that is empty or too long leads nowhere. -/
def locate (fs : FileSystem) (path : String) : Option Location :=
  if path.isEmpty || Path.isTooLong path then none
  else fs.resolve (origin path fs.working) (Path.parts path)

/-- Holds if the path leads to a folder. -/
def isFolder (fs : FileSystem) (path : String) : Bool :=
  ((fs.locate path).bind fs.at?).any Node.isFolder

/-- The text of the file to which the path leads, if it can be read, as text. -/
def readText (fs : FileSystem) (path : String) : Option String :=
  match (fs.locate path).bind fs.at? with
  | some (.file true content) => String.fromUTF8? ⟨content.toArray⟩
  | _ => none

end FileSystem

end BuildPlan
