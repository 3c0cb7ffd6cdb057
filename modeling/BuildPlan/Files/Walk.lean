import BuildPlan.Files.System

/-! # Walking a tree

A walk visits everything below a folder and follows the links. It finds the files under the names
on the way from the folder, or nothing at all: a folder that cannot be listed, and a link that leads
nowhere, or to a folder in which the walk stands already, make the whole walk fail, so that no file is
left out unnoticed. So does a path on the way that cannot be followed, since it is too long, passes too
many links, or passes a folder that may not be entered: links and folders are reached by the whole path
to them. For a file nothing but its entry is read. -/

namespace BuildPlan.FileSystem

/-- What lies behind a link to a location is walked by the given function, which gets the folders in
which the walk stands, the location, the path that led there, and the names on the way. -/
abbrev Follow : Type :=
  List Location → Location → String → List String → Option (List (List String))

mutual

/-- The files at a node, under the names on the way. `loc` is where the node lies, `path` leads to
it, and `inside` are the folders in which the walk stands. -/
def filesAt (fs : FileSystem) (follow : Follow) (inside : List Location) (loc : Location)
    (path : String) (way : List String) : Node → Option (List (List String))
  | .file _ _ => some [way]
  | .folder access entries =>
    if (fs.locate path).isSome && access.list then
      filesIn fs follow (loc :: inside) loc path way entries
    else none
  | .link _ =>
    match fs.locate path with
    | none => none
    | some target =>
      match fs.at? target with
      | some (.file _ _) => some [way]
      | some (.folder _ _) => if target ∈ inside then none else follow inside target path way
      | _ => none

/-- The files below the entries of a folder. -/
def filesIn (fs : FileSystem) (follow : Follow) (inside : List Location) (folder : Location)
    (path : String) (way : List String) : List (String × Node) → Option (List (List String))
  | [] => some []
  | (name, node) :: rest => do
    let here ← filesAt fs follow inside (folder ++ [name]) (Path.join path name)
      (way ++ [name]) node
    let more ← filesIn fs follow inside folder path way rest
    return here ++ more

end

/-- The files below the folder at a location, on a walk that follows so many links in a row at
most. -/
def filesUpTo (fs : FileSystem) : Nat → Follow
  | 0 => fun _ _ _ _ => none
  | n + 1 => fun inside loc path way =>
    match fs.at? loc with
    | some (.folder access entries) =>
      if access.list then filesIn fs (filesUpTo fs n) (loc :: inside) loc path way entries else none
    | _ => none

/-- The files below the folder to which a path leads, each under the names from there. A link is
followed only to a folder in which the walk does not stand, so no walk follows more links in a row
than there are folders. -/
def files (fs : FileSystem) (path : String) : Option (List (List String)) := do
  let loc ← fs.locate path
  filesUpTo fs (fs.top.folders + 1) [] loc path []

end BuildPlan.FileSystem
