import BuildPlan.Files.Walk
import BuildPlan.Logged
import BuildPlan.Pattern.Match

/-! # Selecting files

The files of a project are those below its folder that some pattern includes and none excludes. A
folder that is not there is only warned of; a walk that fails is a failure. -/

namespace BuildPlan

/-- The names on the way to a file as one path. -/
def joinNames (way : List String) : String := String.intercalate "/" way

/-- Holds if some pattern includes the file and none excludes it. -/
def isSelected (includes excludes : List CompiledPattern) (way : List String) : Bool :=
  let path := joinNames way
  includes.any (·.isMatch path) && !excludes.any (·.isMatch path)

/-- The warning of a folder that is not there. -/
def missingFolder : String := "source directory does not exist"

/-- What finds the files below a folder by the patterns that include and exclude them. -/
abbrev PatternMatcher : Type := List Pattern → List Pattern → String → Logged (List String)

/-- The files below a folder that the patterns select, in the order of their paths. Without a
pattern that includes files, nothing is looked at. -/
def selectFiles (fs : FileSystem) : PatternMatcher := fun includes excludes folder => do
  if includes.isEmpty then return []
  let included ← Logged.lift (Pattern.compileAll includes)
  let excluded ← Logged.lift (Pattern.compileAll excludes)
  if !fs.isFolder folder then
    Logged.warn missingFolder
    return []
  match fs.files folder with
  | none => Logged.lift ((Cause.unreadable folder).raise.within ("walking " ++ folder))
  | some ways => return ((ways.filter (isSelected included excluded)).mergeSort Path.le).map joinNames

theorem selectFiles_nil (fs : FileSystem) (excludes : List Pattern) (folder : String) :
    selectFiles fs [] excludes folder = pure [] := if_pos rfl

end BuildPlan
