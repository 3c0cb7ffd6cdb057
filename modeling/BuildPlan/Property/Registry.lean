import BuildPlan.Property.Basic

/-! # Registered properties and commands

Every context in which properties are declared has its registry: the properties and commands that
are known there. Others are errors. -/

namespace BuildPlan

/-! ### Names of properties -/

namespace PropertyName

def includeProjects : String := "include projects"

def outputPath : String := "output path"

def projects : String := "projects"

def targetFramework : String := "target framework"

def projectGuid : String := "project guid"

def outputType : String := "output type"

def rootNamespace : String := "root namespace"

def assemblyName : String := "assembly name"

def sourcePath : String := "source path"

def includeFiles : String := "include files"

def excludeFiles : String := "exclude files"

def libRefs : String := "lib refs"

def projectRefs : String := "project refs"

def defines : String := "defines"

def customXml : String := "custom xml"

def properties : String := "properties"

end PropertyName

/-- Where properties are declared. -/
inductive Context where
  /-- The body of the solution. -/
  | solution
  /-- The body of a template or module. -/
  | template
  /-- The settings of a project. -/
  | settings
  deriving DecidableEq, Repr, Inhabited

/-- The commands. -/
inductive Command where
  /-- Leaves the object out, and what follows in it. -/
  | exclude
  /-- Leaves out what follows in the object. -/
  | skip
  /-- Gives a warning. -/
  | warn
  /-- Fails. -/
  | error
  deriving DecidableEq, Repr, Inhabited

def Command.name : Command → String
  | .exclude => "exclude"
  | .skip => "skip"
  | .warn => "warn"
  | .error => "error"

/-- The properties and commands of a context. -/
structure Registry where
  context : Context
  properties : List Definition
  commands : List Command
  deriving DecidableEq, Repr, Inhabited

namespace Registry

open PropertyName

/-- A property that has no value at first. -/
def blank (name : String) (shape : Shape) (item : ItemKind) : Definition :=
  ⟨name, shape, item, none⟩

/-- A scalar text with its value at first. -/
def scalarText (name initial : String) : Definition := ⟨name, .scalar, .text, some initial⟩

def solution : Registry where
  context := .solution
  properties := [blank includeProjects .set .pattern, scalarText outputPath "."]
  commands := [.warn, .error]

def template : Registry where
  context := .template
  properties := [blank projects .dictionary .text]
  commands := [.exclude, .skip, .warn, .error]

def settings : Registry where
  context := .settings
  properties :=
    [blank targetFramework .scalar .text, blank projectGuid .scalar .text,
      scalarText outputType "Library", blank rootNamespace .scalar .text,
      blank assemblyName .scalar .text, scalarText sourcePath "$(MODULE_NAME)",
      blank includeFiles .set .pattern, blank excludeFiles .set .pattern,
      blank libRefs .set .text, blank projectRefs .set .text, blank defines .set .text,
      blank customXml .set .xml,
      blank PropertyName.properties .dictionary .text]
  commands := [.exclude, .skip, .warn, .error]

/-- The registry of a context. -/
def ofContext : Context → Registry
  | .solution => solution
  | .template => template
  | .settings => settings

/-- The definition of a property by its name. -/
def property (r : Registry) (name : String) : Fallible Definition :=
  match r.properties.find? (·.name = name) with
  | some d => .ok d
  | none => (Cause.unrecognizedProperty name).raise

/-- The command by its name. -/
def command (r : Registry) (name : String) : Fallible Command :=
  match r.commands.find? (·.name = name) with
  | some c => .ok c
  | none => (Cause.unrecognizedCommand name).raise

end Registry

end BuildPlan
