import BuildPlan.Files.Select
import BuildPlan.Settings.Basic
import BuildPlan.Uuid.Basic

/-! # Projects

A project has its settings under a configuration, and an identity that is the same in all of them:
its name, its identifier and its source path. -/

namespace BuildPlan

/-- What stays the same for a project in all configurations. -/
structure Identity where
  name : String
  guid : Uuid
  sourcePath : String
  deriving DecidableEq, Inhabited

/-- A project of a module under one configuration. -/
structure Project where
  identity : Identity
  module : String
  configuration : Configuration
  /-- The settings, with nothing left to expand. -/
  settings : Settings
  /-- The selected files, relative to the source path. -/
  includeFiles : List String
  libRefs : List String
  projectRefs : List String
  deriving DecidableEq

def Project.name (p : Project) : String := p.identity.name

/-- The name from which the identifier of a project is taken. -/
def guidSource (module project : String) : List UInt8 :=
  (module ++ "/" ++ project).toUTF8.toList

/-- The identifier of a project that declares none. -/
def generatedGuid (module project : String) : Uuid :=
  Uuid.ofName Uuid.objectNamespace (guidSource module project)

/-- The text without the braces at both ends. -/
def trimBraces (s : List Char) : List Char :=
  let isBrace := fun c => c == '\x7b' || c == '\x7d'
  ((s.dropWhile isBrace).reverse.dropWhile isBrace).reverse

/-- The identifier that the settings declare, or else the one of the names. -/
def declaredGuid (module project : String) (s : Settings) : Fallible Uuid :=
  match s.text? PropertyName.projectGuid with
  | none => .ok (generatedGuid module project)
  | some text =>
    match Uuid.parse? (trimBraces text.toList) with
    | some guid => .ok guid
    | none => (Cause.invalidGuid text).raise

/-- The identity of a project by its settings. Without a source path the name of the module is
one. -/
def Identity.ofSettings (module project : String) (s : Settings) : Fallible Identity := do
  let guid ← declaredGuid module project s
  return ⟨project, guid, (s.text? PropertyName.sourcePath).getD module⟩

/-- What differs between two identities, if something does. Source paths are compared by their
components. -/
def Identity.difference (known current : Identity) : Option IdentityField :=
  if known.guid ≠ current.guid then some .guid
  else if !Path.same known.sourcePath current.sourcePath then some .sourcePath
  else none

/-- Fails if the identity under a configuration is not the known one. -/
def Identity.check (known current : Identity) (c : Configuration) : Fallible Unit :=
  match known.difference current with
  | some field => (Cause.inconsistentIdentity known.name field c.display).raise
  | none => .ok ()

end BuildPlan
