import BuildPlan.Project
import BuildPlan.Template

/-! # Modules

A module applies a template. Its body goes on where the body of the template ends, and its settings
objects take the place of those of the template with the same name, for this module only. An object
without a base has the one that the template declares for its name. Every declared project becomes
one project per configuration, unless its settings leave it out or it is not admitted. -/

namespace BuildPlan

open BuildPlan.Variable

/-- A resolved module. -/
structure Module where
  name : String
  template : String
  /-- The projects under their names, in the order of declaration. -/
  variants : Dictionary Configuration (Dictionary String Project)
  deriving DecidableEq

/-- What the modules of a solution have in common. -/
structure ModuleContext where
  /-- The constants that are defined in every configuration. -/
  external : NameSet
  /-- What finds the files of a project. -/
  matcher : PatternMatcher
  /-- The path of the folder to which source paths are relative. -/
  searchRoot : String
  bindings : Bindings
  whitelists : Dictionary Configuration Whitelist

namespace ModuleContext

/-- Holds of the project names that are admitted under a configuration. -/
def allows (ctx : ModuleContext) (c : Configuration) (name : String) : Bool :=
  (ctx.whitelists.get? c).all (·.allows name)

end ModuleContext

/-- The identities of the projects met so far. -/
abbrev Identities : Type := Dictionary String Identity

/-- The identity of a project among those met so far: the known one, which must agree, or a new
one. -/
def Identities.meet (known : Identities) (current : Identity) (c : Configuration) :
    Fallible (Identity × Identities) :=
  match known.get? current.name with
  | some identity => do
    identity.check current c
    return (identity, known)
  | none => .ok (current, known.insert current.name current)

namespace Module

/-- The settings objects of a module with the bases that they have in effect. -/
def heirs (template : Template) (children : List Object) : List Heir :=
  children.map fun child =>
    ⟨child, child.base.or ((template.bases.get? child.name).join)⟩

/-- A declaration of a project, with its names expanded. -/
structure Declaration where
  project : String
  settings : String

/-- Expands the names of a declaration. -/
def Declaration.expand (b : Bindings) (entry : String × String) : Fallible Declaration := do
  let project ← Variable.expand b .complete entry.1
  let settings ← Variable.expand b .complete entry.2
  return ⟨project, settings⟩

/-- Resolves one declared project: nothing if it is left out or not admitted, and otherwise the
project and the identities met. -/
def resolveProject (ctx : ModuleContext) (module : String) (c : Configuration) (b : Bindings)
    (settings : Dictionary String Settings) (known : Identities) (entry : String × String) :
    Logged (Option (Project × Identities)) := do
  let d ← Logged.lift (Declaration.expand b entry)
  let context := "project " ++ d.project ++ " [" ++ c.display ++ "]"
  match settings.get? d.settings with
  | none => Logged.lift (Cause.unknownSettings d.project d.settings).raise
  | some compiled =>
    let expanded ← Logged.lift
      ((compiled.expand (b.bind Variable.projectName d.project) .complete).within context)
    if expanded.isExcluded || !ctx.allows c d.project then return none
    else
      let current ← Logged.lift ((Identity.ofSettings module d.project expanded).within context)
      let (identity, known) ← Logged.lift (Identities.meet known current c)
      let files ← Logged.within context
        (ctx.matcher (expanded.patterns PropertyName.includeFiles)
          (expanded.patterns PropertyName.excludeFiles)
          (Path.join ctx.searchRoot identity.sourcePath))
      let project : Project :=
        { identity, module, configuration := c, settings := expanded, includeFiles := files,
          libRefs := expanded.texts PropertyName.libRefs,
          projectRefs := expanded.texts PropertyName.projectRefs }
      return some (project, known)

/-- Resolves declared projects one after another. No two may have the same name. -/
def resolveProjects (ctx : ModuleContext) (module : String) (c : Configuration) (b : Bindings)
    (settings : Dictionary String Settings) :
    Identities → Dictionary String Project → List (String × String) →
      Logged (Identities × Dictionary String Project)
  | known, projects, [] => return (known, projects)
  | known, projects, entry :: entries => do
    match ← resolveProject ctx module c b settings known entry with
    | none => resolveProjects ctx module c b settings known projects entries
    | some (project, known) =>
      if projects.contains project.name then
        Logged.lift (Cause.duplicate .project project.name).raise
      else
        resolveProjects ctx module c b settings known (projects.insert project.name project) entries

/-- Resolves a module for one configuration. -/
def resolveVariant (ctx : ModuleContext) (object : Object) (children : List Object)
    (template : Template) (known : Identities) (c : Configuration) (variant : TemplateVariant) :
    Compile (Identities × Dictionary String Project) := do
  let b := ((c.bind ctx.bindings).bind Variable.templateName template.name).bind
    Variable.moduleName object.name
  let scope := object.heading.display
  let root ← Job.compile ⟨object, scope, .template, some c, some variant.root, b⟩ ctx.external
  if root.isExcluded then return (known, .empty)
  else
    let own ← Compile.within (scope ++ " [" ++ c.display ++ "]")
      (Heir.compileAll variant.settings
        (fun child base => Job.compile ⟨child, scope, .settings, some c, base, b⟩ ctx.external)
        (heirs template children))
    let settings := variant.settings.insertAll own.entries
    Compile.ofLogged
      (resolveProjects ctx object.name c b settings known .empty root.projectDeclarations)

/-- Resolves a module for configurations, one after another, with the identities met so far. -/
def resolveVariants (ctx : ModuleContext) (object : Object) (children : List Object)
    (template : Template) : Identities → List (Configuration × TemplateVariant) →
      Compile (List (Configuration × Dictionary String Project))
  | _, [] => return []
  | known, (c, variant) :: rest => do
    let (known, projects) ← resolveVariant ctx object children template known c variant
    return (c, projects) :: (← resolveVariants ctx object children template known rest)

/-- Resolves a module for every configuration of its template. -/
def resolve (ctx : ModuleContext) (object : Object) (template : Template) : Compile Module := do
  let children ← Compile.ofFallible object.settingsObjects
  let variants ← resolveVariants ctx object children template .empty template.variants.entries
  return ⟨object.name, template.name, .ofList variants⟩

/-- The projects under a configuration, in order. -/
def projects (m : Module) (c : Configuration) : List Project :=
  ((m.variants.get? c).map (·.values)).getD []

end Module

end BuildPlan
