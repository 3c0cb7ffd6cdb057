import BuildPlan.Inheritance

/-! # Templates

A template declares projects, each with the name of its settings, and settings objects. It is
resolved for every configuration on its own. -/

namespace BuildPlan

/-- A template under one configuration. -/
structure TemplateVariant where
  /-- The compiled body of the template. -/
  root : Settings
  /-- The declared projects and the names of their settings. -/
  projects : List (String × String)
  /-- The compiled settings objects, in the order of declaration. -/
  settings : Dictionary String Settings
  deriving DecidableEq

/-- A resolved template. -/
structure Template where
  name : String
  /-- The settings objects and the bases that they declare. -/
  bases : Dictionary String (Option String)
  variants : Dictionary Configuration TemplateVariant
  deriving DecidableEq

/-- The projects that a compiled body declares, with the names of their settings. -/
def Settings.projectDeclarations (root : Settings) : List (String × String) :=
  root.entries PropertyName.projects

/-- The kind of the objects that hold settings. -/
def settingsKind : String := "settings"

/-- The settings objects of a body that are not among the given names yet. All objects must be
settings, and their names must differ. -/
def settingsObjectsFrom (parent : Heading) : List String → List Object → Fallible (List Object)
  | _, [] => .ok []
  | seen, o :: os =>
    if o.kind != settingsKind then
      (Cause.unexpectedObject o.kind o.name parent.display).raise
    else if seen.contains o.name then (Cause.duplicate .settings o.name).raise
    else do return o :: (← settingsObjectsFrom parent (o.name :: seen) os)

/-- The settings objects in the body of a template or module. -/
def Object.settingsObjects (o : Object) : Fallible (List Object) :=
  settingsObjectsFrom o.heading [] (Element.objects o.body)

namespace Template

/-- Resolves a template for one configuration. -/
def resolveVariant (object : Object) (children : List Object) (external : NameSet)
    (bindings : Bindings) (c : Configuration) : Compile TemplateVariant := do
  let bindings := (c.bind bindings).bind Variable.templateName object.name
  let scope := object.heading.display
  let root ← Job.compile ⟨object, scope, .template, some c, none, bindings⟩ external
  let projects := root.projectDeclarations
  if projects.isEmpty && !root.isExcluded then
    throw (Cause.missingProjectDeclarations object.name).failure
  let settings ← Compile.within (scope ++ " [" ++ c.display ++ "]")
    (Heir.compileAll .empty
      (fun child base => Job.compile ⟨child, scope, .settings, some c, base, bindings⟩ external)
      (children.map fun child => ⟨child, child.base⟩))
  return ⟨root, projects, settings⟩

/-- Resolves a template for configurations, one after another. -/
def resolve (object : Object) (configurations : List Configuration) (external : NameSet)
    (bindings : Bindings) : Compile Template := do
  let children ← Compile.ofFallible object.settingsObjects
  let variants ← configurations.mapM fun c => do
    return (c, ← resolveVariant object children external bindings c)
  return ⟨object.name, .ofList (children.map fun child => (child.name, child.base)),
    .ofList variants⟩

end Template

end BuildPlan
