import BuildPlan.Grammar.Parse
import BuildPlan.Module

/-! # Solutions

The elements of a document are the body of the solution, or one solution object holds the body and
names the solution. The body declares the configurations, the templates and the modules. The
solution is resolved for the selected configurations: first its own properties, then the templates,
then the modules. -/

namespace BuildPlan

open BuildPlan.Variable

/-- A resolved solution. -/
structure Solution where
  name : String
  configurations : List Configuration
  /-- The properties of the solution, with nothing left to expand. -/
  settings : Dictionary Configuration Settings
  templates : Dictionary String Template
  modules : Dictionary String Module
  deriving DecidableEq

namespace Solution

/-- The projects under a configuration, module after module. -/
def projects (s : Solution) (c : Configuration) : List Project :=
  s.modules.values.flatMap (·.projects c)

/-- The configuration of a group and name. -/
def configuration? (s : Solution) (group name : String) : Option Configuration :=
  s.configurations.find? fun c => c.group = group && c.name = name

/-- The project of a name under a configuration. -/
def project? (s : Solution) (c : Configuration) (name : String) : Option Project :=
  (s.projects c).find? (·.name = name)

/-- Where the output goes under a configuration. -/
def outputPath? (s : Solution) (c : Configuration) : Option String :=
  (s.settings.get? c).bind (·.text? PropertyName.outputPath)

/-! ### The body -/

def solutionKind : String := "solution"

def templateKind : String := "template"

def moduleKind : String := "module"

/-- The name of a solution that is not named. -/
def defaultName : String := "Solution"

/-- Holds of a solution object. -/
def isWrapper : Element → Bool
  | .object heading _ => heading.kind = solutionKind
  | _ => false

/-- The solution objects among elements. There may be one at most, and it builds on nothing. -/
def wrapper? : Option Object → List Element → Fallible (Option Object)
  | found, [] => .ok found
  | found, .object heading body :: es =>
    if heading.kind = solutionKind then
      if found.isSome then (Cause.duplicate .solution heading.name).raise
      else
        match heading.base with
        | some base => (Cause.unknownBase heading.display base).raise
        | none => wrapper? (some ⟨heading, body⟩) es
    else wrapper? found es
  | found, _ :: es => wrapper? found es

/-- The body of the solution: what the solution object holds, and behind it the other elements of
the document. -/
def bodyOf (d : Document) : Fallible Object := do
  let others := d.elements.filter (!isWrapper ·)
  match ← wrapper? none d.elements with
  | some o => return { o with body := o.body ++ others }
  | none => return ⟨⟨solutionKind, defaultName, none⟩, others⟩

/-! ### Configurations -/

/-- The configurations of a group that are not among the given names yet. -/
def membersOf (group : String) : List String → List (String × NameSet) →
    Fallible (List Configuration)
  | _, [] => .ok []
  | seen, (name, constants) :: rest =>
    if seen.contains name then (Cause.duplicate .configuration (group ++ "|" ++ name)).raise
    else do
      let more ← membersOf group (name :: seen) rest
      return .ofConstants group name constants.names :: more

/-- The configurations of groups whose names are not among the given ones yet, group by group. -/
def groupsOf : List String → List ConfigurationGroup → Fallible (List (String × List Configuration))
  | _, [] => .ok []
  | seen, g :: gs =>
    if seen.contains g.name then (Cause.duplicate .configurationGroup g.name).raise
    else do
      let members ← membersOf g.name [] g.members
      let more ← groupsOf (g.name :: seen) gs
      return (g.name, members) :: more

/-- The configurations that a body declares, of the wanted groups alone if any are wanted. -/
def declaredConfigurations (body : Object) (wanted : List String) : Fallible (List Configuration) := do
  let groups ← groupsOf [] (Element.groups body.body)
  match wanted.find? fun w => !groups.any (·.1 = w) with
  | some w => (Cause.unknownConfigurationGroup w).raise
  | none =>
    let selected := groups.filter fun g => wanted.isEmpty || wanted.contains g.1
    match selected.flatMap Prod.snd with
    | [] => Cause.noConfigurations.raise
    | cs => return cs

/-! ### Resolution -/

/-- What a document is resolved with. -/
structure Options where
  /-- The environment, of which a later entry counts. -/
  environment : List (String × String)
  /-- The constants that are defined in every configuration. -/
  constants : NameSet
  /-- The wanted configuration groups; without any, all of them. -/
  groups : List String
  /-- The path of the folder to which source paths are relative. -/
  searchRoot : Option String
  /-- What finds the files of projects in a file system. -/
  matcher : FileSystem → PatternMatcher := selectFiles

/-- Compiles the properties of the solution for one configuration, with the names that they
admit. -/
def resolveSettings (body : Object) (external : NameSet) (bindings : Bindings) (c : Configuration) :
    Compile (Settings × Whitelist) := do
  let own := c.bind bindings
  let compiled ← Job.compile ⟨body, solutionKind, .solution, some c, none, own⟩ external
  let expanded ← Compile.ofFallible ((compiled.expand own .complete).within
    (body.heading.display ++ " [" ++ c.display ++ "]"))
  let whitelist ← Compile.ofFallible
    (Whitelist.ofPatterns (expanded.patterns PropertyName.includeProjects))
  return (expanded, whitelist)

/-- The first object that is neither a template nor a module. -/
def checkKinds (body : Object) (objects : List Object) : Fallible Unit :=
  match objects.find? fun o => o.kind != templateKind && o.kind != moduleKind with
  | some o => (Cause.unexpectedObject o.kind o.name body.heading.display).raise
  | none => .ok ()

/-- Resolves templates one after another. No two may have the same name. -/
def resolveTemplates (configurations : List Configuration) (external : NameSet)
    (bindings : Bindings) :
    Dictionary String Template → List Object → Compile (Dictionary String Template)
  | templates, [] => return templates
  | templates, o :: os => do
    if templates.contains o.name then throw (Cause.duplicate .template o.name).failure
    else
      let template ← Template.resolve o configurations external bindings
      resolveTemplates configurations external bindings (templates.insert o.name template) os

/-- Resolves modules one after another. No two may have the same name, and each names a template. -/
def resolveModules (ctx : ModuleContext) (templates : Dictionary String Template) :
    Dictionary String Module → List Object → Compile (Dictionary String Module)
  | modules, [] => return modules
  | modules, o :: os => do
    if modules.contains o.name then throw (Cause.duplicate .module o.name).failure
    else
      match o.base with
      | none => throw (Cause.missingTemplate o.name).failure
      | some name =>
        match templates.get? name with
        | none => throw (Cause.unknownTemplate name).failure
        | some template =>
          let module ← Module.resolve ctx o template
          resolveModules ctx templates (modules.insert o.name module) os

/-- The first name that comes twice. -/
def firstRepeated : List String → List String → Option String
  | _, [] => none
  | seen, n :: ns => if seen.contains n then some n else firstRepeated (n :: seen) ns

/-- The first reference of a project that is none of the names, with the project. -/
def danglingReference? (names : List String) (ps : List Project) : Option (String × String) :=
  ps.findSome? fun p =>
    (p.projectRefs.find? (!names.contains ·)).map fun reference => (p.name, reference)

/-- Checks the projects under a configuration: their names differ, and if only admitted projects are
there, every reference is to one of them. -/
def checkProjects (s : Solution) (whitelists : Dictionary Configuration Whitelist)
    (c : Configuration) : Fallible Unit :=
  let ps := s.projects c
  let names := ps.map (·.name)
  match firstRepeated [] names with
  | some name => (Cause.duplicate .project name).raise
  | none =>
    if (whitelists.get? c).any (·.isActive) then
      match danglingReference? names ps with
      | some (project, reference) =>
        (Cause.invalidProjectReference project reference).raise.within c.display
      | none => .ok ()
    else .ok ()

/-- Resolves a document in a file system. -/
def resolve (o : Options) (fs : FileSystem) (d : Document) : Compile Solution := do
  let body ← Compile.ofFallible (bodyOf d)
  let configurations ← Compile.ofFallible (declaredConfigurations body o.groups)
  let bindings := (Bindings.ofList o.environment).bind Variable.solutionName body.name
  let resolved ← configurations.mapM fun c => do
    return (c, ← resolveSettings body o.constants bindings c)
  let settings := Dictionary.ofList (resolved.map fun (c, s, _) => (c, s))
  let whitelists := Dictionary.ofList (resolved.map fun (c, _, w) => (c, w))
  let objects := Element.objects body.body
  Compile.ofFallible (checkKinds body objects)
  let templates ← resolveTemplates configurations o.constants bindings .empty
    (objects.filter (·.kind = templateKind))
  let ctx : ModuleContext :=
    ⟨o.constants, o.matcher fs, o.searchRoot.getD ".", bindings, whitelists⟩
  let modules ← resolveModules ctx templates .empty (objects.filter (·.kind = moduleKind))
  let solution : Solution := ⟨body.name, configurations, settings, templates, modules⟩
  configurations.forM fun c => Compile.ofFallible (checkProjects solution whitelists c)
  return solution

/-- Reads a document, and fails as a syntax error does. -/
def readDocument (source : String) : Fallible Document :=
  match Document.parse source with
  | .ok d => .ok d
  | .error e => (Cause.syntaxError e).raise

/-- Reads and resolves a document. -/
def parse (o : Options) (fs : FileSystem) (source : String) : Compile Solution := do
  resolve o fs (← Compile.ofFallible (readDocument source))

/-- Reads a document from a file and resolves it. Source paths are relative to the folder of the
file, unless another one is given. -/
def fromFile (o : Options) (fs : FileSystem) (path : String) : Compile Solution := do
  match fs.readText path with
  | none => throw ((Cause.unreadable path).failure.within path)
  | some source =>
    let document ← Compile.ofFallible ((readDocument source).within path)
    resolve { o with searchRoot := o.searchRoot.or (Path.parent? path) } fs document

end Solution

end BuildPlan
