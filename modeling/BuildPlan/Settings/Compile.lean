import BuildPlan.Settings.Walk

/-! # Compiling settings

An object is compiled by walking its body, from the bag of its base or from the properties with
their values at first, and then expanding what is bound. What was compiled is kept under its key,
and a key that is asked for again is answered with what is kept.

A computation asks for the settings of one job after another, and what it asks for depends on the
answers alone. A session answers: it holds what was kept and the warnings given so far, and it
outlives failures. -/

namespace BuildPlan

open BuildPlan.Variable

/-- An object to compile, with all that its settings depend on beside the external constants. -/
structure Job where
  object : Object
  /-- The object that owns it. -/
  scope : String
  registry : Registry
  configuration : Option Configuration
  /-- The settings that it builds on. -/
  base : Option Settings
  bindings : Bindings

namespace Job

/-- The key under which the settings are kept. -/
def key (j : Job) (external : NameSet) : SettingsKey :=
  ⟨j.scope, j.object.kind, j.object.name, j.configuration, external⟩

/-- The constants that are defined while the object is compiled. -/
def defined (j : Job) (external : NameSet) : NameSet :=
  match j.configuration with
  | some c => external.union c.constants
  | none => external

/-- The job in words, as the context of its failures. -/
def context (j : Job) : String :=
  match j.configuration with
  | some c => j.object.heading.display ++ " [" ++ c.display ++ "]"
  | none => j.object.heading.display

/-- The bag from which the walk starts. -/
def start (j : Job) : Bag :=
  match j.base with
  | some base => base.bag
  | none => .initial j.registry

/-- Compiles the object, whatever was kept before. -/
def run (j : Job) (external : NameSet) : Logged Settings := do
  let (bag, _) ← walkAll j.registry (j.defined external) j.start j.object.body
  return ⟨j.key external, ← bag.expand j.bindings .deferring⟩

/-- Holds if the object declares no base, or the settings to build on have the name of the one that
it declares. -/
def basePresent (j : Job) : Bool :=
  match j.object.base with
  | none => true
  | some declared => j.base.any (·.name = declared)

/-- The failure of a job whose base is not there. -/
def baseMissing (j : Job) : Failure :=
  (Cause.baseNotCompiled j.object.heading.display (j.object.base.getD "")).failure

end Job

/-- What is kept between compilations. -/
structure Session where
  /-- Settings under their keys. -/
  cache : Dictionary SettingsKey Settings
  /-- The warnings given, in order. -/
  warnings : List String

namespace Session

def initial : Session := ⟨.empty, []⟩

instance : Inhabited Session := ⟨initial⟩

/-- The session with warnings given. -/
def warn (s : Session) (warnings : List String) : Session :=
  { s with warnings := s.warnings ++ warnings }

/-- The session with settings kept under a key. -/
def keep (s : Session) (key : SettingsKey) (settings : Settings) : Session :=
  { s with cache := s.cache.insert key settings }

/-- Answers a job: with the settings that are kept under its key, and otherwise with compiled ones,
which are kept from then on. A job whose base is not there does not come to the cache. -/
def answer (s : Session) (j : Job) (external : NameSet) : Fallible Settings × Session :=
  if !j.basePresent then (.error j.baseMissing, s)
  else
    match s.cache.get? (j.key external) with
    | some settings => (.ok settings, s)
    | none =>
      let compiled := (j.run external).within j.context
      match compiled.result with
      | .ok settings => (.ok settings, (s.warn compiled.warnings).keep (j.key external) settings)
      | .error e => (.error e, s.warn compiled.warnings)

end Session

/-- A computation that has objects compiled: it is done, or it gives warnings and goes on, or it
asks for the settings of a job and goes on with the answer. -/
inductive Compile (α : Type) : Type where
  | done (result : Fallible α)
  | warn (warnings : List String) (rest : Compile α)
  | ask (job : Job) (external : NameSet) (rest : Fallible Settings → Compile α)

namespace Compile

variable {α β : Type}

/-- Goes on from a result. -/
def andThen : Compile α → (α → Compile β) → Compile β
  | .done (.ok a), f => f a
  | .done (.error e), _ => .done (.error e)
  | .warn warnings rest, f => .warn warnings (rest.andThen f)
  | .ask job external rest, f => .ask job external fun answer => (rest answer).andThen f

/-- Goes on from a failure. -/
def orElse : Compile α → (Failure → Compile α) → Compile α
  | .done (.ok a), _ => .done (.ok a)
  | .done (.error e), f => f e
  | .warn warnings rest, f => .warn warnings (rest.orElse f)
  | .ask job external rest, f => .ask job external fun answer => (rest answer).orElse f

instance : Monad Compile where
  pure a := .done (.ok a)
  bind := andThen

instance : MonadExceptOf Failure Compile where
  throw e := .done (.error e)
  tryCatch := orElse

/-- Takes the warnings of a logged computation along. -/
def ofLogged (m : Logged α) : Compile α := .warn m.warnings (.done m.result)

/-- What may fail without having anything compiled. -/
def ofFallible (r : Fallible α) : Compile α := .done r

instance : MonadLift Fallible Compile := ⟨ofFallible⟩

/-- Gives a failure one more context. -/
def within (context : String) : Compile α → Compile α
  | .done result => .done (result.within context)
  | .warn warnings rest => .warn warnings (rest.within context)
  | .ask job external rest => .ask job external fun answer => (rest answer).within context

/-- Runs a computation in a session. -/
def runIn : Compile α → Session → Fallible α × Session
  | .done result, s => (result, s)
  | .warn warnings rest, s => rest.runIn (s.warn warnings)
  | .ask job external rest, s =>
    let (answer, s) := s.answer job external
    (rest answer).runIn s

end Compile

/-- Compiles the object unless its settings are kept, and keeps them. -/
def Job.compile (j : Job) (external : NameSet) : Compile Settings := .ask j external .done

end BuildPlan
