import BuildPlan.Grammar.Parse
import BuildPlan.Pattern.Basic

/-! # Failures

A failure has one cause and the contexts in which it came about, the outermost first. Causes are
told apart by constructor; their wording is in one function. -/

namespace BuildPlan

/-- What is wrong with a value for a property. -/
inductive ValueFault where
  | notPattern (found : Value)
  | notText (found : Value)
  | notXml (found : Value)
  | notSingle
  | wrongShape
  deriving Inhabited, DecidableEq, Repr

def ValueFault.message : ValueFault → String
  | .notPattern found => "expected a pattern, found " ++ found.display
  | .notText found => "expected text, found " ++ found.display
  | .notXml found => "expected an xml block, found " ++ found.display
  | .notSingle => "expected a single value, found an array"
  | .wrongShape => "value does not match the property kind"

/-- What may be declared only once. -/
inductive Declared where
  | solution
  | configurationGroup
  | configuration
  | template
  | module
  | settings
  | project
  deriving DecidableEq, Repr, Inhabited

def Declared.display : Declared → String
  | .solution => "solution"
  | .configurationGroup => "configuration group"
  | .configuration => "configuration"
  | .template => "template"
  | .module => "module"
  | .settings => "settings"
  | .project => "project"

/-- What must be the same for a project in all configurations. -/
inductive IdentityField where
  | guid
  | sourcePath
  deriving DecidableEq, Repr, Inhabited

def IdentityField.display : IdentityField → String
  | .guid => "guid"
  | .sourcePath => "source path"

/-- The reason of a failure. -/
inductive Cause where
  | syntaxError (error : SyntaxError)
  | invalidCondition (expression : String)
  | unrecognizedProperty (name : String)
  | unrecognizedCommand (name : String)
  | invalidAction (property : String)
  | invalidValue (property : String) (fault : ValueFault)
  | malformedDeclaration (property : String) (found : Value)
  | baseNotCompiled (object base : String)
  | unknownBase (object base : String)
  | cyclicInheritance (names : List String)
  | duplicate (kind : Declared) (name : String)
  | missingProjectDeclarations (template : String)
  | unknownTemplate (name : String)
  | missingTemplate (module : String)
  | unknownSettings (project settings : String)
  | unexpectedObject (found name parent : String)
  | unknownConfigurationGroup (name : String)
  | noConfigurations
  | invalidProjectReference (project reference : String)
  | invalidGuid (text : String)
  | inconsistentIdentity (project : String) (field : IdentityField) (configuration : String)
  | unboundVariable (name : String)
  | unterminatedVariable (text : String)
  | invalidPattern (kind : PatternKind) (pattern : String)
  | user (message : String)
  | unreadable (path : String)
  deriving Inhabited, DecidableEq

/-- A cause in words. -/
def Cause.message : Cause → String
  | .syntaxError e => e.display
  | .invalidCondition e => "invalid conditional '" ++ e ++ "'"
  | .unrecognizedProperty n => "unrecognized property '" ++ n ++ "'"
  | .unrecognizedCommand n => "unrecognized command '" ++ n ++ "'"
  | .invalidAction p => "'add' is not a valid action for scalar property '" ++ p ++ "'"
  | .invalidValue p fault => "invalid value for property '" ++ p ++ "': " ++ fault.message
  | .malformedDeclaration p found =>
    "malformed '" ++ p ++ "' declaration " ++ found.display ++ ": expected \x60name : value\x60"
  | .baseNotCompiled o b =>
    "'" ++ o ++ "' inherits '" ++ b ++ "', which has not been compiled yet"
  | .unknownBase o b => "'" ++ o ++ "' inherits unknown settings '" ++ b ++ "'"
  | .cyclicInheritance ns =>
    "cyclic inheritance between settings: " ++ String.intercalate ", " ns
  | .duplicate kind n => "duplicate " ++ kind.display ++ " '" ++ n ++ "'"
  | .missingProjectDeclarations t => "template '" ++ t ++ "' declares no projects"
  | .unknownTemplate n => "unknown template '" ++ n ++ "'"
  | .missingTemplate m =>
    "module '" ++ m ++ "' does not name a template (expected \x60module " ++ m ++
      " : TemplateName\x60)"
  | .unknownSettings p s => "project '" ++ p ++ "' is bound to unknown settings '" ++ s ++ "'"
  | .unexpectedObject found n parent => "unexpected " ++ found ++ " '" ++ n ++ "' inside " ++ parent
  | .unknownConfigurationGroup n => "unknown configuration group '" ++ n ++ "'"
  | .noConfigurations => "the document declares no configurations"
  | .invalidProjectReference p r =>
    "project '" ++ p ++ "' references '" ++ r ++ "', which is not an included project"
  | .invalidGuid t => "invalid project guid '" ++ t ++ "'"
  | .inconsistentIdentity p field c =>
    "project '" ++ p ++ "' has a different " ++ field.display ++ " in " ++ c
  | .unboundVariable n => "unbound variable '$(" ++ n ++ ")'"
  | .unterminatedVariable t => "unterminated variable reference in '" ++ t ++ "'"
  | .invalidPattern kind p => "invalid " ++ kind.display ++ " pattern '" ++ p ++ "'"
  | .user m => m
  | .unreadable p => "IO error: cannot read '" ++ p ++ "'"

/-- A cause with the contexts around it, the outermost first. -/
structure Failure where
  contexts : List String
  cause : Cause
  deriving Inhabited, DecidableEq

/-- A failure in words: the contexts and then the cause. -/
def Failure.message (f : Failure) : String :=
  String.intercalate ": " (f.contexts ++ [f.cause.message])

/-- A failure without context. -/
def Cause.failure (c : Cause) : Failure := ⟨[], c⟩

/-- What may fail. -/
abbrev Fallible (α : Type) : Type := Except Failure α

/-- Fails for a cause. -/
def Cause.raise {α : Type} (c : Cause) : Fallible α := .error c.failure

/-- The failure with one more context around it. -/
def Failure.within (context : String) (f : Failure) : Failure :=
  { f with contexts := context :: f.contexts }

/-- Gives a failure one more context. -/
def Fallible.within {α : Type} (context : String) (r : Fallible α) : Fallible α :=
  r.mapError (·.within context)

theorem Fallible.within_ok {α : Type} {context : String} {r : Fallible α} {a : α} :
    r.within context = .ok a ↔ r = .ok a := by
  cases r with
  | ok => exact Iff.rfl
  | error => exact ⟨nofun, nofun⟩

/-- What goes on from a result gives something if both of its parts do. -/
theorem Fallible.bind_ok {α β : Type} {r : Fallible α} {f : α → Fallible β} {b : β} :
    (r >>= f) = .ok b ↔ ∃ a, r = .ok a ∧ f a = .ok b := by
  cases r <;> simp [bind, Except.bind]

/-- What does not fail gives something. -/
theorem Fallible.exists_of_isOk {α : Type} {r : Fallible α} (h : r.isOk = true) : ∃ a, r = .ok a := by
  cases r with
  | error e => cases h
  | ok a => exact ⟨a, rfl⟩

theorem Fallible.eq_ok_of_toOption {α : Type} {r : Fallible α} {a : α} (h : r.toOption = some a) :
    r = .ok a := by
  cases r with
  | error e => cases h
  | ok b => rw [Option.some.inj h]

theorem Fallible.eq_ok_getD {α : Type} {r : Fallible α} (h : r.isOk = true) (a : α) :
    r = .ok (r.toOption.getD a) := by
  obtain ⟨b, rfl⟩ := Fallible.exists_of_isOk h
  rfl

/-- What does not give anything fails. -/
theorem Fallible.exists_of_not_isOk {α : Type} {r : Fallible α} (h : r.isOk = false) :
    ∃ e, r = .error e := by
  cases r with
  | error e => exact ⟨e, rfl⟩
  | ok a => cases h

end BuildPlan
