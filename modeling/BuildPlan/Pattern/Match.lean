import BuildPlan.Failure
import BuildPlan.Pattern.Glob
import BuildPlan.Pattern.Regex.Ends
import BuildPlan.Pattern.Regex.Parse

/-! # Matching patterns

Patterns and candidates are brought to one form first: backslashes become slashes, and one leading
`./` is left out. A text matches by equality, and a regular expression anywhere in the candidate. A
glob with a slash matches the whole path, and one without the last name of the path. -/

namespace BuildPlan

/-- A pattern that is ready to match. -/
inductive Matcher where
  | literal (text : List Char)
  | glob (tokens : List Glob.Token) (wholePath : Bool)
  | regex (expression : Regex.Expression)

/-- A pattern that is ready to match, with its negation. -/
structure CompiledPattern where
  matcher : Matcher
  negated : Bool

/-- The form in which paths are compared. -/
def normalizePath (path : List Char) : List Char :=
  match path.map fun c => if c = '\\' then '/' else c with
  | '.' :: '/' :: rest => rest
  | path => path

/-- What stands behind the last slash. -/
def lastName (path : List Char) : List Char := (path.reverse.takeWhile (· != '/')).reverse

namespace Matcher

/-- Holds of the paths in their common form that are matched. -/
def hits (path : List Char) : Matcher → Bool
  | .literal text => path = text
  | .glob tokens wholePath => Glob.tokensMatch tokens (if wholePath then path else lastName path)
  | .regex expression => expression.isMatch path

end Matcher

/-- Holds of the candidates that the pattern selects. -/
def CompiledPattern.isMatch (p : CompiledPattern) (candidate : String) : Bool :=
  p.matcher.hits (normalizePath candidate.toList) != p.negated

namespace Pattern

/-- What the text of a pattern matches, if it can be read. -/
def matcher? (p : Pattern) : Option Matcher :=
  match p.kind with
  | .literal => some (.literal (normalizePath p.text.toList))
  | .glob =>
    let text := normalizePath p.text.toList
    (Glob.read? text).map fun tokens => .glob tokens (text.contains '/')
  | .regex => (Regex.read? p.text.toList).map .regex

/-- Makes a pattern ready to match. -/
def compile (p : Pattern) : Fallible CompiledPattern :=
  match p.matcher? with
  | some m => .ok ⟨m, p.negated⟩
  | none => (Cause.invalidPattern p.kind p.text).raise

/-- Makes patterns ready, and fails for the first one that cannot be read. -/
def compileAll (ps : List Pattern) : Fallible (List CompiledPattern) := ps.mapM compile

end Pattern

/-- Patterns that admit names. Without patterns every name is admitted. -/
structure Whitelist where
  patterns : List CompiledPattern

namespace Whitelist

def ofPatterns (ps : List Pattern) : Fallible Whitelist := do return ⟨← Pattern.compileAll ps⟩

def isActive (w : Whitelist) : Bool := !w.patterns.isEmpty

/-- Holds of the admitted names. -/
def allows (w : Whitelist) (name : String) : Bool :=
  !w.isActive || w.patterns.any (·.isMatch name)

end Whitelist

end BuildPlan
