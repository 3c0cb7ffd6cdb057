import BuildPlan.Syntax.Value

/-! # Patterns

A pattern selects paths and names: a text that is to be met exactly, a glob, or a regular
expression. A negated pattern selects what it would not select otherwise. -/

namespace BuildPlan

/-- How the text of a pattern is read. -/
inductive PatternKind where
  | literal
  | glob
  | regex
  deriving DecidableEq, Repr, Inhabited

def PatternKind.display : PatternKind → String
  | .literal => "literal"
  | .glob => "glob"
  | .regex => "regex"

/-- A pattern as it is declared. -/
structure Pattern where
  kind : PatternKind
  text : String
  negated : Bool
  deriving DecidableEq, Repr, Inhabited

namespace Pattern

/-- The pattern that a value declares. Only texts, globs and regular expressions do. -/
def ofValue? : Value → Option Pattern
  | .literal text => some ⟨.literal, text, false⟩
  | .glob text negated => some ⟨.glob, text, negated⟩
  | .regex text negated => some ⟨.regex, text, negated⟩
  | _ => none

/-- The pattern as it stands in messages. -/
def display (p : Pattern) : String :=
  let quoted := "\"" ++ p.text ++ "\""
  match p.kind with
  | .literal => Value.bang p.negated ++ quoted
  | kind => Value.bang p.negated ++ kind.display ++ " " ++ quoted

end Pattern

end BuildPlan
