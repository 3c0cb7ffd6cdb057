import BuildPlan.Condition.Basic
import BuildPlan.Grammar.Lexeme

/-! # Reading conditions

Conjunction binds tighter than disjunction, negation binds tightest, and both operators group to
the left. Blanks may stand before, between and behind the tokens. -/

namespace BuildPlan.Condition

open BuildPlan.Grammar BuildPlan.Text

/-- A rule with any blanks around it. -/
def spaced {α : Type} (r : Rule α) : Rule α := do
  blanks
  let a ← r
  blanks
  return a

/-- The name of a constant. -/
def constantName : Rule String := do
  let first ← Rule.one isWordStart
  let more ← Rule.run isIdentifierChar
  return String.ofList (first :: more)

/-- A constant, or a condition in parentheses. -/
def atom (condition : Rule Condition) : Rule Condition :=
  spaced (Rule.firstOf
    [constantName.map .constant,
    do
      spaced (symbol '(')
      let inner ← condition
      spaced (symbol ')')
      return inner])

/-- An atom behind any number of exclamation marks. -/
def unary (condition : Rule Condition) : Rule Condition := do
  let marks ← Rule.many (spaced (symbol '!'))
  let operand ← atom condition
  return marks.foldr (fun _ c => .not c) operand

/-- Operands with the operator between them, grouped to the left. -/
def chain (operator : List Char) (join : Condition → Condition → Condition)
    (operand : Rule Condition) : Rule Condition := do
  let first ← operand
  let more ← Rule.many do
    spaced (Rule.exactly operator)
    operand
  return more.foldl join first

/-- One level of a condition. -/
def conditionStep (condition : Rule Condition) : Rule Condition :=
  chain ['|', '|'] .or (chain ['&', '&'] .and (unary condition))

/-- Reads a condition from a whole text. -/
def parse? (expression : String) : Option Condition :=
  match (Rule.nested conditionStep).whole expression.toList with
  | .ok c => some c
  | .error _ => none

/-- Judges a condition as it is written. The text for "always" holds without being read. -/
def judge? (expression : String) (defined : NameSet) : Option Bool :=
  if trim expression.toList = ['t', 'r', 'u', 'e'] then some true
  else (parse? expression).map (·.holds defined)

end BuildPlan.Condition
