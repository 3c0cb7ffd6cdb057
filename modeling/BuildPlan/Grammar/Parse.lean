import BuildPlan.Grammar.Document

/-! # Reading whole texts

A document, a value, or a group in parentheses is read from a whole text. If that is not possible,
the answer is a syntax error at the position of the furthest failure. -/

namespace BuildPlan

open BuildPlan.Grammar BuildPlan.Text

/-- A text that is not of the language, with the position where reading stopped. -/
structure SyntaxError where
  position : Position
  message : String
  deriving DecidableEq, Repr

namespace SyntaxError

/-- An error at a byte offset of a text. -/
def atOffset (source : String) (offset : Nat) (message : String) : SyntaxError :=
  ⟨positionAt source.toList offset, message⟩

/-- The error as it is shown. -/
def display (e : SyntaxError) : String :=
  "syntax error at " ++ toString e.position.line ++ ":" ++ toString e.position.column ++ ": " ++
    e.message

end SyntaxError

/-- Reads a whole text with a rule. -/
def Grammar.Rule.parse {α : Type} (r : Rule α) (source : String) : Except SyntaxError α :=
  match r.whole source.toList with
  | .ok a => .ok a
  | .error offset => .error (.atOffset source offset "unexpected text")

/-- Reads a document. -/
def Document.parse (source : String) : Except SyntaxError Document :=
  (Grammar.elements.map Document.mk).parse source

/-- Reads one value with any blanks around it. -/
def Value.parse (source : String) : Except SyntaxError Value :=
  Rule.parse (do
    blanks
    let v ← value
    blanks
    return v) source

/-- Reads one group in parentheses and gives it back. -/
def parseEnclosed (source : String) : Except SyntaxError String :=
  ((group '(' ')').map String.ofList).parse source

end BuildPlan
