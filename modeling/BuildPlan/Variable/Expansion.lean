import BuildPlan.Failure
import BuildPlan.Variable.Bindings

/-! # Expansion of variable references

A text with references `$(NAME)` is read as a list of symbols: plain characters and references.
Backslashes in front of `$(` are halved by reading, and if their number is odd the reference is
escaped, so that it stands for its own characters. Writing a list of symbols puts the backslashes
back.

Complete expansion gives every reference its value and has no symbols left. Deferring expansion gives the
bound references their values, keeps the others, and writes the symbols, so that a later expansion
does not read the values again. -/

namespace BuildPlan.Variable

/-- A part of a text with references. -/
inductive Symbol where
  /-- A character that stands for itself. -/
  | char (c : Char)
  | reference (name : List Char)
  /-- The start of a reference without an end. -/
  | unclosed
  deriving DecidableEq, Repr

/-- Where the reading of a text stands: behind so many backslashes, or inside the name of a
reference that had so many backslashes in front of it. The name is kept in reverse. -/
inductive ReadState where
  | text (slashes : Nat)
  | name (slashes : Nat) (name : List Char)

/-- So many backslashes. -/
def slashes (n : Nat) : List Symbol := List.replicate n (.char '\\')

/-- What a reference stands for behind so many backslashes. -/
def readReference (count : Nat) (name : List Char) : List Symbol :=
  slashes (count / 2) ++
    if count % 2 = 1 then ('$' :: '(' :: name ++ [')']).map .char else [.reference name]

/-- Reads the symbols of a text. -/
def readFrom : ReadState → List Char → List Symbol
  | .text n, [] => slashes n
  | .text n, '\\' :: s => readFrom (.text (n + 1)) s
  | .text n, '$' :: '(' :: s => readFrom (.name n []) s
  | .text n, c :: s => slashes n ++ .char c :: readFrom (.text 0) s
  | .name _ _, [] => [.unclosed]
  | .name n name, ')' :: s => readReference n name.reverse ++ readFrom (.text 0) s
  | .name n name, c :: s => readFrom (.name n (c :: name)) s

/-- The symbols of a text. -/
def read (s : List Char) : List Symbol := readFrom (.text 0) s

/-- Writes symbols behind so many backslashes. Backslashes are doubled in front of a reference, and
doubled with one more in front of characters that would be read as the start of one. -/
def writeFrom : Nat → List Symbol → List Char
  | n, [] => List.replicate n '\\'
  | n, .char '\\' :: ss => writeFrom (n + 1) ss
  | n, .char '$' :: .char '(' :: ss =>
    List.replicate (2 * n + 1) '\\' ++ '$' :: '(' :: writeFrom 0 ss
  | n, .char c :: ss => List.replicate n '\\' ++ c :: writeFrom 0 ss
  | n, .reference name :: ss =>
    List.replicate (2 * n) '\\' ++ '$' :: '(' :: name ++ ')' :: writeFrom 0 ss
  | n, .unclosed :: ss => List.replicate (2 * n) '\\' ++ '$' :: '(' :: writeFrom 0 ss

/-- The text of a list of symbols. -/
def write (ss : List Symbol) : List Char := writeFrom 0 ss

/-- The characters of a text as symbols. -/
def plain (s : String) : List Symbol := s.toList.map .char

/-- The symbol with its value put in, if it has one. -/
def substitute (b : Bindings) : Symbol → List Symbol
  | .reference name =>
    match b.get? (String.ofList name) with
    | some value => plain value
    | none => [.reference name]
  | s => [s]

/-- The characters of a symbol with its value put in, which it must have. -/
def evaluate (b : Bindings) (text : String) : Symbol → Fallible (List Char)
  | .char c => .ok [c]
  | .reference name =>
    match b.get? (String.ofList name) with
    | some value => .ok value.toList
    | none => (Cause.unboundVariable (String.ofList name)).raise
  | .unclosed => (Cause.unterminatedVariable text).raise

/-- How references without a value are treated. -/
inductive Expansion where
  /-- They are kept for a later expansion, as are escapes. -/
  | deferring
  /-- They are errors, and escapes become the text that they stand for. -/
  | complete
  deriving DecidableEq, Repr, Inhabited

/-- Keeps the references without a value. -/
def expandPartly (b : Bindings) (text : String) : Fallible String :=
  let symbols := read text.toList
  if .unclosed ∈ symbols then (Cause.unterminatedVariable text).raise
  else .ok (String.ofList (write (symbols.flatMap (substitute b))))

/-- Gives every reference its value. -/
def expandFully (b : Bindings) (text : String) : Fallible String := do
  let parts ← (read text.toList).mapM (evaluate b text)
  return String.ofList parts.flatten

/-- Gives the references of a text their values. -/
def expand (b : Bindings) (e : Expansion) (text : String) : Fallible String :=
  match e with
  | .deferring => expandPartly b text
  | .complete => expandFully b text

end BuildPlan.Variable
