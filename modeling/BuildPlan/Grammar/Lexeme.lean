import BuildPlan.Grammar.Rule

/-! # Lexemes

The smallest parts of a document: blanks, comments, words, identifiers with variable references in
them, quoted texts, and groups in balanced delimiters. -/

namespace BuildPlan.Grammar

open BuildPlan.Text

/-- A letter that may begin a word. -/
def isWordStart (c : Char) : Bool := c.isAlpha || c == '_'

/-- A character that may continue a word. -/
def isWordChar (c : Char) : Bool := c.isAlphanum || c == '_'

/-- A character that may continue an identifier, beside variable references. -/
def isIdentifierChar (c : Char) : Bool := isWordChar c || c == '.' || c == '-'

/-- A character of a bare word. Two slashes in a row are none, since they begin a comment. -/
def isBareChar (c : Char) : Bool :=
  c.isAlphanum || c == '_' || c == '.' || c == '-' || c == '+' || c == '/'

def notLineEnd (c : Char) : Bool := c != '\r' && c != '\n'

/-- Any blanks. -/
def blanks : Rule Unit := (Rule.run isBlank).map fun _ => ()

/-- Any spaces and tabs. -/
def spaces : Rule Unit := (Rule.run fun c => c == ' ' || c == '\t').map fun _ => ()

/-- One given character. -/
def symbol (c : Char) : Rule Unit := (Rule.one (· == c)).map fun _ => ()

/-- Two slashes and a text up to the end of the line, found without the blanks around it. -/
def comment : Rule String := do
  Rule.exactly ['/', '/']
  let text ← Rule.run notLineEnd
  return String.ofList (trim text)

/-- Blanks and comments that carry no meaning. -/
def trivia : Rule Unit :=
  (Rule.many (Rule.firstOf
    [(Rule.run1 isBlank).map fun _ => (), comment.map fun _ => ()])).map fun _ => ()

/-- A variable reference on one line, with the backslash that may escape it. -/
def reference : Rule (List Char) := do
  let escape ← Rule.optional (symbol '\\')
  Rule.exactly ['$', '(']
  let name ← Rule.run fun c => c != ')' && notLineEnd c
  symbol ')'
  return (if escape.isSome then ['\\'] else []) ++ '$' :: '(' :: name ++ [')']

/-- A letter or an underscore, and then letters, digits and underscores. -/
def word : Rule String := do
  let first ← Rule.one isWordStart
  let more ← Rule.run isWordChar
  return String.ofList (first :: more)

/-- The given word and no longer one. -/
def keyword (w : String) : Rule Unit := (word.keep (· == w)).map fun _ => ()

/-- A name that begins with a letter, an underscore or a variable reference, and goes on with these,
digits, dots and dashes. -/
def identifier : Rule String := do
  let first ← Rule.firstOf [(Rule.one isWordStart).map fun c => [c], reference]
  let more ← Rule.many (Rule.firstOf [Rule.run1 isIdentifierChar, reference])
  return String.ofList (first ++ more.flatten)

/-- The longest run of bare characters that ends before two slashes, and the rest. -/
def splitBare : List Char → List Char × List Char
  | [] => ([], [])
  | '/' :: '/' :: s => ([], '/' :: '/' :: s)
  | c :: s =>
    if isBareChar c then
      let (taken, rest) := splitBare s
      (c :: taken, rest)
    else ([], c :: s)

/-- A run of bare characters, which must not be empty. -/
def bareRun : Rule (List Char) := fun s =>
  match splitBare s with
  | ([], _) => ⟨none, 0, some 0⟩
  | (taken, rest) => ⟨some (taken, rest), byteSize taken, some (byteSize taken)⟩

/-- A value text without quotes. -/
def bareWord : Rule String := do
  let parts ← Rule.many1 (Rule.firstOf [bareRun, reference])
  return String.ofList parts.flatten

/-- A part of a quoted text. A backslash escapes a quote and nothing else. -/
def quotedPart : Rule (List Char) :=
  Rule.firstOf
    [(Rule.exactly ['\\', '"']).map fun _ => ['"'],
      Rule.run1 fun c => c != '"' && c != '\n' && c != '\\',
      (Rule.one (· == '\\')).map fun c => [c]]

/-- A text between quotes, on one line. -/
def quoted : Rule String := do
  symbol '"'
  let parts ← Rule.many quotedPart
  symbol '"'
  return String.ofList parts.flatten

/-- One level of a group: what stands between the delimiters is any other text or a group. -/
def groupStep (opening closing : Char) (group : Rule (List Char)) : Rule (List Char) := do
  symbol opening
  let parts ← Rule.many
    (Rule.firstOf [Rule.run1 fun c => c != opening && c != closing, group])
  symbol closing
  return opening :: parts.flatten ++ [closing]

/-- A text in balanced delimiters, found with its delimiters. -/
def group (opening closing : Char) : Rule (List Char) :=
  Rule.nested (groupStep opening closing)

/-- A text in balanced parentheses, found without the outer ones. -/
def parenthesized : Rule (List Char) := (group '(' ')').map fun g => g.tail.dropLast

/-- The word for a condition and the text of the condition in parentheses. -/
def conditional : Rule String := do
  keyword "if"
  trivia
  let text ← parenthesized
  return String.ofList (trim text)

end BuildPlan.Grammar
