import BuildPlan.Grammar.Lexeme
import BuildPlan.Syntax.Value
import BuildPlan.Text.Lines
import BuildPlan.Xml.Fragment

/-! # The grammar of values

A value is a markup block, a glob, a regular expression, the word for no value, an array, a pair or
a literal. The words that introduce the first four are words like any other, so each of them may
also be a literal or the key of a pair. -/

namespace BuildPlan.Grammar

open BuildPlan.Text

/-- The text before the first three quotes in a row, and the rest. -/
def splitFence : List Char → List Char × List Char
  | [] => ([], [])
  | '"' :: '"' :: '"' :: s => ([], '"' :: '"' :: '"' :: s)
  | c :: s =>
    let (taken, rest) := splitFence s
    (c :: taken, rest)

/-- Any text up to three quotes in a row or to the end. -/
def fenced : Rule (List Char) := fun s =>
  let (taken, rest) := splitFence s
  ⟨some (taken, rest), byteSize taken, some (byteSize taken)⟩

/-- A block of markup without its common indentation, if it is a well-formed fragment. -/
def formatXml (raw : List Char) : Option (List Char) :=
  let text := dedent raw
  if Xml.isWellFormed text then some text else none

def fence : Rule Unit := Rule.exactly ['"', '"', '"']

/-- A block of markup. One that is not well formed is refused as a whole. -/
def xmlBlock : Rule Value :=
  Rule.select (fun raw => (formatXml raw).map fun text => .xml (String.ofList text)) do
    keyword "xml"
    trivia
    fence
    let raw ← fenced
    fence
    return raw

/-- A pattern behind its keyword, negated by an exclamation mark. -/
def patternValue (introducer : String) (build : String → Bool → Value) : Rule Value := do
  let mark ← Rule.optional (symbol '!')
  keyword introducer
  trivia
  let text ← quoted
  return build text mark.isSome

/-- The word for no value. -/
def noneValue : Rule Value := (bareWord.keep (· == "none")).map fun _ => .none

/-- Items in brackets. A comma may stand behind each item. -/
def arrayOf (item : Rule Value) : Rule (List Value) := do
  symbol '['
  trivia
  let items ← Rule.many do
    let v ← item
    trivia
    discard (Rule.optional do
      symbol ','
      trivia)
    return v
  symbol ']'
  return items

/-- A literal, or the key of a pair with the value behind the colon. -/
def keyed (value : Rule Value) : Rule Value := do
  let key ← Rule.firstOf [quoted, bareWord]
  let inner ← Rule.optional do
    trivia
    symbol ':'
    trivia
    value
  return match inner with
    | some v => .pair key v
    | none => .literal key

/-- One level of a value. -/
def valueStep (value : Rule Value) : Rule Value :=
  Rule.firstOf
    [xmlBlock, patternValue "glob" .glob, patternValue "regex" .regex, noneValue,
      (arrayOf value).map .array, keyed value]

/-- A value. -/
def value : Rule Value := Rule.nested valueStep

end BuildPlan.Grammar
