import BuildPlan.Grammar.Value
import BuildPlan.Syntax.Document

/-! # The grammar of documents

The alternatives for an element are tried in order, and each one from the same place. So a heading
whose first word is one of the actions is still the heading of an object, and a word that no other
alternative reads is a command. -/

namespace BuildPlan.Grammar

/-- The words that are never a command. -/
def reserved : List String := ["if", "set", "add", "configuration"]

/-- A rule with trivia behind it. -/
def padded {α : Type} (r : Rule α) : Rule α := do
  let a ← r
  trivia
  return a

/-- A condition in front of an element, with trivia behind it. -/
def guard : Rule (Option String) := Rule.optional (padded conditional)

/-- A constant of a configuration. A name with a colon behind it is the next configuration. -/
def constant : Rule String := do
  let name ← identifier
  Rule.absent do
    trivia
    symbol ':'
  return name

/-- Constants with commas between them. -/
def constants : Rule (List String) :=
  Rule.firstOf
    [do
      let first ← constant
      let more ← Rule.many do
        trivia
        symbol ','
        trivia
        constant
      return first :: more,
    Rule.succeed []]

/-- A configuration and its constants. -/
def member : Rule (String × NameSet) := do
  let name ← padded identifier
  padded (symbol ':')
  let names ← padded constants
  return (name, NameSet.ofList names)

/-- A group of configurations. -/
def configurationGroup : Rule ConfigurationGroup := do
  padded (keyword "configuration")
  let name ← padded identifier
  padded (symbol '[')
  let members ← Rule.many member
  symbol ']'
  return ⟨name, members⟩

/-- The word that says how a property changes. -/
def action : Rule Action :=
  Rule.firstOf [(keyword "set").map fun _ => .set, (keyword "add").map fun _ => .add]

/-- The words of a property's name. -/
def nameParts : Rule (List String) := Rule.many1 (padded (word.keep (· != "if")))

/-- A property with a value behind a colon. With a brace behind it, this is the heading of an
object. -/
def singleAssignment : Rule Assignment := do
  let condition ← guard
  let action ← padded action
  let nameParts ← nameParts
  padded (symbol ':')
  let value ← value
  Rule.absent do
    trivia
    symbol '{'
  return ⟨action, nameParts, value, condition.getD always⟩

/-- A property with an array behind its name. -/
def arrayAssignment : Rule Assignment := do
  let action ← padded action
  let nameParts ← nameParts
  let condition ← guard
  let items ← arrayOf value
  return ⟨action, nameParts, .array items, condition.getD always⟩

/-- The kind, the name and the base of an object. -/
def heading : Rule Heading := do
  let kind ← padded word
  let name ← padded identifier
  let base ← Rule.optional do
    padded (symbol ':')
    padded identifier
  return ⟨kind, name, base⟩

/-- The argument of a command: a quoted text, or any text in balanced parentheses. -/
def argument : Rule String := Rule.firstOf [quoted, parenthesized.map String.ofList]

/-- A command. Its argument stands on the same line. -/
def invocation : Rule Invocation := do
  let condition ← guard
  let name ← word.keep (!reserved.contains ·)
  let argument ← Rule.optional do
    spaces
    argument
  return ⟨name, argument, condition.getD always⟩

/-- The body of an object or block. -/
def body (elements : Rule (List Element)) : Rule (List Element) := do
  symbol '{'
  let children ← elements
  symbol '}'
  return children

/-- A block under a condition. -/
def block (elements : Rule (List Element)) : Rule Element := do
  let condition ← padded conditional
  let children ← body elements
  return .block condition children

/-- An object with its body. -/
def object (elements : Rule (List Element)) : Rule Element := do
  let heading ← heading
  let children ← body elements
  return .object heading children

/-- One element. -/
def element (elements : Rule (List Element)) : Rule Element :=
  Rule.firstOf
    [comment.map .comment, configurationGroup.map .group, block elements,
      singleAssignment.map .assignment, arrayAssignment.map .assignment, object elements,
      invocation.map .invocation]

/-- One level of elements with any blanks between them. -/
def elementsStep (elements : Rule (List Element)) : Rule (List Element) := do
  blanks
  Rule.many do
    let e ← element elements
    blanks
    return e

/-- The elements of a document or body. -/
def elements : Rule (List Element) := Rule.nested elementsStep

end BuildPlan.Grammar
