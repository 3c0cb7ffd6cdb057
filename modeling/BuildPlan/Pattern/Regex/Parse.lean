import BuildPlan.Pattern.Regex.Bracketed
import BuildPlan.Pattern.Regex.Size

/-! # Reading regular expressions

The expressions are those without look-around and back-references. Flags in parentheses hold for the
rest of the group in which they stand. An expression that can be read is accepted if it is not too
large. -/

namespace BuildPlan.Regex

open BuildPlan.Text

/-! ### Groups and repetitions -/

/-- A character of the name of a group. -/
def isNameChar (first : Bool) (c : Char) : Bool :=
  if first then c == '_' || Property.alphabetic.has c
  else
    c == '_' || c == '.' || c == '[' || c == ']' || Property.alphabetic.has c ||
      (Category.members Category.numbers).has c

/-- The name of a group up to its closing bracket. No two groups have the same name. -/
def groupName : Reader Unit := do
  let s ← rest
  let name := s.takeWhile (· != '>')
  match name, s.drop name.length with
  | c :: more, '>' :: s =>
    let state ← get
    if isNameChar true c && more.all (isNameChar false) && !state.names.contains name then
      set { state with rest := s, names := name :: state.names }
    else failure
  | _, _ => failure

/-- What the opening of a group says. -/
inductive GroupKind where
  /-- The match of the group is kept under its number. -/
  | kept (number : Nat)
  | plain
  /-- There is no group, but only flags for the one around. -/
  | flagsOnly

/-- The number of the next group whose match is kept. -/
def nextGroup : Reader GroupKind := do
  let state ← get
  set { state with groups := state.groups + 1 }
  return .kept (state.groups + 1)

/-- What stands between the opening parenthesis of a group and its content. -/
def groupStart : Reader GroupKind := do
  skip
  match ← rest with
  | '?' :: '=' :: _ => failure
  | '?' :: '!' :: _ => failure
  | '?' :: '<' :: '=' :: _ => failure
  | '?' :: '<' :: '!' :: _ => failure
  | '?' :: 'P' :: '<' :: s => do
    setRest s
    groupName
    nextGroup
  | '?' :: '<' :: s => do
    setRest s
    groupName
    nextGroup
  | '?' :: s => do
    let letters := s.takeWhile fun c => c != ':' && c != ')'
    let f ← ((← flags).turnAll letters : Option Flags)
    modify ({ · with flags := f })
    match s.drop letters.length with
    | ':' :: s => do
      setRest s
      return .plain
    | ')' :: s => do
      setRest s
      if letters.isEmpty then failure
      return .flagsOnly
    | _ => failure
  | _ => nextGroup

/-- A part of an expression, and how deep it is nested. -/
structure Part where
  expression : Expression
  depth : Nat
  /-- Flags are a part that cannot be repeated. -/
  repeatable : Bool

/-- A part that has no further parts. -/
def Part.flat (e : Expression) : Part := ⟨e, 0, true⟩

/-- How often the part before is repeated, and whether eagerly. -/
structure Repetition where
  least : Nat
  most : Option Nat
  eager : Bool

/-- Repeats the last of the parts, which are in reverse. -/
def repeatLast (r : Repetition) : List Part → Reader (List Part)
  | [] => failure
  | part :: more => do
    if !part.repeatable then failure
    return ⟨part.expression.repeated r.least r.most r.eager, ← around [part.depth], true⟩ :: more

/-- The parts, which are in reverse, one after the other. -/
def sequenceOf : List Part → Reader Part
  | [] => return .flat .empty
  | [part] => return part
  | parts => do
    return ⟨.sequence (parts.reverse.map Part.expression), ← around (parts.map Part.depth), true⟩

/-- One of the parts, which are in reverse. -/
def choiceOf : List Part → Reader Part
  | [part] => return part
  | parts => do
    return ⟨.choice (parts.reverse.map Part.expression), ← around (parts.map Part.depth), true⟩

/-- Whether a repetition is eager, by the flags and a question mark behind it. -/
def eagerness : Reader Bool := do
  let reluctant := (← flags).reluctant
  match ← rest with
  | '?' :: s => do
    setRest s
    return reluctant
  | _ => return !reluctant

/-- The counts of a repetition behind its opening brace. -/
def counts : Reader (Nat × Option Nat) := do
  skip
  let least ← decimal
  let found ← match ← rest with
    | ',' :: s => do
      goTo s
      match ← rest with
      | '}' :: _ => pure (least, none)
      | _ => do
        let most ← decimal
        if least ≤ most then pure (least, some most) else failure
    | _ => pure (least, some least)
  match ← rest with
  | '}' :: s => do
    goTo s
    return found
  | _ => failure

/-- One character, or what stands for one, or an assertion. -/
def primitive (c : Char) : Reader Expression := do
  let f ← flags
  match c with
  | '\\' => do
    match ← escape with
    | .char c => return f.character c
    | .members s => return .ofSet s (!f.unicode)
    | .assert a => return .assert a
  | '.' =>
    if !f.unicode then failure
    else
      let lineEnds : CharSet :=
        if f.dotAll then .empty
        else if f.anyEnd then .ofRanges [(0x0A, 0x0A), (0x0D, 0x0D)]
        else .one '\n'
      return .ofSet lineEnds.complement false
  | '^' =>
    return .assert
      (if !f.manyLines then .textStart else if f.anyEnd then .lineStartAnyEnd else .lineStart)
  | '$' =>
    return .assert
      (if !f.manyLines then .textEnd else if f.anyEnd then .lineEndAnyEnd else .lineEnd)
  | c => return f.character c

/-- The alternatives of an expression or group up to its end. `done` are those that are complete, in
reverse, and `parts` is what is read of the last one. The bound is the text itself. -/
def alternatives : List Char → List Part → List Part → Reader Part
  | [], done, parts => do
    if (← rest).isEmpty then finish done parts else failure
  | _ :: bound, done, parts => do
    skip
    match ← rest with
    | [] => finish done parts
    | ')' :: _ => finish done parts
    | '|' :: s => do
      setRest s
      alternatives bound ((← sequenceOf parts) :: done) []
    | '(' :: s => do
      setRest s
      let outer ← flags
      match ← groupStart with
      | .flagsOnly => alternatives bound done (⟨.empty, 0, false⟩ :: parts)
      | .plain => do
        let part ← content bound outer
        alternatives bound done (part :: parts)
      | .kept number => do
        let part ← content bound outer
        alternatives bound done ({ part with expression := .group number part.expression } :: parts)
    | '[' :: s => do
      setRest s
      let f ← flags
      let set ← bracketed
      alternatives bound done (⟨.ofSet set.members (!f.unicode), set.depth, true⟩ :: parts)
    | '*' :: s => again bound done parts s (0, none)
    | '+' :: s => again bound done parts s (1, none)
    | '?' :: s => again bound done parts s (0, some 1)
    | '{' :: s => do
      setRest s
      let found ← counts
      again bound done parts (← rest) found
    | c :: s => do
      setRest s
      let e ← primitive c
      alternatives bound done (.flat e :: parts)
where
  /-- The expression of all alternatives. -/
  finish (done parts : List Part) : Reader Part := do choiceOf ((← sequenceOf parts) :: done)
  /-- The content of a group with its closing parenthesis. The flags around it are in force
  again behind it. -/
  content (bound : List Char) (outer : Flags) : Reader Part := do
    let part ← alternatives bound [] []
    match ← rest with
    | ')' :: s => do
      modify ({ · with rest := s, flags := outer })
      return ⟨part.expression, ← around [part.depth], true⟩
    | _ => failure
  /-- Goes on behind a repetition of the last part. -/
  again (bound : List Char) (done parts : List Part) (s : List Char) (found : Nat × Option Nat) :
      Reader Part := do
    setRest s
    let eager ← eagerness
    let parts ← repeatLast ⟨found.1, found.2, eager⟩ parts
    alternatives bound done parts

/-- Reads a regular expression, if it is one and not too large. -/
def read? (text : List Char) : Option Expression := do
  let (part, state) ← alternatives text [] [] ⟨text, .initial, [], 0⟩
  if state.rest.isEmpty && part.expression.fits then some part.expression else none

end BuildPlan.Regex
