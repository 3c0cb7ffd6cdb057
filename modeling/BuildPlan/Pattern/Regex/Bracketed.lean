import BuildPlan.Pattern.Regex.Reader

/-! # Sets in brackets

A set in brackets holds characters, ranges of them, classes and further sets. Sets are intersected,
subtracted and compared by operators, which group to the left. -/

namespace BuildPlan.Regex

open BuildPlan.Text

/-- The operators between sets. -/
inductive SetOp where
  | inter
  | minus
  | differ

def SetOp.apply : SetOp → CharSet → CharSet → CharSet
  | .inter => .inter
  | .minus => .minus
  | .differ => .differ

/-- A part of a set, and how deep it is nested. -/
structure SetPart where
  members : CharSet
  depth : Nat

/-- A part that has no further parts. -/
def SetPart.flat (members : CharSet) : SetPart := ⟨members, 0⟩

/-- What is read of a set: the operands before the last operator, with it, and the items behind in
reverse. -/
structure SetState where
  pending : Option (SetOp × SetPart)
  items : List SetPart

namespace SetState

/-- The items behind the last operator as one part. -/
def operand (s : SetState) : Reader SetPart := do
  match s.items with
  | [] => return .flat .empty
  | [item] => return item
  | items => return ⟨.unions (items.map SetPart.members), ← around (items.map SetPart.depth)⟩

/-- The set that is read. Operators group to the left. -/
def close (s : SetState) : Reader SetPart := do
  let right ← s.operand
  match s.pending with
  | none => return right
  | some (op, left) => do
    let f ← flags
    return ⟨op.apply (f.fold left.members) (f.fold right.members),
      ← around [left.depth, right.depth]⟩

/-- Goes on behind an operator. -/
def operator (op : SetOp) (s : SetState) : Reader SetState := do
  return ⟨some (op, ← s.close), []⟩

def add (s : SetState) (part : SetPart) : SetState := { s with items := part :: s.items }

end SetState

/-- A named class of ASCII characters behind its opening bracket and colon, whether it stands for all
others, and what follows. -/
def asciiClass? (s : List Char) : Option (CharSet × Bool × List Char) :=
  let (negated, s) := match s with
    | '^' :: s => (true, s)
    | s => (false, s)
  let name := s.takeWhile (· != ':')
  match s.drop name.length with
  | ':' :: ']' :: s => (asciiNamed? name).map fun c => (c, negated, s)
  | _ => none

/-- A single character of a set, or a class that an escape stands for. -/
def setItem : Reader Escape := do
  match ← rest with
  | [] => failure
  | '\\' :: s => do
    setRest s
    match ← escape with
    | .assert _ => failure
    | .char c => accept c
    | e => return e
  | c :: s => do
    setRest s
    accept c
where
  accept (c : Char) : Reader Escape := do
    if (← flags).admits c then return .char c else failure

/-- The character that is seen ahead where blanks and comments mean nothing. Blanks are passed over,
and the number sign of a comment, but not the comment. -/
def seenAhead (s : List Char) : Option Char :=
  match s.dropWhile isBlank with
  | '#' :: comment => (comment.dropWhile isBlank).head?
  | s => s.head?

/-- A character or class of a set, or a range of characters. -/
def setRange : Reader CharSet := do
  let first ← setItem
  skip
  match ← rest with
  | [] => failure
  | c :: s => do
    let next := if (← flags).verbose then seenAhead s else s.head?
    if c != '-' || next = some ']' || next = some '-' then
      match first with
      | .char c => return .one c
      | .members s => return s
      | .assert _ => failure
    else do
      goTo s
      match first, ← setItem with
      | .char lo, .char hi => if lo ≤ hi then return .range lo hi else failure
      | _, _ => failure

/-- The hyphens at the start of a set, which are members. The bound is the text itself. -/
def leadingHyphens : List Char → Reader (List SetPart)
  | [] => return []
  | _ :: bound => do
    match ← rest with
    | '-' :: s => do
      goTo s
      return .flat (.one '-') :: (← leadingHyphens bound)
    | _ => return []

/-- What opens a set, behind its bracket: whether it is negated, and the members that only stand at
the start. -/
def setStart : Reader (Bool × SetState) := do
  skip
  let negated ← match ← rest with
    | '^' :: s => do
      goTo s
      pure true
    | _ => pure false
  let hyphens ← leadingHyphens (← rest)
  match ← rest with
  | [] => failure
  | ']' :: s =>
    if hyphens.isEmpty then do
      goTo s
      return (negated, ⟨none, [.flat (.one ']')]⟩)
    else return (negated, ⟨none, hyphens⟩)
  | _ => return (negated, ⟨none, hyphens⟩)

/-- The rest of a set up to its closing bracket. The bound is the text itself. -/
def setBody : List Char → SetState → Reader SetPart
  | [], _ => failure
  | _ :: bound, state => do
    skip
    match ← rest with
    | [] => failure
    | '[' :: ':' :: s =>
      match asciiClass? s with
      | some (c, negated, s) => do
        setRest s
        let members ← ((← flags).members negated c : Option CharSet)
        setBody bound (state.add (.flat members))
      | none => do
        setRest (':' :: s)
        let inner ← innerSet bound
        setBody bound (state.add inner)
    | '[' :: s => do
      setRest s
      let inner ← innerSet bound
      setBody bound (state.add inner)
    | ']' :: s => do
      setRest s
      state.close
    | '&' :: '&' :: s => do
      setRest s
      setBody bound (← state.operator .inter)
    | '-' :: '-' :: s => do
      setRest s
      setBody bound (← state.operator .minus)
    | '~' :: '~' :: s => do
      setRest s
      setBody bound (← state.operator .differ)
    | _ => do
      let members ← setRange
      setBody bound (state.add (.flat members))
where
  /-- A set behind its opening bracket. -/
  innerSet (bound : List Char) : Reader SetPart := do
    let (negated, state) ← setStart
    let part ← setBody bound state
    let members ← ((← flags).members negated part.members : Option CharSet)
    return ⟨members, ← around [part.depth]⟩

/-- A set behind its opening bracket. -/
def bracketed : Reader SetPart := do setBody.innerSet (← rest)

end BuildPlan.Regex
