/-! # The characters, names and references of markup

A lexeme is read from the front of a text and found with the rest of it. -/

namespace BuildPlan.Xml

/-- What a reader finds at the front of a text, with the rest. -/
abbrev Reader (α : Type) : Type := StateT (List Char) Option α

/-- A character that markup may contain. -/
def isXmlChar (c : Char) : Bool :=
  if c.toNat < 0x20 then c == '\t' || c == '\n' || c == '\r'
  else c.toNat != 0xFFFE && c.toNat != 0xFFFF

/-- The blanks of markup. -/
def isSpace (c : Char) : Bool := c == ' ' || c == '\t' || c == '\n' || c == '\r'

/-- Holds of a character whose number lies in one of the ranges. -/
def inRanges (ranges : List (Nat × Nat)) (c : Char) : Bool :=
  ranges.any fun (lo, hi) => lo ≤ c.toNat && c.toNat ≤ hi

/-- The characters beyond ASCII that may begin a name. -/
def nameStartRanges : List (Nat × Nat) :=
  [(0xC0, 0xD6), (0xD8, 0xF6), (0xF8, 0x2FF), (0x370, 0x37D), (0x37F, 0x1FFF), (0x200C, 0x200D),
    (0x2070, 0x218F), (0x2C00, 0x2FEF), (0x3001, 0xD7FF), (0xF900, 0xFDCF), (0xFDF0, 0xFFFD),
    (0x10000, 0xEFFFF)]

/-- The characters beyond ASCII that may continue a name and not begin it. -/
def nameMarkRanges : List (Nat × Nat) := [(0xB7, 0xB7), (0x300, 0x36F), (0x203F, 0x2040)]

/-- A character that may begin a name. -/
def isNameStart (c : Char) : Bool :=
  c.isAlpha || c == '_' || c == ':' || inRanges nameStartRanges c

/-- A character that may continue a name. -/
def isNameChar (c : Char) : Bool :=
  isNameStart c || c.isDigit || c == '-' || c == '.' || inRanges nameMarkRanges c

/-- Any number of characters with the given property. -/
def takeRun (p : Char → Bool) : Reader (List Char) := fun s => some (s.takeWhile p, s.dropWhile p)

def skipSpaces : Reader Unit := fun s => some ((), s.dropWhile isSpace)

/-- The one given character. -/
def expect (c : Char) : Reader Unit
  | d :: s => if c = d then some ((), s) else none
  | [] => none

/-- The given text at the front of another one, and what follows it. -/
def stripMark : List Char → List Char → Option (List Char)
  | [], s => some s
  | m :: mark, c :: s => if m = c then stripMark mark s else none
  | _ :: _, [] => none

/-- Characters of markup up to the first place where the mark stands, and the text behind it. -/
def upToMark (mark : List Char) : Reader (List Char)
  | [] => none
  | c :: s =>
    match stripMark mark (c :: s) with
    | some rest => some ([], rest)
    | none =>
      if isXmlChar c then (upToMark mark s).map fun (taken, rest) => (c :: taken, rest) else none

/-- A name of any form. -/
def name : Reader (List Char) := do
  let taken ← takeRun isNameChar
  match taken with
  | [] => failure
  | c :: _ => if isNameStart c then return taken else failure

/-- A name that may have a qualifier before a colon; without a colon the qualifier is empty. -/
structure QualifiedName where
  qualifier : List Char
  localName : List Char
  deriving DecidableEq

/-- A part of a qualified name may be empty, as far as its first character is concerned. -/
def beginsWell : List Char → Bool
  | [] => true
  | c :: _ => isNameStart c

/-- A qualified name with at most one colon. What stands behind the colon must not be empty. -/
def qualifiedName : Reader QualifiedName := do
  let isPart := fun c => isNameChar c && c != ':'
  let first ← takeRun isPart
  let rest ← get
  let found ← match rest with
    | ':' :: rest => do
      set rest
      let second ← takeRun isPart
      if (← get).head? = some ':' then failure
      pure ⟨first, second⟩
    | _ => pure ⟨[], first⟩
  if beginsWell found.qualifier && beginsWell found.localName && !found.localName.isEmpty then return found
  else failure

/-- The value of a digit in the given base. -/
def digitValue (base : Nat) (c : Char) : Option Nat :=
  let value :=
    if c.isDigit then some (c.toNat - '0'.toNat)
    else if 'a' ≤ c && c ≤ 'f' then some (c.toNat - 'a'.toNat + 10)
    else if 'A' ≤ c && c ≤ 'F' then some (c.toNat - 'A'.toNat + 10)
    else none
  value.filter (· < base)

/-- The number that the digits stand for in the given base. -/
def numeral (base : Nat) (digits : List Char) : Option Nat :=
  if digits.isEmpty then none
  else digits.foldlM (fun n c => (digitValue base c).map (n * base + ·)) 0

/-- The character with the given number. A number of 32 bits that is no character stands for the
replacement character. -/
def charOfNumber (n : Nat) : Option Char :=
  if n < 0x100000000 then
    let c := if n.isValidChar then Char.ofNat n else '\uFFFD'
    if isXmlChar c then some c else none
  else none

/-- The references that are defined everywhere. -/
def predefined : List (List Char × Char) :=
  [(['q', 'u', 'o', 't'], '"'), (['a', 'm', 'p'], '&'), (['a', 'p', 'o', 's'], '\''),
    (['l', 't'], '<'), (['g', 't'], '>')]

/-- A reference, behind its ampersand: to a character by its number, or by a predefined name. -/
def reference : Reader Char := do
  let c ← match ← get with
    | '#' :: 'x' :: rest => do
      set rest
      let digits ← takeRun fun c => (digitValue 16 c).isSome
      ((numeral 16 digits).bind charOfNumber : Option Char)
    | '#' :: rest => do
      set rest
      let digits ← takeRun Char.isDigit
      ((numeral 10 digits).bind charOfNumber : Option Char)
    | _ => do
      let n ← name
      (predefined.lookup n : Option Char)
  expect ';'
  return c

/-- The characters that a text stands for, with its references resolved. The bound is the text
itself, since every step takes a character. -/
def resolveUpTo (plain : Char → Char) : List Char → List Char → Option (List Char)
  | _, [] => some []
  | [], _ :: _ => none
  | _ :: bound, '&' :: s => do
    let (c, rest) ← reference s
    (resolveUpTo plain bound rest).map (c :: ·)
  | _ :: bound, c :: s => (resolveUpTo plain bound s).map (plain c :: ·)

/-- The text between tags with its references resolved. -/
def resolveText (s : List Char) : Option (List Char) := resolveUpTo id s s

/-- The text with every carriage return that stands before a line feed left out. -/
def joinLineEnds : List Char → List Char
  | '\r' :: '\n' :: s => '\n' :: joinLineEnds s
  | c :: s => c :: joinLineEnds s
  | [] => []

/-- The value of an attribute with its references resolved. A line end or tab that is written as
such counts as a space. -/
def attributeValue (s : List Char) : Option (List Char) :=
  resolveUpTo (fun c => if isSpace c then ' ' else c) s (joinLineEnds s)

end BuildPlan.Xml
