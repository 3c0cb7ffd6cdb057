import BuildPlan.Pattern.Regex.Basic
import BuildPlan.Text.Blank

/-! # Reading parts of expressions

Reading keeps the rest of the text, the flags in force, the names of the groups met so far and their
number. Where blanks and comments mean nothing they are skipped between the parts. Parts are nested
up to a limit. -/

namespace BuildPlan.Regex

open BuildPlan.Text

/-- The flags in force. -/
structure Flags where
  anyCase : Bool
  manyLines : Bool
  /-- The dot matches the end of a line too. -/
  dotAll : Bool
  /-- A carriage return ends lines too. -/
  anyEnd : Bool
  /-- Repetitions are reluctant, and a question mark behind one makes it eager. -/
  reluctant : Bool
  unicode : Bool
  /-- Blanks and comments in the expression mean nothing. -/
  verbose : Bool
  deriving DecidableEq, Repr

namespace Flags

def initial : Flags := ⟨false, false, false, false, false, true, false⟩

/-- Holds of the characters that can be members of a set: those of ASCII where it alone counts. -/
def admits (f : Flags) (c : Char) : Bool := f.unicode || c.toNat < 0x80

/-- Closes a set under differences of case, if the flags say so: those of all characters, or of
ASCII alone. -/
def fold (f : Flags) (s : CharSet) : CharSet :=
  if !f.anyCase then s else if f.unicode then s.anyCase else s.anyAsciiCase

/-- The set as the flags have it, or all other characters. Where only ASCII counts, there are no
others. -/
def members (f : Flags) (negated : Bool) (s : CharSet) : Option CharSet :=
  if !negated then some (f.fold s)
  else if f.unicode then some (f.fold s).complement
  else none

/-- One character as the flags have it. What is not ASCII stands for itself where ASCII alone
counts. -/
def character (f : Flags) (c : Char) : Expression :=
  if f.admits c then .ofSet (f.fold (.one c)) (!f.unicode) else .literal [c]

/-- The flags with the one of the given letter turned on or off. -/
def turn (f : Flags) (on : Bool) : Char → Option Flags
  | 'i' => some { f with anyCase := on }
  | 'm' => some { f with manyLines := on }
  | 's' => some { f with dotAll := on }
  | 'R' => some { f with anyEnd := on }
  | 'U' => some { f with reluctant := on }
  | 'u' => some { f with unicode := on }
  | 'x' => some { f with verbose := on }
  | _ => none

/-- Turns on the flags of the given letters, and off those behind a hyphen. No letter may come
twice, nor the hyphen, which must have a letter behind it. -/
def turnAll (f : Flags) (letters : List Char) : Option Flags :=
  if letters.eraseDups.length != letters.length || letters.getLast? = some '-' then none
  else
    let on := letters.takeWhile (· != '-')
    let off := (letters.drop on.length).drop 1
    (on.foldlM (fun f c => turn f true c) f).bind fun f => off.foldlM (fun f c => turn f false c) f

end Flags

/-- Where the reading of an expression stands. -/
structure ReadState where
  rest : List Char
  flags : Flags
  names : List (List Char)
  /-- The number of groups whose match is kept. -/
  groups : Nat

/-- A reader of a part of an expression. -/
abbrev Reader (α : Type) : Type := StateT ReadState Option α

/-- The text without what means nothing in front of it: blanks, and comments from a number sign to
the end of the line. -/
def skipVerbose : Bool → List Char → List Char
  | _, [] => []
  | true, c :: s => skipVerbose (c != '\n') s
  | false, c :: s =>
    if isBlank c then skipVerbose false s
    else if c = '#' then skipVerbose true s
    else c :: s

def rest : Reader (List Char) := do return (← get).rest

def flags : Reader Flags := do return (← get).flags

def setRest (s : List Char) : Reader Unit := modify ({ · with rest := s })

/-- Skips what means nothing, if the flags say so. -/
def skip : Reader Unit := do
  if (← flags).verbose then setRest (skipVerbose false (← rest))

/-- Goes on at the given text, without what means nothing in front of it. -/
def goTo (s : List Char) : Reader Unit := do
  setRest s
  skip

/-- The greatest depth of nested parts. -/
def maxDepth : Nat := 250

/-- The depth of a part around others of the given depths. -/
def around (depths : List Nat) : Reader Nat :=
  let depth := depths.foldl max 0 + 1
  if depth ≤ maxDepth then return depth else failure

/-! ### Numbers and single characters -/

/-- The value of a hexadecimal digit. -/
def hexValue (c : Char) : Option Nat :=
  if c.isDigit then some (c.toNat - '0'.toNat)
  else if 'a' ≤ c && c ≤ 'f' then some (c.toNat - 'a'.toNat + 10)
  else if 'A' ≤ c && c ≤ 'F' then some (c.toNat - 'A'.toNat + 10)
  else none

/-- The character whose number has the given hexadecimal digits. -/
def hexChar (digits : List Char) : Option Char := do
  if digits.isEmpty then none
  let n ← digits.foldlM (fun n c => (hexValue c).map (n * 16 + ·)) 0
  if n.isValidChar then some (Char.ofNat n) else none

/-- So many characters, with what means nothing between them left out. -/
def takeSkipping : Nat → Reader (List Char)
  | 0 => return []
  | n + 1 => do
    match ← rest with
    | [] => failure
    | c :: s => do
      goTo s
      return c :: (← takeSkipping n)

/-- The characters before a closing brace, which is left out with what means nothing. The bound is
the text itself. -/
def takeBraced : List Char → Reader (List Char)
  | [] => failure
  | _ :: bound => do
    match ← rest with
    | [] => failure
    | '}' :: s => do
      setRest s
      return []
    | c :: s => do
      goTo s
      return c :: (← takeBraced bound)

/-- A character by its number, behind the letter that says how many digits it has without braces. Two
digits are the number of a byte where only ASCII counts, and then no other byte is a character. -/
def hexEscape (width : Nat) : Reader Char := do
  skip
  match ← rest with
  | '{' :: s => do
    goTo s
    let digits ← takeBraced s
    skip
    (hexChar digits : Option Char)
  | _ => do
    let c ← (hexChar (← takeSkipping width) : Option Char)
    if width = 2 && !(← flags).admits c then failure
    return c

/-- The digits of a decimal number. The bound is the text itself. -/
def decimalDigits : List Char → Reader (List Char)
  | [] => return []
  | _ :: bound => do
    match ← rest with
    | c :: s =>
      if c.isDigit then do
        goTo s
        return c :: (← decimalDigits bound)
      else return []
    | [] => return []

/-- A decimal number with any blanks around it, of 32 bits at most. -/
def decimal : Reader Nat := do
  setRest ((← rest).dropWhile isBlank)
  let digits ← decimalDigits (← rest)
  setRest ((← rest).dropWhile isBlank)
  if digits.isEmpty then failure
  let n := digits.foldl (fun n c => n * 10 + (c.toNat - '0'.toNat)) 0
  if n < 0x100000000 then return n else failure

/-! ### Escapes -/

/-- What an escape stands for. -/
inductive Escape where
  | char (c : Char)
  | members (s : CharSet)
  | assert (a : Assertion)

/-- The class of a name, or of a property and its value, and whether it stands for all others. -/
def propertyByName? (name : List Char) : Option (CharSet × Bool) :=
  let key := name.takeWhile fun c => c != '=' && c != ':' && c != '!'
  match name.drop key.length with
  | [] => (namedClass? name).map (·, false)
  | '!' :: '=' :: value => (valuedClass? key value).map (·, true)
  | '=' :: value => (valuedClass? key value).map (·, false)
  | ':' :: value => (valuedClass? key value).map (·, false)
  | _ => none

/-- The class of a property, which is named by one letter or in braces. -/
def propertyClass (negated : Bool) : Reader CharSet := do
  skip
  let found ← match ← rest with
    | [] => failure
    | '{' :: s => do
      goTo s
      let name ← takeBraced s
      (propertyByName? name : Option (CharSet × Bool))
    | '\\' :: _ => failure
    | c :: s => do
      goTo s
      ((namedClass? [c]).map (·, false) : Option (CharSet × Bool))
  let f ← flags
  if !f.unicode then failure
  (f.members (negated != found.2) found.1 : Option CharSet)

/-- The special word boundary behind its letter, if there is one in braces. -/
def specialBoundary (unicode : Bool) : Reader Assertion := do
  let here ← rest
  match here with
  | '{' :: s => do
    goTo s
    match ← rest with
    | [] => failure
    | c :: _ =>
      if c.isAlpha || c = '-' then do
        let name ← takeBraced (← rest)
        match String.ofList name with
        | "start" => return .wordStart unicode
        | "end" => return .wordEnd unicode
        | "start-half" => return .wordStartHalf unicode
        | "end-half" => return .wordEndHalf unicode
        | _ => failure
      else do
        setRest here
        return .boundary unicode
  | _ => return .boundary unicode

/-- The characters that stand for themselves behind a backslash: those of ASCII that are no letters
or digits, but for the angle brackets. -/
def isPlainEscape (c : Char) : Bool :=
  c.toNat < 0x80 && !c.isAlphanum && c != '<' && c != '>'

/-- An escape, behind its backslash. -/
def escape : Reader Escape := do
  match ← rest with
  | [] => failure
  | c :: s => do
    setRest s
    let u := (← flags).unicode
    match c with
    | 'x' => do return .char (← hexEscape 2)
    | 'u' => do return .char (← hexEscape 4)
    | 'U' => do return .char (← hexEscape 8)
    | 'p' => do return .members (← propertyClass false)
    | 'P' => do return .members (← propertyClass true)
    | 'd' | 's' | 'w' => return .members (letterClass u c)
    | 'D' | 'S' | 'W' =>
      if u then return .members (letterClass u c.toLower).complement else failure
    | 'a' => return .char '\x07'
    | 'f' => return .char '\x0c'
    | 't' => return .char '\t'
    | 'n' => return .char '\n'
    | 'r' => return .char '\r'
    | 'v' => return .char '\x0b'
    | 'A' => return .assert .textStart
    | 'z' => return .assert .textEnd
    | 'b' => do return .assert (← specialBoundary u)
    | 'B' => return .assert (.noBoundary u)
    | '<' => return .assert (.wordStart u)
    | '>' => return .assert (.wordEnd u)
    | _ => if isPlainEscape c then return .char c else failure

end BuildPlan.Regex
