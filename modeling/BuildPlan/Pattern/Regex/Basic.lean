import BuildPlan.Pattern.Regex.Named

/-! # Regular expressions

An expression matches texts, sets of characters, and places of which something is asserted, one
after the other or one instead of the other, once or repeatedly. Expressions are built by functions
that bring them to a simple form: neighbouring texts are one text, a set of one character is a text,
alternatives of single characters are a set, and what alternatives start with in common stands
before them. The simple form decides how large the expression counts (`Expression.fits`). -/

namespace BuildPlan.Regex

open BuildPlan.Text

/-- What can be asked of a place. -/
inductive Assertion where
  | textStart
  | textEnd
  | lineStart
  | lineEnd
  /-- The start of a line where a carriage return ends lines too. -/
  | lineStartAnyEnd
  /-- The end of a line where a carriage return ends lines too. -/
  | lineEndAnyEnd
  | boundary (unicode : Bool)
  | noBoundary (unicode : Bool)
  | wordStart (unicode : Bool)
  | wordEnd (unicode : Bool)
  /-- No word character stands before the place. -/
  | wordStartHalf (unicode : Bool)
  /-- No word character stands behind the place. -/
  | wordEndHalf (unicode : Bool)
  deriving DecidableEq, Repr

/-- A regular expression. -/
inductive Expression where
  | empty
  | literal (text : List Char)
  /-- One character of a set, which is of bytes if only ASCII counts. -/
  | oneOf (members : CharSet) (ascii : Bool)
  | assert (assertion : Assertion)
  /-- The body so many times at least, and so many at most. -/
  | times (body : Expression) (least : Nat) (most : Option Nat) (eager : Bool)
  /-- A group whose match is kept under its number. -/
  | group (number : Nat) (body : Expression)
  | seq (parts : List Expression)
  | alt (choices : List Expression)
  deriving BEq, Repr, Inhabited

namespace Expression

/-! ### Measures -/

mutual

/-- The number of parts an expression is made of. -/
def size : Expression → Nat
  | .empty | .literal _ | .oneOf _ _ | .assert _ => 1
  | .times body _ _ _ => body.size + 1
  | .group _ body => body.size + 1
  | .seq parts => sizeAll parts + 1
  | .alt choices => sizeAll choices + 1

/-- The sizes of all expressions of a list together. -/
def sizeAll : List Expression → Nat
  | [] => 0
  | e :: es => e.size + sizeAll es

end

/-- The number of bytes of a code point. -/
def codeBytes (n : Nat) : Nat :=
  if n < 0x80 then 1 else if n < 0x800 then 2 else if n < 0x10000 then 3 else 4

/-- The number of bytes of a text. -/
def textBytes (text : List Char) : Nat := text.foldr (fun c n => codeBytes c.toNat + n) 0

/-- The sum of all numbers of a list, if they are known. -/
def sumKnown (ns : List (Option Nat)) : Option Nat := (ns.mapM id).map (·.foldr (· + ·) 0)

/-- The number that the given choice leads to among those of a list, if they are known. -/
def chooseKnown (choose : Nat → Nat → Nat) (ns : List (Option Nat)) : Option Nat :=
  (ns.mapM id).bind fun
    | [] => none
    | n :: more => some (more.foldl choose n)

mutual

/-- The bytes that an expression matches at least. The empty set matches nothing, and has none. -/
def leastBytes? : Expression → Option Nat
  | .empty | .assert _ => some 0
  | .literal text => some (textBytes text)
  | .oneOf members _ => members.ranges.head?.map fun r => codeBytes r.1
  | .times body least _ _ => body.leastBytes?.map (· * least)
  | .group _ body => body.leastBytes?
  | .seq parts => sumKnown (leastBytesEach parts)
  | .alt choices => chooseKnown min (leastBytesEach choices)

def leastBytesEach : List Expression → List (Option Nat)
  | [] => []
  | e :: es => e.leastBytes? :: leastBytesEach es

end

mutual

/-- The bytes that an expression matches at most, if there is a bound. -/
def mostBytes? : Expression → Option Nat
  | .empty | .assert _ => some 0
  | .literal text => some (textBytes text)
  | .oneOf members _ => members.ranges.getLast?.map fun r => codeBytes r.2
  | .times body _ most _ => most.bind fun most => body.mostBytes?.map (· * most)
  | .group _ body => body.mostBytes?
  | .seq parts => sumKnown (mostBytesEach parts)
  | .alt choices => chooseKnown max (mostBytesEach choices)

def mostBytesEach : List Expression → List (Option Nat)
  | [] => []
  | e :: es => e.mostBytes? :: mostBytesEach es

end

/-- Holds of expressions that match no characters, but only places. -/
def isWidthless (e : Expression) : Bool := e.mostBytes? == some 0

mutual

/-- Holds if every match is seen to make the assertion where it starts, by its first parts alone. -/
def opensWith (a : Assertion) : Expression → Bool
  | .empty | .literal _ | .oneOf _ _ => false
  | .assert b => a == b
  | .times body least _ _ => 0 < least && body.opensWith a
  | .group _ body => body.opensWith a
  | .seq parts => anyOpensWith a parts
  | .alt choices => allOpenWith a choices

/-- Holds if one of the parts does up to the first that matches characters. -/
def anyOpensWith (a : Assertion) : List Expression → Bool
  | [] => false
  | e :: es => e.opensWith a || (e.isWidthless && anyOpensWith a es)

def allOpenWith (a : Assertion) : List Expression → Bool
  | [] => true
  | e :: es => e.opensWith a && allOpenWith a es

end

mutual

/-- The expression read from its end: the parts of all sequences in the opposite order. -/
def backwards : Expression → Expression
  | .times body least most eager => .times body.backwards least most eager
  | .group number body => .group number body.backwards
  | .seq parts => .seq (backwardsEach parts).reverse
  | .alt choices => .alt (backwardsEach choices)
  | e => e

def backwardsEach : List Expression → List Expression
  | [] => []
  | e :: es => e.backwards :: backwardsEach es

end

/-! ### Simple forms -/

/-- One character of a set. -/
def ofSet (members : CharSet) (ascii : Bool) : Expression :=
  if members.isEmpty then .oneOf .empty true
  else match members.single? with
    | some c => .literal [c]
    | none => .oneOf members ascii

/-- A repetition. What only matches places is met there once or not at all. -/
def repeated (body : Expression) (least : Nat) (most : Option Nat) (eager : Bool) : Expression :=
  let (least, most) :=
    if body.isWidthless then (min least 1, some (min (most.getD 1) 1)) else (least, most)
  if least = 0 ∧ most = some 0 then .empty
  else if least = 1 ∧ most = some 1 then body
  else .times body least most eager

/-- The parts of a sequence, with neighbouring texts joined and empty parts left out. -/
def joinParts : List Expression → List Expression
  | [] => []
  | .empty :: es => joinParts es
  | .literal s :: es =>
    match joinParts es with
    | .literal t :: more => .literal (s ++ t) :: more
    | more => .literal s :: more
  | e :: es => e :: joinParts es

/-- The parts that an expression is a sequence of. -/
def parts : Expression → List Expression
  | .seq parts => parts
  | e => [e]

/-- The expressions that an expression is a choice between. -/
def choices : Expression → List Expression
  | .alt choices => choices
  | e => [e]

/-- The expressions one after the other. -/
def sequence (es : List Expression) : Expression :=
  match joinParts (es.flatMap parts) with
  | [] => .empty
  | [e] => e
  | es => .seq es

/-- The character that an expression matches alone. -/
def char? : Expression → Option Char
  | .literal [c] => some c
  | _ => none

/-- The set of which an expression matches one character. -/
def set? : Expression → Option CharSet
  | .oneOf members _ => some members
  | _ => none

/-- What two lists start with in common. -/
def commonStart : List Expression → List Expression → List Expression
  | d :: ds, e :: es => if d == e then d :: commonStart ds es else []
  | _, _ => []

/-- The parts that all of the expressions start with, which must be sequences. -/
def sharedStart : List Expression → List Expression
  | [] => []
  | .seq parts :: es => es.foldl (fun shared e => match e with
    | .seq parts => commonStart shared parts
    | _ => []) parts
  | _ :: _ => []

/-- One of the expressions, of which parts that they start with in common are taken out so many times
at most. -/
def choiceWithin : Nat → List Expression → Expression
  | bound, es =>
    match es.flatMap choices with
    | [] => ofSet .empty true
    | [e] => e
    | es =>
      match es.mapM char?, es.mapM set? with
      | some cs, _ => ofSet (.unions (cs.map .one)) false
      | none, some sets => ofSet (.unions sets) false
      | none, none =>
        match bound, sharedStart es with
        | 0, _ => .alt es
        | _, [] => .alt es
        | bound + 1, shared =>
          let rests := es.map fun e => sequence (e.parts.drop shared.length)
          sequence (shared ++ [choiceWithin bound rests])

/-- One of the expressions. -/
def choice (es : List Expression) : Expression := choiceWithin (sizeAll es) es

end Expression

end BuildPlan.Regex
