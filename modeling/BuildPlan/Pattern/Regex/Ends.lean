import BuildPlan.Pattern.Regex.Basic

/-! # What expressions match

A text has places: its start, its end, and those between two characters. A set of places is a list
of marks, one for each place of the text. An expression leads from the marked places to those behind
what it matches there, and all places are followed at once, so that an ambiguous expression costs no
more than its places. An expression matches a text if it leads anywhere from some place in it. -/

namespace BuildPlan.Regex

open BuildPlan.Text

/-- A place in a text: the characters before and behind it. -/
structure Place where
  before : Option Char
  behind : Option Char
  deriving DecidableEq, Repr

/-- The places of a text behind the given character, from its start to its end. -/
def placesFrom (before : Option Char) : List Char → List Place
  | [] => [⟨before, none⟩]
  | c :: s => ⟨before, some c⟩ :: placesFrom (some c) s

namespace Assertion

/-- Whether the characters before and behind a place are of words. -/
def wordSides (unicode : Bool) (p : Place) : Bool × Bool :=
  let isWord := (letterClass unicode 'w').has
  (p.before.any isWord, p.behind.any isWord)

/-- Holds of the places where the assertion is true. -/
def holds (p : Place) : Assertion → Bool
  | .textStart => p.before.isNone
  | .textEnd => p.behind.isNone
  | .lineStart => p.before.isNone || p.before == some '\n'
  | .lineEnd => p.behind.isNone || p.behind == some '\n'
  | .lineStartAnyEnd =>
    p.before.isNone || p.before == some '\n' ||
      (p.before == some '\r' && p.behind != some '\n')
  | .lineEndAnyEnd =>
    p.behind.isNone || p.behind == some '\r' ||
      (p.behind == some '\n' && p.before != some '\r')
  | .boundary u => let (l, r) := wordSides u p; l != r
  | .noBoundary u => let (l, r) := wordSides u p; l == r
  | .wordStart u => let (l, r) := wordSides u p; !l && r
  | .wordEnd u => let (l, r) := wordSides u p; l && !r
  | .wordStartHalf u => !(wordSides u p).1
  | .wordEndHalf u => !(wordSides u p).2

end Assertion

/-- A set of places of a text: whether it has each of them. -/
abbrev Marks : Type := List Bool

namespace Marks

/-- Every place. -/
def all (ps : List Place) : Marks := ps.map fun _ => true

/-- No place of those that another set is of. -/
def clear (m : Marks) : Marks := m.map fun _ => false

def isEmpty (m : Marks) : Bool := !m.any id

def union (m n : Marks) : Marks := List.zipWith or m n

def minus (m n : Marks) : Marks := List.zipWith (fun a b => a && !b) m n

/-- The places of the set that have a property. -/
def keep (p : Place → Bool) (ps : List Place) (m : Marks) : Marks :=
  List.zipWith (fun place marked => marked && p place) ps m

/-- The places one character behind those of the set. -/
def shift (m : Marks) : Marks := (false :: m).dropLast

/-- The places one character behind those of the set where a character with a property follows. -/
def eat (p : Char → Bool) (ps : List Place) (m : Marks) : Marks := (m.keep (·.behind.any p) ps).shift

/-- The places after so many steps. A step that changes nothing would go on to change nothing. -/
def iterate (step : Marks → Marks) : Nat → Marks → Marks
  | 0, m => m
  | n + 1, m =>
    let next := step m
    if next == m then m else iterate step n next

/-- The places after any number of steps up to the given one. `seen` are those of earlier steps and
`m` those of the last one that are new. -/
def closure (step : Marks → Marks) : Nat → Marks → Marks → Marks
  | 0, seen, m => seen.union m
  | n + 1, seen, m =>
    if m.isEmpty then seen
    else
      let seen := seen.union m
      closure step n seen ((step m).minus seen)

end Marks

namespace Expression

mutual

/-- The places behind what an expression matches at the marked places of a text. Without a limit, as
many repetitions are tried as there are places. -/
def ends (ps : List Place) : Expression → Marks → Marks
  | .empty, m => m
  | .literal text, m => text.foldl (fun m c => m.eat (· == c) ps) m
  | .oneOf members _, m => m.eat members.has ps
  | .assert a, m => m.keep (fun p => a.holds p) ps
  | .times body least most _, m =>
    let further := match most with
      | some most => most - least
      | none => ps.length
    let start := Marks.iterate (body.ends ps) least m
    Marks.closure (body.ends ps) further start.clear start
  | .group _ body, m => body.ends ps m
  | .seq parts, m => endsAfter ps parts m
  | .alt choices, m => endsOfAny ps choices m

/-- The places behind what the expressions match one after the other. -/
def endsAfter (ps : List Place) : List Expression → Marks → Marks
  | [], m => m
  | e :: es, m => endsAfter ps es (e.ends ps m)

/-- The places behind what any of the expressions matches. -/
def endsOfAny (ps : List Place) : List Expression → Marks → Marks
  | [], m => m.clear
  | e :: es, m => (e.ends ps m).union (endsOfAny ps es m)

end

/-- Holds if the expression matches somewhere in the text. -/
def isMatch (e : Expression) (s : List Char) : Bool :=
  let ps := placesFrom none s
  !(e.ends ps (Marks.all ps)).isEmpty

end Expression

end BuildPlan.Regex
