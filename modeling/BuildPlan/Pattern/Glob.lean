/-! # Globs

A glob matches a whole text. A star stands for any characters, slashes among them; a question mark
for one; brackets for one of a set, or for one outside of it behind an exclamation mark. Two stars
between slashes stand for any directories, also for none, and for all that is left at the end of a
text. -/

namespace BuildPlan.Glob

/-- A single character or a range, in brackets. -/
inductive Specifier where
  | one (c : Char)
  | range (lo hi : Char)
  deriving DecidableEq, Repr

def Specifier.admits (x : Char) : Specifier → Bool
  | .one c => x == c
  | .range lo hi => lo ≤ x && x ≤ hi

/-- A part of a glob. -/
inductive Token where
  | char (c : Char)
  /-- Any one character. -/
  | any
  /-- Any characters. -/
  | many
  /-- Any directories, each with its slash. -/
  | directories
  | within (set : List Specifier)
  | except (set : List Specifier)
  deriving DecidableEq, Repr

/-! ### Matching

A text is matched from its end: the answer for each part of a glob is a list that says of every rest
of the text, from the whole text to the empty one, whether this part and those behind it match it. -/

/-- The rests that begin with a character of the given kind and go on as said. -/
def oneThen (first : Char → Bool) : List Char → List Bool → List Bool
  | c :: s, _ :: later => (first c && later.headD false) :: oneThen first s later
  | _, _ => [false]

/-- The rests that have a rest as said; it may be the whole of them. -/
def someRest : List Bool → List Bool
  | [] => []
  | here :: later =>
    let more := someRest later
    (here || more.headD false) :: more

/-- The rests that have a rest as said behind a slash, or at their end. -/
def someRestBehindSlash : List Char → List Bool → List Bool
  | c :: s, _ :: later =>
    let more := someRestBehindSlash s later
    ((c == '/' && later.headD false) || more.headD false) :: more
  | _, later => later

/-- Of each rest of a text, whether the parts match it. -/
def matchedRests (s : List Char) : List Token → List Bool
  | [] => s.map (fun _ => false) ++ [true]
  | .char c :: ts => oneThen (· == c) s (matchedRests s ts)
  | .any :: ts => oneThen (fun _ => true) s (matchedRests s ts)
  | .many :: ts => someRest (matchedRests s ts)
  | .directories :: ts =>
    let later := matchedRests s ts
    List.zipWith or later (someRestBehindSlash s later)
  | .within set :: ts => oneThen (fun x => set.any (·.admits x)) s (matchedRests s ts)
  | .except set :: ts => oneThen (fun x => !set.any (·.admits x)) s (matchedRests s ts)

/-- Holds if the parts match the whole text. -/
def tokensMatch (ts : List Token) (s : List Char) : Bool := (matchedRests s ts).headD false

/-! ### Reading -/

/-- The specifiers between brackets. A hyphen between two characters makes a range. -/
def specifiers : List Char → List Specifier
  | lo :: '-' :: hi :: s => .range lo hi :: specifiers s
  | c :: s => .one c :: specifiers s
  | [] => []

/-- What stands before the first closing bracket, and what stands behind it. -/
def upToBracket : List Char → Option (List Char × List Char)
  | [] => none
  | ']' :: s => some ([], s)
  | c :: s => (upToBracket s).map fun (set, rest) => (c :: set, rest)

/-- A set of characters behind its opening bracket, and what stands behind the set. A closing
bracket that comes first is a member, so no set is empty. -/
def readSet : List Char → Option (Token × List Char)
  | '!' :: c :: s =>
    (upToBracket s).map fun (set, rest) => (.except (specifiers (c :: set)), rest)
  | ['!'] => none
  | c :: s => (upToBracket s).map fun (set, rest) => (.within (specifiers (c :: set)), rest)
  | [] => none

/-- The parts of a glob. `behindSlash` holds at the start and behind a slash: only there may two
stars stand, and only with a slash or the end behind them. The bound is the text itself. -/
def readUpTo : List Char → Bool → List Char → Option (List Token)
  | _, _, [] => some []
  | [], _, _ :: _ => none
  | _ :: bound, behindSlash, c :: s =>
    match c with
    | '?' => (readUpTo bound false s).map (.any :: ·)
    | '[' => do
      let (token, rest) ← readSet s
      return token :: (← readUpTo bound false rest)
    | '*' =>
      match s with
      | '*' :: '*' :: _ => none
      | ['*'] => if behindSlash then some [.directories] else none
      | '*' :: '/' :: rest =>
        if behindSlash then (readUpTo bound true rest).map (.directories :: ·) else none
      | '*' :: _ => none
      | _ => (readUpTo bound false s).map (.many :: ·)
    | _ => (readUpTo bound (c == '/') s).map (.char c :: ·)

/-- The parts of a glob, if it is one. -/
def read? (glob : List Char) : Option (List Token) := readUpTo glob true glob

end BuildPlan.Glob
