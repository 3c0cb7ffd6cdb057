/-! # Sets of characters

A set of characters is a list of ranges of code points, in ascending order and each apart from the
next one. Sets are read from text: the ranges in hexadecimal, `41-5A` or `5F` for a single code
point, with blanks between them. The other written form is a table of runs, which gives every code
point a letter. -/

namespace BuildPlan.Text

/-- A set of characters, as ranges from a first to a last code point. -/
structure CharSet where
  ranges : List (Nat × Nat)
  deriving DecidableEq, Repr, Inhabited

/-- Joins a range with those of a list that overlap or touch it. The list is in ascending order of
first code points. -/
def joinFrom (r : Nat × Nat) : List (Nat × Nat) → List (Nat × Nat)
  | [] => [r]
  | s :: more =>
    if s.1 ≤ r.2 + 1 then joinFrom (r.1, max r.2 s.2) more else r :: joinFrom s more

/-- The place behind a code point, past the surrogates, which are no characters. -/
def codeBehind (n : Nat) : Nat := if n = 0xD7FF then 0xE000 else n + 1

/-- The place before a code point, past the surrogates. -/
def codeBefore (n : Nat) : Nat := if n = 0xE000 then 0xD7FF else n - 1

/-- The greatest code point. -/
def lastCode : Nat := 0x10FFFF

/-- What lies between the ranges of a list, from the given code point on, as bounds. The bounds are
in the wrong order where nothing but surrogates lies between two ranges. -/
def gapsFrom (n : Nat) : List (Nat × Nat) → List (Nat × Nat)
  | [] => if n ≤ lastCode then [(n, lastCode)] else []
  | (lo, hi) :: more =>
    let rest := gapsFrom (codeBehind hi) more
    if lo = 0 then rest else (n, codeBefore lo) :: rest

/-- Whether a code point is in one of the ranges, which are in ascending order. -/
def inRanges (n : Nat) : List (Nat × Nat) → Bool
  | [] => false
  | (lo, hi) :: more => if n < lo then false else n ≤ hi || inRanges n more

/-- What two ranges have in common. -/
def commonRange (r s : Nat × Nat) : Option (Nat × Nat) :=
  let lo := max r.1 s.1
  let hi := min r.2 s.2
  if lo ≤ hi then some (lo, hi) else none

namespace CharSet

/-- The characters in any of the given ranges. -/
def ofRanges (rs : List (Nat × Nat)) : CharSet :=
  match rs.mergeSort fun r s => r.1 ≤ s.1 with
  | [] => ⟨[]⟩
  | r :: more => ⟨joinFrom r more⟩

/-- The set without characters. -/
def empty : CharSet := ⟨[]⟩

/-- The set of all characters. -/
def all : CharSet := ⟨[(0, lastCode)]⟩

/-- The set of one character. -/
def one (c : Char) : CharSet := ⟨[(c.toNat, c.toNat)]⟩

/-- The characters from the first to the last. -/
def range (first last : Char) : CharSet := ⟨[(first.toNat, last.toNat)]⟩

def isEmpty (s : CharSet) : Bool := s.ranges.isEmpty

/-- Holds of the characters of a set. -/
def has (s : CharSet) (c : Char) : Bool := inRanges c.toNat s.ranges

/-- The union of sets. -/
def unions (ss : List CharSet) : CharSet := ofRanges (ss.flatMap ranges)

def union (s t : CharSet) : CharSet := unions [s, t]

def inter (s t : CharSet) : CharSet :=
  ⟨s.ranges.flatMap fun r => t.ranges.filterMap (commonRange r)⟩

/-- All other characters. Two ranges with nothing but surrogates between them leave their two
neighbouring ends. -/
def complement (s : CharSet) : CharSet :=
  ⟨(gapsFrom 0 s.ranges).map fun g => (min g.1 g.2, max g.1 g.2)⟩

/-- The characters of the first set that are not in the second. -/
def minus (s t : CharSet) : CharSet :=
  s.inter ⟨(gapsFrom 0 t.ranges).filter fun g => g.1 ≤ g.2⟩

/-- What is in one of the two sets and not in the other. -/
def differ (s t : CharSet) : CharSet := (s.union t).minus (s.inter t)

/-- Holds if the set has no characters but those of ASCII. -/
def isAscii (s : CharSet) : Bool := s.ranges.all fun r => r.2 ≤ 0x7F

/-- The only character of a set that has one alone. -/
def single? (s : CharSet) : Option Char :=
  match s.ranges with
  | [(lo, hi)] => if lo = hi then some (Char.ofNat lo) else none
  | _ => none

/-! ### Written sets -/

/-- The value of a hexadecimal digit in upper case. -/
def hexDigit (c : Char) : Nat := if c.isDigit then c.toNat - 0x30 else c.toNat - 0x37

/-- The ranges that are written as the given text. `first` is the first code point of a range whose
last one is being read, and `n` is the code point read so far. -/
def rangesFrom (first : Option Nat) (n : Nat) : List Char → List (Nat × Nat)
  | [] => []
  | ' ' :: s => (first.getD n, n) :: rangesFrom none 0 s
  | '-' :: s => rangesFrom (some n) 0 s
  | c :: s => rangesFrom first (n * 16 + hexDigit c) s

/-- The set that is written in the given lines. -/
def read (lines : List String) : CharSet :=
  ofRanges (lines.flatMap fun line => rangesFrom none 0 (line.toList ++ [' ']))

/-- The runs that are written as the given text: the length of each, which is left out for one, and
its letter. The number read so far is the length of the run whose letter comes next. -/
def runsFrom (n : Nat) : List Char → List (Nat × Char)
  | [] => []
  | c :: s =>
    if c.isDigit then runsFrom (n * 10 + (c.toNat - 0x30)) s else (max n 1, c) :: runsFrom 0 s

/-- The ranges of the runs whose letters are wanted, the first run starting at the given code
point. -/
def rangesOfRuns (wanted : Char → Bool) (first : Nat) : List (Nat × Char) → List (Nat × Nat)
  | [] => []
  | (length, letter) :: more =>
    let rest := rangesOfRuns wanted (first + length) more
    if wanted letter then (first, first + length - 1) :: rest else rest

/-- The code points to which a table of runs gives a letter that is wanted. -/
def ofRuns (runs : List (Nat × Char)) (wanted : Char → Bool) : CharSet :=
  ofRanges (rangesOfRuns wanted 0 runs)

end CharSet

end BuildPlan.Text
