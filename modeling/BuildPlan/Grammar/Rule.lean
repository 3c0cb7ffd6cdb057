import BuildPlan.Text.Position

/-! # Grammar rules

A rule reads the front of a text. What it makes of the text is its *reading*: the value found with
the rest of the text, the number of bytes taken, and the furthest offset at which a test failed on
the way, counted from where the rule began. A rule that finds something may have seen failures too:
an alternative that was abandoned, the last round of a repetition, an optional part that is absent.
Those count, since a syntax error is reported at the furthest failure of the whole run.

Alternatives are ordered: the first one that finds something is taken, and a later one is tried at
the same place. Two constructions forget the failures inside them: `select`, where a refused value
fails at its start, and `absent`, which only looks ahead. -/

namespace BuildPlan.Grammar

open BuildPlan.Text

/-- What a rule makes of a text. -/
structure Reading (α : Type) where
  /-- The value and the rest of the text, if the rule applies. -/
  found : Option (α × List Char)
  /-- The bytes between the start of the rule and the rest of the text. -/
  taken : Nat
  /-- The furthest offset of a failed test, if any test failed. -/
  far : Option Nat

/-- A rule is a function of the text that is left. -/
def Rule (α : Type) : Type := List Char → Reading α

namespace Rule

variable {α β : Type}

/-- The result of a rule without the bookkeeping of failures. -/
def read (r : Rule α) (s : List Char) : Option (α × List Char) := (r s).found

/-- Reads nothing and finds `a`. -/
def succeed (a : α) : Rule α := fun s => ⟨some (a, s), 0, none⟩

/-- Fails where it stands. -/
def refuse : Rule α := fun _ => ⟨none, 0, some 0⟩

/-- Reads with one rule and goes on with the rule that its value selects. -/
def andThen (r : Rule α) (f : α → Rule β) : Rule β := fun s =>
  match r s with
  | ⟨none, taken, far⟩ => ⟨none, taken, far⟩
  | ⟨some (a, rest), taken, far⟩ =>
    let next := f a rest
    ⟨next.found, taken + next.taken, max far (next.far.map (taken + ·))⟩

/-- Applies a function to the value found. -/
def map (f : α → β) (r : Rule α) : Rule β := fun s =>
  match r s with
  | ⟨none, taken, far⟩ => ⟨none, taken, far⟩
  | ⟨some (a, rest), taken, far⟩ => ⟨some (f a, rest), taken, far⟩

instance : Monad Rule where
  pure := succeed
  bind := andThen
  map := map

/-- Tries the second rule where the first one finds nothing. -/
def orElse (r q : Rule α) : Rule α := fun s =>
  match r s with
  | ⟨some found, taken, far⟩ => ⟨some found, taken, far⟩
  | ⟨none, _, far⟩ =>
    let next := q s
    ⟨next.found, next.taken, max far next.far⟩

/-- The first of the rules that finds something. -/
def firstOf : List (Rule α) → Rule α
  | [] => refuse
  | [r] => r
  | r :: q :: rs => orElse r (firstOf (q :: rs))

/-- Reads one character with the given property. -/
def one (p : Char → Bool) : Rule Char
  | c :: s => if p c then ⟨some (c, s), c.utf8Size, none⟩ else ⟨none, 0, some 0⟩
  | [] => ⟨none, 0, some 0⟩

/-- Reads exactly the given text. -/
def exactly : List Char → Rule Unit
  | [] => succeed ()
  | c :: w => (one (· == c)).andThen fun _ => exactly w

/-- Reads the longest run of characters with the given property. -/
def run (p : Char → Bool) : Rule (List Char) := fun s =>
  let taken := s.takeWhile p
  ⟨some (taken, s.dropWhile p), byteSize taken, some (byteSize taken)⟩

/-- Reads the longest run of characters with the given property, which must not be empty. -/
def run1 (p : Char → Bool) : Rule (List Char) :=
  (one p).andThen fun c => (run p).map (c :: ·)

/-- Reads with the rule if it applies. -/
def optional (r : Rule α) : Rule (Option α) := orElse (r.map some) (succeed none)

/-- Reads with the rule as often as it applies, at most once more than the given text is long. -/
def manyUpTo (r : Rule α) : List Char → Rule (List α)
  | [] => fun s => ⟨some ([], s), 0, (r s).far⟩
  | _ :: bound => fun s =>
    match r s with
    | ⟨none, _, far⟩ => ⟨some ([], s), 0, far⟩
    | ⟨some (a, rest), taken, far⟩ =>
      let next := manyUpTo r bound rest
      ⟨next.found.map fun (as, rest) => (a :: as, rest), taken + next.taken,
        max far (next.far.map (taken + ·))⟩

/-- Reads with the rule as often as it applies. Each round of the rule takes a character at least,
so the text itself bounds the rounds. -/
def many (r : Rule α) : Rule (List α) := fun s => manyUpTo r s s

/-- Reads with the rule at least once. -/
def many1 (r : Rule α) : Rule (List α) :=
  r.andThen fun a => (many r).map (a :: ·)

/-- Reads with the rule and turns the value into another one. A value that cannot be turned is
refused: the failure is where the rule began, and those inside are forgotten. -/
def select (f : α → Option β) (r : Rule α) : Rule β := fun s =>
  match r s with
  | ⟨none, taken, far⟩ => ⟨none, taken, far⟩
  | ⟨some (a, rest), taken, far⟩ =>
    match f a with
    | some b => ⟨some (b, rest), taken, far⟩
    | none => ⟨none, 0, some 0⟩

/-- Reads with the rule and keeps the value only if it has the given property. -/
def keep (p : α → Bool) (r : Rule α) : Rule α := r.select fun a => if p a then some a else none

/-- Takes nothing, and fails where the rule would find something. -/
def absent (r : Rule α) : Rule Unit := fun s =>
  match (r s).found with
  | none => ⟨some ((), s), 0, none⟩
  | some _ => ⟨none, 0, some 0⟩

/-- Applies only at the end of the text. -/
def atEnd : Rule Unit
  | [] => ⟨some ((), []), 0, none⟩
  | _ :: _ => ⟨none, 0, some 0⟩

/-- The rule that `step` defines in terms of itself, for nestings no deeper than the given text is
long. -/
def nestedUpTo (step : Rule α → Rule α) : List Char → Rule α
  | [] => step refuse
  | _ :: bound => step (nestedUpTo step bound)

/-- The rule that `step` defines in terms of itself. A step reads a character at least before it
comes to itself again, so the text bounds the nesting. -/
def nested (step : Rule α → Rule α) : Rule α := fun s => nestedUpTo step s s

/-- Reads a whole text. If the rule does not apply to it, or leaves something over, the answer is
the offset of the furthest failure. -/
def whole (r : Rule α) (s : List Char) : Except Nat α :=
  match (r.andThen fun a => atEnd.map fun _ => a) s with
  | ⟨some (a, _), _, _⟩ => .ok a
  | ⟨none, _, far⟩ => .error (far.getD 0)

end Rule

end BuildPlan.Grammar
