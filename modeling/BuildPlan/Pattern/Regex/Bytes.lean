import BuildPlan.Text.CharSet

/-! # Sets of characters as bytes

A set of characters is a choice between sequences of ranges of bytes, in ascending order. For this
its ranges are cut until the characters of each have the same number of bytes, and until every range
of a byte that is not the last leaves all further bytes free. -/

namespace BuildPlan.Regex

open BuildPlan.Text

/-- A range of bytes, from the first to the last. -/
abbrev ByteRange : Type := Nat × Nat

/-- The range without the surrogates. -/
def withoutSurrogates (r : Nat × Nat) : List (Nat × Nat) :=
  [(r.1, min r.2 0xD7FF), (max r.1 0xE000, r.2)].filter fun r => r.1 ≤ r.2

/-- Cuts a range behind the given code point, if it is inside. -/
def cutBehind (n : Nat) (r : Nat × Nat) : List (Nat × Nat) :=
  if r.1 ≤ n ∧ n < r.2 then [(r.1, n), (n + 1, r.2)] else [r]

/-- Cuts off the start of a range that is a part of a block of the given size and goes on in the
next one. -/
def cutStart (block : Nat) (r : Nat × Nat) : List (Nat × Nat) :=
  if r.1 % block ≠ 0 ∧ r.1 / block < r.2 / block then
    let behind := (r.1 / block + 1) * block
    [(r.1, behind - 1), (behind, r.2)]
  else [r]

/-- Cuts off the end of a range that is a part of a block of the given size and started in an
earlier one. -/
def cutEnd (block : Nat) (r : Nat × Nat) : List (Nat × Nat) :=
  if r.2 % block ≠ block - 1 ∧ r.1 / block < r.2 / block then
    let first := r.2 / block * block
    [(r.1, first - 1), (first, r.2)]
  else [r]

/-- Cuts a range to blocks of each size, if its characters have more than one byte. -/
def cutBlocks (r : Nat × Nat) : List (Nat × Nat) :=
  if r.2 < 0x80 then [r]
  else [0x40, 0x1000, 0x40000].foldl
    (fun rs block => (rs.flatMap (cutStart block)).flatMap (cutEnd block)) [r]

/-- The ranges whose characters have the same bytes but for ranges of them. -/
def uniformRanges (r : Nat × Nat) : List (Nat × Nat) :=
  ((((withoutSurrogates r).flatMap (cutBehind 0x7F)).flatMap (cutBehind 0x7FF)).flatMap
    (cutBehind 0xFFFF)).flatMap cutBlocks

/-- The bytes of a code point. -/
def bytesOf (n : Nat) : List Nat :=
  if n < 0x80 then [n]
  else if n < 0x800 then [0xC0 + n / 0x40, 0x80 + n % 0x40]
  else if n < 0x10000 then [0xE0 + n / 0x1000, 0x80 + n / 0x40 % 0x40, 0x80 + n % 0x40]
  else [0xF0 + n / 0x40000, 0x80 + n / 0x1000 % 0x40, 0x80 + n / 0x40 % 0x40, 0x80 + n % 0x40]

/-- The sequences of ranges of bytes that a set is a choice between. -/
def byteSequences (s : CharSet) : List (List ByteRange) :=
  (s.ranges.flatMap uniformRanges).map fun r => (bytesOf r.1).zip (bytesOf r.2)

end BuildPlan.Regex
