import BuildPlan.Text.Blank

/-! # Positions in a text

A position is a byte offset together with its line and column. Lines end at each line feed and are
counted from one, as are the columns, which count characters and not bytes. -/

namespace BuildPlan.Text

/-- A place in a text: the offset in bytes, the line, and the column in characters. -/
structure Position where
  offset : Nat
  line : Nat
  column : Nat
  deriving DecidableEq, Repr, Inhabited

/-- The first characters of the text that take exactly the given number of bytes, if the text can
be cut there. -/
def takeBytes? : List Char → Nat → Option (List Char)
  | _, 0 => some []
  | [], _ + 1 => none
  | c :: s, n + 1 =>
    if c.utf8Size ≤ n + 1 then (takeBytes? s (n + 1 - c.utf8Size)).map (c :: ·) else none

/-- The line on which a text ends that begins on line one. -/
def lineAfter (s : List Char) : Nat := s.count '\n' + 1

/-- The characters after the last line feed of the text. -/
def lastLine (s : List Char) : List Char := (s.reverse.takeWhile (· != '\n')).reverse

/-- The column behind the last character of the text. -/
def columnAfter (s : List Char) : Nat := (lastLine s).length + 1

/-- The position of a byte offset. An offset past the end is the end; one inside a character has
the line and column of the end. -/
def positionAt (source : List Char) (offset : Nat) : Position :=
  let offset := min offset (byteSize source)
  let before := (takeBytes? source offset).getD source
  { offset, line := lineAfter before, column := columnAfter before }

theorem takeBytes?_byteSize (s t : List Char) : takeBytes? (s ++ t) (byteSize s) = some s := by
  induction s with
  | nil => cases t <;> rfl
  | cons c s ih =>
    have hpos := c.utf8Size_pos
    obtain ⟨n, hn⟩ : ∃ n, byteSize (c :: s) = n + 1 :=
      ⟨byteSize (c :: s) - 1, by simp only [byteSize_cons]; omega⟩
    have hsub : n + 1 - c.utf8Size = byteSize s := by rw [← hn, byteSize_cons]; omega
    have hle : c.utf8Size ≤ n + 1 := by rw [← hn, byteSize_cons]; omega
    rw [hn, List.cons_append, takeBytes?, if_pos hle, hsub, ih]
    rfl

end BuildPlan.Text
