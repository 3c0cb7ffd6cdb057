import BuildPlan.Text.Blank

/-! # Lines and their indentation

A text is cut into lines at its line feeds. A block of lines is dedented by taking away from every
line the indentation that all lines with visible characters have in common, measured in bytes. -/

namespace BuildPlan.Text

/-- The lines of a text. A line ends at a line feed, with or without a carriage return before it,
and nothing follows the last line feed. -/
def lines : List Char → List (List Char)
  | [] => []
  | '\n' :: s => [] :: lines s
  | '\r' :: '\n' :: s => [] :: lines s
  | c :: s =>
    match lines s with
    | [] => [[c]]
    | l :: ls => (c :: l) :: ls

/-- The text that is left without the given number of bytes, if the text can be cut there. -/
def dropBytes? : List Char → Nat → Option (List Char)
  | s, 0 => some s
  | [], _ + 1 => none
  | c :: s, n + 1 => if c.utf8Size ≤ n + 1 then dropBytes? s (n + 1 - c.utf8Size) else none

/-- The number of bytes of a line's leading blanks. -/
def indentation (line : List Char) : Nat := byteSize (line.takeWhile isBlank)

/-- The least indentation of the lines with visible characters. -/
def commonIndentation (ls : List (List Char)) : Nat :=
  (((ls.filter (!isBlankText ·)).map indentation).min?).getD 0

/-- A line without so many bytes of indentation. A blank line becomes empty, and a line that cannot
be cut there loses all its leading blanks. -/
def outdent (width : Nat) (line : List Char) : List Char :=
  if isBlankText line then [] else (dropBytes? line width).getD (trimStart line)

/-- The lines of a text without their common indentation, and without the blanks at both ends. -/
def dedent (s : List Char) : List Char :=
  let ls := lines s
  trim (List.intercalate ['\n'] (ls.map (outdent (commonIndentation ls))))

end BuildPlan.Text
