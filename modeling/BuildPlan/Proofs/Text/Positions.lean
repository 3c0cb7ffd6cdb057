import BuildPlan.Proofs.Text.Bytes

/-! # Lines and columns

The line and the column of a place between two characters determine it: they grow with the offset, in
the order of reading (`before_positionAt`), and who skips the lines in front of the line, and then walks
over the characters in front of the column, gets there (`walk_positionAt`). An offset behind the end is
taken for the end (`positionAt_of_le`). -/

namespace BuildPlan.Text

/-! ### Last lines -/

/-- What stands behind on the same line belongs to the last line. -/
theorem lastLine_append (s : List Char) {t : List Char} (ht : '\n' ∉ t) :
    lastLine (s ++ t) = lastLine s ++ t := by
  have hline : ∀ c ∈ t.reverse, (c != '\n') = true := fun c hc => by
    rw [bne_iff_ne]
    rintro rfl
    exact ht (List.mem_reverse.mp hc)
  unfold lastLine
  rw [List.reverse_append, List.takeWhile_append_of_pos hline, List.reverse_append,
    List.reverse_reverse]

theorem lastLine_of_notMem {s : List Char} (hs : '\n' ∉ s) : lastLine s = s := lastLine_append [] hs

theorem lastLine_append_lineFeed (s : List Char) {t : List Char} (ht : '\n' ∉ t) :
    lastLine (s ++ '\n' :: t) = t := by
  have hfeed : lastLine (s ++ ['\n']) = [] := by simp [lastLine]
  rw [← List.singleton_append, ← List.append_assoc, lastLine_append _ ht, hfeed, List.nil_append]

/-- A text has no line feed, or else it is cut behind the last one. -/
theorem exists_lastLine (s : List Char) :
    '\n' ∉ s ∨ ∃ u t, s = u ++ '\n' :: t ∧ '\n' ∉ t := by
  by_cases hs : '\n' ∈ s
  · obtain ⟨t, u, hst, ht⟩ := List.eq_append_cons_of_mem (List.mem_reverse.mpr hs)
    refine Or.inr ⟨u.reverse, t.reverse, ?_, fun h => ht (List.mem_reverse.mp h)⟩
    rw [← List.reverse_reverse s, hst]
    simp
  · exact Or.inl hs

/-! ### Walking -/

/-- The bytes that are passed on the way behind so many line feeds, and then over so many characters of
the line that begins there. -/
def walk : Nat → Nat → List Char → Option Nat
  | 0, 0, _ => some 0
  | 0, k + 1, c :: s => if c = '\n' then none else (walk 0 k s).map (c.utf8Size + ·)
  | n + 1, k, c :: s => (walk (if c = '\n' then n else n + 1) k s).map (c.utf8Size + ·)
  | _, _, [] => none

theorem walk_line {u : List Char} (hu : '\n' ∉ u) (t : List Char) :
    walk 0 u.length (u ++ t) = some (byteSize u) := by
  induction u with
  | nil => cases t <;> rfl
  | cons c u ih =>
    rw [List.mem_cons, not_or] at hu
    rw [List.length_cons, List.cons_append, walk, if_neg (Ne.symm hu.1), ih hu.2]
    rfl

theorem walk_lines (u : List Char) (k : Nat) (s : List Char) :
    walk (u.count '\n' + 1) k (u ++ '\n' :: s) = (walk 0 k s).map (byteSize (u ++ ['\n']) + ·) := by
  induction u with
  | nil => rfl
  | cons c u ih =>
    have hstep : walk ((c :: u).count '\n' + 1) k (c :: u ++ '\n' :: s) =
        (walk (u.count '\n' + 1) k (u ++ '\n' :: s)).map (c.utf8Size + ·) := by
      rw [List.cons_append, walk]
      by_cases hc : c = '\n'
      · rw [if_pos hc, hc, List.count_cons_self]
      · rw [if_neg hc, List.count_cons_of_ne hc]
    rw [hstep, ih, Option.map_map]
    congr 1
    funext n
    simp [Nat.add_assoc]

/-- The way to the end of a text, line by line, passes its bytes. -/
theorem walk_append (u t : List Char) :
    walk (u.count '\n') (lastLine u).length (u ++ t) = some (byteSize u) := by
  rcases exists_lastLine u with hu | ⟨v, w, rfl, hw⟩
  · rw [List.count_eq_zero.mpr hu, lastLine_of_notMem hu, walk_line hu]
  · have hcount : (v ++ '\n' :: w).count '\n' = v.count '\n' + 1 := by
      rw [List.count_append, List.count_cons_self, List.count_eq_zero.mpr hw]
    rw [hcount, lastLine_append_lineFeed v hw, List.append_assoc, List.cons_append, walk_lines,
      walk_line hw]
    simp [Nat.add_assoc]

/-! ### Positions -/

/-- A position stands in front of another one: on a line above, or on the same line further left. -/
def Position.Before (p q : Position) : Prop :=
  p.line < q.line ∨ p.line = q.line ∧ p.column < q.column

instance (p q : Position) : Decidable (p.Before q) :=
  inferInstanceAs (Decidable (p.line < q.line ∨ p.line = q.line ∧ p.column < q.column))

theorem positionAt_byteSize (u t : List Char) :
    positionAt (u ++ t) (byteSize u) = ⟨byteSize u, lineAfter u, columnAfter u⟩ := by
  have hle : byteSize u ≤ byteSize (u ++ t) := by
    rw [byteSize_append]
    exact Nat.le_add_right _ _
  simp only [positionAt]
  rw [Nat.min_eq_left hle, takeBytes?_byteSize]
  rfl

theorem positionAt_of_le {s : List Char} {n : Nat} (h : byteSize s ≤ n) :
    positionAt s n = positionAt s (byteSize s) := by
  unfold positionAt
  rw [Nat.min_eq_right h, Nat.min_self]

theorem offset_positionAt {s : List Char} {n : Nat} (hn : IsBoundary s n) :
    (positionAt s n).offset = n := by
  obtain ⟨u, t, rfl, rfl⟩ := hn
  rw [positionAt_byteSize]

/-- Of two offsets the greater one has the position behind. -/
theorem before_positionAt {s : List Char} {m n : Nat} (hm : IsBoundary s m) (hn : IsBoundary s n)
    (h : m < n) : (positionAt s m).Before (positionAt s n) := by
  obtain ⟨u, t, rfl, rfl⟩ := hm
  obtain ⟨v, t', hv, rfl⟩ := hn
  obtain ⟨w, rfl, rfl⟩ := exists_of_byteSize_le hv (Nat.le_of_lt h)
  have hpos : w ≠ [] := by
    rintro rfl
    simp at h
  rw [positionAt_byteSize, ← List.append_assoc, positionAt_byteSize]
  by_cases hw : '\n' ∈ w
  · left
    have hcount := List.count_pos_iff.mpr hw
    simp only [lineAfter, List.count_append]
    omega
  · right
    refine ⟨?_, ?_⟩
    · simp only [lineAfter, List.count_append, List.count_eq_zero.mpr hw, Nat.add_zero]
    · have hlength := List.length_pos_iff.mpr hpos
      simp only [columnAfter, lastLine_append u hw, List.length_append]
      omega

/-- The position of a place between two characters leads back to it. -/
theorem walk_positionAt {s : List Char} {n : Nat} (hn : IsBoundary s n) :
    walk ((positionAt s n).line - 1) ((positionAt s n).column - 1) s = some n := by
  obtain ⟨u, t, rfl, rfl⟩ := hn
  rw [positionAt_byteSize]
  exact walk_append u t

end BuildPlan.Text
