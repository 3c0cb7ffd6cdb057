import BuildPlan.Text.Lines
import BuildPlan.Text.Position

/-! # Places between characters

A text can be cut behind a number of bytes if the place lies between two characters (`IsBoundary`). Of two
such places the one with more bytes in front is further behind (`exists_of_byteSize_le`). What is left of
a text without so many bytes is the part behind the place (`dropBytes?_eq_some_iff`). -/

namespace BuildPlan.Text

theorem byteSize_eq_zero {s : List Char} : byteSize s = 0 ↔ s = [] := by
  cases s with
  | nil => simp
  | cons c s =>
    have hpos := c.utf8Size_pos
    rw [byteSize_cons]
    simp only [reduceCtorEq, iff_false]
    omega

/-- A string is stored with the bytes of its characters. -/
theorem byteSize_toList (s : String) : byteSize s.toList = s.utf8ByteSize := by
  have hof : ∀ l : List Char, (String.ofList l).utf8ByteSize = byteSize l := by
    intro l
    induction l with
    | nil => rfl
    | cons c l ih =>
      rw [String.ofList_cons, String.utf8ByteSize_append, String.utf8ByteSize_singleton, ih,
        byteSize_cons]
  rw [← hof, String.ofList_toList]

/-- Of two cuts of a text, the one with more bytes in front goes further. -/
theorem exists_of_byteSize_le {u t u' t' : List Char} (h : u ++ t = u' ++ t')
    (hle : byteSize u ≤ byteSize u') : ∃ w, u' = u ++ w ∧ t = w ++ t' := by
  rcases List.append_eq_append_iff.mp h with hw | ⟨w, rfl, rfl⟩
  · exact hw
  · rw [byteSize_append] at hle
    obtain rfl := byteSize_eq_zero.mp (show byteSize w = 0 by omega)
    exact ⟨[], by simp, by simp⟩

/-- The number of bytes is a place between two characters of the text, or at one of its ends. -/
def IsBoundary (s : List Char) (n : Nat) : Prop := ∃ u t, s = u ++ t ∧ byteSize u = n

theorem isBoundary_zero (s : List Char) : IsBoundary s 0 := ⟨[], s, rfl, rfl⟩

theorem isBoundary_append (u t : List Char) : IsBoundary (u ++ t) (byteSize u) := ⟨u, t, rfl, rfl⟩

/-- A place in what stands behind is a place in the whole text. -/
theorem IsBoundary.behind {t : List Char} {n : Nat} (h : IsBoundary t n) (u : List Char) :
    IsBoundary (u ++ t) (byteSize u + n) := by
  obtain ⟨v, w, rfl, rfl⟩ := h
  exact ⟨u ++ v, w, (List.append_assoc u v w).symm, byteSize_append u v⟩

theorem dropBytes?_append (u s : List Char) (n : Nat) :
    dropBytes? (u ++ s) (byteSize u + n) = dropBytes? s n := by
  induction u with
  | nil => rw [List.nil_append, byteSize_nil, Nat.zero_add]
  | cons c u ih =>
    have hpos := c.utf8Size_pos
    obtain ⟨m, hm⟩ : ∃ m, byteSize (c :: u) + n = m + 1 :=
      ⟨byteSize (c :: u) + n - 1, by rw [byteSize_cons]; omega⟩
    have hsub : m + 1 - c.utf8Size = byteSize u + n := by rw [← hm, byteSize_cons]; omega
    have hle : c.utf8Size ≤ m + 1 := by rw [← hm, byteSize_cons]; omega
    rw [hm, List.cons_append, dropBytes?, if_pos hle, hsub, ih]

theorem dropBytes?_byteSize (u t : List Char) : dropBytes? (u ++ t) (byteSize u) = some t := by
  have h := dropBytes?_append u t 0
  rw [Nat.add_zero] at h
  rw [h]
  cases t <;> rfl

theorem dropBytes?_eq_some_iff {s t : List Char} {n : Nat} :
    dropBytes? s n = some t ↔ ∃ u, s = u ++ t ∧ byteSize u = n := by
  constructor
  · intro h
    fun_induction dropBytes? s n with
    | case1 s =>
      cases h
      exact ⟨[], rfl, rfl⟩
    | case2 => cases h
    | case3 c s n hle ih =>
      obtain ⟨u, rfl, hn⟩ := ih h
      exact ⟨c :: u, rfl, by rw [byteSize_cons, hn]; omega⟩
    | case4 => cases h
  · rintro ⟨u, rfl, rfl⟩
    exact dropBytes?_byteSize u t

end BuildPlan.Text
