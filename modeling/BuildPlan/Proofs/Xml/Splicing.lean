import BuildPlan.Proofs.Xml.Reading

/-! # Values in the place of references

A text is spliced into another one if references in it, with backslashes in front of them, are
replaced by characters that are no marks of the markup (`Spliced`). Both texts have the same marks, in
the same order and with spliced texts between them (`Spliced.split`, `Spliced.unsplit`), and a part
without references stays what it is. -/

namespace BuildPlan.Xml

/-- A character that markup may contain and that is no mark of it. -/
def isCalm (c : Char) : Bool := isXmlChar c && !(['<', '>', '&', '"', '\'', ']'].contains c)

theorem isXmlChar_of_isCalm (c : Char) (h : isCalm c = true) : isXmlChar c = true :=
  (Bool.and_eq_true_iff.mp h).1

/-- All characters of the text are calm. -/
def Calm (s : List Char) : Prop := ∀ c ∈ s, isCalm c = true

instance (s : List Char) : Decidable (Calm s) := List.decidableBAll (isCalm · = true) s

/-- The start of a reference stands in the text. -/
def Refers (s : List Char) : Prop := ['$', '('] <:+: s

instance (s : List Char) : Decidable (Refers s) := inferInstanceAs (Decidable (_ <:+: _))

/-- A character with which a reference may begin, or the backslashes in front of it. -/
def Opens (c : Char) : Prop := c = '$' ∨ c = '\\'

instance (c : Char) : Decidable (Opens c) := inferInstanceAs (Decidable (_ ∨ _))

theorem not_opens {p : Char → Bool} (hdollar : p '$' = false) (hslash : p '\\' = false) (c : Char)
    (hc : p c = true) : ¬ Opens c := by
  rintro (rfl | rfl)
  · rw [hdollar] at hc
    cases hc
  · rw [hslash] at hc
    cases hc

/-- A reference with what stands in front of it, and what takes its place. -/
structure Hole (u v : List Char) : Prop where
  opens : ∃ c ∈ u.head?, Opens c
  refers : Refers u
  calm : Calm u
  filled : v ≠ []
  value : Calm v

/-- Holes of the first text are filled in the second one. -/
inductive Spliced : List Char → List Char → Prop where
  | nil : Spliced [] []
  | keep (c : Char) {s t : List Char} : Spliced s t → Spliced (c :: s) (c :: t)
  | hole {u v s t : List Char} : Hole u v → Spliced s t → Spliced (u ++ s) (v ++ t)

namespace Spliced

variable {s t x y z w : List Char} {c : Char}

theorem refl : ∀ s : List Char, Spliced s s
  | [] => .nil
  | c :: s => .keep c (refl s)

theorem append (h : Spliced s t) (h' : Spliced x y) : Spliced (s ++ x) (t ++ y) := by
  induction h with
  | nil => exact h'
  | keep c _ ih => exact .keep c ih
  | hole hole _ ih =>
    rw [List.append_assoc, List.append_assoc]
    exact .hole hole ih

theorem forall_mem (h : Spliced s t) {P : Char → Prop} (hP : ∀ c, isCalm c = true → P c)
    (hs : ∀ c ∈ s, P c) : ∀ c ∈ t, P c := by
  induction h with
  | nil => exact hs
  | keep c _ ih =>
    obtain ⟨hc, hs⟩ := List.forall_mem_cons.mp hs
    exact List.forall_mem_cons.mpr ⟨hc, ih hs⟩
  | hole hole _ ih =>
    obtain ⟨-, hs⟩ := List.forall_mem_append.mp hs
    exact List.forall_mem_append.mpr ⟨fun c hc => hP c (hole.value c hc), ih hs⟩

/-! ### Parts without references -/

/-- A text without references is not changed. -/
theorem eq_of_not_refers (h : Spliced s t) (hs : ¬ Refers s) : t = s := by
  induction h with
  | nil => rfl
  | keep c _ ih => rw [ih fun hr => hs (hr.trans (List.suffix_cons c _).isInfix)]
  | hole hole _ _ => exact absurd (hole.refers.trans (List.prefix_append _ _).isInfix) hs

theorem nil_left (h : Spliced [] t) : t = [] := h.eq_of_not_refers (by decide)

theorem nil_right (h : Spliced s []) : s = [] := by
  generalize ht : ([] : List Char) = t at h
  cases h with
  | nil => rfl
  | keep => cases ht
  | hole hole => exact absurd (List.append_eq_nil_iff.mp ht.symm).1 hole.filled

/-- A character that opens no reference is not changed. -/
theorem cons_left (h : Spliced (c :: s) t) (hc : ¬ Opens c) : ∃ t', t = c :: t' ∧ Spliced s t' := by
  generalize hs : c :: s = r at h
  cases h with
  | nil => cases hs
  | keep d h =>
    cases hs
    exact ⟨_, rfl, h⟩
  | @hole u v r t hole h =>
    obtain ⟨d, hd, hopens⟩ := hole.opens
    obtain ⟨u, rfl⟩ := List.head?_eq_some_iff.mp hd
    exact absurd ((List.cons.inj hs).1 ▸ hopens) hc

/-- Characters that open no reference are not changed. -/
theorem append_left : ∀ {w t : List Char}, Spliced (w ++ s) t → (∀ c ∈ w, ¬ Opens c) →
    ∃ t', t = w ++ t' ∧ Spliced s t'
  | [], t, h, _ => ⟨t, rfl, h⟩
  | c :: w, t, h, hw => by
    obtain ⟨hc, hw⟩ := List.forall_mem_cons.mp hw
    obtain ⟨u, rfl, hu⟩ := h.cons_left hc
    obtain ⟨t, rfl, ht⟩ := append_left hu hw
    exact ⟨t, rfl, ht⟩

theorem head?_eq (h : Spliced s t) (hs : ∀ c ∈ s.head?, ¬ Opens c) : t.head? = s.head? := by
  cases s with
  | nil => rw [h.nil_left]
  | cons c s =>
    obtain ⟨t, rfl, -⟩ := h.cons_left (hs c rfl)
    rfl

/-! ### The marks of both texts -/

/-- **A mark stays where it is**: what stands before it and behind it is spliced. -/
theorem split (h : Spliced (x ++ c :: y) z) (hc : isCalm c = false) :
    ∃ x' y', z = x' ++ c :: y' ∧ Spliced x x' ∧ Spliced y y' := by
  generalize hs : x ++ c :: y = s at h
  induction h generalizing x with
  | nil => simp at hs
  | keep d h ih =>
    cases x with
    | nil =>
      cases hs
      exact ⟨[], _, rfl, .nil, h⟩
    | cons e x =>
      obtain ⟨rfl, he⟩ := List.cons.inj hs
      obtain ⟨x', y', rfl, hx, hy⟩ := ih he
      exact ⟨e :: x', y', rfl, .keep e hx, hy⟩
  | @hole u v s t hole h ih =>
    obtain ⟨x, rfl, hrest⟩ := append_of_forall hole.calm hc hs
    obtain ⟨x', y', rfl, hx, hy⟩ := ih hrest.symm
    exact ⟨v ++ x', y', (List.append_assoc _ _ _).symm, .hole hole hx, hy⟩

/-- A mark of the second text was one of the first. -/
theorem unsplit (h : Spliced z (x ++ c :: y)) (hc : isCalm c = false) :
    ∃ x' y', z = x' ++ c :: y' ∧ Spliced x' x ∧ Spliced y' y := by
  generalize ht : x ++ c :: y = t at h
  induction h generalizing x with
  | nil => simp at ht
  | keep d h ih =>
    cases x with
    | nil =>
      cases ht
      exact ⟨[], _, rfl, .nil, h⟩
    | cons e x =>
      obtain ⟨rfl, he⟩ := List.cons.inj ht
      obtain ⟨x', y', rfl, hx, hy⟩ := ih he
      exact ⟨e :: x', y', rfl, .keep e hx, hy⟩
  | @hole u v s t hole h ih =>
    obtain ⟨x, rfl, hrest⟩ := append_of_forall hole.value hc ht
    obtain ⟨x', y', rfl, hx, hy⟩ := ih hrest.symm
    exact ⟨u ++ x', y', (List.append_assoc _ _ _).symm, .hole hole hx, hy⟩

theorem not_mem (h : Spliced s t) (hc : isCalm c = false) (hs : c ∉ s) : c ∉ t := by
  intro hm
  obtain ⟨x, y, rfl⟩ := List.append_of_mem hm
  obtain ⟨x', y', rfl, -, -⟩ := h.unsplit hc
  exact hs (List.mem_append_right x' List.mem_cons_self)

/-- A part without references up to a mark is not changed. -/
theorem split_of_not_refers (h : Spliced (w ++ c :: s) t) (hc : isCalm c = false)
    (hw : ¬ Refers w) : ∃ t', t = w ++ c :: t' ∧ Spliced s t' := by
  obtain ⟨w', t', rfl, hw', ht⟩ := h.split hc
  rw [hw'.eq_of_not_refers hw]
  exact ⟨t', rfl, ht⟩

/-- Marks that stand side by side did so before, since no hole is filled with nothing. -/
theorem unsplit_marks {marks : List Char} (h : Spliced z (x ++ (marks ++ y))) (hne : marks ≠ [])
    (hm : ∀ c ∈ marks, isCalm c = false) :
    ∃ x' y', z = x' ++ (marks ++ y') ∧ Spliced x' x ∧ Spliced y' y := by
  have hfront : ∀ {marks z : List Char}, (∀ c ∈ marks, isCalm c = false) →
      Spliced z (marks ++ y) → ∃ y', z = marks ++ y' ∧ Spliced y' y := by
    intro marks
    induction marks with
    | nil => exact fun _ h => ⟨_, rfl, h⟩
    | cons c marks ih =>
      intro z hm h
      obtain ⟨hc, hm⟩ := List.forall_mem_cons.mp hm
      obtain ⟨x', y', rfl, hx, hrest⟩ := unsplit (x := []) h hc
      obtain ⟨y'', rfl, hy⟩ := ih hm hrest
      rw [hx.nil_right]
      exact ⟨y'', rfl, hy⟩
  obtain ⟨c, marks, rfl⟩ := List.exists_cons_of_ne_nil hne
  obtain ⟨hc, hm⟩ := List.forall_mem_cons.mp hm
  obtain ⟨x', y', rfl, hx, hrest⟩ := h.unsplit hc
  obtain ⟨y'', rfl, hy⟩ := hfront hm hrest
  exact ⟨x', y'', rfl, hx, hy⟩

theorem isInfix_of_isInfix (h : Spliced s t) {marks : List Char} (hne : marks ≠ [])
    (hm : ∀ c ∈ marks, isCalm c = false) (ht : marks <:+: t) : marks <:+: s := by
  obtain ⟨x, y, rfl⟩ := ht
  rw [List.append_assoc] at h
  obtain ⟨x', y', rfl, -, -⟩ := h.unsplit_marks hne hm
  exact ⟨x', y', List.append_assoc _ _ _⟩

/-! ### What is read of both texts -/

/-- A local reader that takes no character which opens a reference, and leaves none in front, reads the
same from both texts. -/
theorem read_local {α : Type} {m : Reader α} {p : Char → Bool} (hm : Local p m)
    (hp : ∀ c, p c = true → ¬ Opens c) (h : Spliced s t) {a : α} {rest : List Char}
    (hs : m s = some (a, rest)) (hrest : ∀ c ∈ rest.head?, ¬ Opens c) :
    ∃ rest', m t = some (a, rest') ∧ Spliced rest rest' := by
  obtain ⟨w, rfl, hw, hall⟩ := hm hs
  obtain ⟨rest', rfl, hr⟩ := h.append_left fun c hc => hp c (hw c hc)
  exact ⟨rest', hall rest' (hr.head?_eq hrest), hr⟩

/-- A firm reader that takes no character which opens a reference reads the same from both texts. -/
theorem read_firm {α : Type} {m : Reader α} {p : Char → Bool} {e : Char} (hm : Firm e p m)
    (hp : ∀ c, p c = true → ¬ Opens c) (he : ¬ Opens e) (h : Spliced s t) {a : α}
    {rest : List Char} (hs : m s = some (a, rest)) :
    ∃ rest', m t = some (a, rest') ∧ Spliced rest rest' := by
  obtain ⟨w, rfl, hw, hall⟩ := hm hs
  obtain ⟨t', rfl, ht⟩ := h.append_left fun c hc => hp c (hw c hc)
  obtain ⟨rest', rfl, hr⟩ := ht.cons_left he
  exact ⟨rest', hall rest', hr⟩

/-- Behind every ampersand of the second text stands a reference of the first. -/
theorem resolvable (h : Spliced s t) (hs : Resolvable s) : Resolvable t := by
  rintro a b rfl
  obtain ⟨a', b', rfl, -, hb⟩ := h.unsplit (by decide)
  obtain ⟨⟨d, rest⟩, hr⟩ := Option.isSome_iff_exists.mp (hs rfl)
  obtain ⟨rest', hr', -⟩ :=
    hb.read_firm firm_reference (not_opens (by decide) (by decide)) (by decide) hr
  rw [hr']
  rfl

end Spliced

end BuildPlan.Xml
