import BuildPlan.Proofs.Grammar.Consuming

/-! # Groups and the depth in parentheses

A text is one group in parentheses if its first parenthesis opens it, its last one closes it, and it is
not closed before: behind every character but the last one, more parentheses have been opened than closed
(`IsOneGroup`). The rule for groups reads a whole text exactly if it is such a group
(`parseEnclosed_eq_ok_iff`). -/

namespace BuildPlan

namespace Grammar

open BuildPlan.Grammar.Rule

/-! ### Depth -/

/-- A text closes the parentheses that are open and its own if it closes as many as there are, and no
front of it closes more. -/
theorem closesAll_iff : ∀ {s : List Char} {n : Nat}, closesAll n s = true ↔
    s.count ')' = n + s.count '(' ∧ ∀ p, p <+: s → p.count ')' ≤ n + p.count '('
  | [], n => by
    simp only [closesAll, beq_iff_eq, List.count_nil, List.prefix_nil, forall_eq]
    omega
  | c :: s, n => by
    have hprefix : (∀ p, p <+: c :: s → p.count ')' ≤ n + p.count '(') ↔
        ∀ p, p <+: s → (c :: p).count ')' ≤ n + (c :: p).count '(' := by
      constructor
      · exact fun h p hp => h (c :: p) (List.cons_prefix_cons.mpr ⟨rfl, hp⟩)
      · intro h p hp
        rcases List.prefix_cons_iff.mp hp with rfl | ⟨q, rfl, hq⟩
        · exact Nat.zero_le _
        · exact h q hq
    rw [closesAll, hprefix]
    by_cases hopen : c = '('
    · subst hopen
      have hclose : ∀ p : List Char, ('(' :: p).count ')' = p.count ')' := fun p =>
        List.count_cons_of_ne (by decide)
      simp only [if_pos, closesAll_iff, hclose, List.count_cons_self]
      refine and_congr (by omega) (forall₂_congr fun p _ => by omega)
    · have hcount : ∀ p : List Char, (c :: p).count '(' = p.count '(' := fun p =>
        List.count_cons_of_ne hopen
      rw [if_neg hopen]
      simp only [hcount]
      by_cases hclose : c = ')'
      · subst hclose
        simp only [if_pos, List.count_cons_self, Bool.and_eq_true, bne_iff_ne, closesAll_iff]
        constructor
        · rintro ⟨hn, heq, hle⟩
          exact ⟨by omega, fun p hp => by have := hle p hp; omega⟩
        · rintro ⟨heq, hle⟩
          -- the front that is this parenthesis alone shows that one is open
          have hn := hle [] List.nil_prefix
          simp only [List.count_nil] at hn
          exact ⟨by omega, by omega, fun p hp => by have := hle p hp; omega⟩
      · simp only [if_neg hclose, closesAll_iff, List.count_cons_of_ne hclose]

/-- A text is one group in parentheses: it is opened by its first character, closed by its last one,
and by none between. -/
structure IsOneGroup (s : List Char) : Prop where
  opens : s.head? = some '('
  closes : s.getLast? = some ')'
  even : s.count '(' = s.count ')'
  inside : ∀ p, p <+: s → p ≠ [] → p ≠ s → p.count ')' < p.count '('

theorem count_opening (w : List Char) : ('(' :: w ++ [')']).count '(' = w.count '(' + 1 := by
  rw [List.count_append, List.count_cons_self]
  rfl

theorem count_closing (w : List Char) : ('(' :: w ++ [')']).count ')' = w.count ')' + 1 := by
  rw [List.count_append, List.count_cons_of_ne (by decide)]
  rfl

/-- What stands between the two parentheses is balanced. -/
theorem isOneGroup_iff {s : List Char} :
    IsOneGroup s ↔ ∃ w, Balanced w ∧ s = '(' :: w ++ [')'] := by
  constructor
  · rintro ⟨hopens, hcloses, heven, hinside⟩
    obtain ⟨w, rfl⟩ : ∃ w, s = '(' :: w ++ [')'] := by
      obtain ⟨u, rfl⟩ := List.getLast?_eq_some_iff.mp hcloses
      cases u with
      | nil => cases hopens
      | cons c w => exact ⟨w, by rw [Option.some.inj hopens]⟩
    rw [count_opening, count_closing] at heven
    refine ⟨w, balanced_iff.mpr (closesAll_iff.mpr ⟨by omega, fun p hp => ?_⟩), rfl⟩
    have hproper : '(' :: p ≠ '(' :: w ++ [')'] := by
      intro he
      have hlen := congrArg List.length he
      simp only [List.length_cons, List.length_append, List.length_nil] at hlen
      have := hp.length_le
      omega
    have hlt := hinside ('(' :: p)
      (List.cons_prefix_cons.mpr ⟨rfl, hp.trans (List.prefix_append w [')'])⟩)
      (List.cons_ne_nil _ _) hproper
    rw [List.count_cons_of_ne (by decide), List.count_cons_self] at hlt
    omega
  · rintro ⟨w, hw, rfl⟩
    obtain ⟨heq, hle⟩ := closesAll_iff.mp (balanced_iff.mp hw)
    refine ⟨rfl, by rw [List.getLast?_append]; rfl, ?_, fun p hp hne hproper => ?_⟩
    · rw [count_opening, count_closing]
      omega
    · obtain ⟨q, rfl, hq⟩ := (List.prefix_cons_iff.mp hp).resolve_left hne
      have hqw : q <+: w := (List.prefix_concat_iff.mp hq).resolve_left fun he =>
        hproper (by rw [he]; rfl)
      have := hle q hqw
      rw [List.count_cons_of_ne (by decide), List.count_cons_self]
      omega

/-- The rule reads a whole text if it is one group, and finds the text. -/
theorem read_group_eq_some_iff {s g : List Char} :
    (group '(' ')').read s = some (g, []) ↔ g = s ∧ IsOneGroup s := by
  rw [isOneGroup_iff]
  constructor
  · intro h
    obtain ⟨u, hs, rfl, w, hw, hg⟩ := consumes_group s g [] h
    rw [List.append_nil] at hs
    exact ⟨hs.symm, w, hw, hs.trans hg⟩
  · rintro ⟨rfl, w, hw, rfl⟩
    exact read_group hw []

end Grammar

/-- **One group in parentheses is read, and nothing else**: a text that begins with an opening
parenthesis and ends with a closing one, that has as many of the one kind as of the other, and of which
every front but the empty one and the text itself has more opening than closing ones. What is found is
the text itself. -/
theorem parseEnclosed_eq_ok_iff (source text : String) :
    parseEnclosed source = .ok text ↔ text = source ∧ Grammar.IsOneGroup source.toList := by
  unfold parseEnclosed
  rw [Grammar.Rule.parse_eq_ok_iff, Grammar.Rule.read_map, Option.map_eq_some_iff]
  constructor
  · rintro ⟨⟨g, t⟩, hg, he⟩
    obtain ⟨rfl, rfl⟩ := Prod.mk.inj he
    obtain ⟨rfl, hgroup⟩ := Grammar.read_group_eq_some_iff.mp hg
    exact ⟨String.ofList_toList, hgroup⟩
  · rintro ⟨rfl, hgroup⟩
    exact ⟨(text.toList, []), Grammar.read_group_eq_some_iff.mpr ⟨rfl, hgroup⟩,
      by rw [String.ofList_toList]⟩

/-- Two groups in a row are not one, and neither is a group that is closed too often. -/
example : (parseEnclosed "(t(e()s)t)").toOption = some "(t(e()s)t)" ∧
    (parseEnclosed "()()").toOption = none ∧ (parseEnclosed "())").toOption = none := by
  decide +kernel

end BuildPlan
