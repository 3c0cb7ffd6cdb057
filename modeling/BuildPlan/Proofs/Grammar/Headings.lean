import BuildPlan.Proofs.Grammar.Properties

/-! # Headings as they are written

A heading is read back from its kind, its name and its base (`read_heading`). The kind is any word,
also one that begins another element, and then that other alternative does not apply: a group needs
a bracket, a block a parenthesis, and a property has no brace behind its value
(`read_singleAssignment_heading`). -/

namespace BuildPlan.Grammar

open BuildPlan.Grammar.Rule BuildPlan.Text

/-! ### Headings -/

/-- The text of the base in a heading. -/
def writeBase : Option String → List Char
  | none => []
  | some base => ' ' :: ':' :: ' ' :: base.toList

/-- The text of a heading. -/
def writeHeading (h : Heading) : List Char :=
  h.kind.toList ++ ' ' :: (h.name.toList ++ writeBase h.base)

/-- A character with which an identifier goes on, but no word does. -/
def isJoint (c : Char) : Bool := c == '.' || c == '-' || c == '$' || c == '\\'

theorem isJoint_or_isWordChar {c : Char} (h : isIdentifierChar c = true) :
    isJoint c = true ∨ isWordChar c = true := by
  simp only [isIdentifierChar, isJoint, Bool.or_eq_true] at h ⊢
  grind

theorem IsNameTail.split {s : List Char} (h : IsNameTail s) :
    ∃ p r, s = p ++ r ∧ (∀ c ∈ p, isWordChar c = true) ∧ IsNameTail r ∧
      (r = [] ∨ ∃ c t, r = c :: t ∧ isJoint c = true) := by
  induction h with
  | nil => exact ⟨[], [], rfl, by simp, .nil, Or.inl rfl⟩
  | @char c s hc hs ih =>
    rcases isJoint_or_isWordChar hc with hj | hw
    · exact ⟨[], c :: s, rfl, by simp, .char hc hs, Or.inr ⟨c, s, rfl, hj⟩⟩
    · obtain ⟨p, r, rfl, hp, hr⟩ := ih
      refine ⟨c :: p, r, rfl, fun d hd => ?_, hr⟩
      rcases List.mem_cons.mp hd with rfl | hd
      · exact hw
      · exact hp d hd
  | reference hv hs =>
    refine ⟨[], _, rfl, by simp, .reference hv hs, ?_⟩
    cases hv with
    | plain => exact Or.inr ⟨'$', _, rfl, rfl⟩
    | escaped => exact Or.inr ⟨'\\', _, rfl, rfl⟩

/-- The word with which an identifier begins, if it begins with one. -/
theorem read_word_identifier {w s : List Char} (hw : IsIdentifier w) (hs : Stops isWordChar s) :
    word.read (w ++ s) = none ∨ ∃ p r, word.read (w ++ s) = some (p, r ++ s) ∧ IsNameTail r ∧
      (r = [] ∨ ∃ c t, r = c :: t ∧ isJoint c = true) := by
  cases hw with
  | reference hv =>
    refine Or.inl (read_word_eq_none ?_)
    obtain ⟨c, t, rfl, -, -, hc⟩ := hv.exists_cons
    exact stops_cons.mpr hc
  | @word c s' hc ht =>
    obtain ⟨p, r, rfl, hp, htail, hr⟩ := ht.split
    refine Or.inr ⟨String.ofList (c :: p), r, ?_, htail, hr⟩
    have hstop : Stops isWordChar (r ++ s) := by
      rcases hr with rfl | ⟨d, t, rfl, hd⟩
      · exact hs
      · refine stops_cons.mpr ?_
        simp only [isJoint, Bool.or_eq_true, beq_iff_eq] at hd
        rcases hd with ((rfl | rfl) | rfl) | rfl <;> rfl
    have hword : word.read ((c :: p) ++ (r ++ s)) = some (String.ofList (c :: p), r ++ s) :=
      read_word ⟨hc, hp⟩ hstop
    rw [← hword]
    simp

section Heading
variable {h : Heading} (hk : IsWord h.kind.toList) (hn : IsIdentifier h.name.toList)
  (hb : ∀ b ∈ h.base, IsIdentifier b.toList) (s : List Char)

include hk in
theorem read_word_writeHeading :
    word.read (writeHeading h ++ ' ' :: '{' :: s) =
      some (h.kind, ' ' :: (h.name.toList ++ (writeBase h.base ++ ' ' :: '{' :: s))) := by
  have hw := read_word (s := ' ' :: (h.name.toList ++ (writeBase h.base ++ ' ' :: '{' :: s))) hk
    (stops_cons.mpr rfl)
  rw [String.ofList_toList] at hw
  rw [← hw]
  simp [writeHeading]

theorem stops_writeBase : Stops isLexical (writeBase h.base ++ ' ' :: '{' :: s) := by
  cases h.base <;> exact stops_cons.mpr (by decide)

include hn in
theorem skipTrivia_name :
    skipTrivia (' ' :: (h.name.toList ++ (writeBase h.base ++ ' ' :: '{' :: s))) =
      h.name.toList ++ (writeBase h.base ++ ' ' :: '{' :: s) := by
  rw [skipTrivia_blank (by decide), skipTrivia_identifier hn]

theorem skipTrivia_brace : skipTrivia (' ' :: '{' :: s) = '{' :: s := by
  rw [skipTrivia_blank (by decide), skipTrivia_cons (by decide) (by decide)]

include hk hn hb in
theorem read_heading :
    heading.read (writeHeading h ++ ' ' :: '{' :: s) = some (h, '{' :: s) := by
  have hbase : (optional do
      padded (symbol ':')
      padded identifier).read (skipTrivia (writeBase h.base ++ ' ' :: '{' :: s)) =
        some (h.base, '{' :: s) := by
    cases hbase : h.base with
    | none =>
      rw [writeBase, List.nil_append, skipTrivia_brace, read_optional, read_bind, read_padded,
        read_symbol_eq_none (by simp)]
      rfl
    | some b =>
      have hi := hb b hbase
      have hread := read_identifier (s := ' ' :: '{' :: s) hi (stops_cons.mpr (by decide))
      rw [writeBase, List.cons_append, List.cons_append, List.cons_append,
        skipTrivia_blank (by decide), skipTrivia_cons (by decide) (by decide), read_optional,
        read_bind, read_padded, read_symbol_cons, if_pos rfl, Option.map_some, Option.bind_some,
        skipTrivia_blank (by decide), skipTrivia_identifier hi, read_padded, hread,
        Option.map_some, skipTrivia_brace, String.ofList_toList]
      rfl
  unfold heading
  rw [read_bind, read_padded, read_word_writeHeading hk, Option.map_some, Option.bind_some,
    skipTrivia_name hn, read_bind, read_padded, read_identifier hn (stops_writeBase s).isNameChar,
    Option.map_some, Option.bind_some, read_bind, hbase, String.ofList_toList]
  rfl

/-- What stands behind the first word of an identifier does not begin with blanks or a word. -/
theorem skipTrivia_joint {r t : List Char} (hr : r = [] ∨ ∃ c u, r = c :: u ∧ isJoint c = true) :
    skipTrivia (r ++ t) = skipTrivia t ∧ r = [] ∨
      skipTrivia (r ++ t) = r ++ t ∧ ∃ c u, r = c :: u ∧ isJoint c = true := by
  rcases hr with rfl | ⟨c, u, rfl, hc⟩
  · exact Or.inl ⟨rfl, rfl⟩
  · refine Or.inr ⟨?_, c, u, rfl, hc⟩
    simp only [isJoint, Bool.or_eq_true, beq_iff_eq] at hc
    rcases hc with ((rfl | rfl) | rfl) | rfl <;> exact skipTrivia_cons (by decide) (by decide) _

include hk hn in
theorem read_configurationGroup_heading :
    configurationGroup.read (writeHeading h ++ ' ' :: '{' :: s) = none := by
  have hw := read_word_writeHeading hk s
  by_cases hc : h.kind = "configuration"
  · have hbracket : (skipTrivia (writeBase h.base ++ ' ' :: '{' :: s)).head? ≠ some '[' := by
      cases h.base with
      | none => rw [writeBase, List.nil_append, skipTrivia_brace]; simp
      | some b =>
        rw [writeBase, List.cons_append, skipTrivia_blank (by decide), List.cons_append,
          skipTrivia_cons (by decide) (by decide)]
        simp
    unfold configurationGroup
    rw [read_bind, read_padded, read_keyword_of_word hw, if_pos hc, Option.map_some,
      skipTrivia_name hn, Option.bind_some, read_bind, read_padded,
      read_identifier hn (stops_writeBase s).isNameChar, Option.map_some, Option.bind_some,
      read_bind, read_padded, read_symbol_eq_none hbracket]
    rfl
  · exact read_configurationGroup_of_word hw hc

include hk hn in
theorem read_conditional_heading : conditional.read (writeHeading h ++ ' ' :: '{' :: s) = none := by
  have hw := read_word_writeHeading hk s
  by_cases hc : h.kind = "if"
  · have hparen := hn.head?_ne (c := '(') (writeBase h.base ++ ' ' :: '{' :: s) (by decide)
    unfold conditional
    rw [read_bind, read_keyword_of_word hw, if_pos hc, Option.bind_some, read_bind, read_trivia,
      skipTrivia_name hn, Option.bind_some, read_bind, read_parenthesized_eq_none hparen]
    rfl
  · exact read_conditional_of_word hw hc

/-- The rest of a heading in which a name of a property was read: it does not go on with words, and
if there is a colon, the base and a brace are behind it. -/
def HeadingRest (base : Option String) (s t : List Char) : Prop :=
  Stops isWordStart t ∧ t.head? ≠ some '[' ∧
    (t.head? = some ':' → ∃ b, base = some b ∧ t = ':' :: ' ' :: (b.toList ++ ' ' :: '{' :: s))

theorem headingRest_writeBase (base : Option String) (s : List Char) :
    HeadingRest base s (skipTrivia (writeBase base ++ ' ' :: '{' :: s)) := by
  cases base with
  | none =>
    rw [writeBase, List.nil_append, skipTrivia_brace]
    exact ⟨stops_cons.mpr (by decide), by simp, by simp⟩
  | some b =>
    rw [writeBase, List.cons_append, List.cons_append, List.cons_append,
      skipTrivia_blank (by decide), skipTrivia_cons (by decide) (by decide)]
    exact ⟨stops_cons.mpr (by decide), by simp, fun _ => ⟨b, rfl, rfl⟩⟩

theorem headingRest_joint (base : Option String) {c : Char} (hc : isJoint c = true)
    (s t : List Char) : HeadingRest base s (c :: t) := by
  simp only [isJoint, Bool.or_eq_true, beq_iff_eq] at hc
  rcases hc with ((rfl | rfl) | rfl) | rfl <;>
    exact ⟨stops_cons.mpr (by decide), by simp, by simp⟩

include hn in
theorem read_nameWord_heading :
    nameWord.read (h.name.toList ++ (writeBase h.base ++ ' ' :: '{' :: s)) = none ∨
      ∃ w t, nameWord.read (h.name.toList ++ (writeBase h.base ++ ' ' :: '{' :: s)) = some (w, t) ∧
        HeadingRest h.base s t := by
  rcases read_word_identifier hn (stops_writeBase (h := h) s).isWordChar with
    h0 | ⟨w, r, hw, -, hr⟩
  · exact Or.inl (read_nameWord_eq_none fun w t h => by rw [h0] at h; cases h)
  · by_cases hi : w = "if"
    · refine Or.inl (read_nameWord_eq_none fun v t h => ?_)
      rw [hw] at h
      cases h
      exact hi
    · refine Or.inr ⟨w, skipTrivia (r ++ (writeBase h.base ++ ' ' :: '{' :: s)), ?_, ?_⟩
      · unfold nameWord
        rw [read_padded, read_keep, hw]
        simp [Option.filter, hi]
      · rcases skipTrivia_joint hr with ⟨he, -⟩ | ⟨he, c, u, rfl, hc⟩
        · rw [he]
          exact headingRest_writeBase h.base s
        · rw [he]
          exact headingRest_joint h.base hc s _

include hn in
theorem read_nameParts_heading :
    nameParts.read (h.name.toList ++ (writeBase h.base ++ ' ' :: '{' :: s)) = none ∨
      ∃ ws t,
        nameParts.read (h.name.toList ++ (writeBase h.base ++ ' ' :: '{' :: s)) = some (ws, t) ∧
          HeadingRest h.base s t := by
  unfold nameParts many1
  rw [read_andThen, ← nameWord]
  rcases read_nameWord_heading hn s with h0 | ⟨w, t, hw, ht⟩
  · rw [h0]
    exact Or.inl rfl
  · have hm : Repeats nameWord t [] t := .stop (read_nameWord_eq_none (word_eq_of_stops ht.1))
    rw [hw, Option.bind_some, read_map, hm.read_many]
    exact Or.inr ⟨_, t, rfl, ht⟩

end Heading

section Base
variable {b : List Char} (hb : IsIdentifier b) (s : List Char)
include hb

/-- Behind a keyword at the front of a base there is no quote. -/
theorem head?_ne_quote_of_base {k : String} {t : List Char}
    (h : (keyword k).read (b ++ ' ' :: '{' :: s) = some ((), t)) :
    (skipTrivia t).head? ≠ some '"' := by
  rcases read_word_identifier (s := ' ' :: '{' :: s) hb (stops_cons.mpr (by decide)) with
    h0 | ⟨w, r, hw, -, hr⟩
  · unfold keyword at h
    rw [read_map, read_keep, h0] at h
    cases h
  · rw [read_keyword_of_word hw] at h
    split at h
    · cases h
      rcases skipTrivia_joint (t := ' ' :: '{' :: s) hr with ⟨he, -⟩ | ⟨he, c, u, rfl, hc⟩
      · rw [he, skipTrivia_brace]
        simp
      · rw [he]
        intro hq
        obtain rfl : c = '"' := Option.some.inj hq
        cases hc
    · cases h

theorem read_xmlBlock_base : xmlBlock.read (b ++ ' ' :: '{' :: s) = none := by
  unfold xmlBlock
  rw [read_select, read_bind]
  cases h : (keyword "xml").read (b ++ ' ' :: '{' :: s) with
  | none => rfl
  | some p =>
    rw [Option.bind_some, read_bind, read_trivia, Option.bind_some, read_bind, fence,
      read_exactly_eq_none (head?_ne_quote_of_base hb s h)]
    rfl

theorem read_patternValue_base (k : String) (build : String → Bool → Value) :
    (patternValue k build).read (b ++ ' ' :: '{' :: s) = none := by
  have hbang := hb.head?_ne (c := '!') (' ' :: '{' :: s) (by decide)
  unfold patternValue
  rw [read_bind, read_optional, read_symbol_eq_none hbang, Option.map_none, Option.none_or,
    Option.bind_some, read_bind]
  cases h : (keyword k).read (b ++ ' ' :: '{' :: s) with
  | none => rfl
  | some p =>
    rw [Option.bind_some, read_bind, read_trivia, Option.bind_some, read_bind,
      read_quoted_eq_none (head?_ne_quote_of_base hb s h)]
    rfl

/-- Whatever value the base in a heading is read as, the brace is left. -/
theorem read_value_base {t : List Char} {v : Value}
    (h : value.read (b ++ ' ' :: '{' :: s) = some (v, t)) : t = ' ' :: '{' :: s := by
  have hbare := read_bareWord (s := ' ' :: '{' :: s) hb (stops_cons.mpr (by decide))
  have hbracket := hb.head?_ne (c := '[') (' ' :: '{' :: s) (by decide)
  have hquote := hb.head?_ne (c := '"') (' ' :: '{' :: s) (by decide)
  have hstep : ∀ inner, (valueStep inner).read (b ++ ' ' :: '{' :: s) = some (v, t) →
      t = ' ' :: '{' :: s := by
    intro inner h
    unfold valueStep at h
    rw [read_firstOf_cons, read_firstOf_cons, read_firstOf_cons, read_firstOf_cons,
      read_firstOf_cons, read_map, read_firstOf_cons, read_xmlBlock_base hb,
      read_patternValue_base hb, read_patternValue_base hb, read_arrayOf_eq_none _ hbracket] at h
    have hkeyed : (keyed inner).read (b ++ ' ' :: '{' :: s) =
        some (.literal (String.ofList b), ' ' :: '{' :: s) := by
      unfold keyed
      rw [read_bind, read_firstOf_cons, read_firstOf_cons, read_quoted_eq_none hquote, hbare,
        Option.none_or, Option.some_or, Option.bind_some, read_bind, read_optional, read_bind,
        read_trivia, Option.bind_some, skipTrivia_brace, read_bind, read_symbol_eq_none (by simp)]
      rfl
    unfold noneValue at h
    rw [hkeyed, read_map, read_keep, hbare] at h
    by_cases hn : String.ofList b = "none" <;> simp [Option.filter, hn] at h <;> exact h.2.symm
  obtain ⟨inner, hi⟩ := exists_nestedUpTo valueStep (b ++ ' ' :: '{' :: s)
  unfold value at h
  rw [read_nested, hi] at h
  exact hstep inner h

end Base

section Heading
variable {h : Heading} (hk : IsWord h.kind.toList) (hn : IsIdentifier h.name.toList)
  (hb : ∀ b ∈ h.base, IsIdentifier b.toList) (s : List Char)
include hk hn

omit hn in
theorem read_action_heading {a : Action} {t : List Char}
    (ha : action.read (writeHeading h ++ ' ' :: '{' :: s) = some (a, t)) :
    t = ' ' :: (h.name.toList ++ (writeBase h.base ++ ' ' :: '{' :: s)) := by
  have hw := read_word_writeHeading hk s
  unfold action at ha
  rw [read_firstOf_cons, read_firstOf_cons, read_map, read_map, read_keyword_of_word hw,
    read_keyword_of_word hw] at ha
  split at ha <;> split at ha <;> simp at ha <;> exact ha.2.symm

theorem read_arrayAssignment_heading :
    arrayAssignment.read (writeHeading h ++ ' ' :: '{' :: s) = none := by
  unfold arrayAssignment
  rw [read_bind, read_padded]
  cases ha : action.read (writeHeading h ++ ' ' :: '{' :: s) with
  | none => rfl
  | some p =>
    obtain ⟨a, t⟩ := p
    obtain rfl := read_action_heading hk s ha
    rw [Option.map_some, Option.bind_some, skipTrivia_name hn, read_bind]
    rcases read_nameParts_heading hn s with h0 | ⟨ws, t, hr, hstop, hbracket, -⟩
    · rw [h0]
      rfl
    · have hg := read_guard_absent (read_conditional_eq_none (read_keyword_eq_none hstop "if"))
      rw [hr, Option.bind_some, read_bind, hg, Option.bind_some, read_bind,
        read_arrayOf_eq_none _ hbracket]
      rfl

include hb

theorem read_singleAssignment_heading :
    singleAssignment.read (writeHeading h ++ ' ' :: '{' :: s) = none := by
  have hg := read_guard_absent (read_conditional_heading hk hn s)
  unfold singleAssignment
  rw [read_bind, hg, Option.bind_some, read_bind, read_padded]
  cases ha : action.read (writeHeading h ++ ' ' :: '{' :: s) with
  | none => rfl
  | some p =>
    obtain ⟨a, t⟩ := p
    obtain rfl := read_action_heading hk s ha
    rw [Option.map_some, Option.bind_some, skipTrivia_name hn, read_bind]
    rcases read_nameParts_heading hn s with h0 | ⟨ws, t, hr, -, -, hcolon⟩
    · rw [h0]
      rfl
    · rw [hr, Option.bind_some, read_bind, read_padded]
      by_cases hc : t.head? = some ':'
      · obtain ⟨b, hbase, rfl⟩ := hcolon hc
        have hi := hb b hbase
        rw [read_symbol_cons, if_pos rfl, Option.map_some, Option.bind_some,
          skipTrivia_blank (by decide), skipTrivia_identifier hi, read_bind]
        cases hv : value.read (b.toList ++ ' ' :: '{' :: s) with
        | none => rfl
        | some q =>
          obtain ⟨v, t⟩ := q
          obtain rfl := read_value_base hi s hv
          rw [Option.bind_some, read_bind, read_absent_symbol, skipTrivia_brace,
            if_pos List.head?_cons]
          rfl
      · rw [read_symbol_eq_none hc]
        rfl

end Heading

end BuildPlan.Grammar
