import BuildPlan.Proofs.Grammar.Documents

/-! # Bodies that are not closed

Where the body of an element is not closed, no run of the rule for elements gets to the end of the
text or to the end of the body around it. Behind a condition nothing else than the body is read
(`read_element_unclosed_block`). Behind a heading the first word is read as a command, and then the
name is in the way: at most its own first word is read as another command, and the colon or brace
that is left begins no element (`not_ended_of_heading`). -/

namespace BuildPlan.Grammar

open BuildPlan.Text BuildPlan.Grammar.Rule

/-- The end of the text, or the brace that closes a body. -/
def Ended (s : List Char) : Prop := ∀ c ∈ s.head?, c = '}'

theorem ended_nil : Ended [] := nofun

theorem ended_brace (s : List Char) : Ended ('}' :: s) := by simp [Ended]

/-- Where a body may end there is no element. -/
theorem Ended.read_element_eq_none {s : List Char} (hs : Ended s) (inner : Rule (List Element)) :
    (element inner).read s = none := by
  refine Grammar.read_element_eq_none inner (fun c hc => ?_) fun hc => ?_
  · rw [hs c hc]
    rfl
  · cases hs '/' hc

/-! ### Comments between elements -/

theorem skipTrivia_of_dropWhile {s : List Char} (hs : s.dropWhile isBlank = s)
    (hc : ¬ ∃ t, s = '/' :: '/' :: t) : skipTrivia s = s := by
  cases s with
  | nil => rfl
  | cons c s =>
    have hb : ¬ isBlank c = true := by
      intro hb
      have hstop := stops_dropWhile isBlank (c :: s)
      rw [hs, stops_cons, hb] at hstop
      cases hstop
    refine (if_neg hb).trans (if_neg ?_)
    rintro ⟨rfl, hhead⟩
    obtain ⟨t, rfl⟩ := List.head?_eq_some_iff.mp hhead
    exact hc ⟨t, rfl⟩

section Rounds
variable {inner : Rule (List Element)} {s t r : List Char} {e : Element} {es : List Element}

theorem of_read_elementRound (h : (elementRound inner).read s = some (e, t)) :
    ∃ u, (element inner).read s = some (e, u) ∧ t = u.dropWhile isBlank := by
  obtain ⟨e', u, he, hb⟩ := of_read_bind h
  rw [read_bind, read_blanks] at hb
  cases hb
  exact ⟨u, he, rfl⟩

/-- Comments are elements, so a run of the rule for elements goes on behind them. -/
theorem repeats_skipTrivia (h : Repeats (elementRound inner) (t.dropWhile isBlank) es r) :
    ∃ es', Repeats (elementRound inner) (skipTrivia t) es' r := by
  generalize hs : t.dropWhile isBlank = s at h
  have hskip : skipTrivia t = skipTrivia s := by rw [← hs, skipTrivia_dropWhile]
  have hblank : s.dropWhile isBlank = s := by
    rw [← hs, (stops_dropWhile isBlank t).dropWhile_eq]
  rw [hskip]
  clear hs hskip
  induction h with
  | @stop s hn =>
    have hcomment : ¬ ∃ u, s = '/' :: '/' :: u := by
      rintro ⟨u, rfl⟩
      rw [read_elementRound (read_element_comment (read_comment u))] at hn
      cases hn
    rw [skipTrivia_of_dropWhile hblank hcomment]
    exact ⟨[], .stop hn⟩
  | @step s u r e es he hl hr ih =>
    by_cases hcomment : ∃ v, s = '/' :: '/' :: v
    · obtain ⟨v, rfl⟩ := hcomment
      rw [read_elementRound (read_element_comment (read_comment v))] at he
      cases he
      rw [skipTrivia_comment, ← skipTrivia_dropWhile]
      exact ih (stops_dropWhile isBlank _).dropWhile_eq
    · rw [skipTrivia_of_dropWhile hblank hcomment]
      exact ⟨_, .step he hl hr⟩

/-- No element begins with this character, and no body ends with it. -/
theorem not_ended_of_head {c : Char} (hc : (skipTrivia t).head? = some c)
    (hw : isWordStart c = false) (hs : c ≠ '/') (hb : c ≠ '}')
    (h : Repeats (elementRound inner) (t.dropWhile isBlank) es r) : ¬ Ended r := by
  obtain ⟨es', h'⟩ := repeats_skipTrivia h
  have hn : (element inner).read (skipTrivia t) = none := by
    refine read_element_eq_none inner (fun d hd => ?_) fun hd => ?_
    · obtain rfl : c = d := Option.some.inj (hc.symm.trans hd)
      exact hw
    · exact hs (Option.some.inj (hc.symm.trans hd))
  cases h' with
  | stop => exact fun he => hb (he c hc)
  | step he =>
    obtain ⟨u, hu, -⟩ := of_read_elementRound he
    rw [hn] at hu
    cases hu

end Rounds

/-! ### Bodies behind a condition -/

section Block
variable {inner : Rule (List Element)} {s v : List Char} {c : String}

/-- What stands behind the word of a condition. -/
theorem word_of_read_conditional {t : List Char} (h : conditional.read s = some (c, t)) :
    ∃ y, word.read s = some ("if", y) ∧ (skipTrivia y).head? = some '(' := by
  obtain ⟨_, y, hk, h⟩ := of_read_bind h
  obtain ⟨_, y', ht, h⟩ := of_read_bind h
  obtain ⟨w, u, hp, -⟩ := of_read_bind h
  rw [read_trivia] at ht
  cases ht
  refine ⟨y, word_of_read_keyword hk, ?_⟩
  by_cases hy : (skipTrivia y).head? = some '('
  · exact hy
  · rw [read_parenthesized_eq_none hy] at hp
    cases hp

theorem read_identifier_mark {c : Char} {s : List Char} (hs : s.head? = some c)
    (hc : isWordStart c = false ∧ c ≠ '$' ∧ c ≠ '\\') : identifier.read s = none := by
  refine read_identifier_eq_none fun d hd => ?_
  obtain rfl : c = d := Option.some.inj (hs.symm.trans hd)
  simp [hc]

theorem read_object_of_name {y : List Char} {w : String} (hw : word.read s = some (w, y))
    (hi : identifier.read (skipTrivia y) = none) : (object inner).read s = none :=
  read_object_eq_none inner hw fun i u h => by rw [hi] at h; cases h

theorem read_element_unclosed_block (hc : (padded conditional).read s = some (c, '{' :: v))
    (hb : (body inner).read ('{' :: v) = none) : (element inner).read s = none := by
  rw [read_padded] at hc
  obtain ⟨⟨c', t⟩, hconditional, he⟩ := Option.map_eq_some_iff.mp hc
  obtain ⟨rfl, ht⟩ := Prod.mk.inj he
  dsimp only at ht
  obtain ⟨y, hw, hy⟩ := word_of_read_conditional hconditional
  have hguard : guard.read s = some (some c', '{' :: v) := by
    unfold guard
    rw [read_optional, read_padded, hconditional, ← ht]
    rfl
  have hblock : (block inner).read s = none := by
    unfold block
    rw [read_bind, read_padded, hconditional, Option.map_some, Option.bind_some, ht, read_bind, hb]
    rfl
  have hword : word.read ('{' :: v) = none := read_word_eq_none (stops_cons.mpr rfl)
  have haction : action.read ('{' :: v) = none := rfl
  have hinvocation : invocation.read s = none := by
    unfold invocation
    rw [read_bind, hguard, Option.bind_some, read_bind, read_keep, hword]
    rfl
  rw [read_element, read_map, read_comment_of_word hw, read_map,
    read_configurationGroup_of_word hw (by decide), hblock, read_map,
    read_singleAssignment_eq_none hguard haction, read_map,
    read_arrayAssignment_eq_none (read_action_of_word hw (by decide) (by decide)),
    read_object_of_name hw (read_identifier_mark hy (by decide)), read_map, hinvocation]
  rfl

end Block

/-! ### Bodies behind a heading -/

section Word
variable {inner : Rule (List Element)} {s y : List Char} {w : String}
  (hw : word.read s = some (w, y))
include hw

theorem read_conditional_of_head (hp : (skipTrivia y).head? ≠ some '(') :
    conditional.read s = none := by
  unfold conditional
  rw [read_bind, read_keyword_of_word hw]
  split
  · rw [Option.bind_some, read_bind, read_trivia, Option.bind_some, read_bind,
      read_parenthesized_eq_none hp]
    rfl
  · rfl

/-- A command without an argument is its word. -/
theorem rest_of_read_invocation {t : List Char} {i : Invocation}
    (hp : (skipTrivia y).head? ≠ some '(') (hq : (skipTrivia y).head? ≠ some '"')
    (hi : invocation.read s = some (i, t)) : t = y := by
  have hguard := read_guard_absent (read_conditional_of_head hw hp)
  have hhead : ∀ c, isBlank c = false → c ≠ '/' → (skipTrivia y).head? ≠ some c →
      (y.dropWhile fun c => c == ' ' || c == '\t').head? ≠ some c := by
    intro c hc hslash hne h
    obtain ⟨u, hu⟩ := List.head?_eq_some_iff.mp h
    have hblank : isBlankText (y.takeWhile fun c => c == ' ' || c == '\t') = true := by
      refine List.all_eq_true.mpr fun d hd => ?_
      have hd := List.all_eq_true.mp List.all_takeWhile d hd
      simp only [Bool.or_eq_true, beq_iff_eq] at hd
      rcases hd with rfl | rfl <;> rfl
    have hskip := skipTrivia_blanks hblank (y.dropWhile fun c => c == ' ' || c == '\t')
    rw [List.takeWhile_append_dropWhile, hu, skipTrivia_cons hc hslash] at hskip
    exact hne (by rw [hskip]; rfl)
  have hargument : spacedArgument.read y = none := by
    unfold spacedArgument argument
    rw [read_bind, read_spaces, Option.bind_some, read_firstOf_cons, read_firstOf_cons,
      read_quoted_eq_none (hhead '"' (by decide) (by decide) hq), read_map,
      read_parenthesized_eq_none (hhead '(' (by decide) (by decide) hp)]
    rfl
  unfold spacedArgument at hargument
  unfold invocation at hi
  rw [read_bind, hguard, Option.bind_some, read_bind, read_keep, hw] at hi
  cases hfree : !reserved.contains w with
  | false =>
    simp only [Option.filter, hfree] at hi
    cases hi
  | true =>
    simp only [Option.filter, hfree, if_true, Option.bind_some] at hi
    rw [read_bind, read_optional, hargument] at hi
    cases hi
    rfl

end Word

/-- The rule for the base in a heading. -/
def headingBase : Rule (Option String) := optional do
  padded (symbol ':')
  padded identifier

theorem head?_of_read_headingBase {s v : List Char} {b : Option String}
    (h : headingBase.read s = some (b, '{' :: v)) : s.head? = some ':' ∨ s.head? = some '{' := by
  by_cases hs : s.head? = some ':'
  · exact .inl hs
  · unfold headingBase at h
    rw [read_optional, read_bind, read_padded, read_symbol_eq_none hs] at h
    cases h
    exact .inr rfl

/-- A character that may stand behind the first word of the name in a heading, or behind the name.
-/
def isMark (c : Char) : Bool := isJoint c || c == ':' || c == '{'

section Name
variable {inner : Rule (List Element)} {x y u v : List Char} {w : String} {b : Option String}
  (hw : word.read x = some (w, y)) {c : Char} (hy : (skipTrivia y).head? = some c)
  (hc : isMark c = true)
include hw hy hc

/-- A word with such a character behind it is read as a command, if it is not the kind of an object
or a group. -/
theorem rest_of_read_element {e : Element} {t : List Char} (hg : configurationGroup.read x = none)
    (ho : (object inner).read x = none) (h : (element inner).read x = some (e, t)) : t = y := by
  have hne : ∀ d, isMark d = false → (skipTrivia y).head? ≠ some d := by
    intro d hd h
    obtain rfl : c = d := Option.some.inj (hy.symm.trans h)
    rw [hc] at hd
    cases hd
  have hstop : Stops isWordStart (skipTrivia y) := by
    intro d hd
    obtain rfl : c = d := Option.some.inj (hy.symm.trans hd)
    simp only [isMark, isJoint, Bool.or_eq_true, beq_iff_eq] at hc
    rcases hc with ((((rfl | rfl) | rfl) | rfl) | rfl) | rfl <;> rfl
  have hconditional := read_conditional_of_head hw (hne '(' (by decide))
  have hnames : nameParts.read (skipTrivia y) = none := by
    unfold nameParts many1
    rw [read_andThen, ← nameWord, read_nameWord_eq_none (word_eq_of_stops hstop)]
    rfl
  have haction : ∀ {α : Type} (f : Action → Rule α), (∀ a, (f a).read (skipTrivia y) = none) →
      ((padded action) >>= f).read x = none := by
    intro α f hf
    have hread : action.read x = none ∨ ∃ a, action.read x = some (a, y) := by
      unfold action
      rw [read_firstOf_cons, read_firstOf_cons, read_map, read_map, read_keyword_of_word hw,
        read_keyword_of_word hw]
      by_cases hset : w = "set"
      · exact .inr ⟨.set, by rw [if_pos hset]; rfl⟩
      · by_cases hadd : w = "add"
        · exact .inr ⟨.add, by rw [if_neg hset, if_pos hadd]; rfl⟩
        · exact .inl (by rw [if_neg hset, if_neg hadd]; rfl)
    rw [read_bind, read_padded]
    rcases hread with h | ⟨a, h⟩
    · rw [h]
      rfl
    · rw [h]
      exact hf a
  have hsingle : singleAssignment.read x = none := by
    unfold singleAssignment
    rw [read_bind, read_guard_absent hconditional, Option.bind_some]
    exact haction _ fun a => by rw [read_bind, hnames]; rfl
  have harray : arrayAssignment.read x = none := by
    unfold arrayAssignment
    exact haction _ fun a => by rw [read_bind, hnames]; rfl
  rw [read_element, read_map, read_comment_of_word hw, read_map, hg,
    read_block_eq_none inner hconditional, read_map, hsingle, read_map, harray, ho, read_map] at h
  obtain ⟨⟨i, t'⟩, hi, he⟩ := Option.map_eq_some_iff.mp h
  cases he
  exact rest_of_read_invocation hw (hne '(' (by decide)) (hne '"' (by decide)) hi

end Name

theorem of_read_padded {α : Type} {rule : Rule α} {s t : List Char} {a : α}
    (h : (padded rule).read s = some (a, t)) :
    ∃ u, rule.read s = some (a, u) ∧ t = skipTrivia u := by
  rw [read_padded] at h
  obtain ⟨⟨a', u⟩, hr, he⟩ := Option.map_eq_some_iff.mp h
  cases he
  exact ⟨u, hr, rfl⟩

theorem of_read_heading {s t : List Char} {h : Heading} (hh : heading.read s = some (h, t)) :
    ∃ y u, word.read s = some (h.kind, y) ∧ identifier.read (skipTrivia y) = some (h.name, u) ∧
      headingBase.read (skipTrivia u) = some (h.base, t) := by
  obtain ⟨kind, s₁, hk, h₁⟩ := of_read_bind hh
  obtain ⟨name, s₂, hn, h₂⟩ := of_read_bind h₁
  obtain ⟨base, s₃, hb, h₃⟩ := of_read_bind h₂
  obtain ⟨y, hw, rfl⟩ := of_read_padded hk
  obtain ⟨u, hi, rfl⟩ := of_read_padded hn
  cases h₃
  exact ⟨y, u, hw, hi, hb⟩

/-- An object is refused with its body. -/
theorem read_object_unclosed {inner : Rule (List Element)} {s y v : List Char} {w : String}
    {b : Option String} (hw : word.read s = some (w, y))
    (hi : ∀ n u, identifier.read (skipTrivia y) = some (n, u) →
      headingBase.read (skipTrivia u) = some (b, '{' :: v))
    (hb : (body inner).read ('{' :: v) = none) : (object inner).read s = none := by
  unfold object heading
  rw [read_bind, read_bind, read_padded, hw, Option.map_some, Option.bind_some, read_bind,
    read_padded]
  cases hn : identifier.read (skipTrivia y) with
  | none => rfl
  | some p =>
    have hbase := hi p.1 p.2 hn
    unfold headingBase at hbase
    rw [Option.map_some, Option.bind_some, read_bind, hbase, Option.bind_some, read_pure,
      Option.bind_some, read_bind, hb]
    rfl

/-- What stands behind the first word of an identifier is another one, or begins with a dot or a
dash. -/
theorem IsNameTail.of_joint {c : Char} {t : List Char} (h : IsNameTail (c :: t))
    (hc : isJoint c = true) : c = '.' ∨ c = '-' ∨ IsIdentifier (c :: t) := by
  generalize hs : c :: t = s at h
  cases h with
  | nil => cases hs
  | char hd _ =>
    obtain ⟨rfl, rfl⟩ := List.cons.inj hs
    simp only [isJoint, Bool.or_eq_true, beq_iff_eq] at hc
    rcases hc with ((rfl | rfl) | rfl) | rfl
    · exact .inl rfl
    · exact .inr (.inl rfl)
    · cases hd
    · cases hd
  | reference hv ht => exact .inr (.inr (.reference hv ht))

/-- The rest of the name in a heading behind its first word: it begins with a mark, and an
identifier there ends where the name ends. -/
theorem rest_of_name {r u : List Char} (ht : IsNameTail r)
    (hr : r = [] ∨ ∃ c t, r = c :: t ∧ isJoint c = true)
    (hu : (skipTrivia u).head? = some ':' ∨ (skipTrivia u).head? = some '{')
    (hstop : Stops isNameChar u) :
    (∃ c, (skipTrivia (r ++ u)).head? = some c ∧ isMark c = true) ∧
      ∀ n t, identifier.read (skipTrivia (r ++ u)) = some (n, t) → t = u := by
  rcases skipTrivia_joint (t := u) hr with ⟨he, rfl⟩ | ⟨he, c, t, rfl, hc⟩
  · rw [he]
    rcases hu with hu | hu
    · refine ⟨⟨':', hu, rfl⟩, fun n t h => ?_⟩
      rw [read_identifier_mark hu (by decide)] at h
      cases h
    · refine ⟨⟨'{', hu, rfl⟩, fun n t h => ?_⟩
      rw [read_identifier_mark hu (by decide)] at h
      cases h
  · rw [he]
    refine ⟨⟨c, rfl, by simp [isMark, hc]⟩, fun n t' h => ?_⟩
    rcases ht.of_joint hc with rfl | rfl | hid
    · rw [read_identifier_mark rfl (by decide)] at h
      cases h
    · rw [read_identifier_mark rfl (by decide)] at h
      cases h
    · rw [read_identifier hid hstop] at h
      cases h
      rfl

theorem read_configurationGroup_of_name {x y u : List Char} {w : String}
    (hw : word.read x = some (w, y))
    (hu : (skipTrivia u).head? = some ':' ∨ (skipTrivia u).head? = some '{')
    (hi : ∀ n t, identifier.read (skipTrivia y) = some (n, t) → t = u) :
    configurationGroup.read x = none := by
  have hbracket : (skipTrivia u).head? ≠ some '[' := by
    rcases hu with h | h <;> simp [h]
  by_cases hc : w = "configuration"
  · unfold configurationGroup
    rw [read_bind, read_padded, read_keyword_of_word hw, if_pos hc, Option.map_some,
      Option.bind_some, read_bind, read_padded]
    cases hn : identifier.read (skipTrivia y) with
    | none => rfl
    | some p =>
      obtain ⟨n, t⟩ := p
      obtain rfl := hi n t hn
      rw [Option.map_some, Option.bind_some, read_bind, read_padded, read_symbol_eq_none hbracket]
      rfl
  · exact read_configurationGroup_of_word hw hc

/-- Behind a colon or a brace no name goes on. -/
theorem stops_of_mark {u : List Char}
    (hu : (skipTrivia u).head? = some ':' ∨ (skipTrivia u).head? = some '{') :
    Stops isNameChar u := by
  cases u with
  | nil => exact stops_nil _
  | cons c u =>
    rw [stops_cons, ← Bool.not_eq_true]
    intro hc
    have hlex : isLexical c = true := by
      have hstop : ¬ Stops isNameChar (c :: u) := by simp [hc]
      rw [← Bool.not_eq_false]
      intro h
      exact hstop (Stops.isNameChar (stops_cons.mpr h))
    have hslash : c ≠ '/' := by
      rintro rfl
      cases hc
    rw [skipTrivia_cons (isBlank_eq_false_of_isLexical hlex) hslash] at hu
    rcases hu with h | h <;> (obtain rfl := Option.some.inj h; cases hc)

/-- **Behind a heading whose body is not closed, no run gets to the end.** -/
theorem not_ended_of_heading {inner : Rule (List Element)} {s t v r : List Char} {h : Heading}
    {i : Invocation} {es : List Element} (hh : heading.read s = some (h, '{' :: v))
    (hb : (body inner).read ('{' :: v) = none) (hi : invocation.read s = some (i, t))
    (hr : Repeats (elementRound inner) (t.dropWhile isBlank) es r) : ¬ Ended r := by
  obtain ⟨y, u, hw, hn, hbase⟩ := of_read_heading hh
  have hu := head?_of_read_headingBase hbase
  have hstop := stops_of_mark hu
  have hhead : ∀ c, isWordStart c = false ∧ c ≠ '$' ∧ c ≠ '\\' → (skipTrivia y).head? ≠ some c := by
    intro c hc hy
    rw [read_identifier_mark hy hc] at hn
    cases hn
  obtain rfl := rest_of_read_invocation hw (hhead '(' (by decide)) (hhead '"' (by decide)) hi
  obtain ⟨es', hr'⟩ := repeats_skipTrivia hr
  obtain ⟨hx, hname⟩ := isIdentifier_of_read hn
  have hword : Stops isWordChar u := hstop.mono fun _ hc => by
    simp [isNameChar, isIdentifierChar_of_isWordChar hc]
  rcases read_word_identifier hname hword with hnone | ⟨w, rest, hword, htail, hrest⟩
  · -- the name begins with a variable reference
    obtain ⟨c, n, hc, hlex, hslash⟩ := hname.exists_cons
    rw [hc, List.cons_append] at hx hnone
    refine not_ended_of_head (c := c) (by rw [hx]; rfl) ?_ hslash ?_ hr
    · rw [← Bool.not_eq_true]
      intro hstart
      unfold word at hnone
      rw [read_bind, read_one_cons, if_pos hstart] at hnone
      cases hnone
    · rintro rfl
      cases hlex
  · rw [← hx] at hword
    obtain ⟨⟨c, hc, hmark⟩, hident⟩ := rest_of_name htail hrest hu hstop
    have hgroup := read_configurationGroup_of_name hword hu hident
    have hobject := read_object_unclosed hword (fun n t h => by rwa [hident n t h]) hb
    cases hr' with
    | stop _ =>
      obtain ⟨d, x, hd, hstart⟩ := exists_isWordStart_of_word hword
      rw [hd]
      intro hend
      rw [hend d rfl] at hstart
      cases hstart
    | step he _ hmore =>
      obtain ⟨x, hx', rfl⟩ := of_read_elementRound he
      obtain rfl := rest_of_read_element hword hc hmark hgroup hobject hx'
      simp only [isMark, isJoint, Bool.or_eq_true, beq_iff_eq] at hmark
      refine not_ended_of_head hc ?_ ?_ ?_ hmore <;>
        rcases hmark with ((((rfl | rfl) | rfl) | rfl) | rfl) | rfl <;> decide

end BuildPlan.Grammar
