import BuildPlan.Proofs.Grammar.Wrapping

/-! # Elements behind a condition

The word for a condition and its group decide the alternatives for an element. What is left behind
them are a body, a property with a colon, and a command, without another condition (`Guarded`,
`read_element_guarded`), and a document goes on behind that as a document (`read_elements_guarded`).
In front of an array the condition stands behind the name of the property. -/

namespace BuildPlan.Grammar

open BuildPlan.Grammar.Rule BuildPlan.Text

/-! ### What stands behind a condition -/

/-- What is left of the rule for a property behind its condition. -/
def assignmentBehind (condition : Option String) : Rule Assignment := do
  let action ← padded action
  let nameParts ← nameParts
  padded (symbol ':')
  let value ← value
  Rule.absent do
    trivia
    symbol '{'
  return ⟨action, nameParts, value, condition.getD always⟩

/-- What is left of the rule for a command behind its condition. -/
def invocationBehind (condition : Option String) : Rule Invocation := do
  let name ← word.keep (!reserved.contains ·)
  let argument ← optional spacedArgument
  return ⟨name, argument, condition.getD always⟩

section Behind
variable {s t : List Char}

theorem read_assignmentBehind (c : String) (s : List Char) :
    (assignmentBehind (some c)).read s =
      ((assignmentBehind none).read s).map fun p => ({ p.1 with condition := c }, p.2) := by
  unfold assignmentBehind
  simp only [read_bind, Option.map_bind, Function.comp_def]
  rfl

theorem read_invocationBehind (c : String) (s : List Char) :
    (invocationBehind (some c)).read s =
      ((invocationBehind none).read s).map fun p => ({ p.1 with condition := c }, p.2) := by
  unfold invocationBehind
  simp only [read_bind, Option.map_bind, Function.comp_def]
  rfl

theorem word_of_read_action {a : Action} (h : action.read s = some (a, t)) :
    word.read s = some ("set", t) ∨ word.read s = some ("add", t) := by
  unfold action at h
  rw [read_firstOf_cons, read_firstOf_cons, read_map, read_map] at h
  rcases Option.or_eq_some_iff.mp h with h | ⟨-, h⟩
  · obtain ⟨⟨u, t'⟩, hk, he⟩ := Option.map_eq_some_iff.mp h
    cases he
    exact .inl (word_of_read_keyword hk)
  · rcases Option.or_eq_some_iff.mp h with h | ⟨-, h⟩
    · obtain ⟨⟨u, t'⟩, hk, he⟩ := Option.map_eq_some_iff.mp h
      cases he
      exact .inr (word_of_read_keyword hk)
    · cases h

theorem word_of_read_assignmentBehind {o : Option String} {a : Assignment}
    (h : (assignmentBehind o).read s = some (a, t)) :
    ∃ w u, word.read s = some (w, u) ∧ (w = "set" ∨ w = "add") := by
  obtain ⟨b, u, hb, -⟩ := of_read_bind h
  obtain ⟨v, hv, -⟩ := of_read_padded hb
  rcases word_of_read_action hv with hw | hw
  · exact ⟨_, v, hw, .inl rfl⟩
  · exact ⟨_, v, hw, .inr rfl⟩

theorem word_of_read_invocationBehind {o : Option String} {i : Invocation}
    (h : (invocationBehind o).read s = some (i, t)) :
    ∃ w u, word.read s = some (w, u) ∧ w ∉ reserved := by
  obtain ⟨w, u, hw, -⟩ := of_read_bind h
  rw [read_keep] at hw
  obtain ⟨hw, hfree⟩ := Option.filter_eq_some_iff.mp hw
  exact ⟨w, u, hw, by simpa using hfree⟩

theorem read_body_of_word (inner : Rule (List Element)) {w : String}
    (hw : word.read s = some (w, t)) :
    (body inner).read s = none := by
  obtain ⟨c, u, rfl, hc⟩ := exists_isWordStart_of_word hw
  refine read_body_eq_none inner ?_
  rintro h
  obtain rfl : c = '{' := Option.some.inj h
  cases hc

/-- A property without a condition. -/
theorem read_singleAssignment_plain (h : conditional.read s = none) :
    singleAssignment.read s = (assignmentBehind none).read s := by
  unfold singleAssignment
  rw [read_bind, read_guard_absent h]
  rfl

/-- A command without a condition. -/
theorem read_invocation_plain (h : conditional.read s = none) :
    invocation.read s = (invocationBehind none).read s := by
  unfold invocation
  rw [read_bind, read_guard_absent h]
  rfl

end Behind

/-- The element that stands behind a condition: a block with the body that is read there, or the
property or command that is read there without another condition. -/
inductive Guarded (inner : Rule (List Element)) (c : String) (s : List Char) :
    Element → List Char → Prop
  | block {es : List Element} {t : List Char} (h : (body inner).read s = some (es, t)) :
      Guarded inner c s (.block c es) t
  | assignment {a : Assignment} {t : List Char} (hplain : conditional.read s = none)
      (h : singleAssignment.read s = some (a, t)) :
      Guarded inner c s (.assignment { a with condition := c }) t
  | invocation {i : Invocation} {t : List Char} (hplain : conditional.read s = none)
      (h : invocation.read s = some (i, t)) :
      Guarded inner c s (.invocation { i with condition := c }) t

/-- Only the body depends on the rule for the elements inside. -/
theorem Guarded.imp {inner inner' : Rule (List Element)} {c : String} {s t : List Char}
    {el : Element} (h : Guarded inner c s el t)
    (hbody : ∀ es t, (body inner).read s = some (es, t) → (body inner').read s = some (es, t)) :
    Guarded inner' c s el t := by
  cases h with
  | block h => exact .block (hbody _ _ h)
  | assignment hplain h => exact .assignment hplain h
  | invocation hplain h => exact .invocation hplain h

section Element
variable {e : List Char} (he : Balanced e) (inner : Rule (List Element)) (s : List Char)
include he

theorem read_guard_balanced :
    guard.read (writeCondition e ++ s) = some (some (String.ofList (trim e)), skipTrivia s) := by
  unfold guard
  rw [read_optional, read_padded, read_conditional_balanced he]
  rfl

theorem read_block_balanced :
    (block inner).read (writeCondition e ++ s) =
      ((body inner).read (skipTrivia s)).map fun p =>
        (.block (String.ofList (trim e)) p.1, p.2) := by
  unfold block
  rw [read_bind, read_padded, read_conditional_balanced he, Option.map_some, Option.bind_some,
    read_bind]
  cases (body inner).read (skipTrivia s) <;> rfl

theorem read_singleAssignment_balanced :
    singleAssignment.read (writeCondition e ++ s) =
      ((assignmentBehind none).read (skipTrivia s)).map fun p =>
        ({ p.1 with condition := String.ofList (trim e) }, p.2) := by
  unfold singleAssignment
  rw [read_bind, read_guard_balanced he, Option.bind_some, ← read_assignmentBehind]
  rfl

theorem read_invocation_balanced :
    invocation.read (writeCondition e ++ s) =
      ((invocationBehind none).read (skipTrivia s)).map fun p =>
        ({ p.1 with condition := String.ofList (trim e) }, p.2) := by
  unfold invocation
  rw [read_bind, read_guard_balanced he, Option.bind_some, ← read_invocationBehind]
  rfl

/-- Behind its condition an element goes on with a body, a property or a command. -/
theorem read_element_guarded {el : Element} {t : List Char} :
    (element inner).read (writeCondition e ++ s) = some (el, t) ↔
      Guarded inner (String.ofList (trim e)) (skipTrivia s) el t := by
  have hw := read_word_writeCondition e s
  have hname : identifier.read (skipTrivia (' ' :: '(' :: (e ++ ')' :: s))) = none := by
    rw [skipTrivia_blank (by decide), skipTrivia_cons (by decide) (by decide)]
    exact read_identifier_eq_none (stops_cons.mpr (by decide))
  rw [read_element, read_map, read_comment_of_word hw, read_map,
    read_configurationGroup_of_word hw (by decide), read_block_balanced he, read_map,
    read_singleAssignment_balanced he, read_map,
    read_arrayAssignment_eq_none (read_action_of_word hw (by decide) (by decide)),
    read_object_of_name hw hname, read_map, read_invocation_balanced he]
  simp only [Option.map_none, Option.none_or, Option.map_map]
  generalize skipTrivia s = y
  constructor
  · intro h
    rcases Option.or_eq_some_iff.mp h with h | ⟨-, h⟩
    · obtain ⟨⟨es, t'⟩, hb, h⟩ := Option.map_eq_some_iff.mp h
      cases h
      exact .block hb
    · rcases Option.or_eq_some_iff.mp h with h | ⟨-, h⟩
      · obtain ⟨⟨a, t'⟩, ha, h⟩ := Option.map_eq_some_iff.mp h
        cases h
        obtain ⟨w, u, hw, hset⟩ := word_of_read_assignmentBehind ha
        have hplain := read_conditional_of_word hw (by rcases hset with rfl | rfl <;> decide)
        rw [← read_singleAssignment_plain hplain] at ha
        exact .assignment hplain ha
      · obtain ⟨⟨i, t'⟩, hi, h⟩ := Option.map_eq_some_iff.mp h
        cases h
        obtain ⟨w, u, hw, hfree⟩ := word_of_read_invocationBehind hi
        have hplain := read_conditional_of_word hw (ne_of_free hfree).1
        rw [← read_invocation_plain hplain] at hi
        exact .invocation hplain hi
  · rintro (h | ⟨hplain, h⟩ | ⟨hplain, h⟩)
    · rw [h]
      rfl
    · rw [read_singleAssignment_plain hplain] at h
      obtain ⟨w, u, hw, -⟩ := word_of_read_assignmentBehind h
      rw [read_body_of_word inner hw, h]
      rfl
    · rw [read_invocation_plain hplain] at h
      obtain ⟨w, u, hw, hfree⟩ := word_of_read_invocationBehind h
      have hassignment : (assignmentBehind none).read y = none := by
        unfold assignmentBehind
        rw [read_bind, read_padded,
          read_action_of_word hw (ne_of_free hfree).2.1 (ne_of_free hfree).2.2.1]
        rfl
      rw [read_body_of_word inner hw, hassignment, h]
      rfl

/-- In front of an array the condition stands behind the name of the property. -/
theorem read_element_guardedArray {w w' t : List Char} {a : Action} {names : List String}
    {items : List Value} (ha : (padded action).read w = some (a, w'))
    (hn : nameParts.read w' = some (names, writeCondition e ++ s))
    (hi : (arrayOf value).read (skipTrivia s) = some (items, t)) :
    (element inner).read w =
      some (.assignment ⟨a, names, .array items, String.ofList (trim e)⟩, t) := by
  obtain ⟨u, hu, -⟩ := of_read_padded ha
  obtain ⟨k, hw, hk⟩ : ∃ k, word.read w = some (k, u) ∧ k ≠ "if" ∧ k ≠ "configuration" := by
    rcases word_of_read_action hu with hw | hw
    · exact ⟨_, hw, by decide⟩
    · exact ⟨_, hw, by decide⟩
  have hsingle : singleAssignment.read w = none := by
    unfold singleAssignment
    rw [read_bind, read_guard_of_word hw hk.1, Option.bind_some, read_bind, ha, Option.bind_some,
      read_bind, hn, Option.bind_some, read_bind, read_padded,
      read_symbol_eq_none (by simp [writeCondition])]
    rfl
  refine read_element_array (read_comment_of_word hw) (read_configurationGroup_of_word hw hk.2)
    (read_block_of_word hw inner hk.1) hsingle ?_
  unfold arrayAssignment
  rw [read_bind, ha, Option.bind_some, read_bind, hn, Option.bind_some, read_bind,
    read_guard_balanced he, Option.bind_some, read_bind, hi]
  rfl

end Element

/-! ### Documents -/

/-- A run of the rule for elements begins with an element. -/
theorem repeats_elementRound_iff {inner : Rule (List Element)} (hi : Takes 0 inner)
    {s r : List Char} {es : List Element} (hne : s ≠ r) :
    Repeats (elementRound inner) s es r ↔
      ∃ el t es', (element inner).read s = some (el, t) ∧
        (elementsStep inner).read t = some (es', r) ∧ es = el :: es' := by
  constructor
  · intro h
    cases h with
    | stop => exact absurd rfl hne
    | step hround _ hrest =>
      obtain ⟨t, hel, rfl⟩ := of_read_elementRound hround
      exact ⟨_, t, _, hel, read_elementsStep hrest, rfl⟩
  · rintro ⟨el, t, es', hel, hrest, rfl⟩
    have hround := read_elementRound hel
    exact .step hround ((takes_elementRound hi).length_le hround)
      ((read_elementsStep_iff hi).mp hrest)

/-- Behind its condition a document goes on with an element, and the rest is a document. -/
theorem read_elements_guarded {e s : List Char} (he : Balanced e) {es : List Element} :
    elements.read (writeCondition e ++ s) = some (es, []) ↔
      ∃ el t es', Guarded elements (String.ofList (trim e)) (skipTrivia s) el t ∧
        elements.read t = some (es', []) ∧ es = el :: es' := by
  obtain ⟨u, hu⟩ : ∃ u, writeCondition e ++ s = 'i' :: u := ⟨_, rfl⟩
  have hlength := congrArg List.length hu
  have hskip := length_skipTrivia_le s
  simp only [writeCondition, List.length_append, List.length_cons, List.length_nil] at hlength
  have hinner : Takes 0 (nestedUpTo elementsStep u) :=
    Takes.nestedUpTo (fun _ => takes_elementsStep) u
  have hread : elements.read (writeCondition e ++ s) =
      (elementsStep (nestedUpTo elementsStep u)).read (writeCondition e ++ s) := by
    unfold elements
    rw [read_nested, hu, nestedUpTo_eq, innerUpTo]
  -- the text behind the condition is no longer than the bound of the nesting
  have hbody : ∀ es t, (body (nestedUpTo elementsStep u)).read (skipTrivia s) = some (es, t) ↔
      (body elements).read (skipTrivia s) = some (es, t) := by
    intro es t
    constructor <;> intro h <;> obtain ⟨v, hv, h⟩ := of_read_body h <;> rw [hv] at hskip ⊢ <;>
      rw [List.length_cons] at hskip <;> refine read_body ?_
    · exact (read_elements_iff (by omega) (ended_brace t)).mp h
    · exact (read_elements_iff (by omega) (ended_brace t)).mpr h
  have hrest : ∀ el t es',
      Guarded (nestedUpTo elementsStep u) (String.ofList (trim e)) (skipTrivia s) el t →
        ((elementsStep (nestedUpTo elementsStep u)).read t = some (es', []) ↔
          elements.read t = some (es', [])) := by
    intro el t es' h
    have hlt := (takes_element hinner).length_le
      ((read_element_guarded he (nestedUpTo elementsStep u) s).mpr h)
    have hstep : elementsStep (nestedUpTo elementsStep u) =
        nestedUpTo elementsStep ('i' :: u) := rfl
    rw [hstep]
    exact read_elements_iff (by rw [← hu]; omega) ended_nil
  rw [hread, read_elementsStep_iff hinner, hu, List.dropWhile_cons_of_neg (by decide), ← hu,
    repeats_elementRound_iff hinner (by rw [hu]; exact List.cons_ne_nil _ _)]
  constructor
  · rintro ⟨el, t, es', hel, ht, rfl⟩
    have hguarded := (read_element_guarded he _ s).mp hel
    exact ⟨el, t, es', hguarded.imp fun es t => (hbody es t).mp,
      (hrest el t es' hguarded).mp ht, rfl⟩
  · rintro ⟨el, t, es', hguarded, ht, rfl⟩
    have hguarded := hguarded.imp fun es t => (hbody es t).mpr
    exact ⟨el, t, es', (read_element_guarded he _ s).mpr hguarded, (hrest el t es' hguarded).mpr ht,
      rfl⟩

end BuildPlan.Grammar
