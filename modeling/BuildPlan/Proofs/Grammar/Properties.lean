import BuildPlan.Proofs.Grammar.Values

/-! # Properties as they are written

Which alternative reads an element is mostly decided by the word that the element begins with. A
property begins with its action, with a condition in front or behind the name, and is read back in
both of its forms (`read_singleAssignment`, `read_arrayAssignment`). -/

namespace BuildPlan.Grammar

open BuildPlan.Grammar.Rule BuildPlan.Text

/-! ### The word in front -/

theorem skipTrivia_identifier {w : List Char} (hw : IsIdentifier w) (s : List Char) :
    skipTrivia (w ++ s) = w ++ s := by
  obtain ⟨c, t, rfl, hl, hc⟩ := hw.exists_cons
  exact skipTrivia_cons (isBlank_eq_false_of_isLexical hl) hc _

theorem IsWord.isIdentifier {w : List Char} (hw : IsWord w) : IsIdentifier w := by
  cases w with
  | nil => exact hw.elim
  | cons c w =>
    refine .word hw.1 ?_
    have hs := hw.2
    clear hw
    induction w with
    | nil => exact .nil
    | cons d w ih =>
      have hd := isIdentifierChar_of_isWordChar (hs d (by simp))
      exact .char hd (ih fun e he => hs e (by simp [he]))

theorem IsWord.length_pos {w : List Char} (hw : IsWord w) : 0 < w.length := by
  cases w with
  | nil => exact hw.elim
  | cons => exact Nat.succ_pos _

section Alternatives
variable {s : List Char}

theorem read_configurationGroup_eq_none (h : (keyword "configuration").read s = none) :
    configurationGroup.read s = none := by
  unfold configurationGroup
  rw [read_bind, read_padded, h]
  rfl

theorem read_guard_absent (h : conditional.read s = none) : guard.read s = some (none, s) := by
  unfold guard
  rw [read_optional, read_padded, h]
  rfl

theorem read_body_eq_none (elements : Rule (List Element)) (h : s.head? ≠ some '{') :
    (body elements).read s = none := by
  unfold body
  rw [read_bind, read_symbol_eq_none h]
  rfl

theorem read_block_eq_none (elements : Rule (List Element)) (h : conditional.read s = none) :
    (block elements).read s = none := by
  unfold block
  rw [read_bind, read_padded, h]
  rfl

theorem read_singleAssignment_eq_none {t : List Char} {o : Option String}
    (hg : guard.read s = some (o, t)) (h : action.read t = none) :
    singleAssignment.read s = none := by
  unfold singleAssignment
  rw [read_bind, hg, Option.bind_some, read_bind, read_padded, h]
  rfl

theorem read_arrayAssignment_eq_none (h : action.read s = none) :
    arrayAssignment.read s = none := by
  unfold arrayAssignment
  rw [read_bind, read_padded, h]
  rfl

end Alternatives

theorem word_of_read_keyword {s t : List Char} {k : String} {u : Unit}
    (h : (keyword k).read s = some (u, t)) : word.read s = some (k, t) := by
  unfold keyword at h
  rw [read_map, read_keep] at h
  obtain ⟨⟨w, t'⟩, hf, he⟩ := Option.map_eq_some_iff.mp h
  cases he
  obtain ⟨hw, hk⟩ := Option.filter_eq_some_iff.mp hf
  obtain rfl : w = k := eq_of_beq hk
  exact hw

section Word
variable {s t : List Char} {w : String} (hw : word.read s = some (w, t))
include hw

theorem exists_isWordStart_of_word : ∃ c u, s = c :: u ∧ isWordStart c = true := by
  cases s with
  | nil => cases hw
  | cons c u =>
    by_cases hc : isWordStart c = true
    · exact ⟨c, u, rfl, hc⟩
    · rw [read_word_eq_none (stops_cons.mpr (by simpa using hc))] at hw
      cases hw

theorem read_keyword_of_word (k : String) :
    (keyword k).read s = if w = k then some ((), t) else none := by
  unfold keyword
  rw [read_map, read_keep, hw]
  by_cases h : w = k <;> simp [h, Option.filter]

theorem read_comment_of_word : comment.read s = none := by
  obtain ⟨c, u, rfl, hc⟩ := exists_isWordStart_of_word hw
  refine read_comment_eq_none ?_
  rintro ⟨v, hv⟩
  obtain rfl : c = '/' := (List.cons.inj hv).1
  cases hc

theorem read_configurationGroup_of_word (h : w ≠ "configuration") :
    configurationGroup.read s = none :=
  read_configurationGroup_eq_none (by rw [read_keyword_of_word hw, if_neg h])

theorem read_conditional_of_word (h : w ≠ "if") : conditional.read s = none :=
  read_conditional_eq_none (by rw [read_keyword_of_word hw, if_neg h])

theorem read_block_of_word (elements : Rule (List Element)) (h : w ≠ "if") :
    (block elements).read s = none :=
  read_block_eq_none elements (read_conditional_of_word hw h)

theorem read_guard_of_word (h : w ≠ "if") : guard.read s = some (none, s) :=
  read_guard_absent (read_conditional_of_word hw h)

theorem read_action_of_word (hs : w ≠ "set") (ha : w ≠ "add") : action.read s = none := by
  unfold action
  rw [read_firstOf_cons, read_firstOf_cons, read_map, read_map, read_keyword_of_word hw,
    read_keyword_of_word hw, if_neg hs, if_neg ha]
  rfl

end Word

/-! ### Conditions in front -/

/-- The text of a condition in front of an element, which may be left out if it always holds. -/
def GuardText (condition : String) (g : List Char) : Prop :=
  g = writeCondition condition.toList ++ [' '] ∨ condition = always ∧ g = []

section Guard
variable {c : String} {g : List Char} (hc : IsCondition c.toList) (hg : GuardText c g)
  {s : List Char} (hk : (keyword "if").read s = none) (hs : skipTrivia s = s)
include hc hg hk hs

theorem read_guard : ∃ o, guard.read (g ++ s) = some (o, s) ∧ o.getD always = c := by
  rcases hg with rfl | ⟨rfl, rfl⟩
  · refine ⟨some c, ?_, rfl⟩
    unfold guard
    rw [read_optional, read_padded, List.append_assoc, read_conditional hc, Option.map_some,
      List.singleton_append, skipTrivia_blank (by decide), hs, String.ofList_toList]
    rfl
  · exact ⟨none, read_guard_absent (read_conditional_eq_none hk), rfl⟩

/-- A condition with something else than a brace behind it does not begin a block. -/
theorem read_block_guard (elements : Rule (List Element)) (hb : s.head? ≠ some '{') :
    (block elements).read (g ++ s) = none := by
  rcases hg with rfl | ⟨rfl, rfl⟩
  · unfold block
    rw [read_bind, read_padded, List.append_assoc, read_conditional hc, Option.map_some,
      Option.bind_some, List.singleton_append, skipTrivia_blank (by decide), hs, read_bind,
      read_body_eq_none elements hb]
    rfl
  · exact read_block_eq_none elements (read_conditional_eq_none hk)

end Guard

theorem read_word_writeCondition (c s : List Char) :
    word.read (writeCondition c ++ s) = some ("if", ' ' :: '(' :: (c ++ ')' :: s)) := by
  have h : word.read (['i', 'f'] ++ ' ' :: '(' :: (c ++ ')' :: s)) =
      some ("if", ' ' :: '(' :: (c ++ ')' :: s)) :=
    read_word (by decide) (stops_cons.mpr rfl)
  rw [← h]
  simp [writeCondition]

/-! ### Actions and names -/

/-- The word for an action. -/
def writeAction : Action → List Char
  | .set => ['s', 'e', 't']
  | .add => ['a', 'd', 'd']

theorem read_word_writeAction (a : Action) (s : List Char) :
    word.read (writeAction a ++ ' ' :: s) = some (String.ofList (writeAction a), ' ' :: s) := by
  cases a <;> exact read_word (by decide) (stops_cons.mpr rfl)

theorem read_action (a : Action) (s : List Char) :
    action.read (writeAction a ++ ' ' :: s) = some (a, ' ' :: s) := by
  have hw := read_word_writeAction a s
  unfold action
  rw [read_firstOf_cons, read_firstOf_cons, read_map, read_map, read_keyword_of_word hw,
    read_keyword_of_word hw]
  cases a <;> rfl

/-- Words, one space apart. -/
def writeWords : List String → List Char
  | [] => []
  | [w] => w.toList
  | w :: ws => w.toList ++ ' ' :: writeWords ws

/-- One round of the rule for the name of a property. -/
def nameWord : Rule String := padded (word.keep (· != "if"))

theorem read_nameWord {w : String} {s : List Char} (hw : IsWord w.toList) (hi : w ≠ "if")
    (hs : Stops isWordChar s) : nameWord.read (w.toList ++ s) = some (w, skipTrivia s) := by
  unfold nameWord
  rw [read_padded, read_keep, read_word hw hs, String.ofList_toList]
  simp [Option.filter, hi]

theorem read_nameWord_eq_none {s : List Char}
    (hs : ∀ w t, word.read s = some (w, t) → w = "if") : nameWord.read s = none := by
  unfold nameWord
  rw [read_padded, read_keep]
  cases h : word.read s with
  | none => rfl
  | some p => simp [Option.filter, hs p.1 p.2 h]

theorem writeWords_cons (w : String) (ws : List String) :
    ∃ t, writeWords (w :: ws) = w.toList ++ t := by
  cases ws with
  | nil => exact ⟨[], (List.append_nil _).symm⟩
  | cons v ws => exact ⟨' ' :: writeWords (v :: ws), rfl⟩

theorem skipTrivia_writeWords {ws : List String} (hne : ws ≠ []) (hw : ∀ w ∈ ws, IsWord w.toList)
    (s : List Char) : skipTrivia (' ' :: (writeWords ws ++ s)) = writeWords ws ++ s := by
  cases ws with
  | nil => exact absurd rfl hne
  | cons w ws =>
    obtain ⟨t, ht⟩ := writeWords_cons w ws
    rw [skipTrivia_blank (by decide), ht, List.append_assoc,
      skipTrivia_identifier (hw w (by simp)).isIdentifier]

theorem repeats_nameWord : ∀ {ws : List String} {s : List Char}, ws ≠ [] →
    (∀ w ∈ ws, IsWord w.toList ∧ w ≠ "if") → Stops isWordChar s →
    (∀ w t, word.read (skipTrivia s) = some (w, t) → w = "if") →
    Repeats nameWord (writeWords ws ++ s) ws (skipTrivia s)
  | [], _, h, _, _, _ => absurd rfl h
  | [w], s, _, hw, hs, hi => by
    obtain ⟨hw, hne⟩ := hw w (by simp)
    refine .step (read_nameWord hw hne hs) ?_ (.stop (read_nameWord_eq_none hi))
    have hpos := hw.length_pos
    have hle := length_skipTrivia_le s
    rw [writeWords, List.length_append]
    omega
  | w :: v :: ws, s, _, hw, hs, hi => by
    have hv : ∀ u ∈ v :: ws, IsWord u.toList ∧ u ≠ "if" := fun u hu => hw u (by simp [hu])
    obtain ⟨hw, hne⟩ := hw w (by simp)
    have ih := repeats_nameWord (by simp) hv hs hi
    have hskip := skipTrivia_writeWords (List.cons_ne_nil v ws) (fun u hu => (hv u hu).1) s
    have hr := read_nameWord (s := ' ' :: (writeWords (v :: ws) ++ s)) hw hne (stops_cons.mpr rfl)
    rw [hskip] at hr
    rw [writeWords, List.append_assoc]
    · refine .step hr ?_ ih
      simp only [List.cons_append, List.length_append, List.length_cons]
      omega
    · exact List.cons_ne_nil v ws

theorem read_nameParts {ws : List String} {s : List Char} (hne : ws ≠ [])
    (hw : ∀ w ∈ ws, IsWord w.toList ∧ w ≠ "if") (hs : Stops isWordChar s)
    (hi : ∀ w t, word.read (skipTrivia s) = some (w, t) → w = "if") :
    nameParts.read (writeWords ws ++ s) = some (ws, skipTrivia s) := by
  have h := repeats_nameWord hne hw hs hi
  cases ws with
  | nil => exact absurd rfl hne
  | cons w ws => exact h.read_many1

/-! ### Assignments -/

theorem word_eq_of_stops {s : List Char} (hs : Stops isWordStart s) :
    ∀ w t, word.read s = some (w, t) → w = "if" := by
  intro w t h
  rw [read_word_eq_none hs] at h
  cases h

theorem isWord_writeAction (a : Action) : IsWord (writeAction a) := by cases a <;> decide

theorem read_keyword_if_writeAction (a : Action) (s : List Char) :
    (keyword "if").read (writeAction a ++ ' ' :: s) = none := by
  rw [read_keyword_of_word (read_word_writeAction a s)]
  cases a <;> rfl

theorem skipTrivia_guard {c : String} {g s : List Char} (hg : GuardText c g)
    (hs : skipTrivia s = s) : skipTrivia (' ' :: (g ++ s)) = g ++ s := by
  rw [skipTrivia_blank (by decide)]
  rcases hg with rfl | ⟨-, rfl⟩
  · exact skipTrivia_cons (by decide) (by decide) _
  · exact hs

theorem word_eq_of_guard {c : String} {g s : List Char} (hg : GuardText c g)
    (hs : ∀ w t, word.read s = some (w, t) → w = "if") :
    ∀ w t, word.read (g ++ s) = some (w, t) → w = "if" := by
  intro w t h
  rcases hg with rfl | ⟨-, rfl⟩
  · rw [List.append_assoc, read_word_writeCondition] at h
    cases h
    rfl
  · exact hs w t h

section Assignment
variable {a : Action} {ws : List String} (hne : ws ≠ [])
  (hws : ∀ w ∈ ws, IsWord w.toList ∧ w ≠ "if") {c : String} {g : List Char}
  (hc : IsCondition c.toList) (hg : GuardText c g)
include hne hws hc hg

theorem read_singleAssignment {v : Value} (hv : v.Writable) {s : List Char} (hs : Value.Ends s)
    (hb : (skipTrivia s).head? ≠ some '{') :
    singleAssignment.read (g ++ (writeAction a ++ ' ' :: (writeWords ws ++
      ':' :: ' ' :: (v.write ++ s)))) = some (⟨a, ws, v, c⟩, s) := by
  have hif := read_keyword_if_writeAction a (writeWords ws ++ ':' :: ' ' :: (v.write ++ s))
  obtain ⟨o, ho, rfl⟩ := read_guard hc hg hif
    (skipTrivia_identifier (isWord_writeAction a).isIdentifier _)
  have hcolon : skipTrivia (':' :: ' ' :: (v.write ++ s)) = ':' :: ' ' :: (v.write ++ s) :=
    skipTrivia_cons (by decide) (by decide) _
  have hval : skipTrivia (' ' :: (v.write ++ s)) = v.write ++ s := by
    rw [skipTrivia_blank (by decide), ((Value.opens_write hv).append s).skipTrivia_eq]
  have hnames := read_nameParts (s := ':' :: ' ' :: (v.write ++ s)) hne hws
    (stops_cons.mpr (by decide)) (by
      rw [hcolon]
      exact word_eq_of_stops (stops_cons.mpr (by decide)))
  unfold singleAssignment
  rw [read_bind, ho, Option.bind_some, read_bind, read_padded, read_action, Option.map_some,
    Option.bind_some, skipTrivia_writeWords hne fun w hw => (hws w hw).1, read_bind, hnames, hcolon,
    Option.bind_some, read_bind, read_padded, read_symbol_cons, if_pos rfl, Option.map_some, hval,
    Option.bind_some, read_bind, Value.read_value hv hs, Option.bind_some, read_bind,
    read_absent_symbol, if_neg hb]
  rfl

theorem read_arrayAssignment {vs : List Value} (hvs : Value.AllWritable vs) (s : List Char) :
    arrayAssignment.read (writeAction a ++ ' ' :: (writeWords ws ++
      ' ' :: (g ++ ((Value.array vs).write ++ s)))) = some (⟨a, ws, .array vs, c⟩, s) := by
  have hbracket : Stops isWordStart ((Value.array vs).write ++ s) := stops_cons.mpr (by decide)
  have hopen : skipTrivia ((Value.array vs).write ++ s) = (Value.array vs).write ++ s :=
    skipTrivia_cons (by decide) (by decide) _
  have hskip := skipTrivia_guard hg hopen
  have hspace : Stops isWordChar (' ' :: (g ++ ((Value.array vs).write ++ s))) :=
    stops_cons.mpr (by decide)
  have hnames := read_nameParts hne hws hspace
    (by rw [hskip]; exact word_eq_of_guard hg (word_eq_of_stops hbracket))
  obtain ⟨o, ho, rfl⟩ := read_guard hc hg (read_keyword_eq_none hbracket "if") hopen
  unfold arrayAssignment
  rw [read_bind, read_padded, read_action, Option.map_some, Option.bind_some,
    skipTrivia_writeWords hne fun w hw => (hws w hw).1, read_bind, hnames, hskip, Option.bind_some,
    read_bind, ho, Option.bind_some, read_bind, Value.read_array hvs]
  rfl

end Assignment

/-- With a bracket or a condition behind the name, this is no property with a colon. -/
theorem read_singleAssignment_bracket {a : Action} {ws : List String} (hne : ws ≠ [])
    (hws : ∀ w ∈ ws, IsWord w.toList ∧ w ≠ "if") {c : String} {g : List Char} (hg : GuardText c g)
    (s : List Char) :
    singleAssignment.read (writeAction a ++ ' ' :: (writeWords ws ++ ' ' :: (g ++ '[' :: s))) =
      none := by
  have hw := read_word_writeAction a (writeWords ws ++ ' ' :: (g ++ '[' :: s))
  have hskip := skipTrivia_guard hg (skipTrivia_cons (c := '[') (by decide) (by decide) s)
  have hspace : Stops isWordChar (' ' :: (g ++ '[' :: s)) := stops_cons.mpr (by decide)
  have hnames := read_nameParts hne hws hspace
    (by rw [hskip]; exact word_eq_of_guard hg (word_eq_of_stops (stops_cons.mpr (by decide))))
  have hcolon : (g ++ '[' :: s).head? ≠ some ':' := by
    rcases hg with rfl | ⟨-, rfl⟩ <;> simp [writeCondition]
  unfold singleAssignment
  rw [read_bind, read_guard_of_word hw (by cases a <;> decide), Option.bind_some, read_bind,
    read_padded, read_action, Option.map_some, Option.bind_some,
    skipTrivia_writeWords hne fun w hw => (hws w hw).1, read_bind, hnames, hskip, Option.bind_some,
    read_bind, read_padded, read_symbol_eq_none hcolon]
  rfl

end BuildPlan.Grammar
