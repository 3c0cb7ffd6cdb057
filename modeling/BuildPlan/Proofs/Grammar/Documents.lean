import BuildPlan.Proofs.Grammar.Elements

/-! # Documents as they are written

Every element stands on a line of its own, with any blanks in front of it, and a body stands between
braces. The document is read back from what is written (`Document.parse_written`).

An element is read with the line end behind it left over, and the elements of a body up to the brace
that closes it, by induction over the tree. Since one alternative depends on what stands behind an
element, the induction carries that no element makes the one before it another one
(`clear_written`). -/

namespace BuildPlan

open BuildPlan.Grammar BuildPlan.Grammar.Rule BuildPlan.Text

namespace Element

/-! ### Writing -/

mutual

/-- Holds of an element that can be written. -/
def Writable : Element → Prop
  | .comment text => trim text.toList = text.toList ∧ ∀ c ∈ text.toList, notLineEnd c = true
  | .group g => GroupWritable g
  | .assignment a => a.Writable
  | .invocation i => i.Writable
  | .block condition body => IsCondition condition.toList ∧ AllWritable body
  | .object heading body =>
    IsWord heading.kind.toList ∧ IsIdentifier heading.name.toList ∧
      (∀ b ∈ heading.base, IsIdentifier b.toList) ∧ AllWritable body

def AllWritable : List Element → Prop
  | [] => True
  | e :: es => Writable e ∧ AllWritable es

end

mutual

instance decidableWritable : ∀ e : Element, Decidable e.Writable
  | .comment text =>
    decidable_of_iff (trim text.toList = text.toList ∧ text.toList.all notLineEnd = true) (by
      rw [List.all_eq_true]
      rfl)
  | .group g => inferInstanceAs (Decidable (GroupWritable g))
  | .assignment a => inferInstanceAs (Decidable a.Writable)
  | .invocation i => inferInstanceAs (Decidable i.Writable)
  | .block _ body =>
    have := decidableAllWritable body
    instDecidableAnd
  | .object _ body =>
    have := decidableAllWritable body
    instDecidableAnd

instance decidableAllWritable : ∀ es : List Element, Decidable (AllWritable es)
  | [] => isTrue trivial
  | e :: es =>
    have := decidableWritable e
    have := decidableAllWritable es
    instDecidableAnd

end

/-- A text of blanks, as it may stand in front of an element or of a closing brace. -/
def Blank (s : List Char) : Prop := ∀ c ∈ s, isBlank c = true

mutual

/-- The texts of an element. -/
def Written : Element → List Char → Prop
  | .comment text, t => t = '/' :: '/' :: ' ' :: text.toList
  | .group g, t => t = writeGroup g
  | .assignment a, t => a.Written t
  | .invocation i, t => i.Written t
  | .block condition body, t =>
    ∃ b g, AllWritten body b ∧ Blank g ∧
      t = writeCondition condition.toList ++ ' ' :: '{' :: '\n' :: (b ++ (g ++ ['}']))
  | .object heading body, t =>
    ∃ b g, AllWritten body b ∧ Blank g ∧
      t = writeHeading heading ++ ' ' :: '{' :: '\n' :: (b ++ (g ++ ['}']))

/-- The texts of elements, each on a line of its own. -/
def AllWritten : List Element → List Char → Prop
  | [], t => t = []
  | e :: es, t => ∃ g u v, Blank g ∧ Written e u ∧ AllWritten es v ∧ t = g ++ (u ++ '\n' :: v)

end

/-! ### What stands behind an element -/

theorem skipTrivia_append {g : List Char} (hg : Blank g) (s : List Char) :
    skipTrivia (g ++ s) = skipTrivia s :=
  skipTrivia_blanks (List.all_eq_true.mpr hg) s

theorem dropWhile_append {g : List Char} (hg : Blank g) (s : List Char) :
    (g ++ s).dropWhile isBlank = s.dropWhile isBlank :=
  dropWhile_blanks (List.all_eq_true.mpr hg) s

/-- The end of the text, or blanks and the brace that closes a body. -/
def Closes (s : List Char) : Prop := s = [] ∨ ∃ g t, Blank g ∧ s = g ++ '}' :: t

theorem Closes.clear {s : List Char} (hs : Closes s) : Clear s := by
  refine .of_closed ?_
  rcases hs with rfl | ⟨g, t, hg, rfl⟩
  · simp
  · rw [skipTrivia_append hg, skipTrivia_cons (by decide) (by decide)]
    simp

theorem skipTrivia_commentLine {c : List Char} (hc : ∀ d ∈ c, notLineEnd d = true)
    (s : List Char) : skipTrivia ('/' :: '/' :: ' ' :: (c ++ '\n' :: s)) = skipTrivia s := by
  rw [skipTrivia_comment, ← List.cons_append, dropWhile_line (notLineEnd_space_cons hc),
    skipTrivia_blank (by decide)]

theorem clear_writeCondition (c s : List Char) : Clear (writeCondition c ++ s) := by
  have h : Clear (['i', 'f'] ++ ' ' :: '(' :: (c ++ ')' :: s)) :=
    .of_word (by decide) (stops_cons.mpr (by decide)) (by
      rw [skipTrivia_blank (by decide), skipTrivia_cons (by decide) (by decide)]
      simp)
  have happend : writeCondition c ++ s = ['i', 'f'] ++ ' ' :: '(' :: (c ++ ')' :: s) := by
    simp [writeCondition]
  rwa [happend]

/-- A word and an identifier behind it. -/
theorem clear_word_identifier {v w : List Char} (hv : IsWord v) (hw : IsIdentifier w)
    (s : List Char) : Clear (v ++ ' ' :: (w ++ s)) := by
  refine .of_word hv (stops_cons.mpr (by decide)) ?_
  rw [skipTrivia_blank (by decide), skipTrivia_identifier hw]
  exact ⟨hw.head?_ne s (by decide), hw.head?_ne s (by decide)⟩

theorem clear_guard {c : String} {g : List Char} (hg : GuardText c g) {s : List Char}
    (hs : Clear s) : Clear (g ++ s) := by
  rcases hg with rfl | ⟨-, rfl⟩
  · rw [List.append_assoc]
    exact clear_writeCondition _ _
  · exact hs

theorem clear_action (a : Action) {ws : List String} (hne : ws ≠ [])
    (hw : ∀ w ∈ ws, IsWord w.toList) (s : List Char) :
    Clear (writeAction a ++ ' ' :: (writeWords ws ++ s)) := by
  cases ws with
  | nil => exact absurd rfl hne
  | cons w ws =>
    obtain ⟨t, ht⟩ := writeWords_cons w ws
    rw [ht, List.append_assoc]
    exact clear_word_identifier (isWord_writeAction a) (hw w (by simp)).isIdentifier _

theorem clear_assignment {a : Assignment} (ha : a.Writable) {t : List Char} (ht : a.Written t)
    (s : List Char) : Clear (t ++ s) := by
  have hw : ∀ w ∈ a.nameParts, IsWord w.toList := fun w h => (ha.words w h).1
  obtain ⟨g, hg, rfl | ⟨-, rfl⟩⟩ := ht
  · have happend : a.writeSingle g ++ s = g ++ (writeAction a.action ++ ' ' ::
        (writeWords a.nameParts ++ (':' :: ' ' :: (a.value.write ++ s)))) := by
      simp [Assignment.writeSingle]
    rw [happend]
    exact clear_guard hg (clear_action a.action ha.named hw _)
  · have happend : a.writeArray g ++ s = writeAction a.action ++ ' ' ::
        (writeWords a.nameParts ++ (' ' :: (g ++ (a.value.write ++ s)))) := by
      simp [Assignment.writeArray]
    rw [happend]
    exact clear_action a.action ha.named hw _

theorem clear_invocation {i : Invocation} (hi : i.Writable) {t : List Char} (ht : i.Written t)
    {s : List Char} (hs : Clear s) : Clear (t ++ '\n' :: s) := by
  obtain ⟨g, a, hg, ha, rfl⟩ := ht
  rw [List.append_assoc, List.append_assoc]
  refine clear_guard hg (.of_word hi.word (stops_argument ha s) ?_)
  rcases skipTrivia_argument ha s with h | ⟨c, u, h, hc⟩
  · rw [h]
    exact ⟨hs.head?_ne (by decide) (by decide), hs.head?_ne (by decide) (by decide)⟩
  · rw [h]
    rcases hc with rfl | rfl <;> simp

theorem clear_element : ∀ {e : Element}, e.Writable → ∀ {t : List Char}, e.Written t →
    ∀ {s : List Char}, Clear s → Clear (t ++ '\n' :: s)
  | .comment text, he, _, ht, s, hs => by
    obtain rfl := ht
    exact .of_skipTrivia (skipTrivia_commentLine he.2 s) hs
  | .group g, he, _, ht, s, _ => by
    obtain rfl := ht
    rw [writeGroup_append]
    exact clear_word_identifier (by decide) he.1 _
  | .assignment a, he, _, ht, s, _ => clear_assignment he ht _
  | .invocation i, he, _, ht, s, hs => clear_invocation he ht hs
  | .block condition body, _, _, ht, s, _ => by
    obtain ⟨b, g, -, -, rfl⟩ := ht
    rw [List.append_assoc]
    exact clear_writeCondition _ _
  | .object heading body, he, _, ht, s, _ => by
    obtain ⟨b, g, -, -, rfl⟩ := ht
    rw [writeHeading, List.append_assoc, List.append_assoc, List.cons_append, List.append_assoc]
    exact clear_word_identifier he.1 he.2.1 _

/-- **No element makes the one before it another one.** -/
theorem clear_written : ∀ {es : List Element}, AllWritable es → ∀ {t : List Char},
    AllWritten es t → ∀ {s : List Char}, Closes s → Clear (t ++ s)
  | [], _, _, ht, s, hs => by
    obtain rfl := ht
    exact hs.clear
  | e :: es, he, _, ht, s, hs => by
    obtain ⟨g, u, v, hg, hu, hv, rfl⟩ := ht
    have ih := clear_written he.2 hv hs
    have h := clear_element he.1 hu ih
    rw [List.append_assoc, List.append_assoc, List.cons_append]
    exact .of_skipTrivia (skipTrivia_append hg _) h

/-- What is written begins with a character that is not blank. -/
def Visible (s : List Char) : Prop := ∃ c t, s = c :: t ∧ isBlank c = false

theorem visible_word {w : List Char} (hw : IsWord w) (s : List Char) : Visible (w ++ s) := by
  obtain ⟨c, t, rfl, hc, -⟩ := hw.isIdentifier.exists_cons
  exact ⟨c, t ++ s, rfl, isBlank_eq_false_of_isLexical hc⟩

theorem visible_guard {c : String} {g : List Char} (hg : GuardText c g) {s : List Char}
    (hs : Visible s) : Visible (g ++ s) := by
  rcases hg with rfl | ⟨-, rfl⟩
  · exact ⟨'i', _, rfl, by decide⟩
  · exact hs

theorem visible_written : ∀ {e : Element}, e.Writable → ∀ {t : List Char}, e.Written t → Visible t
  | .comment _, _, _, ht => ⟨'/', _, ht, by decide⟩
  | .group _, _, _, ht => ⟨'c', _, ht, by decide⟩
  | .assignment a, _, _, ht => by
    obtain ⟨g, hg, rfl | ⟨-, rfl⟩⟩ := ht
    · exact visible_guard hg (visible_word (isWord_writeAction a.action) _)
    · exact visible_word (isWord_writeAction a.action) _
  | .invocation i, hi, _, ht => by
    obtain ⟨g, a, hg, -, rfl⟩ := ht
    exact visible_guard hg (visible_word hi.word _)
  | .block _ _, _, _, ht => by
    obtain ⟨b, g, -, -, rfl⟩ := ht
    exact ⟨'i', _, rfl, by decide⟩
  | .object heading _, he, _, ht => by
    obtain ⟨b, g, -, -, rfl⟩ := ht
    rw [writeHeading, List.append_assoc]
    exact visible_word he.1 _

theorem Visible.dropWhile_eq {s : List Char} (hs : Visible s) (t : List Char) :
    (s ++ t).dropWhile isBlank = s ++ t := by
  obtain ⟨c, u, rfl, hc⟩ := hs
  exact List.dropWhile_cons_of_neg (by simp [hc])

end Element

/-! ### Reading back -/

namespace Grammar

/-- The elements inside an element, if the given text bounds the nesting. -/
def innerElements : List Char → Rule (List Element)
  | [] => refuse
  | _ :: bound => nestedUpTo elementsStep bound

theorem nestedUpTo_elementsStep (bound : List Char) :
    nestedUpTo elementsStep bound = elementsStep (innerElements bound) := by
  cases bound <;> rfl

/-- One round of the rule for elements. -/
def elementRound (inner : Rule (List Element)) : Rule Element := do
  let e ← element inner
  blanks
  return e

theorem read_elementRound {inner : Rule (List Element)} {s t : List Char} {e : Element}
    (h : (element inner).read s = some (e, t)) :
    (elementRound inner).read s = some (e, t.dropWhile isBlank) := by
  unfold elementRound
  rw [read_bind, h, Option.bind_some, read_bind, read_blanks]
  rfl

theorem read_elementsStep {inner : Rule (List Element)} {s t : List Char} {es : List Element}
    (h : Repeats (elementRound inner) (s.dropWhile isBlank) es t) :
    (elementsStep inner).read s = some (es, t) := by
  have hm := h.read_many
  unfold elementRound at hm
  unfold elementsStep
  rw [read_bind, read_blanks, Option.bind_some, hm]

theorem read_body {elements : Rule (List Element)} {s t : List Char} {es : List Element}
    (h : elements.read s = some (es, '}' :: t)) :
    (body elements).read ('{' :: s) = some (es, t) := by
  unfold body
  rw [read_bind, read_symbol_cons, if_pos rfl, Option.bind_some, read_bind, h, Option.bind_some,
    read_bind, read_symbol_cons, if_pos rfl]
  rfl

/-- Without a word or a slash there is no element. -/
theorem read_element_eq_none (inner : Rule (List Element)) {s : List Char}
    (hw : Stops isWordStart s) (hs : s.head? ≠ some '/') : (element inner).read s = none := by
  have hword := read_word_eq_none hw
  have hkeyword := read_keyword_eq_none hw
  have hcomment : comment.read s = none := read_comment_eq_none (by
    rintro ⟨t, rfl⟩
    exact hs rfl)
  have hgroup := read_configurationGroup_eq_none (hkeyword "configuration")
  have hconditional := read_conditional_eq_none (hkeyword "if")
  have hguard := read_guard_absent hconditional
  have haction : action.read s = none := by
    unfold action
    rw [read_firstOf_cons, read_firstOf_cons, read_map, read_map, hkeyword, hkeyword]
    rfl
  have hblock := read_block_eq_none inner hconditional
  have hsingle := read_singleAssignment_eq_none hguard haction
  have harray := read_arrayAssignment_eq_none haction
  have hobject : (object inner).read s = none := by
    unfold object heading
    rw [read_bind, read_bind, read_padded, hword]
    rfl
  have hinvocation : invocation.read s = none := by
    unfold invocation
    rw [read_bind, hguard, Option.bind_some, read_bind, read_keep, hword]
    rfl
  rw [read_element, read_map, hcomment, read_map, hgroup, hblock, read_map, hsingle, read_map,
    harray, hobject, read_map, hinvocation]
  rfl

theorem read_element_writeCondition {inner : Rule (List Element)} {c : String} {s t : List Char}
    {es : List Element} (hc : IsCondition c.toList) (h : inner.read s = some (es, '}' :: t)) :
    (element inner).read (writeCondition c.toList ++ ' ' :: '{' :: s) = some (.block c es, t) := by
  have hw := read_word_writeCondition c.toList (' ' :: '{' :: s)
  have hblock : (block inner).read (writeCondition c.toList ++ ' ' :: '{' :: s) =
      some (.block c es, t) := by
    unfold block
    rw [read_bind, read_padded, read_conditional hc, Option.map_some, skipTrivia_brace,
      Option.bind_some, read_bind, read_body h, String.ofList_toList]
    rfl
  exact read_element_block (read_comment_of_word hw)
    (read_configurationGroup_of_word hw (by decide)) hblock

theorem read_element_writeHeading {inner : Rule (List Element)} {h : Heading} {s t : List Char}
    {es : List Element} (hk : IsWord h.kind.toList) (hn : IsIdentifier h.name.toList)
    (hb : ∀ b ∈ h.base, IsIdentifier b.toList) (hi : inner.read s = some (es, '}' :: t)) :
    (element inner).read (writeHeading h ++ ' ' :: '{' :: s) = some (.object h es, t) := by
  have hw := read_word_writeHeading hk s
  have hblock := read_block_eq_none inner (read_conditional_heading hk hn s)
  have hobject : (object inner).read (writeHeading h ++ ' ' :: '{' :: s) =
      some (.object h es, t) := by
    unfold object
    rw [read_bind, read_heading hk hn hb, Option.bind_some, read_bind, read_body hi]
    rfl
  exact read_element_object (read_comment_of_word hw) (read_configurationGroup_heading hk hn s)
    hblock (read_singleAssignment_heading hk hn hb s) (read_arrayAssignment_heading hk hn s) hobject

end Grammar

namespace Element

theorem Closes.dropWhile_eq {g : List Char} (hg : Blank g) (s : List Char) :
    (g ++ '}' :: s).dropWhile isBlank = '}' :: s := by
  rw [dropWhile_append hg, List.dropWhile_cons_of_neg (by decide)]

theorem Closes.read_element_eq_none {s : List Char} (hs : Closes s)
    (inner : Rule (List Element)) : (element inner).read (s.dropWhile isBlank) = none := by
  rcases hs with rfl | ⟨g, t, hg, rfl⟩
  · exact Grammar.read_element_eq_none inner (stops_nil _) (by simp)
  · rw [Closes.dropWhile_eq hg]
    exact Grammar.read_element_eq_none inner (stops_cons.mpr (by decide)) (by simp)

/-- What stands between the braces of a body, if the elements there are read with any bound that is
long enough. -/
theorem read_innerElements {b g s : List Char} {es : List Element} (hg : Blank g)
    (h : ∀ bound : List Char, b.length ≤ bound.length →
      Repeats (elementRound (innerElements bound)) ((b ++ (g ++ '}' :: s)).dropWhile isBlank) es
        ((g ++ '}' :: s).dropWhile isBlank))
    {bound : List Char} (hl : b.length < bound.length) :
    (innerElements bound).read ('\n' :: (b ++ (g ++ '}' :: s))) = some (es, '}' :: s) := by
  cases bound with
  | nil => cases hl
  | cons c bound =>
    have hr := h bound (Nat.le_of_lt_succ hl)
    rw [Closes.dropWhile_eq hg] at hr
    rw [innerElements, nestedUpTo_elementsStep]
    refine read_elementsStep ?_
    rwa [List.dropWhile_cons_of_pos (by decide)]

mutual

/-- **An element is read back from what is written**, with the line end behind it left over. -/
theorem read_written : ∀ (e : Element), e.Writable → ∀ (t : List Char), e.Written t →
    ∀ (bound s : List Char), t.length ≤ bound.length → Clear s →
      (element (innerElements bound)).read (t ++ '\n' :: s) = some (e, '\n' :: s)
  | .comment text, he, _, ht, _, s, _, _ => by
    obtain rfl := ht
    exact read_element_commentLine _ he.1 he.2 s
  | .group g, he, _, ht, _, s, _, _ => by
    obtain rfl := ht
    exact read_element_writeGroup _ he ('\n' :: s)
  | .assignment a, he, _, ht, _, _, _, hs => read_element_assignment _ he ht hs
  | .invocation i, he, _, ht, _, _, _, hs => read_element_invocationText _ he ht hs
  | .block condition body, he, _, ht, bound, s, hl, _ => by
    obtain ⟨b, g, hb, hg, rfl⟩ := ht
    simp only [List.length_append, List.length_cons] at hl
    have hinner := read_innerElements (s := '\n' :: s) hg
      (fun bound hle => repeats_written body he.2 b hb bound _ hle (Or.inr ⟨g, _, hg, rfl⟩))
      (show b.length < bound.length by omega)
    have happend : writeCondition condition.toList ++ ' ' :: '{' :: '\n' :: (b ++ (g ++ ['}'])) ++
        '\n' :: s = writeCondition condition.toList ++ ' ' :: '{' :: '\n' ::
          (b ++ (g ++ '}' :: '\n' :: s)) := by simp
    rw [happend]
    exact read_element_writeCondition he.1 hinner
  | .object heading body, he, _, ht, bound, s, hl, _ => by
    obtain ⟨b, g, hb, hg, rfl⟩ := ht
    obtain ⟨hkind, hname, hbase, hbody⟩ := he
    simp only [List.length_append, List.length_cons] at hl
    have hinner := read_innerElements (s := '\n' :: s) hg
      (fun bound hle => repeats_written body hbody b hb bound _ hle (Or.inr ⟨g, _, hg, rfl⟩))
      (show b.length < bound.length by omega)
    have happend : writeHeading heading ++ ' ' :: '{' :: '\n' :: (b ++ (g ++ ['}'])) ++
        '\n' :: s = writeHeading heading ++ ' ' :: '{' :: '\n' ::
          (b ++ (g ++ '}' :: '\n' :: s)) := by simp
    rw [happend]
    exact read_element_writeHeading hkind hname hbase hinner

/-- The elements of a body are read back one after another, up to what closes it. -/
theorem repeats_written : ∀ (es : List Element), AllWritable es → ∀ (t : List Char),
    AllWritten es t → ∀ (bound s : List Char), t.length ≤ bound.length → Closes s →
      Repeats (elementRound (innerElements bound)) ((t ++ s).dropWhile isBlank) es
        (s.dropWhile isBlank)
  | [], _, _, ht, bound, s, _, hs => by
    obtain rfl := ht
    refine .stop ?_
    unfold elementRound
    rw [List.nil_append, read_bind, hs.read_element_eq_none]
    rfl
  | e :: es, he, _, ht, bound, s, hl, hs => by
    obtain ⟨g, u, v, hg, hu, hv, rfl⟩ := ht
    simp only [List.length_append, List.length_cons] at hl
    have hclear := clear_written he.2 hv hs
    have hr := read_elementRound (read_written e he.1 u hu bound (v ++ s) (by omega) hclear)
    have ih := repeats_written es he.2 v hv bound s (by omega) hs
    have happend : g ++ (u ++ '\n' :: v) ++ s = g ++ (u ++ '\n' :: (v ++ s)) := by simp
    rw [happend, dropWhile_append hg, (visible_written he.1 hu).dropWhile_eq]
    rw [List.dropWhile_cons_of_pos (by decide)] at hr
    refine .step hr ?_ ih
    have hle := (List.dropWhile_suffix (l := v ++ s) isBlank).length_le
    simp only [List.length_append, List.length_cons] at hle ⊢
    omega

end

end Element

/-! ### One text for every document -/

namespace Grammar

/-- The text of a condition in front of an element, left out if it always holds. -/
def writeGuard (condition : String) : List Char :=
  if condition = always then [] else writeCondition condition.toList ++ [' ']

theorem guardText_writeGuard (c : String) : GuardText c (writeGuard c) := by
  unfold writeGuard
  split
  · next h => exact Or.inr ⟨h, rfl⟩
  · exact Or.inl rfl

/-- The text of an argument: in quotes if it can stand there, in parentheses otherwise. -/
def writeArgument : Option String → List Char
  | none => []
  | some a =>
    if Quotable a.toList then ' ' :: quote a.toList else ' ' :: '(' :: a.toList ++ [')']

theorem argumentText_writeArgument {o : Option String}
    (ho : ∀ a ∈ o, Quotable a.toList ∨ Balanced a.toList) :
    Invocation.ArgumentText o (writeArgument o) := by
  cases o with
  | none => rfl
  | some a =>
    by_cases h : Quotable a.toList
    · exact Or.inl ⟨h, if_pos h⟩
    · exact Or.inr ⟨(ho a rfl).resolve_left h, if_neg h⟩

end Grammar

namespace Element

mutual

/-- A text of an element, without blanks in front. -/
def write : Element → List Char
  | .comment text => '/' :: '/' :: ' ' :: text.toList
  | .group g => writeGroup g
  | .assignment a => a.writeSingle (writeGuard a.condition)
  | .invocation i => writeGuard i.condition ++ (i.name.toList ++ writeArgument i.argument)
  | .block condition body =>
    writeCondition condition.toList ++ ' ' :: '{' :: '\n' :: (writeAll body ++ ['}'])
  | .object heading body => writeHeading heading ++ ' ' :: '{' :: '\n' :: (writeAll body ++ ['}'])

def writeAll : List Element → List Char
  | [] => []
  | e :: es => write e ++ '\n' :: writeAll es

end

theorem blank_nil : Blank [] := fun _ hc => nomatch hc

mutual

theorem written_write : ∀ (e : Element), e.Writable → e.Written e.write
  | .comment _, _ => rfl
  | .group _, _ => rfl
  | .assignment a, _ => ⟨_, guardText_writeGuard a.condition, Or.inl rfl⟩
  | .invocation i, hi =>
    ⟨_, _, guardText_writeGuard i.condition, argumentText_writeArgument hi.argument, rfl⟩
  | .block _ body, he => ⟨_, [], allWritten_writeAll body he.2, blank_nil, rfl⟩
  | .object _ body, he => ⟨_, [], allWritten_writeAll body he.2.2.2, blank_nil, rfl⟩

theorem allWritten_writeAll : ∀ (es : List Element), AllWritable es → AllWritten es (writeAll es)
  | [], _ => rfl
  | e :: es, he => ⟨[], _, _, blank_nil, written_write e he.1, allWritten_writeAll es he.2, rfl⟩

end

end Element

/-! ### Documents -/

namespace Document

/-- Holds of a document that can be written. -/
def Writable (d : Document) : Prop := Element.AllWritable d.elements

instance : DecidablePred Writable := fun d =>
  inferInstanceAs (Decidable (Element.AllWritable d.elements))

/-- The texts of a document. -/
def Written (d : Document) (text : String) : Prop := Element.AllWritten d.elements text.toList

/-- One text of a document. -/
def write (d : Document) : String := String.ofList (Element.writeAll d.elements)

theorem written_write {d : Document} (hd : d.Writable) : d.Written d.write := by
  unfold Written write
  rw [String.toList_ofList]
  exact Element.allWritten_writeAll d.elements hd

/-- A document is read as the elements in it. -/
theorem parse_eq_ok_iff {source : String} {d : Document} :
    Document.parse source = .ok d ↔
      Grammar.elements.read source.toList = some (d.elements, []) := by
  unfold Document.parse
  rw [Rule.parse_eq_ok_iff, read_map]
  constructor
  · intro h
    obtain ⟨⟨es, t⟩, hr, he⟩ := Option.map_eq_some_iff.mp h
    cases he
    exact hr
  · intro h
    rw [h]
    rfl

/-- **A document is read back from every text of it**, and there is such a text. -/
theorem parse_written {d : Document} (hd : d.Writable) :
    d.Written d.write ∧ ∀ text, d.Written text → Document.parse text = .ok d := by
  refine ⟨written_write hd, fun text ht => ?_⟩
  have hrepeats := Element.repeats_written d.elements hd text.toList ht text.toList []
    (Nat.le_refl _) (Or.inl rfl)
  rw [List.append_nil] at hrepeats
  have hread : Grammar.elements.read text.toList = some (d.elements, []) := by
    unfold Grammar.elements
    rw [read_nested, nestedUpTo_elementsStep]
    exact read_elementsStep hrepeats
  have hwhole : (Grammar.elements.map Document.mk).whole text.toList = .ok d := by
    refine whole_eq_ok ?_
    rw [read_map, hread]
    rfl
  unfold Document.parse Rule.parse
  rw [hwhole]

/-- A document with every kind of element. -/
def specimen : Document :=
  ⟨[.comment "every kind",
    .group ⟨"Build", [("Debug", .ofList ["SLOW", "CHECKED"]), ("Release", .empty)]⟩,
    .object ⟨"set", "Core", some "$(BASE)"⟩
      [.assignment ⟨.add, ["Source", "Files"], .array [.glob "*.c" true, .literal "a\"b"], always⟩,
        .block "(A) or B" [.invocation ⟨"if_else", some "x\\", "C"⟩],
        .invocation ⟨"Leaf", none, always⟩,
        .object ⟨"Leaf", "Inner", none⟩ []]]⟩

theorem parse_specimen : specimen.Writable ∧ Document.parse "// every kind
configuration Build [ Debug: CHECKED, SLOW Release:  ]
set Core : $(BASE) \x7b
add Source Files: [ !glob \"*.c\" \"a\\\"b\" ]
if ((A) or B) \x7b
if (C) if_else (x\\)
\x7d
Leaf
Leaf Inner \x7b
\x7d
\x7d
" = .ok specimen := by
  have hd : specimen.Writable := by decide +kernel
  obtain ⟨hw, hp⟩ := parse_written hd
  refine ⟨hd, (congrArg Document.parse ?_).trans (hp _ hw)⟩
  decide +kernel

end Document

end BuildPlan
