import BuildPlan.Proofs.Grammar.Groups
import BuildPlan.Proofs.Grammar.Headings

/-! # Elements as they are written

Properties and commands can be written in more than one way: a condition that always holds may be
left out, an array may stand behind a colon or behind the name of its property, and the argument of
a command may stand in quotes or in parentheses. Every element is read back by its own alternative,
and none of those before it applies.

A command is the last alternative. It depends on what stands behind it: were there a second name and
then a colon or a brace, it would be the heading of an object. No element has a colon or a brace
behind its first word (`Clear`). -/

namespace BuildPlan

open BuildPlan.Grammar BuildPlan.Grammar.Rule BuildPlan.Text

/-! ### Properties and commands -/

namespace Assignment

/-- Holds of an assignment that can be written: the name of the property is made of words other
than the one for conditions. -/
structure Writable (a : Assignment) : Prop where
  named : a.nameParts ≠ []
  words : ∀ w ∈ a.nameParts, IsWord w.toList ∧ w ≠ "if"
  value : a.value.Writable
  condition : IsCondition a.condition.toList

instance : DecidablePred Writable := fun a =>
  decidable_of_iff
    (a.nameParts ≠ [] ∧ (∀ w ∈ a.nameParts, IsWord w.toList ∧ w ≠ "if") ∧ a.value.Writable ∧
      IsCondition a.condition.toList)
    ⟨fun ⟨hn, hw, hv, hc⟩ => ⟨hn, hw, hv, hc⟩, fun ⟨hn, hw, hv, hc⟩ => ⟨hn, hw, hv, hc⟩⟩

/-- The text of an assignment with a colon. -/
def writeSingle (a : Assignment) (g : List Char) : List Char :=
  g ++ (writeAction a.action ++ ' ' :: (writeWords a.nameParts ++ ':' :: ' ' :: a.value.write))

/-- The text of an assignment with an array behind the name. -/
def writeArray (a : Assignment) (g : List Char) : List Char :=
  writeAction a.action ++ ' ' :: (writeWords a.nameParts ++ ' ' :: (g ++ a.value.write))

/-- The texts of an assignment. -/
def Written (a : Assignment) (t : List Char) : Prop :=
  ∃ g, GuardText a.condition g ∧
    (t = a.writeSingle g ∨ (∃ items, a.value = .array items) ∧ t = a.writeArray g)

end Assignment

namespace Invocation

/-- Holds of a command that can be written: its argument can stand in quotes or in parentheses. -/
structure Writable (i : Invocation) : Prop where
  word : IsWord i.name.toList
  free : i.name ∉ reserved
  argument : ∀ a ∈ i.argument, Quotable a.toList ∨ Balanced a.toList
  condition : IsCondition i.condition.toList

instance : DecidablePred Writable := fun i =>
  decidable_of_iff
    (IsWord i.name.toList ∧ i.name ∉ reserved ∧
      (∀ a ∈ i.argument, Quotable a.toList ∨ Balanced a.toList) ∧ IsCondition i.condition.toList)
    ⟨fun ⟨hw, hf, ha, hc⟩ => ⟨hw, hf, ha, hc⟩, fun ⟨hw, hf, ha, hc⟩ => ⟨hw, hf, ha, hc⟩⟩

/-- The texts of an argument with what is in front of it. -/
def ArgumentText (argument : Option String) (t : List Char) : Prop :=
  match argument with
  | none => t = []
  | some a =>
    Quotable a.toList ∧ t = ' ' :: quote a.toList ∨
      Balanced a.toList ∧ t = ' ' :: '(' :: a.toList ++ [')']

/-- The texts of a command. -/
def Written (i : Invocation) (t : List Char) : Prop :=
  ∃ g a, GuardText i.condition g ∧ ArgumentText i.argument a ∧ t = g ++ (i.name.toList ++ a)

end Invocation

namespace Grammar

/-! ### What may stand behind an element -/

/-- What follows does not begin with a second name of a heading, or with what may stand behind
that. -/
structure Clear (s : List Char) : Prop where
  opens : ∀ c ∈ (skipTrivia s).head?, c = '}' ∨ isWordStart c = true
  noHeading : ∀ i t, identifier.read (skipTrivia s) = some (i, t) →
    (skipTrivia t).head? ≠ some ':' ∧ (skipTrivia t).head? ≠ some '{'

theorem Clear.head?_ne {s : List Char} (hs : Clear s) {c : Char} (hc : c ≠ '}')
    (hw : isWordStart c = false) : (skipTrivia s).head? ≠ some c := by
  intro h
  rcases hs.opens c h with rfl | ho
  · exact hc rfl
  · rw [hw] at ho
    cases ho

theorem Clear.of_skipTrivia {s t : List Char} (h : skipTrivia s = skipTrivia t) (ht : Clear t) :
    Clear s := ⟨by rw [h]; exact ht.opens, by rw [h]; exact ht.noHeading⟩

/-- Nothing, or the brace at the end of a body. -/
theorem Clear.of_closed {s : List Char} (h : ∀ c ∈ (skipTrivia s).head?, c = '}') : Clear s := by
  refine ⟨fun c hc => Or.inl (h c hc), fun i t hi => ?_⟩
  rw [read_identifier_eq_none fun c hc => by rw [h c hc]; decide] at hi
  cases hi

/-- A word with neither a colon nor a brace behind it. -/
theorem Clear.of_word {w s : List Char} (hw : IsWord w) (hs : Stops isLexical s)
    (hc : (skipTrivia s).head? ≠ some ':' ∧ (skipTrivia s).head? ≠ some '{') : Clear (w ++ s) := by
  have hskip := skipTrivia_identifier hw.isIdentifier s
  refine ⟨fun c hc => Or.inr ?_, fun i t hi => ?_⟩
  · rw [hskip] at hc
    cases w with
    | nil => exact hw.elim
    | cons d w =>
      obtain rfl : d = c := Option.some.inj hc
      exact hw.1
  · rw [hskip, read_identifier hw.isIdentifier hs.isNameChar] at hi
    cases hi
    exact hc

/-! ### The alternatives in turn -/

theorem read_element (inner : Rule (List Element)) (s : List Char) :
    (element inner).read s =
      ((comment.map Element.comment).read s).or
        (((configurationGroup.map Element.group).read s).or
          (((block inner).read s).or
            (((singleAssignment.map Element.assignment).read s).or
              (((arrayAssignment.map Element.assignment).read s).or
                (((object inner).read s).or
                  ((invocation.map Element.invocation).read s)))))) := by
  unfold element
  simp only [read_firstOf_cons, read_firstOf_nil, Option.or_none]

theorem read_element_comment {inner : Rule (List Element)} {c : String} {s t : List Char}
    (h : comment.read s = some (c, t)) : (element inner).read s = some (.comment c, t) := by
  rw [read_element, read_map, h]
  rfl

section Alternatives
variable {inner : Rule (List Element)} {s t : List Char} (hc : comment.read s = none)
include hc

theorem read_element_group {g : ConfigurationGroup} (h : configurationGroup.read s = some (g, t)) :
    (element inner).read s = some (.group g, t) := by
  rw [read_element, read_map, hc, read_map, h]
  rfl

variable (hg : configurationGroup.read s = none)
include hg

theorem read_element_block {e : Element} (h : (block inner).read s = some (e, t)) :
    (element inner).read s = some (e, t) := by
  rw [read_element, read_map, hc, read_map, hg, h]
  rfl

variable (hb : (block inner).read s = none)
include hb

theorem read_element_single {a : Assignment} (h : singleAssignment.read s = some (a, t)) :
    (element inner).read s = some (.assignment a, t) := by
  rw [read_element, read_map, hc, read_map, hg, hb, read_map, h]
  rfl

variable (hs : singleAssignment.read s = none)
include hs

theorem read_element_array {a : Assignment} (h : arrayAssignment.read s = some (a, t)) :
    (element inner).read s = some (.assignment a, t) := by
  rw [read_element, read_map, hc, read_map, hg, hb, read_map, hs, read_map, h]
  rfl

variable (ha : arrayAssignment.read s = none)
include ha

theorem read_element_object {e : Element} (h : (object inner).read s = some (e, t)) :
    (element inner).read s = some (e, t) := by
  rw [read_element, read_map, hc, read_map, hg, hb, read_map, hs, read_map, ha, h]
  rfl

theorem read_element_invocation (ho : (object inner).read s = none) {i : Invocation}
    (h : invocation.read s = some (i, t)) :
    (element inner).read s = some (.invocation i, t) := by
  rw [read_element, read_map, hc, read_map, hg, hb, read_map, hs, read_map, ha, ho, read_map, h]
  rfl

end Alternatives

/-! ### Comments and groups -/

theorem trim_space {s : List Char} (hs : trim s = s) : trim (' ' :: s) = s := by
  have h : trimStart (' ' :: s) = trimStart s := List.dropWhile_cons_of_pos (by decide)
  unfold trim at hs ⊢
  rw [h, hs]

section Line
variable {c : List Char} (hc : ∀ d ∈ c, notLineEnd d = true) (s : List Char)
include hc

theorem takeWhile_line : (c ++ '\n' :: s).takeWhile notLineEnd = c := by
  have hstop : Stops notLineEnd ('\n' :: s) := stops_cons.mpr rfl
  rw [List.takeWhile_append_of_pos hc, hstop.takeWhile_eq, List.append_nil]

theorem dropWhile_line : (c ++ '\n' :: s).dropWhile notLineEnd = '\n' :: s := by
  have hstop : Stops notLineEnd ('\n' :: s) := stops_cons.mpr rfl
  rw [List.dropWhile_append_of_pos hc, hstop.dropWhile_eq]

/-- A comment with a space in front of it. -/
theorem notLineEnd_space_cons : ∀ d ∈ ' ' :: c, notLineEnd d = true := by
  intro d hd
  rcases List.mem_cons.mp hd with rfl | hd
  · rfl
  · exact hc d hd

end Line

theorem read_element_commentLine (inner : Rule (List Element)) {c : String}
    (hc : trim c.toList = c.toList) (hl : ∀ d ∈ c.toList, notLineEnd d = true) (s : List Char) :
    (element inner).read ('/' :: '/' :: ' ' :: (c.toList ++ '\n' :: s)) =
      some (.comment c, '\n' :: s) := by
  have htake := takeWhile_line (notLineEnd_space_cons hl) s
  have hdrop := dropWhile_line (notLineEnd_space_cons hl) s
  rw [List.cons_append] at htake hdrop
  refine read_element_comment ?_
  rw [read_comment, htake, hdrop, trim_space hc, String.ofList_toList]

theorem read_word_writeGroup (g : ConfigurationGroup) (s : List Char) :
    ∃ t, word.read (writeGroup g ++ s) = some ("configuration", t) := by
  rw [writeGroup_append]
  exact ⟨_, read_word (w := groupWord) (by decide) (stops_cons.mpr (by decide))⟩

theorem read_element_writeGroup (inner : Rule (List Element)) {g : ConfigurationGroup}
    (hg : GroupWritable g) (s : List Char) :
    (element inner).read (writeGroup g ++ s) = some (.group g, s) := by
  obtain ⟨t, hw⟩ := read_word_writeGroup g s
  exact read_element_group (read_comment_of_word hw) (read_configurationGroup hg s)

/-! ### Properties -/

/-- The word in front of an element with a condition is the one for conditions, or that of the
element if the condition is left out. -/
theorem read_word_guard {c : String} {g : List Char} (hg : GuardText c g) {s t : List Char}
    {w : String} (hw : word.read s = some (w, t)) :
    ∃ v u, word.read (g ++ s) = some (v, u) ∧ (v = "if" ∨ v = w) := by
  rcases hg with rfl | ⟨-, rfl⟩
  · rw [List.append_assoc]
    exact ⟨"if", _, read_word_writeCondition _ _, Or.inl rfl⟩
  · exact ⟨w, t, hw, Or.inr rfl⟩

theorem ends_newline {s : List Char} (hs : Clear s) : Value.Ends ('\n' :: s) := by
  refine ⟨stops_cons.mpr (by decide), ?_⟩
  rw [skipTrivia_blank (by decide)]
  exact hs.head?_ne (by decide) (by decide)

section Property
variable (inner : Rule (List Element)) {a : Assignment} (ha : a.Writable) {g : List Char}
  (hg : GuardText a.condition g) {s : List Char}
include ha hg

theorem read_element_writeSingle (hs : Clear s) :
    (element inner).read (a.writeSingle g ++ '\n' :: s) = some (.assignment a, '\n' :: s) := by
  have happend : a.writeSingle g ++ '\n' :: s = g ++ (writeAction a.action ++ ' ' ::
      (writeWords a.nameParts ++ ':' :: ' ' :: (a.value.write ++ '\n' :: s))) := by
    simp [Assignment.writeSingle]
  have hword := read_word_writeAction a.action
    (writeWords a.nameParts ++ ':' :: ' ' :: (a.value.write ++ '\n' :: s))
  obtain ⟨v, u, hv, hne⟩ := read_word_guard hg hword
  have hconfiguration : v ≠ "configuration" := by
    rcases hne with rfl | rfl
    · decide
    · cases a.action <;> decide
  have hbrace : (skipTrivia ('\n' :: s)).head? ≠ some '{' := by
    rw [skipTrivia_blank (by decide)]
    exact hs.head?_ne (by decide) (by decide)
  have hblock := read_block_guard ha.condition hg (read_keyword_if_writeAction a.action
      (writeWords a.nameParts ++ ':' :: ' ' :: (a.value.write ++ '\n' :: s)))
    (skipTrivia_identifier (isWord_writeAction a.action).isIdentifier _) inner
    (by cases a.action <;> simp [writeAction])
  rw [happend]
  exact read_element_single (read_comment_of_word hv)
    (read_configurationGroup_of_word hv hconfiguration) hblock
    (read_singleAssignment ha.named ha.words ha.condition hg ha.value (ends_newline hs) hbrace)

theorem read_element_writeArray {items : List Value} (hi : a.value = .array items)
    (s : List Char) :
    (element inner).read (a.writeArray g ++ '\n' :: s) = some (.assignment a, '\n' :: s) := by
  have happend : a.writeArray g ++ '\n' :: s = writeAction a.action ++ ' ' ::
      (writeWords a.nameParts ++ ' ' :: (g ++ ((Value.array items).write ++ '\n' :: s))) := by
    simp [Assignment.writeArray, hi]
  have hv := ha.value
  rw [hi] at hv
  have hword := read_word_writeAction a.action
    (writeWords a.nameParts ++ ' ' :: (g ++ ((Value.array items).write ++ '\n' :: s)))
  have hread := read_arrayAssignment (a := a.action) ha.named ha.words ha.condition hg hv
    ('\n' :: s)
  have heta : (⟨a.action, a.nameParts, .array items, a.condition⟩ : Assignment) = a := by rw [← hi]
  rw [heta] at hread
  rw [happend]
  exact read_element_array (read_comment_of_word hword)
    (read_configurationGroup_of_word hword (by cases a.action <;> decide))
    (read_block_of_word hword inner (by cases a.action <;> decide))
    (read_singleAssignment_bracket ha.named ha.words hg _) hread

end Property

theorem read_element_assignment (inner : Rule (List Element)) {a : Assignment} (ha : a.Writable)
    {t : List Char} (ht : a.Written t) {s : List Char} (hs : Clear s) :
    (element inner).read (t ++ '\n' :: s) = some (.assignment a, '\n' :: s) := by
  obtain ⟨g, hg, rfl | ⟨⟨items, hi⟩, rfl⟩⟩ := ht
  · exact read_element_writeSingle inner ha hg hs
  · exact read_element_writeArray inner ha hg hi s

/-! ### Commands -/

theorem ne_of_free {n : String} (hn : n ∉ reserved) :
    n ≠ "if" ∧ n ≠ "set" ∧ n ≠ "add" ∧ n ≠ "configuration" := by
  refine ⟨?_, ?_, ?_, ?_⟩ <;>
  · rintro rfl
    exact hn (by decide)

/-- Behind a word there is no second name that makes it the heading of an object. -/
theorem read_object_eq_none (inner : Rule (List Element)) {s t : List Char} {w : String}
    (hw : word.read s = some (w, t))
    (ht : ∀ i u, identifier.read (skipTrivia t) = some (i, u) →
      (skipTrivia u).head? ≠ some ':' ∧ (skipTrivia u).head? ≠ some '{') :
    (object inner).read s = none := by
  unfold object heading
  rw [read_bind, read_bind, read_padded, hw, Option.map_some, Option.bind_some, read_bind,
    read_padded]
  cases hi : identifier.read (skipTrivia t) with
  | none => rfl
  | some p =>
    obtain ⟨hcolon, hbrace⟩ := ht p.1 p.2 hi
    have hbase : (optional do
        padded (symbol ':')
        padded identifier).read (skipTrivia p.2) = some (none, skipTrivia p.2) := by
      rw [read_optional, read_bind, read_padded, read_symbol_eq_none hcolon]
      rfl
    have hbody := read_body_eq_none inner hbrace
    rw [Option.map_some, Option.bind_some, read_bind, hbase, Option.bind_some, read_pure,
      Option.bind_some, read_bind, hbody]
    rfl

/-- The rule for an argument with the spaces in front of it. -/
def spacedArgument : Rule String := do
  spaces
  argument

theorem read_spacedArgument {a : String} {t : List Char}
    (ht : Invocation.ArgumentText (some a) t) (s : List Char) :
    spacedArgument.read (t ++ s) = some (a, s) := by
  unfold spacedArgument argument
  rw [read_bind, read_spaces, Option.bind_some, read_firstOf_cons, read_firstOf_cons, read_map]
  rcases ht with ⟨ha, rfl⟩ | ⟨ha, rfl⟩
  · have hdrop : (' ' :: quote a.toList ++ s).dropWhile (fun c => c == ' ' || c == '\t') =
        quote a.toList ++ s := rfl
    rw [hdrop, read_quoted ha, Option.some_or, String.ofList_toList]
  · have hdrop : (' ' :: '(' :: a.toList ++ [')'] ++ s).dropWhile
        (fun c => c == ' ' || c == '\t') = '(' :: a.toList ++ ')' :: s := by
      simp
    rw [hdrop, read_quoted_eq_none (by simp), read_parenthesized ha, Option.none_or,
      Option.map_some, Option.some_or, String.ofList_toList]

theorem read_spacedArgument_eq_none (s : List Char) : spacedArgument.read ('\n' :: s) = none := by
  have hdrop : ('\n' :: s).dropWhile (fun c => c == ' ' || c == '\t') = '\n' :: s := rfl
  unfold spacedArgument argument
  rw [read_bind, read_spaces, Option.bind_some, hdrop, read_firstOf_cons, read_firstOf_cons,
    read_map, read_quoted_eq_none (by simp), read_parenthesized_eq_none (by simp)]
  rfl

theorem read_argument {o : Option String} {t : List Char} (ht : Invocation.ArgumentText o t)
    (s : List Char) : (optional spacedArgument).read (t ++ '\n' :: s) = some (o, '\n' :: s) := by
  rw [read_optional]
  cases o with
  | none =>
    obtain rfl : t = [] := ht
    rw [List.nil_append, read_spacedArgument_eq_none]
    rfl
  | some a =>
    rw [read_spacedArgument ht]
    rfl

/-- What stands behind the name of a command does not go on with it. -/
theorem stops_argument {o : Option String} {t : List Char} (ht : Invocation.ArgumentText o t)
    (s : List Char) : Stops isLexical (t ++ '\n' :: s) := by
  cases o with
  | none =>
    obtain rfl : t = [] := ht
    exact stops_cons.mpr (by decide)
  | some a => rcases ht with ⟨-, rfl⟩ | ⟨-, rfl⟩ <;> exact stops_cons.mpr (by decide)

theorem skipTrivia_argument {o : Option String} {t : List Char}
    (ht : Invocation.ArgumentText o t) (s : List Char) :
    skipTrivia (t ++ '\n' :: s) = skipTrivia s ∨
      ∃ c u, skipTrivia (t ++ '\n' :: s) = c :: u ∧ (c = '"' ∨ c = '(') := by
  cases o with
  | none =>
    obtain rfl : t = [] := ht
    exact Or.inl (skipTrivia_blank (by decide) s)
  | some a =>
    refine Or.inr ?_
    rcases ht with ⟨-, rfl⟩ | ⟨-, rfl⟩
    · refine ⟨'"', escapeQuotes a.toList ++ ['"'] ++ '\n' :: s, ?_, Or.inl rfl⟩
      exact (skipTrivia_blank (by decide) _).trans (skipTrivia_cons (by decide) (by decide) _)
    · refine ⟨'(', a.toList ++ [')'] ++ '\n' :: s, ?_, Or.inr rfl⟩
      exact (skipTrivia_blank (by decide) _).trans (skipTrivia_cons (by decide) (by decide) _)

section Command
variable {i : Invocation} (hi : i.Writable) {g a : List Char} (hg : GuardText i.condition g)
  (ha : Invocation.ArgumentText i.argument a) (s : List Char)

include hi ha in
theorem read_word_name :
    word.read (i.name.toList ++ (a ++ '\n' :: s)) = some (i.name, a ++ '\n' :: s) := by
  have hw := read_word hi.word (stops_argument ha s).isWordChar
  rwa [String.ofList_toList] at hw

include hi hg ha

theorem read_invocation :
    invocation.read (g ++ (i.name.toList ++ (a ++ '\n' :: s))) = some (i, '\n' :: s) := by
  have hw := read_word_name hi ha s
  have hif : (keyword "if").read (i.name.toList ++ (a ++ '\n' :: s)) = none := by
    rw [read_keyword_of_word hw, if_neg (ne_of_free hi.free).1]
  obtain ⟨o, ho, hcondition⟩ := read_guard hi.condition hg hif
    (skipTrivia_identifier hi.word.isIdentifier _)
  have hfree : (!reserved.contains i.name) = true := by simpa using hi.free
  have harg := read_argument ha s
  unfold spacedArgument at harg
  unfold invocation
  rw [read_bind, ho, Option.bind_some, read_bind, read_keep, hw]
  simp only [Option.filter, hfree, if_true, Option.bind_some]
  rw [read_bind, harg, Option.bind_some, hcondition]
  rfl

theorem read_object_command (inner : Rule (List Element)) (hs : Clear s) :
    (object inner).read (g ++ (i.name.toList ++ (a ++ '\n' :: s))) = none := by
  have hname : ∀ {c : Char} {u : List Char}, c = '"' ∨ c = '(' →
      identifier.read (c :: u) = none := by
    intro c u hc
    rcases hc with rfl | rfl <;> exact read_identifier_eq_none (stops_cons.mpr (by decide))
  rcases hg with rfl | ⟨-, rfl⟩
  · rw [List.append_assoc]
    refine read_object_eq_none inner (read_word_writeCondition _ _) fun j u hj => ?_
    rw [skipTrivia_blank (by decide), skipTrivia_cons (by decide) (by decide),
      hname (Or.inr rfl)] at hj
    cases hj
  · refine read_object_eq_none inner (read_word_name hi ha s) fun j u hj => ?_
    rcases skipTrivia_argument ha s with h | ⟨c, v, h, hc⟩
    · rw [h] at hj
      exact hs.noHeading j u hj
    · rw [h, hname hc] at hj
      cases hj

theorem read_element_command (inner : Rule (List Element)) (hs : Clear s) :
    (element inner).read (g ++ (i.name.toList ++ (a ++ '\n' :: s))) =
      some (.invocation i, '\n' :: s) := by
  obtain ⟨hif, hset, hadd, hconfiguration⟩ := ne_of_free hi.free
  have hw := read_word_name hi ha s
  obtain ⟨v, u, hv, hvw⟩ := read_word_guard hg hw
  have hne : v ≠ "set" ∧ v ≠ "add" ∧ v ≠ "configuration" := by
    rcases hvw with rfl | rfl
    · decide
    · exact ⟨hset, hadd, hconfiguration⟩
  have hkeyword : (keyword "if").read (i.name.toList ++ (a ++ '\n' :: s)) = none := by
    rw [read_keyword_of_word hw, if_neg hif]
  have hskip := skipTrivia_identifier hi.word.isIdentifier (a ++ '\n' :: s)
  have hblock : (block inner).read (g ++ (i.name.toList ++ (a ++ '\n' :: s))) = none := by
    refine read_block_guard hi.condition hg hkeyword hskip inner ?_
    exact hi.word.isIdentifier.head?_ne _ (by decide)
  have hsingle : singleAssignment.read (g ++ (i.name.toList ++ (a ++ '\n' :: s))) = none := by
    obtain ⟨o, ho, -⟩ := read_guard hi.condition hg hkeyword hskip
    exact read_singleAssignment_eq_none ho (read_action_of_word hw hset hadd)
  exact read_element_invocation (read_comment_of_word hv)
    (read_configurationGroup_of_word hv hne.2.2) hblock hsingle
    (read_arrayAssignment_eq_none (read_action_of_word hv hne.1 hne.2.1))
    (read_object_command hi hg ha s inner hs) (read_invocation hi hg ha s)

end Command

theorem read_element_invocationText (inner : Rule (List Element)) {i : Invocation}
    (hi : i.Writable) {t : List Char} (ht : i.Written t) {s : List Char} (hs : Clear s) :
    (element inner).read (t ++ '\n' :: s) = some (.invocation i, '\n' :: s) := by
  obtain ⟨g, a, hg, ha, rfl⟩ := ht
  rw [List.append_assoc, List.append_assoc]
  exact read_element_command hi hg ha s inner hs

end Grammar

end BuildPlan
