import BuildPlan.Proofs.Grammar.Extending
import BuildPlan.Proofs.Grammar.Unclosed

/-! # Documents inside a body

The elements of a document are read again where the document stands between braces, on lines of
their own (`Document.parse_wrapped`). Groups, properties, headings and commands are read alike on
both texts, whether they are read or not. A body is read from the second text if it is read from the
first one, and that a body is not read must not let the next alternative in: then the run on the
first text would not have got to its end. -/

namespace BuildPlan.Grammar

open BuildPlan.Text BuildPlan.Grammar.Rule

/-! ### Groups, properties and commands -/

theorem takes_identifier : Takes 1 identifier :=
  (((takes_one _).map _).firstOf_cons (takes_reference.firstOf_cons takes_firstOf_nil)).before
    fun _ => (Takes.many (takes_namePart.mono (Nat.zero_le 1))).before fun _ => takes_pure _

theorem takes_constant : Takes 1 constant :=
  takes_identifier.before fun _ => (takes_absent _).before fun _ => takes_pure _

theorem takes_moreConstant : Takes 1 moreConstant :=
  takes_trivia.behind fun _ => (takes_symbol ',').before fun _ => takes_trivia.before fun _ =>
    takes_constant.mono (Nat.zero_le 1)

theorem takes_constants : Takes 0 constants :=
  ((takes_constant.mono (Nat.zero_le 1)).before fun _ =>
    (Takes.many (takes_moreConstant.mono (Nat.zero_le 1))).before fun _ =>
      takes_pure _).firstOf_cons ((takes_pure []).firstOf_cons takes_firstOf_nil)

theorem takes_member : Takes 1 member :=
  takes_identifier.padded.before fun _ =>
    ((takes_symbol ':').mono (Nat.zero_le 1)).padded.before fun _ =>
      takes_constants.padded.before fun _ => takes_pure _

theorem takes_nameWord : Takes 1 nameWord := (takes_word.keep _).padded

section Flat
variable {z z' : List Char} (hz : Tail z z') {n : Nat}
include hz

theorem carries_absent_symbol {c : Char} (hc : c ≠ '\n' ∧ c ≠ '}') :
    Carries (Loose z z' n) (Loose z z' n)
      (absent do
        trivia
        symbol c)
      (absent do
        trivia
        symbol c) :=
  ((carries_trivia hz).bind fun _ => (carries_symbol hz hc).lower).absent

theorem carries_constant : Carries (Loose z z' n) (Loose z z' n) constant constant :=
  (carries_identifier hz).loose.bind fun _ => (carries_absent_symbol hz (by decide)).bind fun _ =>
    carries_pure _

theorem carries_constants : Carries (Loose z z' n) (Loose z z' n) constants constants := by
  have hmore : Carries (Loose z z' n) (Loose z z' n) moreConstant moreConstant :=
    (carries_trivia hz).bind fun _ => (carries_symbol hz (by decide)).lower.loose.bind fun _ =>
      (carries_trivia hz).bind fun _ => carries_constant hz
  have hfirst := (carries_constant hz).bind fun first =>
    Carries.bind (Carries.many hmore takes_moreConstant takes_moreConstant) fun more =>
      carries_pure (first :: more)
  exact .firstOf_cons hfirst (.firstOf_cons (carries_pure []) carries_firstOf_nil)

theorem carries_member : Carries (Loose z z' n) (Loose z z' n) member member :=
  ((carries_identifier hz).loose.padded hz).bind fun _ =>
    ((carries_symbol hz (by decide)).lower.loose.padded hz).bind fun _ =>
      ((carries_constants hz).padded hz).bind fun _ => carries_pure _

theorem carries_configurationGroup :
    Carries (Loose z z' n) (Loose z z' n) configurationGroup configurationGroup :=
  ((carries_keyword hz _).loose.padded hz).bind fun _ =>
    ((carries_identifier hz).loose.padded hz).bind fun _ =>
      ((carries_symbol hz (by decide)).lower.loose.padded hz).bind fun _ =>
        Carries.bind (Carries.many (carries_member hz) takes_member takes_member) fun _ =>
          (carries_symbol hz (by decide)).lower.loose.bind fun _ => carries_pure _

theorem carries_guard : Carries (Loose z z' n) (Loose z z' n) guard guard :=
  ((carries_conditional hz).loose.padded hz).optional fun _ _ h => h

theorem carries_action : Carries (Loose z z' n) (Loose z z' n) action action :=
  .firstOf_cons ((carries_keyword hz _).loose.map _)
    (.firstOf_cons ((carries_keyword hz _).loose.map _) carries_firstOf_nil)

theorem carries_nameParts : Carries (Loose z z' n) (Loose z z' n) nameParts nameParts :=
  (((carries_word hz).loose.keep _).padded hz).many1 (fun _ _ h => h) takes_nameWord takes_nameWord

theorem carries_singleAssignment :
    Carries (Loose z z' n) (Loose z z' n) singleAssignment singleAssignment :=
  (carries_guard hz).bind fun _ => ((carries_action hz).padded hz).bind fun _ =>
    (carries_nameParts hz).bind fun _ =>
      ((carries_symbol hz (by decide)).lower.loose.padded hz).bind fun _ =>
        (carries_value hz).bind fun _ => (carries_absent_symbol hz (by decide)).bind fun _ =>
          carries_pure _

theorem carries_arrayAssignment :
    Carries (Loose z z' n) (Loose z z' n) arrayAssignment arrayAssignment :=
  ((carries_action hz).padded hz).bind fun _ => (carries_nameParts hz).bind fun _ =>
    (carries_guard hz).bind fun _ =>
      (carries_arrayOf hz (carries_value hz) takes_value takes_value).lower.bind fun _ =>
        carries_pure _

theorem carries_heading : Carries (Loose z z' n) (Loose z z' n) heading heading :=
  ((carries_word hz).loose.padded hz).bind fun _ =>
    ((carries_identifier hz).loose.padded hz).bind fun _ =>
      (((carries_symbol hz (by decide)).lower.loose.padded hz).bind fun _ =>
        (carries_identifier hz).loose.padded hz).optional (fun _ _ h => h) |>.bind fun _ =>
          carries_pure _

theorem carries_invocation : Carries (Loose z z' n) (Loose z z' n) invocation invocation := by
  have hargument : Carries (Loose z z' n) (Loose z z' n) argument argument :=
    .firstOf_cons (carries_quoted hz).loose
      (.firstOf_cons ((carries_parenthesized hz).loose.map _) carries_firstOf_nil)
  exact (carries_guard hz).bind fun _ => ((carries_word hz).loose.keep _).bind fun _ =>
    (((carries_spaces hz).bind fun _ => hargument).optional fun _ _ h => h).bind fun _ =>
      carries_pure _

end Flat

/-! ### Elements -/

theorem takes_action : Takes 1 action :=
  ((takes_keyword _).map _).firstOf_cons
    (((takes_keyword _).map _).firstOf_cons takes_firstOf_nil)

theorem takes_guard : Takes 0 guard := (takes_conditional.padded.mono (Nat.zero_le 1)).optional

theorem takes_nameParts : Takes 1 nameParts := takes_nameWord.many1

theorem takes_configurationGroup : Takes 1 configurationGroup :=
  (takes_keyword _).padded.before fun _ =>
    (takes_identifier.padded.mono (Nat.zero_le 1)).before fun _ =>
      ((takes_symbol '[').padded.mono (Nat.zero_le 1)).before fun _ =>
        (Takes.many (takes_member.mono (Nat.zero_le 1))).before fun _ =>
          ((takes_symbol ']').mono (Nat.zero_le 1)).before fun _ => takes_pure _

theorem takes_singleAssignment : Takes 1 singleAssignment :=
  takes_guard.behind fun _ => takes_action.padded.before fun _ =>
    (takes_nameParts.mono (Nat.zero_le 1)).before fun _ =>
      ((takes_symbol ':').padded.mono (Nat.zero_le 1)).before fun _ =>
        (takes_value.mono (Nat.zero_le 1)).before fun _ => (takes_absent _).before fun _ =>
          takes_pure _

theorem takes_arrayAssignment : Takes 1 arrayAssignment :=
  takes_action.padded.before fun _ => (takes_nameParts.mono (Nat.zero_le 1)).before fun _ =>
    takes_guard.before fun _ =>
      ((takes_arrayOf (takes_value.mono (Nat.zero_le 1))).mono (Nat.zero_le 1)).before fun _ =>
        takes_pure _

theorem takes_heading : Takes 1 heading :=
  takes_word.padded.before fun _ => (takes_identifier.padded.mono (Nat.zero_le 1)).before fun _ =>
    (((takes_symbol ':').padded.mono (Nat.zero_le 1)).before fun _ =>
      takes_identifier.padded.mono (Nat.zero_le 1)).optional.before fun _ => takes_pure _

theorem takes_invocation : Takes 1 invocation := by
  have hargument : Takes 0 argument :=
    (takes_quoted.mono (Nat.zero_le 1)).firstOf_cons
      (((takes_parenthesized.mono (Nat.zero_le 1)).map _).firstOf_cons takes_firstOf_nil)
  exact takes_guard.behind fun _ => (takes_word.keep _).before fun _ =>
    (takes_spaces.before fun _ => hargument).optional.before fun _ => takes_pure _

section Takes
variable {inner : Rule (List Element)} (hi : Takes 0 inner)
include hi

theorem takes_body : Takes 1 (body inner) :=
  (takes_symbol '{').before fun _ => hi.before fun _ =>
    ((takes_symbol '}').mono (Nat.zero_le 1)).before fun _ => takes_pure _

theorem takes_element : Takes 1 (element inner) := by
  have hbody : Takes 0 (body inner) := (takes_body hi).mono (Nat.zero_le 1)
  have hblock : Takes 1 (block inner) :=
    takes_conditional.padded.before fun _ => hbody.before fun _ => takes_pure _
  have hobject : Takes 1 (object inner) :=
    takes_heading.before fun _ => hbody.before fun _ => takes_pure _
  exact (takes_comment.map _).firstOf_cons <| (takes_configurationGroup.map _).firstOf_cons <|
    hblock.firstOf_cons <| (takes_singleAssignment.map _).firstOf_cons <|
    (takes_arrayAssignment.map _).firstOf_cons <| hobject.firstOf_cons <|
    (takes_invocation.map _).firstOf_cons takes_firstOf_nil

theorem takes_elementRound : Takes 1 (elementRound inner) :=
  (takes_element hi).before fun _ => takes_blanks.before fun _ => takes_pure _

theorem takes_elementsStep : Takes 0 (elementsStep inner) :=
  takes_blanks.before fun _ => Takes.many ((takes_elementRound hi).mono (Nat.zero_le 1))

theorem read_elementsStep_iff {s r : List Char} {es : List Element} :
    (elementsStep inner).read s = some (es, r) ↔
      Repeats (elementRound inner) (s.dropWhile isBlank) es r := by
  refine ⟨fun h => ?_, read_elementsStep⟩
  unfold elementsStep at h
  rw [read_bind, read_blanks, Option.bind_some] at h
  exact (takes_elementRound hi).repeats_of_read h

end Takes

section Elements
variable {z z' : List Char} (hz : Tail z z') {n : Nat} {q q' : Rule (List Element)}

/-- What is read from the first text up to the end of a body is read from the second one, too. -/
def Keeps (z z' : List Char) (n : Nat) (q q' : Rule (List Element)) : Prop :=
  ∀ s s' es r, Loose z z' n s s' → q.read s = some (es, r) → Ended r →
    q'.read s' = some (es, settle z z' r)

theorem of_read_body {s r : List Char} {es : List Element}
    (h : (body q).read s = some (es, r)) :
    ∃ v, s = '{' :: v ∧ q.read v = some (es, '}' :: r) := by
  obtain ⟨_, v, ho, h⟩ := of_read_bind h
  obtain ⟨es', u, hq, h⟩ := of_read_bind h
  obtain ⟨_, r', hc, h⟩ := of_read_bind h
  obtain rfl := of_read_symbol ho
  obtain rfl := of_read_symbol hc
  cases h
  exact ⟨v, rfl, hq⟩

variable (hq : Keeps z z' n q q') (ht : Takes 0 q)
include hz hq ht

/-- A body is read alike, unless it is not read where it begins. -/
theorem alike_body {s s' : List Char} (hs : Loose z z' (n + 1) s s')
    (h : s.head? = some '{' → (body q).read s ≠ none) :
    Alike (Loose z z' (n + 1)) ((body q).read s) ((body q').read s') := by
  cases hb : (body q).read s with
  | none =>
    have hopen : s'.head? ≠ some '{' := by
      cases s with
      | nil =>
        intro hopen
        rcases hs.head?_of_nil hz '{' hopen with h | h <;> cases h
      | cons c s =>
        obtain ⟨rfl, -⟩ := hs.firm_of_cons
        intro hopen
        exact h hopen hb
    rw [read_body_eq_none q' hopen]
    exact alike_none
  | some p =>
    obtain ⟨es, r⟩ := p
    obtain ⟨v, rfl, hv⟩ := of_read_body hb
    obtain ⟨rfl, hf⟩ := hs.firm_of_cons
    have hlen := ht.length_le hv
    have hlt := hf.2
    rw [List.length_cons] at hlen
    rw [read_body (hq v (v ++ z) es _ hf.loose hv (ended_brace r))]
    exact alike_some es ⟨.inl rfl, by omega⟩

/-- A rule with a body behind it is read alike, unless the body is not read where it begins. -/
theorem alike_withBody {γ : Type} {head : Rule γ} (f : γ → List Element → Element)
    (hh : Carries (Loose z z' (n + 1)) (Loose z z' (n + 1)) head head) {s s' : List Char}
    (hs : Loose z z' (n + 1) s s')
    (h : ∀ c v, head.read s = some (c, '{' :: v) → (body q).read ('{' :: v) ≠ none) :
    Alike (Loose z z' (n + 1))
      ((do
        let c ← head
        let es ← body q
        return f c es).read s)
      ((do
        let c ← head
        let es ← body q'
        return f c es).read s') := by
  rw [read_bind, read_bind]
  rcases hh s s' hs with ⟨hc, hc'⟩ | ⟨c, t, t', hc, hc', hl⟩
  · rw [hc, hc']
    exact alike_none
  · rw [hc, hc', Option.bind_some, Option.bind_some, read_bind, read_bind]
    have hbody : t.head? = some '{' → (body q).read t ≠ none := by
      intro ho
      obtain ⟨v, rfl⟩ := List.head?_eq_some_iff.mp ho
      exact h c v hc
    rcases alike_body hz hq ht hl hbody with ⟨hb, hb'⟩ | ⟨es, r, r', hb, hb', hr⟩
    · rw [hb, hb']
      exact alike_none
    · rw [hb, hb']
      exact alike_some (f c es) hr

/-- An element is read alike, if the run behind it gets to the end on the first text. -/
theorem alike_element {s s' t r : List Char} {e : Element} {es : List Element}
    (hs : Loose z z' (n + 1) s s') (he : (element q).read s = some (e, t))
    (hr : Repeats (elementRound q) (t.dropWhile isBlank) es r) (hend : Ended r) :
    Alike (Loose z z' (n + 1)) ((element q).read s) ((element q').read s') := by
  have hblock : Alike (Loose z z' (n + 1)) ((block q).read s) ((block q').read s') :=
    alike_withBody hz hq ht Element.block ((carries_conditional hz).loose.padded hz) hs
      fun c v hc hb => by rw [read_element_unclosed_block hc hb] at he; cases he
  rw [read_element, read_element]
  refine ((carries_comment hz).loose.map _ s s' hs).or fun hcomment => ?_
  refine ((carries_configurationGroup hz).map _ s s' hs).or fun hgroup => ?_
  refine hblock.or fun hblock => ?_
  refine ((carries_singleAssignment hz).map _ s s' hs).or fun hsingle => ?_
  refine ((carries_arrayAssignment hz).map _ s s' hs).or fun harray => ?_
  refine (alike_withBody hz hq ht Element.object (carries_heading hz) hs fun hd v hh hb => ?_).or
    fun _ => (carries_invocation hz).map _ s s' hs
  -- the command that is read instead has the rest of the heading behind it
  have hobject : (object q).read s = none := by
    unfold object
    rw [read_bind, hh, Option.bind_some, read_bind, hb]
    rfl
  rw [read_element, hcomment, hgroup, hblock, hsingle, harray, hobject, read_map] at he
  obtain ⟨⟨i, t'⟩, hi, he⟩ := Option.map_eq_some_iff.mp he
  cases he
  exact not_ended_of_heading hh hb hi hr hend

/-- The rounds on the first text are those on the second one. -/
theorem repeats_settle {s r : List Char} {es : List Element} (h : Repeats (elementRound q) s es r)
    (hend : Ended r) (hl : s.length < n + 1) :
    Repeats (elementRound q') (settle z z' s) es (settle z z' r) := by
  induction h with
  | @stop s _ =>
    have hclosed : Ended (settle z z' s) := by
      cases s with
      | nil => cases hz <;> simp [Ended, settle]
      | cons c s => exact hend
    refine .stop ?_
    unfold elementRound
    rw [read_bind, hclosed.read_element_eq_none]
    rfl
  | @step s u r e es hread hlt hr ih =>
    obtain ⟨t, he, rfl⟩ := of_read_elementRound hread
    have hs : Loose z z' (n + 1) s (settle z z' s) := loose_settle hl
    rcases alike_element hz hq ht hs he hr hend with ⟨hn, -⟩ | ⟨e', t', u', h, h', hrest⟩
    · rw [hn] at he
      cases he
    · rw [h] at he
      cases he
      have hround := read_elementRound h'
      rw [hrest.dropWhile hz] at hround
      refine .step hround ?_ (ih hend (by omega))
      have hne : s ≠ [] := by
        rintro rfl
        cases hlt
      have hz' : z'.length ≤ z.length := by cases hz <;> decide
      unfold settle
      rw [if_neg hne]
      split <;> simp only [List.length_append] <;> omega

theorem Keeps.step (ht' : Takes 0 q') : Keeps z z' (n + 1) (elementsStep q) (elementsStep q') := by
  intro s s' es r hs h hend
  rw [read_elementsStep_iff ht] at h
  rw [read_elementsStep_iff ht', hs.dropWhile hz]
  have hle := (List.dropWhile_suffix (l := s) isBlank).length_le
  have hlt := hs.2
  exact repeats_settle hz hq ht h hend (by omega)

omit hq ht in
theorem keeps_nestedUpTo {bound bound' : List Char} (hb : n ≤ bound.length + 1)
    (hb' : n ≤ bound'.length + 1) :
    Keeps z z' n (nestedUpTo elementsStep bound) (nestedUpTo elementsStep bound') := by
  have hzero : ∀ q q', Keeps z z' 0 q q' := fun _ _ s s' _ _ hs => (not_loose_zero s s' hs).elim
  refine related_nestedUpTo hzero (fun n bound bound' hi => ?_) n bound bound' hb hb'
  rw [nestedUpTo_eq, nestedUpTo_eq]
  exact hi.step hz (Takes.innerUpTo (fun _ => takes_elementsStep) bound)
    (Takes.innerUpTo (fun _ => takes_elementsStep) bound')

end Elements

/-- Up to the end of a body it makes no difference what bounds the nesting, if it is as long as the
text. -/
theorem read_elements_iff {s r bound : List Char} {es : List Element}
    (hb : s.length ≤ bound.length) (hr : Ended r) :
    (nestedUpTo elementsStep bound).read s = some (es, r) ↔ elements.read s = some (es, r) := by
  have hsettle : ∀ r : List Char, settle [] [] r = r := by
    intro r
    cases r with
    | nil => rfl
    | cons c r => exact List.append_nil (c :: r)
  have hself : Loose [] [] (s.length + 1) s s :=
    ⟨.inl (List.append_nil s).symm, Nat.lt_succ_self _⟩
  have hbound := Nat.add_le_add_right hb 1
  constructor <;> intro h
  · have h' := keeps_nestedUpTo Tail.nothing hbound (Nat.le_refl _) s s es r hself h hr
    rwa [hsettle] at h'
  · have h' := keeps_nestedUpTo Tail.nothing (Nat.le_refl _) hbound s s es r hself h hr
    rwa [hsettle] at h'

/-- The elements of a document inside a body, on lines of their own. -/
theorem read_elements_inside {s bound : List Char} {es : List Element}
    (h : elements.read s = some (es, [])) (hb : s.length ≤ bound.length) :
    (nestedUpTo elementsStep bound).read ('\n' :: (s ++ ['\n', '}'])) = some (es, ['}']) := by
  have hkeeps := keeps_nestedUpTo Tail.brace (n := s.length + 1) (Nat.le_refl _)
    (Nat.add_le_add_right hb 1)
  have hread := hkeeps s (s ++ ['\n', '}']) es [] ⟨.inl rfl, Nat.lt_succ_self _⟩ h ended_nil
  have hblank : (nestedUpTo elementsStep bound).read ('\n' :: (s ++ ['\n', '}'])) =
      (nestedUpTo elementsStep bound).read (s ++ ['\n', '}']) := by
    rw [nestedUpTo_eq]
    unfold elementsStep
    rw [read_bind, read_blanks, read_bind, read_blanks, List.dropWhile_cons_of_pos (by decide)]
  rw [hblank, hread]
  rfl

/-- A document of one element. -/
theorem read_elements_single {s : List Char} {e : Element} (hs : Element.Visible s)
    (h : (element (innerUpTo elementsStep s)).read s = some (e, [])) :
    elements.read s = some ([e], []) := by
  have hdrop := hs.dropWhile_eq []
  rw [List.append_nil] at hdrop
  unfold elements
  rw [read_nested, nestedUpTo_eq]
  refine read_elementsStep ?_
  rw [hdrop]
  refine .step (read_elementRound h) ?_ (.stop ?_)
  · obtain ⟨c, t, rfl, -⟩ := hs
    exact Nat.zero_lt_succ _
  · unfold elementRound
    rw [read_bind, List.dropWhile_nil, ended_nil.read_element_eq_none]
    rfl

end BuildPlan.Grammar

namespace BuildPlan.Document

open BuildPlan.Grammar BuildPlan.Grammar.Rule

/-- The text of an object around a document, which stands on lines of its own. -/
def wrapped (kind name source : String) : String :=
  kind ++ " " ++ name ++ " \x7b\n" ++ source ++ "\n\x7d"

theorem toList_wrapped (kind name source : String) :
    (wrapped kind name source).toList =
      writeHeading ⟨kind, name, none⟩ ++ ' ' :: '{' :: '\n' :: (source.toList ++ ['\n', '}']) := by
  simp [wrapped, writeHeading, writeBase]

/-- **A document that is read is read inside an object, too**, and its elements are those of the
object. -/
theorem parse_wrapped {source : String} {d : Document} (h : Document.parse source = .ok d)
    {kind name : String} (hk : IsWord kind.toList) (hn : IsIdentifier name.toList) :
    Document.parse (wrapped kind name source) = .ok ⟨[.object ⟨kind, name, none⟩ d.elements]⟩ := by
  rw [parse_eq_ok_iff] at h ⊢
  rw [toList_wrapped]
  have hvisible : Element.Visible (writeHeading ⟨kind, name, none⟩ ++ ' ' :: '{' :: '\n' ::
      (source.toList ++ ['\n', '}'])) := by
    rw [writeHeading, List.append_assoc]
    exact Element.visible_word hk _
  refine read_elements_single hvisible ?_
  obtain ⟨c, k, hc, -⟩ := hvisible
  have hbound : source.toList.length ≤ k.length := by
    have hl := congrArg List.length hc
    simp only [List.length_append, List.length_cons] at hl
    omega
  rw [hc, innerUpTo, ← hc]
  exact read_element_writeHeading (h := ⟨kind, name, none⟩) hk hn (fun _ hb => by cases hb)
    (read_elements_inside h hbound)

end BuildPlan.Document
