import BuildPlan.Condition.Parse
import BuildPlan.Proofs.Grammar.Consuming

/-! # Conditions as they are written

A condition is written in tokens, with any blanks around them. Which tokens stand for which
condition is said by a grammar of three levels: disjunctions of conjunctions of operands, where both
operators group to the left, and an operand is a constant, a negated operand or a disjunction in
parentheses (`Derives`). A text is read as a condition exactly if it is one of the texts of that
condition (`parse?_exact`).

What a rule for a level takes is a text of that level, by the parts of the rule. For the other
direction the induction is on the derivation, with any text behind that does not go on with a name.
A chain of operands is read with all operands that stand behind it, since it grows at its left end.
-/

namespace BuildPlan.Condition

open BuildPlan.Grammar BuildPlan.Grammar.Rule BuildPlan.Text

/-! ### Tokens -/

/-- A letter or an underscore, and then letters, digits, underscores, dots and dashes. -/
def IsConstantName : List Char → Prop
  | [] => False
  | c :: s => isWordStart c = true ∧ ∀ d ∈ s, isIdentifierChar d = true

/-- The smallest parts of a condition as it is written. -/
inductive Token where
  | name (n : String)
  | bang
  | conjunction
  | disjunction
  | opening
  | closing

/-- The text of a token. -/
def Token.text : Token → List Char
  | .name n => n.toList
  | .bang => ['!']
  | .conjunction => ['&', '&']
  | .disjunction => ['|', '|']
  | .opening => ['(']
  | .closing => [')']

/-- The texts of tokens, with any blanks before, between and behind them. -/
def Spelled : List Token → List Char → Prop
  | [], s => isBlankText s = true
  | t :: ts, s => ∃ g u, isBlankText g = true ∧ Spelled ts u ∧ s = g ++ (t.text ++ u)

/-- The levels of the grammar, the tightest first. -/
inductive Level where
  | operand
  | conjunction
  | disjunction

/-- The tokens of a condition on a level of the grammar. -/
inductive Derives : Level → Condition → List Token → Prop
  | constant {n : String} (hn : IsConstantName n.toList) : Derives .operand (.constant n) [.name n]
  | not {c : Condition} {ts : List Token} (h : Derives .operand c ts) :
      Derives .operand (.not c) (.bang :: ts)
  | group {c : Condition} {ts : List Token} (h : Derives .disjunction c ts) :
      Derives .operand c (.opening :: ts ++ [.closing])
  | operand {c : Condition} {ts : List Token} (h : Derives .operand c ts) :
      Derives .conjunction c ts
  | and {l r : Condition} {ts us : List Token} (hl : Derives .conjunction l ts)
      (hr : Derives .operand r us) : Derives .conjunction (.and l r) (ts ++ .conjunction :: us)
  | conjunction {c : Condition} {ts : List Token} (h : Derives .conjunction c ts) :
      Derives .disjunction c ts
  | or {l r : Condition} {ts us : List Token} (hl : Derives .disjunction l ts)
      (hr : Derives .conjunction r us) : Derives .disjunction (.or l r) (ts ++ .disjunction :: us)

/-- The texts of a condition on a level of the grammar. -/
def WrittenAt (l : Level) (c : Condition) (s : List Char) : Prop :=
  ∃ ts, Derives l c ts ∧ Spelled ts s

/-- The texts of a condition. -/
def Written (c : Condition) (s : String) : Prop := c.WrittenAt .disjunction s.toList

/-! ### Blanks around tokens -/

theorem Spelled.append : ∀ {ts us : List Token} {s t : List Char}, Spelled ts s → Spelled us t →
    Spelled (ts ++ us) (s ++ t)
  | [], [], _, _, hs, ht => isBlankText_append hs ht
  | [], u :: us, s, _, hs, ⟨g, v, hg, hv, h⟩ =>
    ⟨s ++ g, v, isBlankText_append hs hg, hv, by rw [h, List.append_assoc]⟩
  | t :: ts, us, _, w, ⟨g, v, hg, hv, h⟩, hw =>
    ⟨g, v ++ w, hg, hv.append hw, by rw [h]; simp⟩

theorem Spelled.token {g h : List Char} (hg : isBlankText g = true) (hh : isBlankText h = true)
    (t : Token) : Spelled [t] (g ++ (t.text ++ h)) :=
  ⟨g, h, hg, hh, rfl⟩

theorem Spelled.surround {g s h : List Char} {ts : List Token} (hg : isBlankText g = true)
    (hs : Spelled ts s) (hh : isBlankText h = true) : Spelled ts (g ++ (s ++ h)) := by
  have hbehind : Spelled (ts ++ []) (s ++ h) := hs.append (show Spelled [] h from hh)
  rw [List.append_nil] at hbehind
  exact (show Spelled [] g from hg).append hbehind

/-- The texts before and behind a token. -/
theorem Spelled.split : ∀ {ts us : List Token} {t : Token} {s : List Char},
    Spelled (ts ++ t :: us) s →
      ∃ u g v, Spelled ts u ∧ isBlankText g = true ∧ Spelled us v ∧ s = u ++ (g ++ (t.text ++ v))
  | [], _, _, _, ⟨g, v, hg, hv, h⟩ => ⟨[], g, v, rfl, hg, hv, h⟩
  | _ :: _, _, _, _, ⟨g, w, hg, hw, h⟩ => by
    obtain ⟨u, g', v, hu, hg', hv, rfl⟩ := hw.split
    exact ⟨_, g', v, ⟨g, u, hg, hu, rfl⟩, hg', hv, by rw [h]; simp⟩

/-! ### What is read is a text of the condition -/

theorem consumes_spaced {α : Type} {P : α → List Char → Prop} {r : Rule α} (hr : Consumes r P) :
    Consumes (spaced r) fun a w =>
      ∃ g u h, isBlankText g = true ∧ P a u ∧ isBlankText h = true ∧ w = g ++ (u ++ h) :=
  consumes_blanks.bind fun _ g hg => hr.bind fun _ u hu => consumes_blanks.bind fun _ h hh =>
    consumes_pure ⟨g, u, h, hg, hu, hh, by rw [List.append_nil]⟩

/-- A rule that takes the text of a token, with blanks around it. -/
theorem consumes_token {r : Rule Unit} {t : Token} (hr : Consumes r fun _ u => u = t.text) :
    Consumes (spaced r) fun _ w => Spelled [t] w := by
  refine (consumes_spaced hr).imp fun _ w hw => ?_
  obtain ⟨g, u, h, hg, rfl, hh, rfl⟩ := hw
  exact .token hg hh t

theorem consumes_constantName :
    Consumes constantName fun n u => IsConstantName n.toList ∧ u = n.toList := by
  refine (consumes_one isWordStart).bind fun c u hc => (consumes_run isIdentifierChar).bind
    fun s v hs => consumes_pure ?_
  obtain ⟨rfl, hc⟩ := hc
  obtain ⟨rfl, hs⟩ := hs
  rw [String.toList_ofList, List.append_nil]
  exact ⟨⟨hc, hs⟩, rfl⟩

section Sound
variable {inner : Rule Condition} (hi : Consumes inner (WrittenAt .disjunction))

include hi in
theorem consumes_atom : Consumes (atom inner) (WrittenAt .operand) := by
  have hconstant : Consumes (constantName.map Condition.constant) (WrittenAt .operand) := by
    refine consumes_constantName.map fun n u hn => ⟨_, .constant hn.1, [], [], rfl, rfl, ?_⟩
    rw [hn.2, List.nil_append, List.append_nil]
    rfl
  have hgroup : Consumes (do
      spaced (symbol '(')
      let c ← inner
      spaced (symbol ')')
      return c) (WrittenAt .operand) := by
    refine (consumes_token (t := .opening) (consumes_symbol '(')).bind fun _ u hu =>
      hi.bind fun c v hv => (consumes_token (t := .closing) (consumes_symbol ')')).bind
        fun _ w hw => consumes_pure ?_
    obtain ⟨ts, hts, hv⟩ := hv
    rw [List.append_nil]
    exact ⟨_, .group hts, hu.append (hv.append hw)⟩
  have hfirst : Consumes (firstOf [constantName.map Condition.constant, do
      spaced (symbol '(')
      let c ← inner
      spaced (symbol ')')
      return c]) (WrittenAt .operand) := by
    refine Consumes.firstOf fun r hr => ?_
    rw [List.mem_cons, List.mem_singleton] at hr
    rcases hr with rfl | rfl
    · exact hconstant
    · exact hgroup
  refine (consumes_spaced hfirst).imp fun c w hw => ?_
  obtain ⟨g, u, h, hg, ⟨ts, hts, hu⟩, hh, rfl⟩ := hw
  exact ⟨ts, hts, hu.surround hg hh⟩

/-- Exclamation marks in front of an operand negate it. -/
theorem WrittenAt.negated {marks : List Unit} {u v : List Char} {c : Condition}
    (hu : Rounds (fun _ w => Spelled [.bang] w) marks u) (hc : c.WrittenAt .operand v) :
    (marks.foldr (fun _ c => .not c) c).WrittenAt .operand (u ++ v) := by
  induction hu with
  | nil => exact hc
  | @cons _ _ u w hu _ ih =>
    obtain ⟨ts, hts, hw⟩ := ih
    rw [List.append_assoc]
    exact ⟨.bang :: ts, .not hts, hu.append hw⟩

include hi in
theorem consumes_unary : Consumes (unary inner) (WrittenAt .operand) := by
  refine (consumes_token (t := .bang) (consumes_symbol '!')).many.bind fun marks u hu =>
    (consumes_atom hi).bind fun c v hc => consumes_pure ?_
  rw [List.append_nil]
  exact hc.negated hu

end Sound

/-- A chain of operands is a text of its level, if an operand is one and an operator behind such a
text and then an operand make another one. -/
theorem consumes_chain {l m : Level} {t : Token} {join : Condition → Condition → Condition}
    {operand : Rule Condition} (ho : Consumes operand (WrittenAt l))
    (hsingle : ∀ {c ts}, Derives l c ts → Derives m c ts)
    (hmore : ∀ {c d ts us}, Derives m c ts → Derives l d us →
      Derives m (join c d) (ts ++ t :: us)) :
    Consumes (chain t.text join operand) (WrittenAt m) := by
  have hround : Consumes (do
      spaced (exactly t.text)
      operand) fun d w => ∃ us, Derives l d us ∧ Spelled (t :: us) w := by
    refine (consumes_token (consumes_exactly t.text)).bind fun _ u hu => ho.imp fun d v hd => ?_
    obtain ⟨us, hus, hv⟩ := hd
    exact ⟨us, hus, hu.append hv⟩
  refine ho.bind fun c u hc => hround.many.bind fun ds v hds => consumes_pure ?_
  obtain ⟨ts, hts, hu⟩ := hc
  rw [List.append_nil]
  have hc : c.WrittenAt m u := ⟨ts, hsingle hts, hu⟩
  clear hts hu
  induction hds generalizing c u with
  | nil => rwa [List.append_nil]
  | @cons d _ w _ hd _ ih =>
    obtain ⟨ts, hts, hu⟩ := hc
    obtain ⟨us, hus, hw⟩ := hd
    rw [← List.append_assoc]
    exact ih _ _ ⟨_, hmore hts hus, hu.append hw⟩

theorem consumes_condition :
    Consumes (Rule.nested conditionStep) (WrittenAt .disjunction) := by
  refine Consumes.nested fun inner hi => ?_
  have hconjunction : Consumes (chain ['&', '&'] .and (unary inner)) (WrittenAt .conjunction) :=
    consumes_chain (t := .conjunction) (consumes_unary hi) .operand .and
  exact consumes_chain (t := .disjunction) hconjunction .conjunction .or

/-! ### Blanks in front -/

theorem read_spaced {α : Type} (r : Rule α) (s : List Char) :
    (spaced r).read s =
      (r.read (s.dropWhile isBlank)).map fun p => (p.1, p.2.dropWhile isBlank) := by
  unfold spaced
  rw [read_bind, read_blanks, Option.bind_some, read_bind]
  cases r.read (s.dropWhile isBlank) with
  | none => rfl
  | some p => rw [Option.bind_some, read_bind, read_blanks]; rfl

/-- Blanks in front of the text make no difference. -/
def SkipsBlanks {α : Type} (r : Rule α) : Prop := ∀ s, r.read (s.dropWhile isBlank) = r.read s

theorem skipsBlanks_spaced {α : Type} (r : Rule α) : SkipsBlanks (spaced r) := by
  intro s
  rw [read_spaced, read_spaced, (stops_dropWhile isBlank s).dropWhile_eq]

theorem SkipsBlanks.bind {α β : Type} {r : Rule α} (hr : SkipsBlanks r) (f : α → Rule β) :
    SkipsBlanks (r >>= f) := by
  intro s
  rw [read_bind, read_bind, hr]

theorem SkipsBlanks.read_append {α : Type} {r : Rule α} (hr : SkipsBlanks r) {g : List Char}
    (hg : isBlankText g = true) (s : List Char) : r.read (g ++ s) = r.read s := by
  rw [← hr (g ++ s), ← hr s, dropWhile_blanks hg]

/-- An exclamation mark in front of an operand. -/
def mark : Rule Unit := spaced (symbol '!')

theorem takes_mark : Takes 1 mark :=
  takes_blanks.behind fun _ => (takes_symbol '!').before fun _ => takes_blanks.before fun _ =>
    takes_pure _

theorem read_mark (s : List Char) : mark.read ('!' :: s) = some ((), s.dropWhile isBlank) := by
  unfold mark
  rw [read_spaced, List.dropWhile_cons_of_neg (by decide), read_symbol_cons, if_pos rfl]
  rfl

theorem read_mark_eq_none {s : List Char} (hs : (s.dropWhile isBlank).head? ≠ some '!') :
    mark.read s = none := by
  unfold mark
  rw [read_spaced, read_symbol_eq_none hs]
  rfl

section Operand
variable (inner : Rule Condition)

theorem read_unary_eq (s : List Char) :
    (unary inner).read s =
      ((many mark).read s).bind fun p =>
        ((atom inner).read p.2).map fun q => (p.1.foldr (fun _ c => .not c) q.1, q.2) := by
  unfold unary
  rw [read_bind, ← mark]
  rcases (many mark).read s with _ | ⟨marks, t⟩
  · rfl
  · rw [Option.bind_some, Option.bind_some, read_bind]
    rcases (atom inner).read t with _ | ⟨c, u⟩ <;> rfl

theorem read_unary_atom {s : List Char} (hs : (s.dropWhile isBlank).head? ≠ some '!') :
    (unary inner).read s = (atom inner).read s := by
  rw [read_unary_eq, read_many_of_none (read_mark_eq_none hs)]
  rcases h : (atom inner).read s with _ | ⟨c, u⟩ <;> simp [h]

theorem skipsBlanks_unary : SkipsBlanks (unary inner) := by
  intro s
  by_cases hs : (s.dropWhile isBlank).head? = some '!'
  · obtain ⟨u, hu⟩ := List.head?_eq_some_iff.mp hs
    have hm := read_mark u
    rw [← hu] at hm
    have hm' : mark.read s = some ((), u.dropWhile isBlank) :=
      (skipsBlanks_spaced (symbol '!') s).symm.trans hm
    rw [read_unary_eq, read_unary_eq, takes_mark.read_many_of_some hm,
      takes_mark.read_many_of_some hm']
  · have hs' : ((s.dropWhile isBlank).dropWhile isBlank).head? ≠ some '!' := by
      rwa [(stops_dropWhile isBlank s).dropWhile_eq]
    rw [read_unary_atom inner hs, read_unary_atom inner hs']
    exact skipsBlanks_spaced _ s

theorem read_unary_mark (s : List Char) :
    (unary inner).read ('!' :: s) = ((unary inner).read s).map fun p => (.not p.1, p.2) := by
  rw [← skipsBlanks_unary inner s, read_unary_eq, read_unary_eq,
    takes_mark.read_many_of_some (read_mark s)]
  rcases (many mark).read (s.dropWhile isBlank) with _ | ⟨marks, t⟩
  · rfl
  · simp only [Option.map_some, Option.bind_some, List.foldr_cons, Option.map_map]
    rfl

end Operand

/-! ### Chains of operands -/

section Chain
variable {operator : List Char} {join : Condition → Condition → Condition}
  {operand : Rule Condition}

/-- An operand with the operator in front of it. -/
def operation (operator : List Char) (operand : Rule Condition) : Rule Condition := do
  spaced (exactly operator)
  operand

theorem read_chain {s t u : List Char} {c : Condition} {ds : List Condition}
    (hc : operand.read s = some (c, t)) (hds : Repeats (operation operator operand) t ds u) :
    (chain operator join operand).read s = some (ds.foldl join c, u) := by
  have hm := hds.read_many
  unfold operation at hm
  unfold chain
  rw [read_bind, hc, Option.bind_some, read_bind, hm]
  rfl

theorem SkipsBlanks.chain (ho : SkipsBlanks operand) : SkipsBlanks (chain operator join operand) :=
  ho.bind _

/-- Without the operator there is no operation. -/
theorem read_operation_eq_none {c : Char} {s : List Char}
    (hs : (s.dropWhile isBlank).head? ≠ some c) :
    (operation (c :: operator) operand).read s = none := by
  unfold operation
  rw [read_bind, read_spaced, read_exactly_eq_none hs]
  rfl

end Chain

theorem read_exactly_append (w s : List Char) : (exactly w).read (w ++ s) = some ((), s) := by
  induction w with
  | nil => rfl
  | cons c w ih => rw [List.cons_append, read_exactly_cons, if_pos rfl, ih]

/-- The operator and an operand behind it, in front of other operations. -/
theorem repeats_operation {c : Char} {operator : List Char} {operand : Rule Condition}
    (hc : isBlank c = false) (ho : SkipsBlanks operand) {s t u : List Char} {d : Condition}
    {ds : List Condition} (hd : operand.read s = some (d, t)) (hl : t.length ≤ s.length)
    (hds : Repeats (operation (c :: operator) operand) t ds u) :
    Repeats (operation (c :: operator) operand) (c :: operator ++ s) (d :: ds) u := by
  refine .step ?_ ?_ hds
  · unfold operation
    rw [read_bind, read_spaced, List.cons_append, List.dropWhile_cons_of_neg (by simp [hc]),
      ← List.cons_append, read_exactly_append, Option.map_some, Option.bind_some, ho, hd]
  · rw [List.cons_append, List.length_cons, List.length_append]
    omega

/-! ### Every text of a condition is read -/

theorem stops_name {g s : List Char} (hg : isBlankText g = true)
    (hs : Stops isIdentifierChar s) : Stops isIdentifierChar (g ++ s) :=
  stops_blanks (fun _ => isLexical_of_isIdentifierChar) hg hs

theorem IsConstantName.exists_cons {n : List Char} (hn : IsConstantName n) :
    ∃ c t, n = c :: t ∧ isBlank c = false ∧ c ≠ '!' := by
  cases n with
  | nil => exact hn.elim
  | cons c t =>
    refine ⟨c, t, rfl, isBlank_eq_false_of_isLexical (isLexical_of_isWordStart hn.1), ?_⟩
    rintro rfl
    cases hn.1

theorem read_constantName {n s : List Char} (hn : IsConstantName n)
    (hs : Stops isIdentifierChar s) : constantName.read (n ++ s) = some (String.ofList n, s) := by
  cases n with
  | nil => exact hn.elim
  | cons c n =>
    unfold constantName
    rw [List.cons_append, read_bind, read_one_cons, if_pos hn.1, Option.bind_some, read_bind,
      read_run_append hn.2 hs]
    rfl

/-- The conjunctions in a condition. -/
def conjunctions (inner : Rule Condition) : Rule Condition := chain ['&', '&'] .and (unary inner)

theorem skipsBlanks_conditionStep (inner : Rule Condition) : SkipsBlanks (conditionStep inner) :=
  (skipsBlanks_unary inner).chain.chain

section Atom
variable {inner : Rule Condition} {rest : List Char}

theorem read_unary_constant {n h : List Char} (hn : IsConstantName n) (hh : isBlankText h = true)
    (hs : Stops isIdentifierChar rest) :
    (unary inner).read (n ++ (h ++ rest)) =
      some (.constant (String.ofList n), rest.dropWhile isBlank) := by
  obtain ⟨c, t, he, hc, hmark⟩ := hn.exists_cons
  have hdrop : (n ++ (h ++ rest)).dropWhile isBlank = n ++ (h ++ rest) := by
    rw [he, List.cons_append, List.dropWhile_cons_of_neg (by simp [hc])]
  have hhead : ((n ++ (h ++ rest)).dropWhile isBlank).head? ≠ some '!' := by
    rw [hdrop, he]
    simpa using hmark
  rw [read_unary_atom inner hhead, atom, read_spaced, hdrop, read_firstOf_cons, read_map,
    read_constantName hn (stops_name hh hs), Option.map_some, Option.some_or, Option.map_some,
    dropWhile_blanks hh]

theorem read_unary_group {c : Condition} {s h : List Char} (hi : SkipsBlanks inner)
    (hc : inner.read s = some (c, ')' :: (h ++ rest))) (hh : isBlankText h = true) :
    (unary inner).read ('(' :: s) = some (c, rest.dropWhile isBlank) := by
  have hdrop : ('(' :: s).dropWhile isBlank = '(' :: s :=
    List.dropWhile_cons_of_neg (by decide)
  have hhead : (('(' :: s).dropWhile isBlank).head? ≠ some '!' := by
    rw [hdrop]
    simp
  have hconstant : constantName.read ('(' :: s) = none := rfl
  rw [read_unary_atom inner hhead, atom, read_spaced, hdrop, read_firstOf_cons, read_map,
    hconstant, read_firstOf_cons, read_bind, read_spaced, hdrop, read_symbol_cons, if_pos rfl,
    Option.map_some, Option.bind_some, read_bind, hi, hc, Option.bind_some, read_bind, read_spaced,
    List.dropWhile_cons_of_neg (by decide), read_symbol_cons, if_pos rfl]
  dsimp only [Option.map_some, Option.bind_some]
  rw [read_pure, dropWhile_blanks hh]
  dsimp only [Option.map_none, Option.some_or, Option.none_or, Option.map_some]
  rw [(stops_dropWhile isBlank rest).dropWhile_eq]

end Atom

/-- The text is read as the condition on its level, with any text behind that does not go on with a
name. A chain goes on with the operations that stand behind it. -/
def ReadAs (inner : Rule Condition) : Level → Condition → List Char → Prop
  | .operand, c, s => ∀ rest, Stops isIdentifierChar rest →
      (unary inner).read (s ++ rest) = some (c, rest.dropWhile isBlank)
  | .conjunction, c, s => ∀ rest ds out, Stops isIdentifierChar rest →
      Repeats (operation ['&', '&'] (unary inner)) (rest.dropWhile isBlank) ds out →
      (conjunctions inner).read (s ++ rest) = some (ds.foldl .and c, out)
  | .disjunction, c, s => ∀ rest ds out, Stops isIdentifierChar rest →
      (rest.dropWhile isBlank).head? ≠ some '&' →
      Repeats (operation ['|', '|'] (conjunctions inner)) (rest.dropWhile isBlank) ds out →
      (conditionStep inner).read (s ++ rest) = some (ds.foldl .or c, out)

theorem length_dropWhile_append_le (s rest : List Char) :
    (rest.dropWhile isBlank).length ≤ (s ++ rest).length := by
  have h := (List.dropWhile_suffix (l := rest) isBlank).length_le
  rw [List.length_append]
  omega

/-- Every text of a condition is read, if the bound is as long as the text. -/
theorem Derives.readAs {l : Level} {c : Condition} {ts : List Token} (h : Derives l c ts) :
    ∀ (s bound : List Char), Spelled ts s → s.length ≤ bound.length →
      ReadAs (innerUpTo conditionStep bound) l c s := by
  induction h with
  | constant hn =>
    rintro s bound ⟨g, h, hg, hh, rfl⟩ - rest hs
    have hr : (unary (innerUpTo conditionStep bound)).read (_ ++ (h ++ rest)) = _ :=
      read_unary_constant hn hh hs
    rw [String.ofList_toList] at hr
    rw [List.append_assoc, (skipsBlanks_unary _).read_append hg, List.append_assoc]
    exact hr
  | not _ ih =>
    rintro s bound ⟨g, u, hg, hu, rfl⟩ hl rest hs
    simp only [List.length_append, Token.text, List.length_cons, List.length_nil] at hl
    have happend : Token.bang.text ++ u ++ rest = '!' :: (u ++ rest) := rfl
    rw [List.append_assoc, (skipsBlanks_unary _).read_append hg, happend, read_unary_mark,
      ih u bound hu (by omega) rest hs]
    rfl
  | @group c ts _ ih =>
    rintro s bound ⟨g, u, hg, hu, rfl⟩ hl rest hs
    obtain ⟨v, g', h, hv, hg', hh, rfl⟩ := Spelled.split hu
    simp only [List.length_append, Token.text, List.length_cons, List.length_nil] at hl
    cases bound with
    | nil => simp only [List.length_nil] at hl; omega
    | cons d bound =>
      -- the disjunction inside, up to the closing parenthesis
      have hdrop : (g' ++ ')' :: (h ++ rest)).dropWhile isBlank = ')' :: (h ++ rest) := by
        rw [dropWhile_blanks hg', List.dropWhile_cons_of_neg (by decide)]
      have hin := ih v bound hv (by simp only [List.length_cons] at hl; omega)
        (g' ++ ')' :: (h ++ rest)) [] (')' :: (h ++ rest))
        (stops_name hg' (stops_cons.mpr rfl)) (by rw [hdrop]; simp)
        (by
          rw [hdrop]
          refine .stop (read_operation_eq_none ?_)
          rw [List.dropWhile_cons_of_neg (by decide)]
          simp)
      rw [← nestedUpTo_eq conditionStep] at hin
      have hskip : SkipsBlanks (nestedUpTo conditionStep bound) := by
        rw [nestedUpTo_eq]
        exact skipsBlanks_conditionStep _
      rw [List.append_assoc, (skipsBlanks_unary _).read_append hg]
      have happend : Token.opening.text ++ (v ++ (g' ++ (Token.closing.text ++ h))) ++ rest =
          '(' :: (v ++ (g' ++ ')' :: (h ++ rest))) := by simp [Token.text]
      rw [happend]
      exact read_unary_group hskip hin hh
  | operand _ ih =>
    intro s bound hts hl rest ds out hs hds
    exact read_chain (ih s bound hts hl rest hs) hds
  | @and _ r _ _ _ _ ihl ihr =>
    intro s bound hts hl rest ds out hs hds
    obtain ⟨u, g, v, hu, hg, hv, rfl⟩ := Spelled.split hts
    simp only [List.length_append] at hl
    have hr := ihr v bound hv (by omega) rest hs
    have hrest := repeats_operation (c := '&') (by decide) (skipsBlanks_unary _) hr
      (length_dropWhile_append_le v rest) hds
    have happend : u ++ (g ++ (Token.conjunction.text ++ v)) ++ rest =
        u ++ (g ++ ('&' :: ['&'] ++ (v ++ rest))) := by simp [Token.text]
    rw [happend]
    refine ihl u bound hu (by omega) _ (r :: ds) out (stops_name hg (stops_cons.mpr rfl)) ?_
    rwa [dropWhile_blanks hg, List.cons_append, List.dropWhile_cons_of_neg (by decide)]
  | conjunction _ ih =>
    intro s bound hts hl rest ds out hs hne hds
    exact read_chain (ih s bound hts hl rest [] _ hs (.stop (read_operation_eq_none
        (by rwa [(stops_dropWhile isBlank rest).dropWhile_eq])))) hds
  | @or _ r _ _ _ _ ihl ihr =>
    intro s bound hts hl rest ds out hs hne hds
    obtain ⟨u, g, v, hu, hg, hv, rfl⟩ := Spelled.split hts
    simp only [List.length_append] at hl
    have hr := ihr v bound hv (by omega) rest [] _ hs (.stop (read_operation_eq_none
        (by rwa [(stops_dropWhile isBlank rest).dropWhile_eq])))
    have hrest := repeats_operation (c := '|') (by decide) (skipsBlanks_unary _).chain hr
      (length_dropWhile_append_le v rest) hds
    have happend : u ++ (g ++ (Token.disjunction.text ++ v)) ++ rest =
        u ++ (g ++ ('|' :: ['|'] ++ (v ++ rest))) := by simp [Token.text]
    have hdrop : (g ++ ('|' :: ['|'] ++ (v ++ rest))).dropWhile isBlank =
        '|' :: ['|'] ++ (v ++ rest) := by
      rw [dropWhile_blanks hg, List.cons_append, List.dropWhile_cons_of_neg (by decide)]
    rw [happend]
    refine ihl u bound hu (by omega) _ (r :: ds) out (stops_name hg (stops_cons.mpr rfl)) ?_ ?_
    · rw [hdrop]
      simp
    · rwa [hdrop]

/-! ### Trees and their texts -/

theorem Derives.names {l : Level} {c : Condition} {ts : List Token} (h : Derives l c ts) :
    ∀ n ∈ c.mentioned, IsConstantName n.toList := by
  induction h with
  | constant hn => simpa [mentioned] using hn
  | not _ ih => exact ih
  | group _ ih => exact ih
  | operand _ ih => exact ih
  | and _ _ ihl ihr => exact List.forall_mem_append.mpr ⟨ihl, ihr⟩
  | conjunction _ ih => exact ih
  | or _ _ ihl ihr => exact List.forall_mem_append.mpr ⟨ihl, ihr⟩

theorem exists_derives : ∀ {c : Condition}, (∀ n ∈ c.mentioned, IsConstantName n.toList) →
    ∃ ts, Derives .operand c ts
  | .constant n, h => ⟨_, .constant (h n (by simp [mentioned]))⟩
  | .not c, h => by
    obtain ⟨ts, hts⟩ := exists_derives (c := c) h
    exact ⟨_, .not hts⟩
  | .and l r, h => by
    obtain ⟨hl, hr⟩ := List.forall_mem_append.mp h
    obtain ⟨ts, hts⟩ := exists_derives hl
    obtain ⟨us, hus⟩ := exists_derives hr
    exact ⟨_, .group (.conjunction (.and (.operand hts) hus))⟩
  | .or l r, h => by
    obtain ⟨hl, hr⟩ := List.forall_mem_append.mp h
    obtain ⟨ts, hts⟩ := exists_derives hl
    obtain ⟨us, hus⟩ := exists_derives hr
    exact ⟨_, .group (.or (.conjunction (.operand hts)) (.operand hus))⟩

theorem exists_spelled : ∀ ts : List Token, ∃ s, Spelled ts s
  | [] => ⟨[], rfl⟩
  | t :: ts => by
    obtain ⟨s, hs⟩ := exists_spelled ts
    exact ⟨t.text ++ s, [], s, rfl, hs, rfl⟩

theorem parse?_eq_some_iff {s : String} {c : Condition} : parse? s = some c ↔ c.Written s := by
  have hread : parse? s = some c ↔ (Rule.nested conditionStep).whole s.toList = .ok c := by
    unfold parse?
    split
    · next d hd => simp [hd]
    · next e he => simp [he]
  rw [hread]
  constructor
  · intro h
    obtain ⟨u, hu, hc⟩ := consumes_condition _ _ _ (read_of_whole h)
    rw [List.append_nil] at hu
    rwa [Written, hu]
  · rintro ⟨ts, hts, hs⟩
    refine whole_eq_ok ?_
    have hr := hts.readAs s.toList s.toList hs (Nat.le_refl _) [] [] [] (stops_nil _) (by simp)
      (.stop rfl)
    rw [List.append_nil, ← nestedUpTo_eq conditionStep] at hr
    exact hr

/-- **A text is read as a condition exactly if it is one of the texts of that condition.** The
conditions with a text are those whose constants are named properly, no text is one of two
conditions, and a text of none is refused. -/
theorem parse?_exact :
    (∀ (s : String) (c : Condition), parse? s = some c ↔ c.Written s) ∧
      (∀ c : Condition, (∃ s, c.Written s) ↔ ∀ n ∈ c.mentioned, IsConstantName n.toList) ∧
      (∀ (s : String) (c d : Condition), c.Written s ∧ d.Written s → c = d) ∧
      ∀ s : String, parse? s = none ↔ ∀ c : Condition, ¬ c.Written s := by
  refine ⟨fun s c => parse?_eq_some_iff, fun c => ⟨?_, fun h => ?_⟩, fun s c d h => ?_, fun s => ?_⟩
  · rintro ⟨s, ts, hts, -⟩
    exact hts.names
  · obtain ⟨ts, hts⟩ := exists_derives h
    obtain ⟨s, hs⟩ := exists_spelled ts
    exact ⟨String.ofList s, ts, .conjunction (.operand hts), by rwa [String.toList_ofList]⟩
  · have hc := parse?_eq_some_iff.mpr h.1
    rw [parse?_eq_some_iff.mpr h.2] at hc
    exact (Option.some.inj hc).symm
  · simp only [← parse?_eq_some_iff]
    exact Option.eq_none_iff_forall_ne_some

/-- Conjunction binds tighter: the text is one of no other condition. -/
theorem parse?_exact_precedence :
    Written (.or (.constant "a") (.and (.constant "b") (.not (.constant "c")))) " a||b && ! c" ∧
      ¬ Written (.and (.or (.constant "a") (.constant "b")) (.not (.constant "c")))
        " a||b && ! c" := by
  have hwritten : Written (.or (.constant "a") (.and (.constant "b") (.not (.constant "c"))))
      " a||b && ! c" := (parse?_exact.1 _ _).mp (by decide +kernel)
  refine ⟨hwritten, fun hother => ?_⟩
  cases parse?_exact.2.2.1 _ _ _ ⟨hwritten, hother⟩

end BuildPlan.Condition
