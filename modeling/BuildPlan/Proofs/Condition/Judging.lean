import BuildPlan.Proofs.Condition.Spelling
import BuildPlan.Proofs.Grammar.Guarding
import Mathlib.Control.Monad.Basic

/-! # Conditions in documents

A document keeps the text of a condition as it stands between its parentheses, which are found by
counting, and the text is read by a grammar of its own when it is judged. The two agree
(`documents_agree`). Parentheses come in pairs in every text of a condition, so the group ends where
the condition does. Blanks at the ends are no part of a token, so the text without them is a text of
the same condition. -/

namespace BuildPlan.Condition

open BuildPlan.Grammar BuildPlan.Grammar.Rule BuildPlan.Text

/-! ### Parentheses in conditions -/

theorem balanced_blanks {g : List Char} (hg : isBlankText g = true) : Balanced g := by
  refine balanced_of_forall fun c hc => ?_
  have hblank : isBlank c = true := List.all_eq_true.mp hg c hc
  simp only [isOutside, Bool.and_eq_true, bne_iff_ne]
  constructor <;>
  · rintro rfl
    cases hblank

theorem IsConstantName.isIdentifierChar {n : List Char} (hn : IsConstantName n) :
    ∀ c ∈ n, isIdentifierChar c = true := by
  cases n with
  | nil => exact hn.elim
  | cons c n =>
    exact List.forall_mem_cons.mpr
      ⟨isIdentifierChar_of_isWordChar (isWordChar_of_isWordStart hn.1), hn.2⟩

theorem IsConstantName.balanced {n : List Char} (hn : IsConstantName n) : Balanced n := by
  refine balanced_of_forall fun c hc => ?_
  have hchar := hn.isIdentifierChar c hc
  simp only [isOutside, Bool.and_eq_true, bne_iff_ne]
  constructor <;>
  · rintro rfl
    cases hchar

/-- In a text of a condition the parentheses come in pairs. -/
theorem Derives.balanced {l : Level} {c : Condition} {ts : List Token} (h : Derives l c ts) :
    ∀ {s : List Char}, Spelled ts s → Balanced s := by
  induction h with
  | constant hn =>
    rintro _ ⟨g, h, hg, hh, rfl⟩
    exact (balanced_blanks hg).append (hn.balanced.append (balanced_blanks hh))
  | not _ ih =>
    rintro _ ⟨g, u, hg, hu, rfl⟩
    exact (balanced_blanks hg).append (.char (by decide) (ih hu))
  | group _ ih =>
    rintro _ ⟨g, u, hg, hu, rfl⟩
    obtain ⟨v, g', h, hv, hg', hh, rfl⟩ := Spelled.split hu
    have hgroup : Balanced ('(' :: (v ++ g') ++ ')' :: h) :=
      .group ((ih hv).append (balanced_blanks hg')) (balanced_blanks hh)
    have happend : Token.opening.text ++ (v ++ (g' ++ (Token.closing.text ++ h))) =
        '(' :: (v ++ g') ++ ')' :: h := by simp [Token.text]
    rw [happend]
    exact (balanced_blanks hg).append hgroup
  | operand _ ih => exact ih
  | and _ _ ihl ihr =>
    rintro s hs
    obtain ⟨u, g, v, hu, hg, hv, rfl⟩ := Spelled.split hs
    exact (ihl hu).append ((balanced_blanks hg).append
      (.char (by decide) (.char (by decide) (ihr hv))))
  | conjunction _ ih => exact ih
  | or _ _ ihl ihr =>
    rintro s hs
    obtain ⟨u, g, v, hu, hg, hv, rfl⟩ := Spelled.split hs
    exact (ihl hu).append ((balanced_blanks hg).append
      (.char (by decide) (.char (by decide) (ihr hv))))

theorem balanced_of_parse? {e : String} {c : Condition} (h : parse? e = some c) :
    Balanced e.toList := by
  obtain ⟨ts, hts, hs⟩ := parse?_eq_some_iff.mp h
  exact hts.balanced hs

/-! ### Blanks at the ends -/

/-- A token that is not blank in any place. -/
def Token.Solid (t : Token) : Prop := t.text ≠ [] ∧ ∀ c ∈ t.text, isBlank c = false

theorem IsConstantName.solid {n : String} (hn : IsConstantName n.toList) :
    (Token.name n).Solid := by
  refine ⟨fun h => ?_, fun c hc => isBlank_eq_false_of_isLexical
    (isLexical_of_isIdentifierChar (hn.isIdentifierChar c hc))⟩
  have hnil : n.toList = [] := h
  rw [hnil] at hn
  exact hn

theorem solid_of_mark : ∀ {t : Token}, (∀ n, t ≠ .name n) → t.Solid
  | .name n, h => absurd rfl (h n)
  | .bang, _ | .conjunction, _ | .disjunction, _ | .opening, _ | .closing, _ => by
    refine ⟨List.cons_ne_nil _ _, fun c hc => ?_⟩
    simp only [Token.text, List.mem_cons, List.not_mem_nil, or_false, or_self] at hc
    subst hc
    rfl

theorem Derives.solid {l : Level} {c : Condition} {ts : List Token} (h : Derives l c ts) :
    ∀ t ∈ ts, t.Solid := by
  induction h with
  | constant hn => simpa using hn.solid
  | not _ ih => exact List.forall_mem_cons.mpr ⟨solid_of_mark nofun, ih⟩
  | group _ ih =>
    refine List.forall_mem_append.mpr ⟨List.forall_mem_cons.mpr ⟨solid_of_mark nofun, ih⟩, ?_⟩
    exact List.forall_mem_singleton.mpr (solid_of_mark nofun)
  | operand _ ih => exact ih
  | and _ _ ihl ihr =>
    exact List.forall_mem_append.mpr
      ⟨ihl, List.forall_mem_cons.mpr ⟨solid_of_mark nofun, ihr⟩⟩
  | conjunction _ ih => exact ih
  | or _ _ ihl ihr =>
    exact List.forall_mem_append.mpr
      ⟨ihl, List.forall_mem_cons.mpr ⟨solid_of_mark nofun, ihr⟩⟩

/-- Nothing in front of a character that is not blank is trimmed at the end. -/
theorem Token.Solid.trimEnd_append {t : Token} (ht : t.Solid) (g u : List Char) :
    trimEnd (g ++ (t.text ++ u)) = g ++ (t.text ++ trimEnd u) := by
  have hstop : Stops isBlank (t.text.reverse ++ g.reverse) := by
    intro c hc
    cases hs : t.text.reverse with
    | nil => exact absurd (List.reverse_eq_nil_iff.mp hs) ht.1
    | cons d s =>
      rw [hs] at hc
      obtain rfl : d = c := Option.some.inj hc
      exact ht.2 d (List.mem_reverse.mp (by rw [hs]; exact List.mem_cons_self))
  unfold trimEnd
  rw [List.reverse_append, List.reverse_append, List.append_assoc, hstop.dropWhile_append]
  simp

theorem Spelled.trimStart {ts : List Token} {s : List Char} (hts : ∀ t ∈ ts, t.Solid)
    (hs : Spelled ts s) : Spelled ts (trimStart s) := by
  cases ts with
  | nil =>
    have hnil : Text.trimStart s = [] := dropWhile_eq_nil_of_blanks hs
    rw [hnil]
    rfl
  | cons t ts =>
    obtain ⟨g, u, hg, hu, rfl⟩ := hs
    obtain ⟨hne, hblank⟩ := hts t List.mem_cons_self
    refine ⟨[], u, rfl, hu, ?_⟩
    unfold Text.trimStart
    rw [dropWhile_blanks hg]
    obtain ⟨c, w, hw⟩ := List.exists_cons_of_ne_nil hne
    have hc := hblank c (by rw [hw]; exact List.mem_cons_self)
    rw [hw, List.cons_append, List.dropWhile_cons_of_neg (by simp [hc])]
    rfl

theorem Spelled.trimEnd : ∀ {ts : List Token} {s : List Char}, (∀ t ∈ ts, t.Solid) → Spelled ts s →
    Spelled ts (trimEnd s)
  | [], s, _, hs => by
    have hs : isBlankText s = true := hs
    have hreverse : isBlankText s.reverse = true := by rwa [isBlankText, List.all_reverse]
    have hnil : Text.trimEnd s = [] := congrArg List.reverse (dropWhile_eq_nil_of_blanks hreverse)
    rw [hnil]
    rfl
  | t :: ts, _, hts, ⟨g, u, hg, hu, h⟩ => by
    rw [h, (hts t List.mem_cons_self).trimEnd_append]
    exact ⟨g, _, hg, hu.trimEnd fun t ht => hts t (List.mem_cons_of_mem _ ht), rfl⟩

/-- The text between the outer blanks. -/
def trimmed (e : String) : String := String.ofList (trim e.toList)

theorem parse?_trimmed {e : String} {c : Condition} (h : parse? e = some c) :
    parse? (trimmed e) = some c := by
  obtain ⟨ts, hts, hs⟩ := parse?_eq_some_iff.mp h
  refine parse?_eq_some_iff.mpr ⟨ts, hts, ?_⟩
  rw [trimmed, String.toList_ofList]
  exact (hs.trimStart hts.solid).trimEnd hts.solid

/-! ### Judging -/

theorem parse?_of_trim_eq_true {e : String} (h : trim e.toList = ['t', 'r', 'u', 'e']) :
    parse? e = some (.constant "true") := by
  obtain ⟨g, g', hg, hg', he⟩ := exists_blanks_trim e.toList
  have hname : IsConstantName "true".toList := ⟨rfl, List.all_eq_true.mp rfl⟩
  refine parse?_eq_some_iff.mpr ⟨[.name "true"], .conjunction (.operand (.constant hname)), ?_⟩
  rw [he, h]
  exact Spelled.token hg hg' (.name "true")

/-- A text is judged exactly if it is a text of a condition, and then as that condition. -/
theorem judge?_eq_some_iff {e : String} {defined : NameSet} {b : Bool} :
    judge? e defined = some b ↔ ∃ c, parse? e = some c ∧ c.holds defined = b := by
  unfold judge?
  split
  · next htrue =>
    have hparse := parse?_of_trim_eq_true htrue
    constructor
    · rintro h
      exact ⟨_, hparse, Option.some.inj h⟩
    · rintro ⟨c, hc, hb⟩
      obtain rfl : .constant "true" = c := Option.some.inj (hparse.symm.trans hc)
      exact congrArg some hb
  · exact Option.map_eq_some_iff

/-! ### In front of elements -/

theorem parse_guarded_iff {e rest : String} (he : Balanced e.toList) {d : Document} :
    Document.parse ("if (" ++ e ++ ")" ++ rest) = .ok d ↔
      ∃ el t es, Guarded elements (trimmed e) (skipTrivia rest.toList) el t ∧
        Document.parse (String.ofList t) = .ok ⟨es⟩ ∧ d = ⟨el :: es⟩ := by
  have hsource : ("if (" ++ e ++ ")" ++ rest).toList = writeCondition e.toList ++ rest.toList := by
    simp [writeCondition]
  obtain ⟨es⟩ := d
  rw [Document.parse_eq_ok_iff, hsource, read_elements_guarded he]
  simp only [Document.parse_eq_ok_iff, String.toList_ofList, Document.mk.injEq]
  rfl

/-- **The grammar of documents and the grammar of conditions agree.** The group around a text of a
condition is read up to its own end, whatever stands behind it. In a document, at any depth, the
text without its outer blanks becomes the condition of the block, property or command behind it, and
it is judged as the condition is. No other texts are judged. -/
theorem documents_agree :
    (∀ (e : String) (c : Condition), parse? e = some c →
      (∀ s : List Char, conditional.read (writeCondition e.toList ++ s) = some (trimmed e, s)) ∧
      (∀ (inner : Rule (List Element)) (s : List Char) (el : Element) (t : List Char),
        (element inner).read (writeCondition e.toList ++ s) = some (el, t) ↔
          Guarded inner (trimmed e) (skipTrivia s) el t) ∧
      (∀ (rest : String) (d : Document),
        Document.parse ("if (" ++ e ++ ")" ++ rest) = .ok d ↔
          ∃ el t es, Guarded elements (trimmed e) (skipTrivia rest.toList) el t ∧
            Document.parse (String.ofList t) = .ok ⟨es⟩ ∧ d = ⟨el :: es⟩) ∧
      (∀ (inner : Rule (List Element)) (w w' s t : List Char) (a : Action) (names : List String)
        (items : List Value), (padded action).read w = some (a, w') ∧
          nameParts.read w' = some (names, writeCondition e.toList ++ s) ∧
          (arrayOf value).read (skipTrivia s) = some (items, t) →
        (element inner).read w = some (.assignment ⟨a, names, .array items, trimmed e⟩, t)) ∧
      ∀ defined : NameSet, judge? (trimmed e) defined = some (c.holds defined)) ∧
    ∀ (e : String) (defined : NameSet) (b : Bool), judge? e defined = some b →
      ∃ c, parse? e = some c ∧ c.holds defined = b := by
  refine ⟨fun e c h => ?_, fun e defined b h => judge?_eq_some_iff.mp h⟩
  have he := balanced_of_parse? h
  exact ⟨fun s => read_conditional_balanced he s,
    fun inner s el t => read_element_guarded he inner s,
    fun rest d => parse_guarded_iff he,
    fun inner w w' s t a names items hw => read_element_guardedArray he inner s hw.1 hw.2.1 hw.2.2,
    fun defined => judge?_eq_some_iff.mpr ⟨c, parse?_trimmed h, rfl⟩⟩

/-- A condition with a group of its own in front of a command. -/
theorem documents_agree_innerGroup :
    parse? " !(A || B) " = some (.not (.or (.constant "A") (.constant "B"))) ∧
      Document.parse "if ( !(A || B) ) compile" =
        .ok ⟨[.invocation ⟨"compile", none, "!(A || B)"⟩]⟩ ∧
      judge? "!(A || B)" (NameSet.ofList ["B"]) = some false := by
  have hparse : parse? " !(A || B) " = some (.not (.or (.constant "A") (.constant "B"))) := by decide +kernel
  have htrimmed : trimmed " !(A || B) " = "!(A || B)" := by decide
  obtain ⟨-, -, hdocument, -, hjudge⟩ := documents_agree.1 _ _ hparse
  rw [htrimmed] at hdocument hjudge
  have hplain : conditional.read (skipTrivia " compile".toList) = none := by decide +kernel
  have hcommand : invocation.read (skipTrivia " compile".toList) =
      some (⟨"compile", none, always⟩, []) := by decide +kernel
  refine ⟨hparse, ?_, ?_⟩
  · exact (hdocument " compile" _).mpr ⟨_, [], [], .invocation hplain hcommand, by decide +kernel, rfl⟩
  · rw [hjudge]
    decide

end BuildPlan.Condition
