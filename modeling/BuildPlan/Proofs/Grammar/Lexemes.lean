import BuildPlan.Proofs.Grammar.Reading

/-! # What lexemes read

Every lexeme is given by the texts that it stands for, and is read back from such a text with more
text behind it. Words need something behind them that does not go on with them; quoted texts and
groups end where they say. -/

namespace BuildPlan.Grammar

open BuildPlan.Text BuildPlan.Grammar.Rule

/-! ### Characters -/

/-- A character with which a word, an identifier or a bare word may go on. -/
def isLexical (c : Char) : Bool := isBareChar c || c == '$' || c == '\\'

/-- A character with which an identifier may go on, or a variable reference in it. -/
def isNameChar (c : Char) : Bool := isIdentifierChar c || c == '$' || c == '\\'

theorem isWordChar_of_isWordStart {c : Char} (h : isWordStart c = true) : isWordChar c = true := by
  simp only [isWordStart, isWordChar, Char.isAlphanum, Bool.or_eq_true] at h ⊢
  grind

theorem isIdentifierChar_of_isWordChar {c : Char} (h : isWordChar c = true) :
    isIdentifierChar c = true := by
  simp [isIdentifierChar, h]

theorem isBareChar_of_isIdentifierChar {c : Char} (h : isIdentifierChar c = true) :
    isBareChar c = true := by
  simp only [isIdentifierChar, isWordChar, isBareChar, Bool.or_eq_true] at h ⊢
  grind

theorem isLexical_of_isBareChar {c : Char} (h : isBareChar c = true) : isLexical c = true := by
  simp [isLexical, h]

theorem isLexical_of_isIdentifierChar {c : Char} (h : isIdentifierChar c = true) :
    isLexical c = true :=
  isLexical_of_isBareChar (isBareChar_of_isIdentifierChar h)

theorem isLexical_of_isWordStart {c : Char} (h : isWordStart c = true) : isLexical c = true :=
  isLexical_of_isIdentifierChar (isIdentifierChar_of_isWordChar (isWordChar_of_isWordStart h))

theorem isBlank_eq_false_of_isLexical {c : Char} (h : isLexical c = true) : isBlank c = false := by
  rw [← Bool.not_eq_true]
  intro hb
  unfold isLexical isBareChar Char.isAlphanum Char.isAlpha Char.isUpper Char.isLower
    Char.isDigit at h
  simp only [isBlank, Bool.or_eq_true, Bool.and_eq_true, decide_eq_true_eq, beq_iff_eq,
    Char.le_def, UInt32.le_iff_toNat_le, ge_iff_le, Char.ext_iff, ← UInt32.toNat_inj] at h hb
  simp at h hb
  omega

theorem Rule.Stops.mono {p q : Char → Bool} (hpq : ∀ c, q c = true → p c = true) {s : List Char}
    (h : Stops p s) : Stops q s := by
  intro c hc
  rw [← Bool.not_eq_true]
  intro hq
  exact absurd (hpq c hq) (by simp [h c hc])

theorem Rule.Stops.isWordChar {s : List Char} (h : Stops isLexical s) : Stops isWordChar s :=
  h.mono fun _ hc => isLexical_of_isIdentifierChar (isIdentifierChar_of_isWordChar hc)

theorem Rule.Stops.isNameChar {s : List Char} (h : Stops isLexical s) : Stops isNameChar s := by
  refine h.mono fun c hc => ?_
  simp only [Grammar.isNameChar, Bool.or_eq_true, beq_iff_eq] at hc
  rcases hc with (hc | rfl) | rfl
  · exact isLexical_of_isIdentifierChar hc
  · rfl
  · rfl

theorem read_symbol_cons (c d : Char) (s : List Char) :
    (symbol c).read (d :: s) = if d = c then some ((), s) else none := by
  unfold symbol
  rw [read_map, read_one_cons]
  by_cases h : d = c <;> simp [h]

theorem read_symbol_eq_none {c : Char} {s : List Char} (h : s.head? ≠ some c) :
    (symbol c).read s = none := by
  cases s with
  | nil => rfl
  | cons d s => rw [read_symbol_cons, if_neg (by simpa using h)]

theorem of_read_symbol {c : Char} {s t : List Char} {u : Unit}
    (h : (symbol c).read s = some (u, t)) : s = c :: t := by
  cases s with
  | nil => cases h
  | cons d s =>
    rw [read_symbol_cons] at h
    split at h
    · next hd =>
      cases h
      rw [hd]
    · cases h

/-! ### Words -/

/-- A letter or an underscore, and then letters, digits and underscores. -/
def IsWord : List Char → Prop
  | [] => False
  | c :: s => isWordStart c = true ∧ ∀ d ∈ s, isWordChar d = true

instance : DecidablePred IsWord
  | [] => isFalse id
  | c :: s =>
    decidable_of_iff (isWordStart c = true ∧ s.all isWordChar = true) (by
      rw [List.all_eq_true]
      rfl)

theorem read_word {w s : List Char} (hw : IsWord w) (hs : Stops isWordChar s) :
    word.read (w ++ s) = some (String.ofList w, s) := by
  cases w with
  | nil => exact hw.elim
  | cons c w =>
    unfold word
    rw [List.cons_append, read_bind, read_one_cons, if_pos hw.1, Option.bind_some, read_bind,
      read_run_append hw.2 hs]
    rfl

theorem read_word_eq_none {s : List Char} (hs : Stops isWordStart s) : word.read s = none := by
  unfold word
  rw [read_bind, read_one_eq_none hs]
  rfl

theorem read_keyword {w s : List Char} (hw : IsWord w) (hs : Stops isWordChar s) (k : String) :
    (keyword k).read (w ++ s) = if String.ofList w = k then some ((), s) else none := by
  unfold keyword
  rw [read_map, read_keep, read_word hw hs]
  by_cases h : String.ofList w = k <;> simp [h, Option.filter]

theorem read_keyword_eq_none {s : List Char} (hs : Stops isWordStart s) (k : String) :
    (keyword k).read s = none := by
  unfold keyword
  rw [read_map, read_keep, read_word_eq_none hs]
  rfl

/-! ### Blanks and comments -/

theorem read_blanks (s : List Char) : blanks.read s = some ((), s.dropWhile isBlank) := by
  unfold blanks
  rw [read_map, read_run]
  rfl

theorem read_spaces (s : List Char) :
    spaces.read s = some ((), s.dropWhile fun c => c == ' ' || c == '\t') := by
  unfold spaces
  rw [read_map, read_run]
  rfl

theorem read_comment (s : List Char) :
    comment.read ('/' :: '/' :: s) =
      some (String.ofList (trim (s.takeWhile notLineEnd)), s.dropWhile notLineEnd) := by
  unfold comment
  rw [read_bind, read_exactly_cons, if_pos rfl, read_exactly_cons, if_pos rfl]
  rfl

theorem read_comment_eq_none {s : List Char} (h : ¬ ∃ t, s = '/' :: '/' :: t) :
    comment.read s = none := by
  unfold comment
  rw [read_bind]
  match s with
  | [] => rfl
  | [c] =>
    rw [read_exactly_cons]
    split <;> rfl
  | c :: d :: t =>
    rw [read_exactly_cons, read_exactly_cons]
    split
    · next hc =>
      rw [if_neg fun hd => h ⟨t, by rw [hc, hd]⟩]
      rfl
    · rfl

/-- What stands behind any blanks and comments, where the text begins inside a comment or outside.
The end of a line is blank, so it may be skipped with the comment that it closes. -/
def skipFrom : Bool → List Char → List Char
  | _, [] => []
  | true, c :: s => skipFrom (notLineEnd c) s
  | false, c :: s =>
    if isBlank c then skipFrom false s
    else if c = '/' ∧ s.head? = some '/' then skipFrom true s
    else c :: s

/-- What stands behind any blanks and comments. -/
def skipTrivia (s : List Char) : List Char := skipFrom false s

@[simp] theorem skipTrivia_nil : skipTrivia [] = [] := rfl

theorem skipTrivia_blank {c : Char} (h : isBlank c = true) (s : List Char) :
    skipTrivia (c :: s) = skipTrivia s := if_pos h

theorem skipTrivia_cons {c : Char} (hb : isBlank c = false) (hc : c ≠ '/') (s : List Char) :
    skipTrivia (c :: s) = c :: s := by
  have hn : ¬ (c = '/' ∧ s.head? = some '/') := fun h => hc h.1
  exact (if_neg (by simp [hb])).trans (if_neg hn)

theorem isBlankText_append {g h : List Char} (hg : isBlankText g = true)
    (hh : isBlankText h = true) : isBlankText (g ++ h) = true := by
  unfold isBlankText at hg hh ⊢
  rw [List.all_append, hg, hh]
  rfl

theorem dropWhile_blanks {g : List Char} (hg : isBlankText g = true) (s : List Char) :
    (g ++ s).dropWhile isBlank = s.dropWhile isBlank :=
  List.dropWhile_append_of_pos (List.all_eq_true.mp hg)

theorem dropWhile_eq_nil_of_blanks {g : List Char} (hg : isBlankText g = true) :
    g.dropWhile isBlank = [] := by
  have h := dropWhile_blanks hg []
  rwa [List.append_nil] at h

/-- A text stands between the blanks that are trimmed. -/
theorem exists_blanks_trim (s : List Char) :
    ∃ g h, isBlankText g = true ∧ isBlankText h = true ∧ s = g ++ (trim s ++ h) := by
  refine ⟨s.takeWhile isBlank, ((trimStart s).reverse.takeWhile isBlank).reverse,
    List.all_takeWhile, ?_, ?_⟩
  · rw [isBlankText, List.all_reverse]
    exact List.all_takeWhile
  · unfold trim trimEnd
    rw [← List.reverse_append, List.takeWhile_append_dropWhile, List.reverse_reverse, trimStart,
      List.takeWhile_append_dropWhile]

theorem skipTrivia_blanks {g : List Char} (hg : isBlankText g = true) (s : List Char) :
    skipTrivia (g ++ s) = skipTrivia s := by
  have hblank := List.all_eq_true.mp hg
  clear hg
  induction g with
  | nil => rfl
  | cons c g ih =>
    rw [List.cons_append, skipTrivia_blank (hblank c (by simp)),
      ih fun d hd => hblank d (by simp [hd])]

/-- Blanks go on with no word, identifier or bare word. -/
theorem stops_blanks {p : Char → Bool} (hp : ∀ c, p c = true → isLexical c = true)
    {g s : List Char} (hg : isBlankText g = true) (hs : Stops p s) : Stops p (g ++ s) := by
  cases g with
  | nil => exact hs
  | cons c g =>
    rw [List.cons_append, stops_cons, ← Bool.not_eq_true]
    intro hc
    have hblank : isBlank c = true := List.all_eq_true.mp hg c (by simp)
    rw [isBlank_eq_false_of_isLexical (hp c hc)] at hblank
    cases hblank

theorem isBlank_of_lineEnd {c : Char} (h : notLineEnd c = false) : isBlank c = true := by
  simp only [notLineEnd, Bool.and_eq_false_iff, bne_eq_false_iff_eq] at h
  rcases h with rfl | rfl <;> rfl

theorem skipFrom_comment (s : List Char) :
    skipFrom true s = skipTrivia (s.dropWhile notLineEnd) := by
  induction s with
  | nil => rfl
  | cons c s ih =>
    rw [skipFrom]
    cases hc : notLineEnd c with
    | true => rw [ih, List.dropWhile_cons_of_pos hc]
    | false =>
      rw [List.dropWhile_cons_of_neg (by simp [hc]), skipTrivia_blank (isBlank_of_lineEnd hc)]
      rfl

theorem skipTrivia_comment (s : List Char) :
    skipTrivia ('/' :: '/' :: s) = skipTrivia (s.dropWhile notLineEnd) :=
  skipFrom_comment s

theorem skipTrivia_suffix (s : List Char) : skipTrivia s <:+ s := by
  have hfrom : ∀ b, skipFrom b s <:+ s := by
    induction s with
    | nil => intro b; cases b <;> exact List.suffix_rfl
    | cons c s ih =>
      intro b
      have hcons : ∀ b, skipFrom b s <:+ c :: s := fun b => (ih b).trans (List.suffix_cons c s)
      cases b with
      | true => exact hcons _
      | false =>
        rw [skipFrom]
        split
        · exact hcons false
        · split
          · exact hcons true
          · exact List.suffix_rfl
  exact hfrom false

theorem length_skipTrivia_le (s : List Char) : (skipTrivia s).length ≤ s.length :=
  (skipTrivia_suffix s).length_le

theorem skipTrivia_dropWhile (s : List Char) : skipTrivia (s.dropWhile isBlank) = skipTrivia s := by
  induction s with
  | nil => rfl
  | cons c s ih =>
    by_cases hc : isBlank c = true
    · rw [List.dropWhile_cons_of_pos hc, skipTrivia_blank hc, ih]
    · rw [List.dropWhile_cons_of_neg hc]

/-- One round of the rule for blanks and comments. -/
def triviaPart : Rule Unit :=
  firstOf [(run1 isBlank).map fun _ => (), comment.map fun _ => ()]

theorem read_triviaPart_blank {c : Char} (hc : isBlank c = true) (s : List Char) :
    triviaPart.read (c :: s) = some ((), s.dropWhile isBlank) := by
  unfold triviaPart
  rw [read_firstOf_cons, read_map, read_run1_cons, if_pos hc]
  rfl

theorem read_triviaPart_comment (s : List Char) :
    triviaPart.read ('/' :: '/' :: s) = some ((), s.dropWhile notLineEnd) := by
  unfold triviaPart
  rw [read_firstOf_cons, read_map, read_run1_cons, if_neg (by decide), read_firstOf_cons, read_map,
    read_comment]
  rfl

theorem repeats_trivia : ∀ s : List Char, ∃ as, Repeats triviaPart s as (skipTrivia s)
  | [] => ⟨[], by rw [skipTrivia_nil]; exact .stop rfl⟩
  | c :: s => by
    have hb : (s.dropWhile isBlank).length < (c :: s).length :=
      Nat.lt_succ_of_le (List.dropWhile_suffix isBlank).length_le
    by_cases hc : isBlank c = true
    · obtain ⟨as, h⟩ := repeats_trivia (s.dropWhile isBlank)
      rw [skipTrivia_dropWhile] at h
      rw [skipTrivia_blank hc]
      exact ⟨_, .step (read_triviaPart_blank hc s) hb h⟩
    · by_cases hs : ∃ t, c :: s = '/' :: '/' :: t
      · obtain ⟨t, ht⟩ := hs
        have hl : (t.dropWhile notLineEnd).length < (c :: s).length := by
          rw [ht]
          exact Nat.lt_succ_of_lt (Nat.lt_succ_of_le (List.dropWhile_suffix notLineEnd).length_le)
        obtain ⟨as, h⟩ := repeats_trivia (t.dropWhile notLineEnd)
        rw [ht] at hl ⊢
        rw [skipTrivia_comment]
        exact ⟨_, .step (read_triviaPart_comment t) hl h⟩
      · refine ⟨[], ?_⟩
        have hn : ¬ (c = '/' ∧ s.head? = some '/') := by
          rintro ⟨rfl, h⟩
          obtain ⟨t, rfl⟩ := List.head?_eq_some_iff.mp h
          exact hs ⟨t, rfl⟩
        have hskip : skipTrivia (c :: s) = c :: s := (if_neg hc).trans (if_neg hn)
        rw [hskip]
        refine .stop ?_
        unfold triviaPart
        rw [read_firstOf_cons, read_map, read_run1_cons, if_neg hc, read_firstOf_cons, read_map,
          read_comment_eq_none hs]
        rfl
termination_by s => s.length
decreasing_by
  · exact hb
  · exact hl

theorem read_trivia (s : List Char) : trivia.read s = some ((), skipTrivia s) := by
  obtain ⟨as, h⟩ := repeats_trivia s
  unfold trivia
  rw [read_map, ← triviaPart, h.read_many]
  rfl

/-- A look ahead for a character behind blanks and comments. -/
theorem read_absent_symbol (c : Char) (s : List Char) :
    (absent do
      trivia
      symbol c).read s = if (skipTrivia s).head? = some c then none else some ((), s) := by
  rw [read_absent, read_bind, read_trivia, Option.bind_some]
  by_cases h : (skipTrivia s).head? = some c
  · obtain ⟨t, ht⟩ := List.head?_eq_some_iff.mp h
    rw [ht, read_symbol_cons]
    simp
  · rw [read_symbol_eq_none h, if_neg h]
    rfl

theorem read_padded {α : Type} (r : Rule α) (s : List Char) :
    (padded r).read s = (r.read s).map fun p => (p.1, skipTrivia p.2) := by
  unfold padded
  rw [read_bind]
  cases r.read s with
  | none => rfl
  | some p => rw [Option.bind_some, read_bind, read_trivia]; rfl

/-! ### Quoted texts -/

/-- A text that can stand between quotes. -/
def Quotable (s : List Char) : Prop := '\n' ∉ s ∧ s.getLast? ≠ some '\\'

instance : DecidablePred Quotable := fun s =>
  inferInstanceAs (Decidable ('\n' ∉ s ∧ s.getLast? ≠ some '\\'))

/-- The text with a backslash in front of every quote. -/
def escapeQuotes : List Char → List Char
  | [] => []
  | '"' :: s => '\\' :: '"' :: escapeQuotes s
  | c :: s => c :: escapeQuotes s

/-- The text between quotes. -/
def quote (s : List Char) : List Char := '"' :: escapeQuotes s ++ ['"']

theorem Quotable.tail {c : Char} {s : List Char} (h : Quotable (c :: s)) : Quotable s := by
  refine ⟨fun hm => h.1 (by simp [hm]), fun hl => h.2 ?_⟩
  cases s with
  | nil => cases hl
  | cons d s => rwa [List.getLast?_cons_cons]

theorem escapeQuotes_cons {c : Char} (hc : c ≠ '"') (s : List Char) :
    escapeQuotes (c :: s) = c :: escapeQuotes s := by
  rw [escapeQuotes]
  exact hc

theorem head?_escapeQuotes_ne (s t : List Char) (hs : s ≠ []) :
    (escapeQuotes s ++ t).head? ≠ some '"' := by
  cases s with
  | nil => exact absurd rfl hs
  | cons c s =>
    by_cases hc : c = '"'
    · rw [hc, escapeQuotes]
      simp
    · rw [escapeQuotes_cons hc]
      simpa using hc

theorem read_quotedPart_quote (s : List Char) :
    quotedPart.read ('\\' :: '"' :: s) = some (['"'], s) := by
  simp [quotedPart, read_firstOf_cons, read_map, read_exactly_cons]

theorem read_quotedPart_backslash {s : List Char} (hs : s.head? ≠ some '"') :
    quotedPart.read ('\\' :: s) = some (['\\'], s) := by
  have he : (exactly ['\\', '"']).read ('\\' :: s) = none := by
    rw [read_exactly_cons, if_pos rfl]
    cases s with
    | nil => rfl
    | cons c s => rw [read_exactly_cons, if_neg (by simpa using hs)]
  simp [quotedPart, read_firstOf_cons, read_map, he, read_run1_cons, read_one_cons]

/-- A character of a quoted text that is neither a quote nor a backslash. -/
def isPlainQuoted (c : Char) : Bool := c != '"' && c != '\n' && c != '\\'

theorem read_quotedPart_plain {c : Char} (hc : isPlainQuoted c = true) (s : List Char) :
    quotedPart.read (c :: s) =
      some (c :: s.takeWhile isPlainQuoted, s.dropWhile isPlainQuoted) := by
  have hb : c ≠ '\\' := by
    rintro rfl
    cases hc
  have hr := read_run1_cons isPlainQuoted c s
  rw [if_pos hc] at hr
  unfold quotedPart
  rw [read_firstOf_cons, read_map, read_exactly_cons, if_neg hb, read_firstOf_cons]
  exact congrArg (fun r => Option.or none (Option.or r _)) hr

theorem repeats_quotedPart {w : List Char} (hw : Quotable w) (s : List Char) :
    ∃ parts, Repeats quotedPart (escapeQuotes w ++ '"' :: s) parts ('"' :: s) ∧
      parts.flatten = w := by
  induction w with
  | nil => exact ⟨[], .stop rfl, rfl⟩
  | cons c w ih =>
    obtain ⟨parts, hp, hf⟩ := ih hw.tail
    by_cases hq : c = '"'
    · subst hq
      have he : escapeQuotes ('"' :: w) ++ '"' :: s =
          '\\' :: '"' :: (escapeQuotes w ++ '"' :: s) := rfl
      rw [he]
      refine ⟨['"'] :: parts, .step (read_quotedPart_quote _) ?_ hp, by rw [← hf]; rfl⟩
      simp only [List.length_cons]
      omega
    · rw [escapeQuotes_cons hq]
      by_cases hb : c = '\\'
      · subst hb
        have hne : w ≠ [] := by
          rintro rfl
          exact hw.2 rfl
        refine ⟨['\\'] :: parts, .step ?_ (by simp) hp, by rw [← hf]; rfl⟩
        exact read_quotedPart_backslash (head?_escapeQuotes_ne w _ hne)
      · have hc : isPlainQuoted c = true := by
          have hn : c ≠ '\n' := by
            rintro rfl
            exact hw.1 (by simp)
          simp [isPlainQuoted, hq, hb, hn]
        rw [← hf] at hp ⊢
        exact hp.cons_run1 (fun _ _ h => read_quotedPart_plain h _) hc

theorem read_quoted {w : List Char} (hw : Quotable w) (s : List Char) :
    quoted.read (quote w ++ s) = some (String.ofList w, s) := by
  obtain ⟨parts, hp, hf⟩ := repeats_quotedPart hw s
  unfold quoted quote
  rw [read_bind, List.cons_append, List.cons_append, read_symbol_cons, if_pos rfl,
    Option.bind_some, List.append_assoc, read_bind]
  rw [show ['"'] ++ s = '"' :: s from rfl, hp.read_many]
  simp [read_bind, read_symbol_cons, hf]

theorem read_quoted_eq_none {s : List Char} (hs : s.head? ≠ some '"') : quoted.read s = none := by
  unfold quoted
  rw [read_bind, read_symbol_eq_none hs]
  rfl

/-! ### Groups -/

/-- A text with balanced parentheses. -/
inductive Balanced : List Char → Prop
  | nil : Balanced []
  | char {c : Char} {s : List Char} (hc : c ≠ '(' ∧ c ≠ ')') (hs : Balanced s) : Balanced (c :: s)
  | group {s t : List Char} (hs : Balanced s) (ht : Balanced t) : Balanced ('(' :: s ++ ')' :: t)

/-- Holds of a text that closes the given number of open parentheses, and every one that it opens
itself. -/
def closesAll : Nat → List Char → Bool
  | n, [] => n == 0
  | n, c :: s =>
    if c = '(' then closesAll (n + 1) s
    else if c = ')' then n != 0 && closesAll (n - 1) s
    else closesAll n s

theorem Balanced.closesAll_append {w : List Char} (hw : Balanced w) :
    ∀ (n : Nat) (s : List Char), closesAll n (w ++ s) = closesAll n s := by
  induction hw with
  | nil => exact fun _ _ => rfl
  | char hc _ ih =>
    intro n s
    rw [List.cons_append, closesAll, if_neg hc.1, if_neg hc.2, ih]
  | @group w v _ _ ihw ihv =>
    intro n s
    have happend : '(' :: w ++ ')' :: v ++ s = '(' :: (w ++ ')' :: (v ++ s)) := by simp
    rw [happend, closesAll, if_pos rfl, ihw, closesAll, if_neg (by decide), if_pos rfl, ihv]
    simp

/-- A text that closes open parentheses is balanced up to the one that closesAll the innermost. -/
theorem balanced_of_closesAll : ∀ {n : Nat} {s : List Char}, closesAll n s = true →
    (n = 0 → Balanced s) ∧
      ∀ m, n = m + 1 → ∃ w t, Balanced w ∧ s = w ++ ')' :: t ∧ closesAll m t = true
  | n, [], h => by
    obtain rfl : n = 0 := by simpa [closesAll] using h
    exact ⟨fun _ => .nil, fun m hm => by omega⟩
  | n, c :: s, h => by
    rw [closesAll] at h
    split at h
    · next hc =>
      -- the group that the character opens, and what stands behind it
      obtain ⟨w, t, hw, rfl, ht⟩ := (balanced_of_closesAll h).2 n rfl
      have hlen : t.length < (w ++ ')' :: t).length := by
        rw [List.length_append, List.length_cons]
        omega
      obtain ⟨hzero, hsucc⟩ := balanced_of_closesAll ht
      rw [hc]
      refine ⟨fun hn => .group hw (hzero hn), fun m hm => ?_⟩
      obtain ⟨v, u, hv, rfl, hu⟩ := hsucc m hm
      exact ⟨'(' :: w ++ ')' :: v, u, .group hw hv, by simp, hu⟩
    · next hopen =>
      split at h
      · next hc =>
        obtain ⟨hn, hs⟩ := Bool.and_eq_true_iff.mp h
        rw [bne_iff_ne] at hn
        refine ⟨fun h0 => absurd h0 hn, fun m hm => ⟨[], s, .nil, by rw [hc]; rfl, ?_⟩⟩
        rwa [hm] at hs
      · next hclose =>
        obtain ⟨hzero, hsucc⟩ := balanced_of_closesAll h
        refine ⟨fun hn => .char ⟨hopen, hclose⟩ (hzero hn), fun m hm => ?_⟩
        obtain ⟨w, t, hw, rfl, ht⟩ := hsucc m hm
        exact ⟨c :: w, t, .char ⟨hopen, hclose⟩ hw, rfl, ht⟩
termination_by _ s => s.length

theorem balanced_iff {s : List Char} : Balanced s ↔ closesAll 0 s = true := by
  constructor
  · intro h
    have hc := h.closesAll_append 0 []
    rwa [List.append_nil] at hc
  · intro h
    exact (balanced_of_closesAll h).1 rfl

instance : DecidablePred Balanced := fun _ => decidable_of_iff _ balanced_iff.symm

/-- A character that is no parenthesis. -/
def isOutside (c : Char) : Bool := c != '(' && c != ')'

/-- One round of the rule for a text in parentheses. -/
def groupPart (inner : Rule (List Char)) : Rule (List Char) := firstOf [run1 isOutside, inner]

theorem read_groupPart_char (inner : Rule (List Char)) {c : Char} (hc : isOutside c = true)
    (s : List Char) :
    (groupPart inner).read (c :: s) = some (c :: s.takeWhile isOutside, s.dropWhile isOutside) := by
  unfold groupPart
  rw [read_firstOf_cons, read_run1_cons, if_pos hc, Option.some_or]

/-- The groups inside a group, if the given text bounds the nesting. -/
def innerGroups : List Char → Rule (List Char)
  | [] => refuse
  | _ :: bound => nestedUpTo (groupStep '(' ')') bound

theorem read_innerGroups_eq_none (bound s : List Char) :
    (innerGroups bound).read (')' :: s) = none := by
  cases bound with
  | nil => rfl
  | cons c bound => cases bound <;> rfl

theorem read_nestedUpTo_groupStep {bound w s : List Char} {parts : List (List Char)}
    (h : Repeats (groupPart (innerGroups bound)) (w ++ ')' :: s) parts (')' :: s))
    (hf : parts.flatten = w) :
    (nestedUpTo (groupStep '(' ')') bound).read ('(' :: w ++ ')' :: s) =
      some ('(' :: w ++ [')'], s) := by
  have hstep : nestedUpTo (groupStep '(' ')') bound = groupStep '(' ')' (innerGroups bound) := by
    cases bound <;> rfl
  have hm : (many (firstOf [run1 fun c => c != '(' && c != ')', innerGroups bound])).read
      (w ++ ')' :: s) = some (parts, ')' :: s) := h.read_many
  rw [hstep]
  unfold groupStep
  simp [read_bind, read_symbol_cons, hm, hf]

theorem repeats_groupPart {w : List Char} (hw : Balanced w) :
    ∀ bound s : List Char, w.length ≤ bound.length →
      ∃ parts, Repeats (groupPart (innerGroups bound)) (w ++ ')' :: s) parts (')' :: s) ∧
        parts.flatten = w := by
  induction hw with
  | nil =>
    intro bound s _
    refine ⟨[], .stop ?_, rfl⟩
    unfold groupPart
    rw [read_firstOf_cons, read_firstOf_cons, List.nil_append, read_innerGroups_eq_none]
    rfl
  | @char c w hc _ ih =>
    intro bound s hb
    obtain ⟨parts, hp, hf⟩ := ih bound s (Nat.le_of_succ_le hb)
    rw [← hf] at hp ⊢
    exact hp.cons_run1 (fun _ _ h => read_groupPart_char _ h _) (by simpa [isOutside] using hc)
  | @group w v _ _ ihw ihv =>
    intro bound s hb
    cases bound with
    | nil => simp at hb
    | cons d bound =>
      simp only [List.cons_append, List.length_cons, List.length_append] at hb
      obtain ⟨parts, hp, hf⟩ := ihw bound (v ++ ')' :: s) (by omega)
      obtain ⟨more, hm, hg⟩ := ihv (d :: bound) s (by simp only [List.length_cons]; omega)
      refine ⟨('(' :: w ++ [')']) :: more, .step ?_ ?_ hm, by simp [hg]⟩
      · have hin : (innerGroups (d :: bound)).read ('(' :: w ++ ')' :: (v ++ ')' :: s)) =
            some ('(' :: w ++ [')'], v ++ ')' :: s) := read_nestedUpTo_groupStep hp hf
        unfold groupPart
        have hs : ('(' :: w ++ ')' :: v) ++ ')' :: s = '(' :: w ++ ')' :: (v ++ ')' :: s) := by
          simp
        rw [hs, read_firstOf_cons, read_firstOf_cons, hin]
        rfl
      · simp only [List.cons_append, List.length_cons, List.length_append]
        omega

theorem read_group {w : List Char} (hw : Balanced w) (s : List Char) :
    (group '(' ')').read ('(' :: w ++ ')' :: s) = some ('(' :: w ++ [')'], s) := by
  have hl : w.length ≤ ('(' :: w ++ ')' :: s).length := by
    simp only [List.cons_append, List.length_cons, List.length_append]
    omega
  obtain ⟨parts, hp, hf⟩ := repeats_groupPart hw ('(' :: w ++ ')' :: s) s hl
  unfold group
  rw [read_nested, read_nestedUpTo_groupStep hp hf]

theorem read_parenthesized {w : List Char} (hw : Balanced w) (s : List Char) :
    parenthesized.read ('(' :: w ++ ')' :: s) = some (w, s) := by
  unfold parenthesized
  rw [read_map, read_group hw]
  simp

theorem read_parenthesized_eq_none {s : List Char} (hs : s.head? ≠ some '(') :
    parenthesized.read s = none := by
  obtain ⟨inner, hi⟩ := exists_nestedUpTo (groupStep '(' ')') s
  unfold parenthesized group
  rw [read_map, read_nested, hi, groupStep, read_bind, read_symbol_eq_none hs]
  rfl

/-! ### Conditions -/

/-- A condition that can stand between parentheses. -/
def IsCondition (s : List Char) : Prop := Balanced s ∧ trim s = s

instance : DecidablePred IsCondition := fun s =>
  inferInstanceAs (Decidable (Balanced s ∧ trim s = s))

/-- The word and the parentheses around a condition. -/
def writeCondition (c : List Char) : List Char := ['i', 'f', ' ', '('] ++ c ++ [')']

/-- The group is read up to its own closing parenthesis. -/
theorem read_conditional_balanced {c : List Char} (hc : Balanced c) (s : List Char) :
    conditional.read (writeCondition c ++ s) = some (String.ofList (trim c), s) := by
  have hk : (keyword "if").read (['i', 'f'] ++ ' ' :: ('(' :: c ++ ')' :: s)) =
      some ((), ' ' :: ('(' :: c ++ ')' :: s)) :=
    read_keyword (by decide) (stops_cons.mpr rfl) "if"
  have ht : skipTrivia (' ' :: ('(' :: c ++ ')' :: s)) = '(' :: c ++ ')' :: s := by
    rw [skipTrivia_blank (by decide), List.cons_append, skipTrivia_cons (by decide) (by decide)]
  have hw : writeCondition c ++ s = ['i', 'f'] ++ ' ' :: ('(' :: c ++ ')' :: s) := by
    simp [writeCondition]
  unfold conditional
  rw [hw, read_bind, hk, Option.bind_some, read_bind, read_trivia, Option.bind_some, ht, read_bind,
    read_parenthesized hc]
  rfl

theorem read_conditional {c : List Char} (hc : IsCondition c) (s : List Char) :
    conditional.read (writeCondition c ++ s) = some (String.ofList c, s) := by
  rw [read_conditional_balanced hc.1, hc.2]

theorem read_conditional_eq_none {s : List Char} (hs : (keyword "if").read s = none) :
    conditional.read s = none := by
  unfold conditional
  rw [read_bind, hs]
  rfl

end BuildPlan.Grammar
