import BuildPlan.Proofs.Grammar.Consuming
import BuildPlan.Proofs.Grammar.Identifiers
import BuildPlan.Proofs.Grammar.Values

/-! # Texts with more text behind them

What a rule reads at the end of a text may depend on its being the end. This is about two texts that
are the same up to there, where the second goes on with the end of a line and a closing brace, and
about two rules that read them. The rules go together if they find the same on both texts and leave
rests that are related again (`Carries`), and then so do the rules that are built from them.

Inside a lexeme the second text is the first one with the tail behind it (`Firm`). Between lexemes
the blanks of the tail may have been skipped at the end of the first text (`Loose`). Nothing that is
read within the first text takes a part of the tail, since no lexeme but a comment or a quoted text
has a brace in it, and these end with the line. -/

namespace BuildPlan.Grammar

open BuildPlan.Text BuildPlan.Grammar.Rule

/-! ### Two runs side by side -/

section Calculus
variable {α β : Type} {A B C : List Char → List Char → Prop}

/-- Both readings find nothing, or the same value with related rests. -/
def Alike (B : List Char → List Char → Prop) (o o' : Option (α × List Char)) : Prop :=
  (o = none ∧ o' = none) ∨ ∃ a t t', o = some (a, t) ∧ o' = some (a, t') ∧ B t t'

theorem alike_none : Alike B (none : Option (α × List Char)) none := .inl ⟨rfl, rfl⟩

theorem alike_some (a : α) {t t' : List Char} (h : B t t') : Alike B (some (a, t)) (some (a, t')) :=
  .inr ⟨a, t, t', rfl, rfl, h⟩

theorem Alike.or {o p o' p' : Option (α × List Char)} (ho : Alike B o o')
    (hp : o = none → Alike B p p') : Alike B (o.or p) (o'.or p') := by
  rcases ho with ⟨rfl, rfl⟩ | ⟨a, t, t', rfl, rfl, h⟩
  · exact hp rfl
  · exact alike_some a h

theorem Alike.map {o o' : Option (α × List Char)} (ho : Alike B o o') (f : α → β) :
    Alike B (o.map fun p => (f p.1, p.2)) (o'.map fun p => (f p.1, p.2)) := by
  rcases ho with ⟨rfl, rfl⟩ | ⟨a, t, t', rfl, rfl, h⟩
  · exact alike_none
  · exact alike_some (f a) h

/-- From related texts the two rules read alike. -/
def Carries (A B : List Char → List Char → Prop) (r r' : Rule α) : Prop :=
  ∀ s s', A s s' → Alike B (r.read s) (r'.read s')

theorem Carries.mono {A' B' : List Char → List Char → Prop} {r r' : Rule α} (h : Carries A B r r')
    (hA : ∀ s s', A' s s' → A s s') (hB : ∀ s s', B s s' → B' s s') : Carries A' B' r r' := by
  intro s s' hs
  rcases h s s' (hA s s' hs) with hn | ⟨a, t, t', hr, hr', ht⟩
  · exact .inl hn
  · exact .inr ⟨a, t, t', hr, hr', hB t t' ht⟩

theorem carries_pure (a : α) : Carries A A (pure a) (pure a) := fun _ _ hs => alike_some a hs

theorem Carries.bind {r r' : Rule α} {f f' : α → Rule β} (hr : Carries A B r r')
    (hf : ∀ a, Carries B C (f a) (f' a)) : Carries A C (r >>= f) (r' >>= f') := by
  intro s s' hs
  rw [read_bind, read_bind]
  rcases hr s s' hs with ⟨h, h'⟩ | ⟨a, t, t', h, h', ht⟩
  · rw [h, h']
    exact alike_none
  · rw [h, h']
    exact hf a t t' ht

theorem Carries.map {r r' : Rule α} (hr : Carries A B r r') (f : α → β) :
    Carries A B (r.map f) (r'.map f) := by
  intro s s' hs
  rw [read_map, read_map]
  exact (hr s s' hs).map f

theorem Carries.discard {r r' : Rule α} (hr : Carries A B r r') :
    Carries A B (discard r) (discard r') :=
  hr.map fun _ => ()

theorem carries_firstOf_nil : Carries A B (firstOf ([] : List (Rule α))) (firstOf []) :=
  fun _ _ _ => alike_none

theorem Carries.firstOf_cons {r r' : Rule α} {rs rs' : List (Rule α)} (hr : Carries A B r r')
    (hrs : Carries A B (firstOf rs) (firstOf rs')) :
    Carries A B (firstOf (r :: rs)) (firstOf (r' :: rs')) := by
  intro s s' hs
  rw [read_firstOf_cons, read_firstOf_cons]
  exact (hr s s' hs).or fun _ => hrs s s' hs

theorem Carries.optional {r r' : Rule α} (hr : Carries A B r r') (hAB : ∀ s s', A s s' → B s s') :
    Carries A B (optional r) (optional r') := by
  intro s s' hs
  rw [read_optional, read_optional]
  exact ((hr s s' hs).map some).or fun _ => alike_some none (hAB s s' hs)

theorem Carries.select {r r' : Rule α} (hr : Carries A B r r') (f : α → Option β) :
    Carries A B (r.select f) (r'.select f) := by
  intro s s' hs
  rw [read_select, read_select]
  rcases hr s s' hs with ⟨h, h'⟩ | ⟨a, t, t', h, h', ht⟩
  · rw [h, h']
    exact alike_none
  · rw [h, h', Option.bind_some, Option.bind_some]
    cases f a with
    | none => exact alike_none
    | some b => exact alike_some b ht

theorem Carries.keep {r r' : Rule α} (hr : Carries A B r r') (p : α → Bool) :
    Carries A B (r.keep p) (r'.keep p) :=
  hr.select _

/-- A look ahead takes nothing. -/
theorem Carries.absent {r r' : Rule α} (hr : Carries A B r r') :
    Carries A A (absent r) (absent r') := by
  intro s s' hs
  rw [read_absent, read_absent]
  rcases hr s s' hs with ⟨h, h'⟩ | ⟨a, t, t', h, h', -⟩
  · rw [h, h']
    exact alike_some () hs
  · rw [h, h']
    exact alike_none

/-- Repetitions do the same number of rounds. -/
theorem Carries.many {r r' : Rule α} (hr : Carries A A r r') (ht : Takes 1 r) (ht' : Takes 1 r')
    (s s' : List Char) (hs : A s s') : Alike A ((many r).read s) ((many r').read s') := by
  rcases hr s s' hs with ⟨h, h'⟩ | ⟨a, t, t', h, h', hrest⟩
  · rw [read_many_of_none h, read_many_of_none h']
    exact alike_some [] hs
  · have hlt : t.length < s.length := ht.length_le h
    rw [ht.read_many_of_some h, ht'.read_many_of_some h']
    exact (hr.many ht ht' t t' hrest).map (a :: ·)
termination_by s.length

theorem Carries.many1 {r r' : Rule α} (hr : Carries A B r r') (hBA : ∀ s s', B s s' → A s s')
    (ht : Takes 1 r) (ht' : Takes 1 r') : Carries A B (many1 r) (many1 r') :=
  hr.bind fun _ => Carries.map (Carries.many (hr.mono hBA fun _ _ h => h) ht ht') _

end Calculus

/-! ### The tail -/

/-- What stands behind the end of the first text: nothing, or the end of a line and a brace. The
second text is what is left of it without blanks. -/
inductive Tail : List Char → List Char → Prop
  | nothing : Tail [] []
  | brace : Tail ['\n', '}'] ['}']

section Tail
variable {z z' : List Char}

/-- The second text is the first one with the tail behind it. The first one is shorter than `n`. -/
def Firm (z : List Char) (n : Nat) (s s' : List Char) : Prop := s' = s ++ z ∧ s.length < n

/-- As before, or the first text is at its end and the blanks of the tail were skipped. -/
def Loose (z z' : List Char) (n : Nat) (s s' : List Char) : Prop :=
  (s' = s ++ z ∨ s = [] ∧ s' = z') ∧ s.length < n

theorem Firm.loose {n : Nat} {s s' : List Char} (h : Firm z n s s') : Loose z z' n s s' :=
  ⟨.inl h.1, h.2⟩

theorem Firm.mono {m n : Nat} (hm : m ≤ n) {s s' : List Char} (h : Firm z m s s') : Firm z n s s' :=
  ⟨h.1, by have hl := h.2; omega⟩

theorem Loose.mono {m n : Nat} (hm : m ≤ n) {s s' : List Char} (h : Loose z z' m s s') :
    Loose z z' n s s' :=
  ⟨h.1, by have hl := h.2; omega⟩

theorem not_loose_zero (s s' : List Char) : ¬ Loose z z' 0 s s' := fun h => Nat.not_lt_zero _ h.2

theorem Loose.firm_of_cons {n : Nat} {c : Char} {s s' : List Char}
    (h : Loose z z' (n + 1) (c :: s) s') :
    s' = c :: (s ++ z) ∧ Firm z n s (s ++ z) := by
  obtain ⟨h | ⟨h, -⟩, hl⟩ := h
  · exact ⟨h, rfl, Nat.lt_of_succ_lt_succ hl⟩
  · cases h

/-- What the second text begins with at the end of the first one. -/
theorem Loose.head?_of_nil {n : Nat} {s' : List Char} (hz : Tail z z') (h : Loose z z' n [] s') :
    ∀ c ∈ s'.head?, c = '\n' ∨ c = '}' := by
  obtain ⟨h | ⟨-, h⟩, -⟩ := h <;> rw [h] <;> cases hz <;> simp

/-- The second text once the blanks in front are skipped in both. -/
def settle (z z' s : List Char) : List Char := if s = [] then z' else s ++ z

theorem loose_settle {n : Nat} {s : List Char} (hs : s.length < n) :
    Loose z z' n s (settle z z' s) := by
  unfold settle
  split
  · next h => exact ⟨.inr ⟨h, rfl⟩, hs⟩
  · exact ⟨.inl rfl, hs⟩

variable (hz : Tail z z')
include hz

theorem dropWhile_settle (s : List Char) :
    (s ++ z).dropWhile isBlank = settle z z' (s.dropWhile isBlank) := by
  induction s with
  | nil => cases hz <;> rfl
  | cons c s ih =>
    by_cases hc : isBlank c = true
    · rw [List.cons_append, List.dropWhile_cons_of_pos hc, List.dropWhile_cons_of_pos hc, ih]
    · rw [List.cons_append, List.dropWhile_cons_of_neg hc, List.dropWhile_cons_of_neg hc]
      rfl

/-- A comment at the end of the first text ends with the line of the tail. -/
theorem skipFrom_settle (s : List Char) :
    ∀ b, skipFrom b (s ++ z) = settle z z' (skipFrom b s) := by
  induction s with
  | nil => intro b; cases b <;> cases hz <;> rfl
  | cons c s ih =>
    intro b
    cases b with
    | true => exact ih _
    | false =>
      have hhead : (s ++ z).head? = some '/' ↔ s.head? = some '/' := by
        cases s with
        | nil => cases hz <;> simp
        | cons d s => exact Iff.rfl
      rw [List.cons_append, skipFrom, skipFrom]
      simp only [hhead]
      split
      · exact ih false
      · split
        · exact ih true
        · rfl

theorem Loose.dropWhile {n : Nat} {s s' : List Char} (h : Loose z z' n s s') :
    s'.dropWhile isBlank = settle z z' (s.dropWhile isBlank) := by
  obtain ⟨rfl | ⟨rfl, rfl⟩, -⟩ := h
  · exact dropWhile_settle hz s
  · cases hz <;> rfl

theorem Loose.skipTrivia {n : Nat} {s s' : List Char} (h : Loose z z' n s s') :
    skipTrivia s' = settle z z' (skipTrivia s) := by
  obtain ⟨rfl | ⟨rfl, rfl⟩, -⟩ := h
  · exact skipFrom_settle hz s false
  · cases hz <;> rfl

/-! ### Characters -/

section Characters
variable {n : Nat} {p : Char → Bool} (hn : p '\n' = false)
include hn

/-- Neither character of the tail has the property. -/
theorem carries_one (hb : p '}' = false) :
    Carries (Loose z z' (n + 1)) (Firm z n) (one p) (one p) := by
  intro s s' hs
  cases s with
  | nil =>
    have hstop : Stops p s' := by
      intro c hc
      rcases hs.head?_of_nil hz c hc with rfl | rfl
      · exact hn
      · exact hb
    rw [read_one_eq_none hstop]
    exact alike_none
  | cons c s =>
    obtain ⟨rfl, hf⟩ := hs.firm_of_cons
    rw [read_one_cons, read_one_cons]
    split
    · exact alike_some c hf
    · exact alike_none

theorem carries_one_firm : Carries (Firm z (n + 1)) (Firm z n) (one p) (one p) := by
  rintro s s' ⟨rfl, hl⟩
  cases s with
  | nil =>
    have hstop : Stops p z := by cases hz <;> simp [hn]
    rw [List.nil_append, read_one_eq_none hstop]
    exact alike_none
  | cons c s =>
    rw [List.cons_append, read_one_cons, read_one_cons]
    split
    · exact alike_some c ⟨rfl, Nat.lt_of_succ_lt_succ hl⟩
    · exact alike_none

theorem carries_run_firm : Carries (Firm z n) (Firm z n) (run p) (run p) := by
  rintro s s' ⟨rfl, hl⟩
  have hstop : Stops p z := by cases hz <;> simp [hn]
  have hsplit : (run p).read (s ++ z) = some (s.takeWhile p, s.dropWhile p ++ z) := by
    induction s with
    | nil => rw [List.nil_append, read_run, hstop.takeWhile_eq, hstop.dropWhile_eq]; rfl
    | cons c s ih =>
      rw [List.cons_append, read_run]
      by_cases hc : p c = true
      · have ih := ih (Nat.lt_of_succ_lt hl)
        rw [read_run, Option.some.injEq, Prod.mk.injEq] at ih
        simp only [List.takeWhile_cons_of_pos hc, List.dropWhile_cons_of_pos hc, ih.1, ih.2]
      · simp only [List.takeWhile_cons_of_neg hc, List.dropWhile_cons_of_neg hc, List.cons_append]
  rw [hsplit, read_run]
  exact alike_some _ ⟨rfl, Nat.lt_of_le_of_lt (List.dropWhile_suffix p).length_le hl⟩

theorem carries_run1_firm : Carries (Firm z (n + 1)) (Firm z n) (run1 p) (run1 p) :=
  (carries_one_firm hz hn).bind fun _ => (carries_run_firm hz hn).map _

end Characters

/-! ### Lexemes -/

omit hz in
/-- What goes together on longer texts goes together on shorter ones. -/
theorem Carries.lower {α : Type} {B : List Char → List Char → Prop} {n : Nat} {r r' : Rule α}
    (h : Carries (Loose z z' (n + 1)) B r r') : Carries (Loose z z' n) B r r' :=
  h.mono (fun _ _ hs => hs.mono (Nat.le_succ n)) fun _ _ hs => hs

omit hz in
theorem Carries.lowerFirm {α : Type} {B : List Char → List Char → Prop} {n : Nat} {r r' : Rule α}
    (h : Carries (Firm z (n + 1)) B r r') : Carries (Firm z n) B r r' :=
  h.mono (fun _ _ hs => hs.mono (Nat.le_succ n)) fun _ _ hs => hs

omit hz in
/-- The rests are no longer than those that are allowed. -/
theorem Carries.raise {α : Type} {A : List Char → List Char → Prop} {n : Nat} {r r' : Rule α}
    (h : Carries A (Loose z z' n) r r') : Carries A (Loose z z' (n + 1)) r r' :=
  h.mono (fun _ _ hs => hs) fun _ _ hs => hs.mono (Nat.le_succ n)

omit hz in
theorem Carries.firm {α : Type} {B : List Char → List Char → Prop} {n : Nat} {r r' : Rule α}
    (h : Carries (Loose z z' n) B r r') : Carries (Firm z n) B r r' :=
  h.mono (fun _ _ hs => hs.loose) fun _ _ hs => hs

omit hz in
theorem Carries.loose {α : Type} {A : List Char → List Char → Prop} {n : Nat} {r r' : Rule α}
    (h : Carries A (Firm z n) r r') : Carries A (Loose z z' n) r r' :=
  h.mono (fun _ _ hs => hs) fun _ _ hs => hs.loose

variable {n : Nat}

theorem carries_symbol {c : Char} (hc : c ≠ '\n' ∧ c ≠ '}') :
    Carries (Loose z z' (n + 1)) (Firm z n) (symbol c) (symbol c) :=
  (carries_one hz (by simpa using hc.1.symm) (by simpa using hc.2.symm)).map _

theorem carries_exactly_firm : ∀ {w : List Char}, '\n' ∉ w →
    Carries (Firm z n) (Firm z n) (exactly w) (exactly w)
  | [], _ => carries_pure ()
  | c :: w, hw => by
    have hc : ('\n' == c) = false := by
      rw [beq_eq_false_iff_ne]
      rintro rfl
      exact hw List.mem_cons_self
    exact (carries_one_firm hz hc).lowerFirm.bind fun _ =>
      carries_exactly_firm fun h => hw (List.mem_cons_of_mem _ h)

theorem carries_exactly {c : Char} {w : List Char} (hc : c ≠ '\n' ∧ c ≠ '}') (hw : '\n' ∉ w) :
    Carries (Loose z z' n) (Firm z n) (exactly (c :: w)) (exactly (c :: w)) :=
  (carries_one hz (by simpa using hc.1.symm) (by simpa using hc.2.symm)).lower.bind fun _ =>
    carries_exactly_firm hz hw

theorem carries_trivia : Carries (Loose z z' n) (Loose z z' n) trivia trivia := by
  intro s s' hs
  rw [read_trivia, read_trivia, hs.skipTrivia hz]
  exact alike_some () (loose_settle (Nat.lt_of_le_of_lt (length_skipTrivia_le s) hs.2))

theorem Carries.padded {α : Type} {A : List Char → List Char → Prop} {r r' : Rule α}
    (h : Carries A (Loose z z' n) r r') : Carries A (Loose z z' n) (padded r) (padded r') :=
  h.bind fun _ => (carries_trivia hz).bind fun _ => carries_pure _

theorem carries_spaces : Carries (Loose z z' n) (Loose z z' n) spaces spaces := by
  have hfirm : Carries (Firm z n) (Firm z n) spaces spaces := (carries_run_firm hz (by rfl)).map _
  rintro s s' ⟨rfl | ⟨rfl, rfl⟩, hl⟩
  · exact hfirm.loose s (s ++ z) ⟨rfl, hl⟩
  · have hspaces : spaces.read s' = some ((), s') := by
      rw [read_spaces]
      cases hz <;> rfl
    rw [hspaces]
    exact alike_some () ⟨.inr ⟨rfl, rfl⟩, hl⟩

theorem carries_word : Carries (Loose z z' n) (Firm z n) word word :=
  (carries_one hz rfl rfl).lower.bind fun _ =>
    (carries_run_firm hz rfl).bind fun _ => carries_pure _

theorem carries_keyword (w : String) : Carries (Loose z z' n) (Firm z n) (keyword w) (keyword w) :=
  ((carries_word hz).keep _).map _

theorem carries_comment : Carries (Loose z z' n) (Firm z n) comment comment :=
  (carries_exactly hz (by decide) (by decide)).bind fun _ =>
    (carries_run_firm hz rfl).bind fun _ => carries_pure _

theorem carries_reference : Carries (Loose z z' n) (Firm z n) reference reference :=
  ((carries_symbol hz (by decide)).lower.loose.optional fun _ _ h => h).bind fun _ =>
    (carries_exactly hz (by decide) (by decide)).bind fun _ =>
      (carries_run_firm hz rfl).bind fun _ =>
        (carries_symbol hz (by decide)).lower.firm.bind fun _ => carries_pure _

theorem carries_namePart : Carries (Firm z n) (Firm z n) namePart namePart :=
  .firstOf_cons (carries_run1_firm hz rfl).lowerFirm
    (.firstOf_cons (carries_reference hz).firm carries_firstOf_nil)

omit hz in
theorem takes_namePart : Takes 1 namePart :=
  (takes_run1 _).firstOf_cons (takes_reference.firstOf_cons takes_firstOf_nil)

theorem carries_identifier : Carries (Loose z z' n) (Firm z n) identifier identifier :=
  (Carries.firstOf_cons ((carries_one hz rfl rfl).lower.map _)
    (.firstOf_cons (carries_reference hz) carries_firstOf_nil)).bind fun _ =>
      Carries.bind (Carries.many (carries_namePart hz) takes_namePart takes_namePart) fun _ =>
        carries_pure _

theorem splitBare_append (s : List Char) :
    splitBare (s ++ z) = ((splitBare s).1, (splitBare s).2 ++ z) := by
  fun_induction splitBare s with
  | case1 => cases hz <;> rfl
  | case2 s => rfl
  | case3 c s hne hc taken rest he ih =>
    have hne' : ∀ t, c = '/' → s ++ z = '/' :: t → False := by
      intro t hslash ht
      cases s with
      | nil => cases hz <;> cases ht
      | cons d s =>
        obtain rfl : d = '/' := (List.cons.inj ht).1
        exact hne s hslash rfl
    rw [he] at ih
    rw [List.cons_append, splitBare, if_pos hc, ih]
    exact hne'
  | case4 c s hne hc =>
    have hne' : ∀ t, c = '/' → s ++ z = '/' :: t → False := by
      rintro t rfl
      exact absurd rfl hc
    rw [List.cons_append, splitBare, if_neg hc]
    exact hne'

/-- No bare word goes on into the tail. -/
theorem stops_isBareChar : Stops isBareChar z' := by
  cases hz with
  | nothing => exact stops_nil _
  | brace => exact stops_cons.mpr rfl

theorem carries_bareRun : Carries (Loose z z' n) (Firm z n) bareRun bareRun := by
  rintro s s' ⟨rfl | ⟨rfl, rfl⟩, hl⟩
  · have happend := splitBare_append hz s
    by_cases he : (splitBare s).1 = []
    · rw [read_bareRun_of_nil he, read_bareRun_of_nil (by rw [happend]; exact he)]
      exact alike_none
    · rw [read_bareRun_of_ne_nil he, read_bareRun_of_ne_nil (by rw [happend]; exact he), happend]
      exact alike_some _ ⟨rfl, Nat.lt_of_le_of_lt (length_splitBare_le s) hl⟩
  · rw [read_bareRun_eq_none (stops_nil _), read_bareRun_eq_none (stops_isBareChar hz)]
    exact alike_none

theorem carries_barePart : Carries (Loose z z' n) (Firm z n) barePart barePart :=
  .firstOf_cons (carries_bareRun hz) (.firstOf_cons (carries_reference hz) carries_firstOf_nil)

omit hz in
theorem takes_barePart : Takes 1 barePart := by
  refine Takes.firstOf_cons (fun s a t h => ?_) (takes_reference.firstOf_cons takes_firstOf_nil)
  obtain ⟨hs, ha⟩ := split_of_read_bareRun h
  have happend := splitBare_append_eq s
  rw [hs] at happend
  exact ⟨a, happend.symm, List.length_pos_iff.mpr ha⟩

theorem carries_bareWord : Carries (Loose z z' n) (Firm z n) bareWord bareWord :=
  ((carries_barePart hz).many1 (fun _ _ h => h.loose) takes_barePart takes_barePart).bind fun _ =>
    carries_pure _

theorem carries_quotedPart : Carries (Firm z n) (Firm z n) quotedPart quotedPart :=
  .firstOf_cons ((carries_exactly_firm hz (by decide)).map _) <|
    .firstOf_cons (carries_run1_firm hz rfl).lowerFirm <|
    .firstOf_cons ((carries_one_firm hz rfl).lowerFirm.map _) carries_firstOf_nil

theorem carries_quoted : Carries (Loose z z' n) (Firm z n) quoted quoted :=
  (carries_symbol hz (by decide)).lower.bind fun _ =>
    Carries.bind (Carries.many (carries_quotedPart hz) takes_quotedPart takes_quotedPart) fun _ =>
      (carries_symbol hz (by decide)).lower.firm.bind fun _ => carries_pure _

/-- The parenthesis that closes a group stands in the first text. -/
theorem carries_parenthesized :
    Carries (Loose z z' n) (Firm z n) parenthesized parenthesized := by
  intro s s' hs
  have hz' : ')' ∉ z ∧ ')' ∉ z' := by cases hz <;> decide
  cases h : parenthesized.read s with
  | some p =>
    obtain ⟨w, t⟩ := p
    obtain ⟨u, rfl, hw, rfl⟩ := consumes_parenthesized _ _ _ h
    have happend : '(' :: w ++ [')'] ++ t = '(' :: (w ++ [')'] ++ t) := rfl
    rw [happend] at hs
    obtain ⟨rfl, -, hl⟩ := hs.mono (Nat.le_succ n) |>.firm_of_cons
    have hread := read_parenthesized hw (t ++ z)
    have happend' : '(' :: w ++ ')' :: (t ++ z) = '(' :: (w ++ [')'] ++ t ++ z) := by simp
    rw [happend'] at hread
    rw [hread]
    refine alike_some w ⟨rfl, ?_⟩
    simp only [List.length_append] at hl
    omega
  | none =>
    cases h' : parenthesized.read s' with
    | none => exact alike_none
    | some p =>
      obtain ⟨w, t'⟩ := p
      obtain ⟨u, hu, hw, rfl⟩ := consumes_parenthesized _ _ _ h'
      have hsplit : s' = ('(' :: w) ++ ')' :: t' := by rw [hu]; simp
      obtain ⟨rfl | ⟨rfl, rfl⟩, -⟩ := hs
      · rcases List.append_eq_append_iff.mp hsplit with ⟨v, hv, hz⟩ | ⟨v, hv, hz⟩
        · exact absurd (by rw [hz]; simp) hz'.1
        · cases v with
          | nil => exact absurd (by rw [← List.nil_append z, ← hz]; simp) hz'.1
          | cons c v =>
            obtain rfl : ')' = c := (List.cons.inj hz).1
            rw [hv, read_parenthesized hw] at h
            cases h
      · exact absurd (by rw [hsplit]; simp) hz'.2

theorem carries_conditional : Carries (Loose z z' n) (Firm z n) conditional conditional :=
  (carries_keyword hz "if").loose.bind fun _ => (carries_trivia hz).bind fun _ =>
    (carries_parenthesized hz).bind fun _ => carries_pure _

/-! ### Values -/

/-- The text up to three quotes, with the quotes. -/
def fencedText : Rule (List Char) := do
  let raw ← fenced
  fence
  return raw

theorem splitFence_append (s : List Char) :
    (∃ t, (splitFence s).2 = '"' :: '"' :: '"' :: t ∧
        splitFence (s ++ z) = ((splitFence s).1, (splitFence s).2 ++ z)) ∨
      (splitFence s).2 = [] ∧ (splitFence (s ++ z)).2 = [] := by
  fun_induction splitFence s with
  | case1 => exact .inr ⟨rfl, by cases hz <;> rfl⟩
  | case2 s => exact .inl ⟨s, rfl, rfl⟩
  | case3 c s hne taken rest he ih =>
    have hne' : ∀ t, c = '"' → s ++ z = '"' :: '"' :: t → False := by
      intro t hc ht
      rcases s with - | ⟨d, - | ⟨e, s⟩⟩
      · cases hz <;> cases ht
      · cases hz <;> cases ht
      · simp only [List.cons_append, List.cons.injEq] at ht
        exact hne s hc (by rw [ht.1, ht.2.1])
    have hcons : splitFence (c :: (s ++ z)) =
        (c :: (splitFence (s ++ z)).1, (splitFence (s ++ z)).2) := by
      rw [splitFence]
      exact hne'
    rw [he] at ih
    rw [List.cons_append, hcons]
    rcases ih with ⟨t, ht, happend⟩ | ⟨ht, happend⟩
    · exact .inl ⟨t, ht, by rw [happend]⟩
    · exact .inr ⟨ht, happend⟩

theorem carries_fencedText : Carries (Firm z n) (Firm z n) fencedText fencedText := by
  rintro s s' ⟨rfl, hl⟩
  have hread : ∀ t, fencedText.read t =
      (fence.read (splitFence t).2).map fun p => ((splitFence t).1, p.2) := by
    intro t
    have hfenced : fenced.read t = some (splitFence t) := rfl
    unfold fencedText
    rw [read_bind, hfenced, Option.bind_some, read_bind]
    cases fence.read (splitFence t).2 <;> rfl
  rw [hread, hread]
  rcases splitFence_append hz s with ⟨t, ht, happend⟩ | ⟨ht, happend⟩
  · have hlen : t.length < n := by
      have hle := congrArg List.length (splitFence_append_eq s)
      simp only [ht, List.length_append, List.length_cons] at hle
      omega
    rw [happend, ht]
    exact alike_some _ ⟨rfl, hlen⟩
  · rw [ht, happend]
    exact alike_none

theorem carries_xmlBlock : Carries (Loose z z' n) (Firm z n) xmlBlock xmlBlock :=
  Carries.select ((carries_keyword hz "xml").loose.bind fun _ => (carries_trivia hz).bind fun _ =>
    (carries_exactly hz (by decide) (by decide)).bind fun _ => carries_fencedText hz) _

theorem carries_patternValue (k : String) (build : String → Bool → Value) :
    Carries (Loose z z' n) (Firm z n) (patternValue k build) (patternValue k build) :=
  ((carries_symbol hz (by decide)).lower.loose.optional fun _ _ h => h).bind fun _ =>
    (carries_keyword hz k).loose.bind fun _ => (carries_trivia hz).bind fun _ =>
      (carries_quoted hz).bind fun _ => carries_pure _

theorem carries_noneValue : Carries (Loose z z' n) (Firm z n) noneValue noneValue :=
  ((carries_bareWord hz).keep _).map _

omit hz in
theorem takes_arrayItem {m : Nat} {item : Rule Value} (h : Takes m item) :
    Takes m (arrayItem item) :=
  h.before fun _ => takes_trivia.before fun _ =>
    ((((takes_symbol ',').before fun _ => takes_trivia).mono (Nat.zero_le 1)).optional.map
      fun _ => ()).before fun _ => takes_pure _

section Nested
variable {inner inner' : Rule Value} (hi : Carries (Loose z z' n) (Loose z z' n) inner inner')
include hi

theorem carries_arrayItem :
    Carries (Loose z z' n) (Loose z z' n) (arrayItem inner) (arrayItem inner') :=
  hi.bind fun _ => (carries_trivia hz).bind fun _ =>
    (((carries_symbol hz (by decide)).lower.loose.bind fun _ => carries_trivia hz).optional
      fun _ _ h => h).discard.bind fun _ => carries_pure _

variable (ht : Takes 1 inner) (ht' : Takes 1 inner')

include ht ht' in
theorem carries_arrayOf :
    Carries (Loose z z' (n + 1)) (Loose z z' n) (arrayOf inner) (arrayOf inner') :=
  (carries_symbol hz (by decide)).loose.bind fun _ => (carries_trivia hz).bind fun _ =>
    Carries.bind (Carries.many (carries_arrayItem hz hi) (takes_arrayItem ht) (takes_arrayItem ht'))
      fun _ => (carries_symbol hz (by decide)).lower.loose.bind fun _ => carries_pure _

theorem carries_keyed :
    Carries (Loose z z' (n + 1)) (Loose z z' (n + 1)) (keyed inner) (keyed inner') :=
  (Carries.firstOf_cons (carries_quoted hz)
    (.firstOf_cons (carries_bareWord hz) carries_firstOf_nil)).loose.bind fun _ =>
      (((carries_trivia hz).bind fun _ => (carries_symbol hz (by decide)).loose.bind fun _ =>
        (carries_trivia hz).bind fun _ => hi.raise).optional fun _ _ h => h).bind fun _ =>
          carries_pure _

include ht ht' in
theorem carries_valueStep :
    Carries (Loose z z' (n + 1)) (Loose z z' (n + 1)) (valueStep inner) (valueStep inner') :=
  .firstOf_cons (carries_xmlBlock hz).loose <|
    .firstOf_cons (carries_patternValue hz _ _).loose <|
    .firstOf_cons (carries_patternValue hz _ _).loose <|
    .firstOf_cons (carries_noneValue hz).loose <|
    .firstOf_cons ((carries_arrayOf hz hi ht ht').raise.map _) <|
    .firstOf_cons (carries_keyed hz hi) carries_firstOf_nil

end Nested

omit hz in
theorem takes_bareWord : Takes 1 bareWord := takes_barePart.many1.before fun _ => takes_pure _

omit hz in
theorem takes_fenced : Takes 0 fenced := by
  intro s a t h
  have hfenced : fenced.read s = some (splitFence s) := rfl
  rw [hfenced, Option.some.injEq] at h
  have happend := splitFence_append_eq s
  rw [h] at happend
  exact ⟨a, happend.symm, Nat.zero_le _⟩

omit hz in
theorem takes_xmlBlock : Takes 1 xmlBlock := by
  have hfence : Takes 0 fence := (takes_exactly _).mono (Nat.zero_le _)
  exact Takes.select ((takes_keyword "xml").before fun _ => takes_trivia.before fun _ =>
    hfence.before fun _ => takes_fenced.before fun _ => hfence.before fun _ => takes_pure _) _

omit hz in
theorem takes_patternValue (k : String) (build : String → Bool → Value) :
    Takes 1 (patternValue k build) :=
  ((takes_symbol '!').mono (Nat.zero_le 1)).optional.behind fun _ =>
    (takes_keyword k).before fun _ => takes_trivia.before fun _ =>
      (takes_quoted.mono (Nat.zero_le 1)).before fun _ => takes_pure _

omit hz in
theorem takes_arrayOf {item : Rule Value} (h : Takes 0 item) : Takes 1 (arrayOf item) :=
  (takes_symbol '[').before fun _ => takes_trivia.before fun _ =>
    (Takes.many (takes_arrayItem h)).before fun _ =>
      ((takes_symbol ']').mono (Nat.zero_le 1)).before fun _ => takes_pure _

omit hz in
theorem takes_valueStep {inner : Rule Value} (h : Takes 1 inner) : Takes 1 (valueStep inner) := by
  have hinner : Takes 0 inner := h.mono (Nat.zero_le 1)
  have hkeyed : Takes 1 (keyed inner) :=
    (takes_quoted.firstOf_cons (takes_bareWord.firstOf_cons takes_firstOf_nil)).before fun _ =>
      (takes_trivia.before fun _ => ((takes_symbol ':').mono (Nat.zero_le 1)).before fun _ =>
        takes_trivia.before fun _ => hinner).optional.before fun _ => takes_pure _
  exact takes_xmlBlock.firstOf_cons <| (takes_patternValue _ _).firstOf_cons <|
    (takes_patternValue _ _).firstOf_cons <| ((takes_bareWord.keep _).map _).firstOf_cons <|
    ((takes_arrayOf hinner).map _).firstOf_cons <| hkeyed.firstOf_cons takes_firstOf_nil

omit hz in
theorem takes_value : Takes 1 value :=
  fun s v t h => Takes.nestedUpTo (fun _ => takes_valueStep) s s v t h

/-- Values are read alike, each with its own text as the bound of the nesting. -/
theorem carries_value : Carries (Loose z z' n) (Loose z z' n) value value := by
  have hnested : ∀ n bound bound', n ≤ bound.length + 1 → n ≤ bound'.length + 1 →
      Carries (Loose z z' n) (Loose z z' n) (nestedUpTo valueStep bound)
        (nestedUpTo valueStep bound') :=
    related_nestedUpTo (fun _ _ s s' hs => (not_loose_zero s s' hs).elim) fun n b b' hi => by
      rw [nestedUpTo_eq, nestedUpTo_eq]
      exact carries_valueStep hz hi (Takes.innerUpTo (fun _ => takes_valueStep) b)
        (Takes.innerUpTo (fun _ => takes_valueStep) b')
  intro s s' hs
  have hle : s.length ≤ s'.length := by
    obtain ⟨rfl | ⟨rfl, -⟩, -⟩ := hs
    · rw [List.length_append]
      omega
    · exact Nat.zero_le _
  have hself := hnested (s.length + 1) s s' (Nat.le_refl _) (by omega)
  exact hself.mono (fun _ _ h => h) (fun _ _ h => h.mono hs.2) s s' ⟨hs.1, Nat.lt_succ_self _⟩

end Tail

end BuildPlan.Grammar
