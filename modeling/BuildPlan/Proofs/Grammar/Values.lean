import BuildPlan.Proofs.Grammar.Identifiers

/-! # Values as they are written

In a spelling of a value every text and key stands between quotes, and there may be any blanks
around a colon, inside brackets and behind the word for a pattern; the items of an array have blanks
or one comma between them (`Value.Spelled`). A value is read back from each of its spellings, with
anything behind it that does not make it the key of a pair (`Value.read_spelled`). One of the
spellings is the one with the items of an array one space apart (`Value.spelled_write`). Blocks of
markup have no spelling. -/

namespace BuildPlan

open BuildPlan.Grammar BuildPlan.Grammar.Rule BuildPlan.Text

namespace Value

/-! ### Writing -/

/-- The mark in front of a negated pattern. -/
def writeBang (negated : Bool) : List Char := if negated then ['!'] else []

mutual

/-- The text of a value. -/
def write : Value → List Char
  | .literal text => quote text.toList
  | .glob pattern negated =>
    writeBang negated ++ ['g', 'l', 'o', 'b'] ++ ' ' :: quote pattern.toList
  | .regex pattern negated =>
    writeBang negated ++ ['r', 'e', 'g', 'e', 'x'] ++ ' ' :: quote pattern.toList
  | .xml _ => []
  | .none => ['n', 'o', 'n', 'e']
  | .array items => '[' :: ' ' :: writeAll items ++ [']']
  | .pair key value => quote key.toList ++ ':' :: ' ' :: write value

/-- The texts of values, with a space behind each of them. -/
def writeAll : List Value → List Char
  | [] => []
  | v :: vs => write v ++ ' ' :: writeAll vs

end

mutual

/-- Holds of a value that can be written: there is no block of markup in it, and its texts can stand
between quotes. -/
def Writable : Value → Prop
  | .literal text => Quotable text.toList
  | .glob pattern _ => Quotable pattern.toList
  | .regex pattern _ => Quotable pattern.toList
  | .xml _ => False
  | .none => True
  | .array items => AllWritable items
  | .pair key value => Quotable key.toList ∧ Writable value

def AllWritable : List Value → Prop
  | [] => True
  | v :: vs => Writable v ∧ AllWritable vs

end

mutual

instance decidableWritable : ∀ v : Value, Decidable v.Writable
  | .literal text => inferInstanceAs (Decidable (Quotable text.toList))
  | .glob pattern _ => inferInstanceAs (Decidable (Quotable pattern.toList))
  | .regex pattern _ => inferInstanceAs (Decidable (Quotable pattern.toList))
  | .xml _ => isFalse id
  | .none => isTrue trivial
  | .array items => decidableAllWritable items
  | .pair _ value =>
    have := decidableWritable value
    instDecidableAnd

instance decidableAllWritable : ∀ vs : List Value, Decidable (AllWritable vs)
  | [] => isTrue trivial
  | v :: vs =>
    have := decidableWritable v
    have := decidableAllWritable vs
    instDecidableAnd

end

/-! ### Spellings -/

/-- What may stand between two items of an array: blanks, and a comma among them or not. -/
def IsSeparator (g : List Char) : Prop :=
  (g ≠ [] ∧ isBlankText g = true) ∨
    ∃ h t, isBlankText h = true ∧ isBlankText t = true ∧ g = h ++ ',' :: t

mutual

/-- The spellings of a value. -/
def Spelled : Value → List Char → Prop
  | .literal text, s => s = quote text.toList
  | .glob pattern negated, s =>
    ∃ g, isBlankText g = true ∧
      s = writeBang negated ++ (['g', 'l', 'o', 'b'] ++ (g ++ quote pattern.toList))
  | .regex pattern negated, s =>
    ∃ g, isBlankText g = true ∧
      s = writeBang negated ++ (['r', 'e', 'g', 'e', 'x'] ++ (g ++ quote pattern.toList))
  | .xml _, _ => False
  | .none, s => s = ['n', 'o', 'n', 'e']
  | .array items, s =>
    ∃ g t h, isBlankText g = true ∧ AllSpelled items t ∧ isBlankText h = true ∧
      s = '[' :: (g ++ (t ++ (h ++ [']'])))
  | .pair key value, s =>
    ∃ g h t, isBlankText g = true ∧ isBlankText h = true ∧ Spelled value t ∧
      s = quote key.toList ++ (g ++ ':' :: (h ++ t))

/-- The spellings of the items of an array. A separator may stand behind the last one, too. -/
def AllSpelled : List Value → List Char → Prop
  | [], s => s = []
  | v :: vs, s =>
    ∃ t g u, Spelled v t ∧ (IsSeparator g ∨ g = [] ∧ vs = []) ∧ AllSpelled vs u ∧ s = t ++ (g ++ u)

end

/-- What may stand behind a value: it does not go on with a bare word, and is no colon. -/
def Ends (s : List Char) : Prop := Stops isLexical s ∧ (skipTrivia s).head? ≠ some ':'

mutual

/-- What is written is one of the spellings. -/
theorem spelled_write : ∀ {v : Value}, v.Writable → v.Spelled v.write
  | .literal _, _ => rfl
  | .glob _ _, _ => ⟨[' '], rfl, by simp [write]⟩
  | .regex _ _, _ => ⟨[' '], rfl, by simp [write]⟩
  | .xml _, hv => hv.elim
  | .none, _ => rfl
  | .array vs, hv => ⟨[' '], writeAll vs, [], rfl, allSpelled_writeAll hv, rfl, by simp [write]⟩
  | .pair _ v, hv => ⟨[], [' '], v.write, rfl, rfl, spelled_write hv.2, by simp [write]⟩

theorem allSpelled_writeAll : ∀ {vs : List Value}, AllWritable vs → AllSpelled vs (writeAll vs)
  | [], _ => rfl
  | v :: vs, hvs =>
    ⟨v.write, [' '], writeAll vs, spelled_write hvs.1, .inl (.inl ⟨by simp, rfl⟩),
      allSpelled_writeAll hvs.2, rfl⟩

end

end Value

namespace Grammar

/-! ### Blocks of markup -/

theorem splitFence_append_eq (s : List Char) : (splitFence s).1 ++ (splitFence s).2 = s := by
  fun_induction splitFence s with
  | case1 => rfl
  | case2 => rfl
  | case3 c s _ taken rest he ih =>
    rw [he] at ih
    rw [List.cons_append, ih]

/-! ### Alternatives that do not apply -/

section Alternatives
variable {s : List Char}

theorem read_xmlBlock_eq_none (h : (keyword "xml").read s = none) : xmlBlock.read s = none := by
  unfold xmlBlock
  rw [read_select, read_bind, h]
  rfl

theorem read_patternValue_eq_none {k : String} (build : String → Bool → Value)
    (hs : s.head? ≠ some '!') (h : (keyword k).read s = none) :
    (patternValue k build).read s = none := by
  unfold patternValue
  rw [read_bind, read_optional, read_symbol_eq_none hs, Option.map_none, Option.none_or,
    Option.bind_some, read_bind, h]
  rfl

theorem read_patternValue_bang_eq_none {k : String} (build : String → Bool → Value)
    (h : (keyword k).read s = none) : (patternValue k build).read ('!' :: s) = none := by
  unfold patternValue
  rw [read_bind, read_optional, read_symbol_cons, if_pos rfl, Option.map_some, Option.some_or,
    Option.bind_some, read_bind, h]
  rfl

theorem read_noneValue_eq_none (hs : Stops isLexical s) : noneValue.read s = none := by
  unfold noneValue
  rw [read_map, read_keep, read_bareWord_eq_none hs]
  rfl

theorem read_arrayOf_eq_none (item : Rule Value) (hs : s.head? ≠ some '[') :
    (arrayOf item).read s = none := by
  unfold arrayOf
  rw [read_bind, read_symbol_eq_none hs]
  rfl

theorem read_keyed_eq_none (inner : Rule Value) (hq : s.head? ≠ some '"') (hs : Stops isLexical s) :
    (keyed inner).read s = none := by
  unfold keyed
  rw [read_bind, read_firstOf_cons, read_firstOf_cons, read_quoted_eq_none hq,
    read_bareWord_eq_none hs]
  rfl

end Alternatives

/-! ### Alternatives that apply -/

/-- Blanks and then a quoted text, as they stand behind the word for a pattern. -/
theorem stops_blanks_quote {g : List Char} (hg : isBlankText g = true) (p s : List Char) :
    Stops isWordChar (g ++ (quote p ++ s)) :=
  (stops_blanks (fun _ => id) hg (stops_cons.mpr (by decide))).isWordChar

section Pattern
variable {w g p : List Char} (hw : IsWord w) (hg : isBlankText g = true)

include hw hg in
theorem read_patternValue (hp : Quotable p) (build : String → Bool → Value) (negated : Bool)
    (s : List Char) :
    (patternValue (String.ofList w) build).read
        (Value.writeBang negated ++ (w ++ (g ++ (quote p ++ s)))) =
      some (build (String.ofList p) negated, s) := by
  have hk : (keyword (String.ofList w)).read (w ++ (g ++ (quote p ++ s))) =
      some ((), g ++ (quote p ++ s)) := by
    rw [read_keyword hw (stops_blanks_quote hg p s), if_pos rfl]
  have ht : skipTrivia (g ++ (quote p ++ s)) = quote p ++ s := by
    rw [skipTrivia_blanks hg, quote, List.cons_append, List.cons_append,
      skipTrivia_cons (by decide) (by decide)]
  have hb : (optional (symbol '!')).read
      (Value.writeBang negated ++ (w ++ (g ++ (quote p ++ s)))) =
        some (if negated then some () else none, w ++ (g ++ (quote p ++ s))) := by
    rw [read_optional]
    cases negated with
    | true => rfl
    | false =>
      cases w with
      | nil => exact hw.elim
      | cons c w =>
        have hc : c ≠ '!' := by
          rintro rfl
          cases hw.1
        simp [Value.writeBang, read_symbol_cons, hc]
  unfold patternValue
  rw [read_bind, hb, Option.bind_some, read_bind, hk, Option.bind_some, read_bind, read_trivia,
    Option.bind_some, ht, read_bind, read_quoted hp]
  cases negated <;> rfl

include hw hg in
theorem read_keyword_bang_eq_none {k : String} (hk : String.ofList w ≠ k) (negated : Bool)
    (s : List Char) :
    (keyword k).read (Value.writeBang negated ++ (w ++ (g ++ (quote p ++ s)))) = none := by
  cases negated with
  | true => exact read_keyword_eq_none (stops_cons.mpr (by decide)) k
  | false =>
    refine (read_keyword hw (stops_blanks_quote hg p s) k).trans ?_
    rw [if_neg hk]

include hw hg in
theorem read_patternValue_other {k : String} (hk : String.ofList w ≠ k)
    (build : String → Bool → Value) (negated : Bool) (s : List Char) :
    (patternValue k build).read (Value.writeBang negated ++ (w ++ (g ++ (quote p ++ s)))) =
      none := by
  have h := read_keyword_bang_eq_none (p := p) hw hg hk false s
  cases negated with
  | true => exact read_patternValue_bang_eq_none build h
  | false =>
    refine read_patternValue_eq_none build ?_ h
    cases w with
    | nil => exact hw.elim
    | cons c w =>
      intro hc
      obtain rfl : c = '!' := Option.some.inj hc
      cases hw.1

end Pattern

theorem read_noneValue {s : List Char} (hs : Stops isLexical s) :
    noneValue.read (['n', 'o', 'n', 'e'] ++ s) = some (.none, s) := by
  have hw : IsIdentifier ['n', 'o', 'n', 'e'] :=
    .word (by decide) (.char (by decide) (.char (by decide) (.char (by decide) .nil)))
  unfold noneValue
  rw [read_map, read_keep, read_bareWord hw hs]
  rfl

section Keyed
variable {k s : List Char} (hk : Quotable k)
include hk

theorem read_keyed_literal (inner : Rule Value) (hs : (skipTrivia s).head? ≠ some ':') :
    (keyed inner).read (quote k ++ s) = some (.literal (String.ofList k), s) := by
  unfold keyed
  rw [read_bind, read_firstOf_cons, read_quoted hk, Option.some_or, Option.bind_some, read_bind,
    read_optional, read_bind, read_trivia, Option.bind_some, read_bind, read_symbol_eq_none hs]
  rfl

theorem read_keyed_pair {inner : Rule Value} {g : List Char} (hg : isBlankText g = true) {v : Value}
    {t : List Char} (hv : inner.read (skipTrivia s) = some (v, t)) :
    (keyed inner).read (quote k ++ (g ++ ':' :: s)) = some (.pair (String.ofList k) v, t) := by
  unfold keyed
  rw [read_bind, read_firstOf_cons, read_quoted hk, Option.some_or, Option.bind_some, read_bind,
    read_optional, read_bind, read_trivia, Option.bind_some, skipTrivia_blanks hg,
    skipTrivia_cons (by decide) (by decide), read_bind, read_symbol_cons, if_pos rfl,
    Option.bind_some, read_bind, read_trivia, Option.bind_some, hv]
  rfl

end Keyed

/-- One item of an array with what stands behind it. -/
def arrayItem (item : Rule Value) : Rule Value := do
  let v ← item
  trivia
  discard (optional do
    symbol ','
    trivia)
  return v

/-- Behind an item that has no comma behind it. -/
theorem read_arrayItem {item : Rule Value} {s t : List Char} {v : Value}
    (h : item.read s = some (v, t)) (ht : (skipTrivia t).head? ≠ some ',') :
    (arrayItem item).read s = some (v, skipTrivia t) := by
  unfold arrayItem
  rw [read_bind, h, Option.bind_some, read_bind, read_trivia, Option.bind_some, read_bind,
    read_discard, read_optional, read_bind, read_symbol_eq_none ht]
  rfl

/-- Behind an item and the comma behind it. -/
theorem read_arrayItem_comma {item : Rule Value} {s t u : List Char} {v : Value}
    (h : item.read s = some (v, t)) (ht : skipTrivia t = ',' :: u) :
    (arrayItem item).read s = some (v, skipTrivia u) := by
  unfold arrayItem
  rw [read_bind, h, Option.bind_some, read_bind, read_trivia, Option.bind_some, ht, read_bind,
    read_discard, read_optional, read_bind, read_symbol_cons, if_pos rfl, Option.bind_some,
    read_trivia]
  rfl

theorem read_arrayOf {item : Rule Value} {s t : List Char} {vs : List Value}
    (h : Repeats (arrayItem item) (skipTrivia s) vs (']' :: t)) :
    (arrayOf item).read ('[' :: s) = some (vs, t) := by
  unfold arrayOf
  rw [read_bind, read_symbol_cons, if_pos rfl, Option.bind_some, read_bind, read_trivia,
    Option.bind_some, read_bind]
  have hm := h.read_many
  unfold arrayItem at hm
  rw [hm]
  rfl

/-! ### One level of a value -/

theorem read_valueStep_quote (inner : Rule Value) (s : List Char) :
    (valueStep inner).read ('"' :: s) = (keyed inner).read ('"' :: s) := by
  have hw : ∀ k, (keyword k).read ('"' :: s) = none :=
    read_keyword_eq_none (stops_cons.mpr (by decide))
  unfold valueStep
  rw [read_firstOf_cons, read_firstOf_cons, read_firstOf_cons, read_firstOf_cons, read_firstOf_cons,
    read_map, read_xmlBlock_eq_none (hw _), read_patternValue_eq_none _ (by simp) (hw _),
    read_patternValue_eq_none _ (by simp) (hw _),
    read_noneValue_eq_none (stops_cons.mpr (by decide)), read_arrayOf_eq_none _ (by simp)]
  rfl

theorem read_valueStep_glob (inner : Rule Value) {g p : List Char} (hg : isBlankText g = true)
    (hp : Quotable p) (negated : Bool) (s : List Char) :
    (valueStep inner).read
        (Value.writeBang negated ++ (['g', 'l', 'o', 'b'] ++ (g ++ (quote p ++ s)))) =
      some (.glob (String.ofList p) negated, s) := by
  have hw : IsWord ['g', 'l', 'o', 'b'] := by decide
  have hx := read_keyword_bang_eq_none (p := p) hw hg (k := "xml") (by decide) negated s
  unfold valueStep
  rw [read_firstOf_cons, read_firstOf_cons, read_xmlBlock_eq_none hx]
  exact congrArg (fun r => Option.or none (Option.or r _))
    (read_patternValue hw hg hp .glob negated s)

theorem read_valueStep_regex (inner : Rule Value) {g p : List Char} (hg : isBlankText g = true)
    (hp : Quotable p) (negated : Bool) (s : List Char) :
    (valueStep inner).read
        (Value.writeBang negated ++ (['r', 'e', 'g', 'e', 'x'] ++ (g ++ (quote p ++ s)))) =
      some (.regex (String.ofList p) negated, s) := by
  have hw : IsWord ['r', 'e', 'g', 'e', 'x'] := by decide
  have hx := read_keyword_bang_eq_none (p := p) hw hg (k := "xml") (by decide) negated s
  have hother := read_patternValue_other (p := p) hw hg (k := "glob") (by decide) .glob negated s
  unfold valueStep
  rw [read_firstOf_cons, read_firstOf_cons, read_firstOf_cons, read_xmlBlock_eq_none hx, hother]
  exact congrArg (fun r => Option.or none (Option.or none (Option.or r _)))
    (read_patternValue hw hg hp .regex negated s)

theorem read_valueStep_none (inner : Rule Value) {s : List Char} (hs : Stops isLexical s) :
    (valueStep inner).read (['n', 'o', 'n', 'e'] ++ s) = some (.none, s) := by
  have hk : ∀ k, "none" ≠ k → (keyword k).read (['n', 'o', 'n', 'e'] ++ s) = none := by
    intro k hk
    refine (read_keyword (by decide) hs.isWordChar k).trans ?_
    rw [if_neg hk]
  unfold valueStep
  rw [read_firstOf_cons, read_firstOf_cons, read_firstOf_cons, read_firstOf_cons,
    read_xmlBlock_eq_none (hk _ (by decide)),
    read_patternValue_eq_none _ (by simp) (hk _ (by decide)),
    read_patternValue_eq_none _ (by simp) (hk _ (by decide)), read_noneValue hs]
  rfl

theorem read_valueStep_bracket (inner : Rule Value) (s : List Char) :
    (valueStep inner).read ('[' :: s) =
      ((arrayOf inner).read ('[' :: s)).map fun p => (.array p.1, p.2) := by
  have hw : ∀ k, (keyword k).read ('[' :: s) = none :=
    read_keyword_eq_none (stops_cons.mpr (by decide))
  unfold valueStep
  rw [read_firstOf_cons, read_firstOf_cons, read_firstOf_cons, read_firstOf_cons, read_firstOf_cons,
    read_map, read_firstOf_cons, read_xmlBlock_eq_none (hw _),
    read_patternValue_eq_none _ (by simp) (hw _), read_patternValue_eq_none _ (by simp) (hw _),
    read_noneValue_eq_none (stops_cons.mpr (by decide)),
    read_keyed_eq_none _ (by simp) (stops_cons.mpr (by decide))]
  simp

/-- A bracket that closes an array is no value. -/
theorem read_nestedUpTo_valueStep_eq_none (bound s : List Char) :
    (nestedUpTo valueStep bound).read (']' :: s) = none := by
  have hw : ∀ k, (keyword k).read (']' :: s) = none :=
    read_keyword_eq_none (stops_cons.mpr (by decide))
  have hstep : ∀ inner, (valueStep inner).read (']' :: s) = none := by
    intro inner
    unfold valueStep
    rw [read_firstOf_cons, read_firstOf_cons, read_firstOf_cons, read_firstOf_cons,
      read_firstOf_cons, read_map, read_firstOf_cons, read_xmlBlock_eq_none (hw _),
      read_patternValue_eq_none _ (by simp) (hw _), read_patternValue_eq_none _ (by simp) (hw _),
      read_noneValue_eq_none (stops_cons.mpr (by decide)), read_arrayOf_eq_none _ (by simp),
      read_keyed_eq_none _ (by simp) (stops_cons.mpr (by decide))]
    rfl
  cases bound with
  | nil => exact hstep _
  | cons c bound => exact hstep _

end Grammar

namespace Value

/-! ### Reading back -/

/-- A spelling begins with a character that is not skipped and that separates nothing. -/
def Opens (s : List Char) : Prop :=
  ∃ c t, s = c :: t ∧ isBlank c = false ∧ c ≠ '/' ∧ c ≠ ':' ∧ c ≠ ','

theorem Opens.append {s : List Char} (h : Opens s) (t : List Char) : Opens (s ++ t) := by
  obtain ⟨c, u, rfl, hc⟩ := h
  exact ⟨c, u ++ t, rfl, hc⟩

theorem Opens.skipTrivia_eq {s : List Char} (h : Opens s) : skipTrivia s = s := by
  obtain ⟨c, t, rfl, hb, hc, -⟩ := h
  exact skipTrivia_cons hb hc t

theorem Opens.head?_ne {s : List Char} (h : Opens s) {c : Char} (hc : c = ':' ∨ c = ',') :
    s.head? ≠ some c := by
  obtain ⟨d, t, rfl, -, -, hcolon, hcomma⟩ := h
  rcases hc with rfl | rfl
  · simpa using hcolon
  · simpa using hcomma

theorem Spelled.opens : ∀ {v : Value} {s : List Char}, v.Spelled s → Opens s
  | .literal _, _, h => by rw [h]; exact ⟨'"', _, rfl, by decide⟩
  | .glob _ negated, _, ⟨_, _, h⟩ => by rw [h]; cases negated <;> exact ⟨_, _, rfl, by decide⟩
  | .regex _ negated, _, ⟨_, _, h⟩ => by rw [h]; cases negated <;> exact ⟨_, _, rfl, by decide⟩
  | .none, _, h => by rw [h]; exact ⟨'n', _, rfl, by decide⟩
  | .array _, _, ⟨_, _, _, _, _, _, h⟩ => by rw [h]; exact ⟨'[', _, rfl, by decide⟩
  | .pair _ _, _, ⟨_, _, _, _, _, _, h⟩ => by rw [h]; exact ⟨'"', _, rfl, by decide⟩

theorem opens_write {v : Value} (hv : v.Writable) : Opens v.write := (spelled_write hv).opens

theorem allWritable_iff : ∀ {vs : List Value}, AllWritable vs ↔ ∀ v ∈ vs, v.Writable
  | [] => by simp [AllWritable]
  | v :: vs => by rw [AllWritable, allWritable_iff, List.forall_mem_cons]

/-- The closing bracket of an array with any blanks in front of it. -/
theorem skipTrivia_closing {h : List Char} (hh : isBlankText h = true) (s : List Char) :
    skipTrivia (h ++ ']' :: s) = ']' :: s := by
  rw [skipTrivia_blanks hh, skipTrivia_cons (by decide) (by decide)]

section Items
variable {vs : List Value} {t h : List Char} (ht : AllSpelled vs t) (hh : isBlankText h = true)
  (s : List Char)

include ht hh in
theorem opens_items : Opens (skipTrivia (t ++ (h ++ ']' :: s))) := by
  cases vs with
  | nil =>
    rw [show t = [] from ht, List.nil_append, skipTrivia_closing hh]
    exact ⟨']', s, rfl, by decide⟩
  | cons v vs =>
    obtain ⟨u, g, w, hu, -, -, rfl⟩ := ht
    rw [List.append_assoc, (hu.opens.append _).skipTrivia_eq]
    exact hu.opens.append _

include ht hh in
/-- What stands behind an item of an array with other items behind it. -/
theorem ends_item {g : List Char} (hg : IsSeparator g ∨ g = [] ∧ vs = []) :
    Ends (g ++ (t ++ (h ++ ']' :: s))) := by
  have ho := opens_items ht hh s
  rcases hg with (⟨hne, hg⟩ | ⟨l, r, hl, -, rfl⟩) | ⟨rfl, rfl⟩
  · refine ⟨?_, by rw [skipTrivia_blanks hg]; exact ho.head?_ne (.inl rfl)⟩
    obtain ⟨c, g, rfl⟩ := List.exists_cons_of_ne_nil hne
    have hc : isBlank c = true := List.all_eq_true.mp hg c (by simp)
    refine stops_cons.mpr ?_
    rw [← Bool.not_eq_true]
    intro hx
    rw [isBlank_eq_false_of_isLexical hx] at hc
    cases hc
  · rw [List.append_assoc]
    refine ⟨stops_blanks (fun _ => id) hl (stops_cons.mpr (by decide)), ?_⟩
    rw [skipTrivia_blanks hl, List.cons_append, skipTrivia_cons (by decide) (by decide)]
    simp
  · have hs : Stops isLexical (h ++ ']' :: s) :=
      stops_blanks (fun _ => id) hh (stops_cons.mpr (by decide))
    rw [show t = [] from ht] at ho ⊢
    exact ⟨hs, ho.head?_ne (.inl rfl)⟩

include ht hh in
/-- An item of an array is read with the separator behind it. -/
theorem read_arrayItem_separator {item : Rule Value} {u g : List Char} {v : Value}
    (hg : IsSeparator g ∨ g = [] ∧ vs = [])
    (hv : item.read u = some (v, g ++ (t ++ (h ++ ']' :: s)))) :
    (arrayItem item).read u = some (v, skipTrivia (t ++ (h ++ ']' :: s))) := by
  have ho := opens_items ht hh s
  rcases hg with (⟨-, hg⟩ | ⟨l, r, hl, hr, rfl⟩) | ⟨rfl, -⟩
  · have hskip := skipTrivia_blanks hg (t ++ (h ++ ']' :: s))
    rw [← hskip] at ho ⊢
    exact read_arrayItem hv (ho.head?_ne (.inr rfl))
  · rw [← skipTrivia_blanks hr]
    refine read_arrayItem_comma hv ?_
    rw [List.append_assoc, skipTrivia_blanks hl, List.cons_append,
      skipTrivia_cons (by decide) (by decide)]
  · exact read_arrayItem hv (ho.head?_ne (.inr rfl))

end Items

/-- Items are read back one after another if each of them is. -/
theorem repeats_items {item : Rule Value} : ∀ {vs : List Value} {t h : List Char},
    AllSpelled vs t → isBlankText h = true → ∀ s : List Char,
    (∀ v ∈ vs, ∀ u w, Spelled v u → u.length ≤ t.length → Ends w →
      item.read (u ++ w) = some (v, w)) →
    item.read (']' :: s) = Option.none →
    Repeats (arrayItem item) (skipTrivia (t ++ (h ++ ']' :: s))) vs (']' :: s)
  | [], _, _, ht, hh, s, _, hn => by
    rw [show _ = [] from ht, List.nil_append, skipTrivia_closing hh]
    refine .stop ?_
    unfold arrayItem
    rw [read_bind, hn]
    rfl
  | v :: vs, _, h, ⟨t, g, u, ht, hg, hu, he⟩, hh, s, hv, hn => by
    have hr := hv v (by simp) t (g ++ (u ++ (h ++ ']' :: s))) ht
      (by rw [he, List.length_append]; omega) (ends_item hu hh s hg)
    have hskip : skipTrivia (t ++ (g ++ (u ++ (h ++ ']' :: s)))) =
        t ++ (g ++ (u ++ (h ++ ']' :: s))) :=
      (ht.opens.append _).skipTrivia_eq
    have hlen : u.length ≤ (t ++ (g ++ u)).length := by
      simp only [List.length_append]
      omega
    rw [he, List.append_assoc, List.append_assoc, hskip]
    refine .step (read_arrayItem_separator hu hh s hg hr) ?_
      (repeats_items hu hh s (fun v' hv' u' w hu' hl hw =>
        hv v' (by simp [hv']) u' w hu' (by rw [he]; omega) hw) hn)
    obtain ⟨c, t, rfl, -⟩ := ht.opens
    have hle := length_skipTrivia_le (u ++ (h ++ ']' :: s))
    simp only [List.length_append, List.length_cons] at hle ⊢
    omega

theorem read_arrayOf_items {item : Rule Value} {vs : List Value} {g t h : List Char}
    (hg : isBlankText g = true) (ht : AllSpelled vs t) (hh : isBlankText h = true) (s : List Char)
    (hv : ∀ v ∈ vs, ∀ u w, Spelled v u → u.length ≤ t.length → Ends w →
      item.read (u ++ w) = some (v, w))
    (hn : item.read (']' :: s) = Option.none) :
    (arrayOf item).read ('[' :: (g ++ (t ++ (h ++ ']' :: s)))) = some (vs, s) := by
  refine read_arrayOf ?_
  rw [skipTrivia_blanks hg]
  exact repeats_items ht hh s hv hn

mutual

/-- **A value is read back from each of its spellings**, whatever stands behind it. -/
theorem read_spelled : ∀ (v : Value), v.Writable → ∀ (t bound s : List Char), v.Spelled t →
    t.length ≤ bound.length → Ends s →
      (nestedUpTo valueStep bound).read (t ++ s) = some (v, s)
  | _, _, t, [], _, ht, hb, _ => by
    obtain ⟨c, u, rfl, -⟩ := ht.opens
    cases hb
  | .literal text, hv, _, _ :: bound, s, ht, _, hs => by
    have hk := read_keyed_literal hv (nestedUpTo valueStep bound) hs.2
    rw [String.ofList_toList] at hk
    rw [show _ = quote text.toList from ht]
    exact (read_valueStep_quote _ _).trans hk
  | .glob pattern negated, hv, _, _ :: bound, s, ⟨g, hg, he⟩, _, _ => by
    have hr := read_valueStep_glob (nestedUpTo valueStep bound) hg hv negated s
    rw [String.ofList_toList] at hr
    rw [he]
    simp only [List.append_assoc]
    exact hr
  | .regex pattern negated, hv, _, _ :: bound, s, ⟨g, hg, he⟩, _, _ => by
    have hr := read_valueStep_regex (nestedUpTo valueStep bound) hg hv negated s
    rw [String.ofList_toList] at hr
    rw [he]
    simp only [List.append_assoc]
    exact hr
  | .xml _, hv, _, _, _, _, _, _ => hv.elim
  | .none, _, _, _ :: bound, s, ht, _, hs => by
    rw [show _ = ['n', 'o', 'n', 'e'] from ht]
    exact read_valueStep_none (nestedUpTo valueStep bound) hs.1
  | .array vs, hv, _, _ :: bound, s, ⟨g, t, h, hg, ht, hh, he⟩, hb, _ => by
    have hl : t.length ≤ bound.length := by
      rw [he] at hb
      simp only [List.length_append, List.length_cons, List.length_nil] at hb
      omega
    have hr := read_arrayOf_items hg ht hh s (fun v hm u w hu hlu hw =>
      read_allSpelled vs hv v hm u bound w hu (by omega) hw)
      (read_nestedUpTo_valueStep_eq_none bound s)
    have happend : '[' :: (g ++ (t ++ (h ++ [']']))) ++ s =
        '[' :: (g ++ (t ++ (h ++ ']' :: s))) := by simp
    rw [he, happend]
    refine (read_valueStep_bracket _ _).trans ?_
    rw [hr]
    rfl
  | .pair key v, hv, _, _ :: bound, s, ⟨g, h, t, hg, hh, ht, he⟩, hb, hs => by
    have hl : t.length ≤ bound.length := by
      rw [he] at hb
      simp only [List.length_append, List.length_cons] at hb
      omega
    have hskip : skipTrivia (h ++ (t ++ s)) = t ++ s := by
      rw [skipTrivia_blanks hh, (ht.opens.append s).skipTrivia_eq]
    have hr := read_spelled v hv.2 t bound s ht hl hs
    have hk := read_keyed_pair hv.1 hg (hskip ▸ hr)
    rw [String.ofList_toList] at hk
    have happend : quote key.toList ++ (g ++ ':' :: (h ++ t)) ++ s =
        quote key.toList ++ (g ++ ':' :: (h ++ (t ++ s))) := by simp
    rw [he, happend]
    exact (read_valueStep_quote _ _).trans hk

theorem read_allSpelled : ∀ (vs : List Value), AllWritable vs → ∀ v ∈ vs,
    ∀ (t bound s : List Char), v.Spelled t → t.length ≤ bound.length → Ends s →
      (nestedUpTo valueStep bound).read (t ++ s) = some (v, s)
  | [], _ => by simp
  | v :: vs, hvs => by
    intro u hu
    rcases List.mem_cons.mp hu with h | hu
    · rw [h]
      exact read_spelled v hvs.1
    · exact read_allSpelled vs hvs.2 u hu

end

theorem read_value_spelled {v : Value} (hv : v.Writable) {t s : List Char} (ht : v.Spelled t)
    (hs : Ends s) : value.read (t ++ s) = some (v, s) :=
  read_spelled v hv t _ s ht (by rw [List.length_append]; omega) hs

theorem read_value {v : Value} (hv : v.Writable) {s : List Char} (hs : Ends s) :
    value.read (v.write ++ s) = some (v, s) :=
  read_value_spelled hv (spelled_write hv) hs

/-- An array behind the name of a property. -/
theorem read_array {vs : List Value} (hvs : AllWritable vs) (s : List Char) :
    (arrayOf value).read ((array vs).write ++ s) = some (vs, s) := by
  have happend : (array vs).write ++ s = '[' :: ([' '] ++ (writeAll vs ++ ([] ++ ']' :: s))) := by
    simp [write]
  rw [happend]
  exact read_arrayOf_items rfl (allSpelled_writeAll hvs) rfl s
    (fun v hv _ _ hu _ hw => read_value_spelled (allWritable_iff.mp hvs v hv) hu hw)
    (read_nestedUpTo_valueStep_eq_none _ s)

end Value

end BuildPlan
