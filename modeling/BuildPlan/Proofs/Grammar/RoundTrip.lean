import BuildPlan.Proofs.Grammar.Consuming
import BuildPlan.Proofs.Grammar.Fragments

/-! # Values that are printed and read again

A value is read from each of its spellings with any blanks around it, and a value that was read from
any text at all can be spelled, if there is no block of markup in it (`Value.parse_spelled`). The
second part is about the texts in it: what stands between quotes has no end of a line in it and does
not end with a backslash, since that would have escaped the quote, and a bare word ends with a
character of its own or with the parenthesis of a reference. -/

namespace BuildPlan

open BuildPlan.Grammar BuildPlan.Grammar.Rule BuildPlan.Text

namespace Grammar

/-! ### Texts that can stand between quotes -/

theorem quotable_nil : Quotable [] := ⟨nofun, nofun⟩

theorem Quotable.append {s t : List Char} (hs : Quotable s) (ht : Quotable t) :
    Quotable (s ++ t) := by
  refine ⟨fun h => (List.mem_append.mp h).elim hs.1 ht.1, ?_⟩
  rw [List.getLast?_append]
  intro h
  rcases Option.or_eq_some_iff.mp h with h | ⟨-, h⟩
  · exact ht.2 h
  · exact hs.2 h

/-- In front of a text that is not empty there may be a backslash. -/
theorem Quotable.cons {c : Char} {s : List Char} (hc : c ≠ '\n') (hne : s ≠ []) (hs : Quotable s) :
    Quotable (c :: s) := by
  refine ⟨fun h => (List.mem_cons.mp h).elim (fun h => hc h.symm) hs.1, ?_⟩
  obtain ⟨d, t, rfl⟩ := List.exists_cons_of_ne_nil hne
  rw [List.getLast?_cons_cons]
  exact hs.2

theorem quotable_flatten : ∀ {parts : List (List Char)}, (∀ p ∈ parts, Quotable p) →
    Quotable parts.flatten
  | [], _ => quotable_nil
  | p :: parts, h => by
    rw [List.forall_mem_cons] at h
    exact h.1.append (quotable_flatten h.2)

theorem quotable_of_forall {s : List Char} (hs : ∀ c ∈ s, c ≠ '\n' ∧ c ≠ '\\') : Quotable s :=
  ⟨fun h => (hs _ h).1 rfl, fun h => (hs _ (List.mem_of_getLast? h)).2 rfl⟩

/-! ### Bare words -/

theorem IsReference.quotable {v : List Char} (hv : IsReference v) : Quotable v := by
  have hname : ∀ n : List Char, (∀ c ∈ n, isReferenceChar c = true) → '\n' ∉ n := by
    intro n hn h
    have hc := hn _ h
    revert hc
    decide
  cases hv with
  | plain hn => exact ⟨by simp [hname _ hn], by rw [List.getLast?_concat]; decide⟩
  | escaped hn => exact ⟨by simp [hname _ hn], by rw [List.getLast?_concat]; decide⟩

theorem isBareChar_of_mem_splitBare (s : List Char) :
    ∀ c ∈ (splitBare s).1, isBareChar c = true := by
  fun_induction splitBare s with
  | case1 => exact List.forall_mem_nil _
  | case2 => exact List.forall_mem_nil _
  | case3 c s _ hc taken rest he ih =>
    rw [he] at ih
    exact List.forall_mem_cons.mpr ⟨hc, ih⟩
  | case4 => exact List.forall_mem_nil _

theorem yields_bareRun : Yields bareRun Quotable := by
  intro s a t h
  have hchars := isBareChar_of_mem_splitBare s
  rw [(split_of_read_bareRun h).1] at hchars
  refine quotable_of_forall fun c hc => ?_
  have hbare := hchars c hc
  constructor <;> (rintro rfl; revert hbare; decide)

theorem yields_bareWord : Yields bareWord fun w => Quotable w.toList := by
  have hpart : Yields (firstOf [bareRun, reference]) Quotable := by
    refine Yields.firstOf fun r hr => ?_
    rw [List.mem_cons, List.mem_singleton] at hr
    rcases hr with rfl | rfl
    · exact yields_bareRun
    · exact fun s v t h => (isReference_of_read h).2.quotable
  have hparts : Yields (many1 (firstOf [bareRun, reference]))
      fun parts => ∀ p ∈ parts, Quotable p :=
    hpart.bind fun p hp => hpart.many.map fun ps hps => List.forall_mem_cons.mpr ⟨hp, hps⟩
  refine hparts.bind fun parts hps => yields_pure ?_
  rw [String.toList_ofList]
  exact quotable_flatten hps

/-! ### Quoted texts -/

/-- A part is a text of its own, or a backslash with something else than a quote behind it. -/
theorem of_read_quotedPart {s a t : List Char} (h : quotedPart.read s = some (a, t)) :
    a ≠ [] ∧ (Quotable a ∨ a = ['\\'] ∧ t.head? ≠ some '"') := by
  cases s with
  | nil => cases h
  | cons c s =>
    by_cases hb : c = '\\'
    · rw [hb] at h
      by_cases hq : s.head? = some '"'
      · obtain ⟨u, rfl⟩ := List.head?_eq_some_iff.mp hq
        rw [read_quotedPart_quote] at h
        cases h
        exact ⟨by simp, .inl (by decide)⟩
      · rw [read_quotedPart_backslash hq] at h
        cases h
        exact ⟨by simp, .inr ⟨rfl, hq⟩⟩
    · by_cases hc : isPlainQuoted c = true
      · rw [read_quotedPart_plain hc] at h
        cases h
        refine ⟨by simp, .inl (quotable_of_forall fun d hd => ?_)⟩
        have hplain : isPlainQuoted d = true := by
          rcases List.mem_cons.mp hd with rfl | hd
          · exact hc
          · exact List.all_eq_true.mp List.all_takeWhile d hd
        constructor <;> (rintro rfl; revert hplain; decide)
      · have hn : quotedPart.read (c :: s) = none := by
          have hr := read_run1_cons isPlainQuoted c s
          rw [if_neg hc] at hr
          unfold quotedPart
          rw [read_firstOf_cons, read_map, read_exactly_cons, if_neg hb, read_firstOf_cons,
            read_firstOf_cons, read_map, read_one_cons, if_neg (by simpa using hb)]
          exact congrArg (fun r => Option.or none (Option.or r _)) hr
        rw [hn] at h
        cases h

/-- A backslash in front of the closing quote would have been read together with it. -/
theorem quotable_of_repeats {s t : List Char} {parts : List (List Char)}
    (h : Repeats quotedPart s parts t) (ht : t.head? = some '"') : Quotable parts.flatten := by
  induction h with
  | stop => exact quotable_nil
  | @step s u t a as ha _ hr ih =>
    rcases (of_read_quotedPart ha).2 with hq | ⟨rfl, hq⟩
    · exact hq.append (ih ht)
    · cases hr with
      | stop => exact absurd ht hq
      | step hb _ _ =>
        refine Quotable.cons (by decide) ?_ (ih ht)
        have hne := (of_read_quotedPart hb).1
        simp [hne]

theorem yields_quoted : Yields quoted fun w => Quotable w.toList := by
  intro s w t h
  obtain ⟨_, s₁, -, h₁⟩ := of_read_bind h
  obtain ⟨parts, s₂, hp, h₂⟩ := of_read_bind h₁
  obtain ⟨_, s₃, hs, h₃⟩ := of_read_bind h₂
  cases h₃
  rw [String.toList_ofList]
  refine quotable_of_repeats (takes_quotedPart.repeats_of_read hp) ?_
  rw [of_read_symbol hs]
  rfl

/-! ### Values -/

/-- A value that can be written, unless there is markup in it. -/
def Plain (v : Value) : Prop := v.xmls = [] → v.Writable

theorem yields_xmlBlock_plain : Yields xmlBlock Plain := by
  intro s v t h
  rw [xmlBlock, read_select] at h
  obtain ⟨p, -, h⟩ := Option.bind_eq_some_iff.mp h
  obtain ⟨w, hw, he⟩ := Option.map_eq_some_iff.mp h
  cases he
  obtain ⟨text, -, rfl⟩ := Option.map_eq_some_iff.mp hw
  rintro ⟨⟩

theorem yields_patternValue_plain {introducer : String} {build : String → Bool → Value}
    (h : ∀ text negated, Quotable text.toList → (build text negated).Writable) :
    Yields (patternValue introducer build) Plain :=
  .behind fun _ => .behind fun _ => .behind fun _ => yields_quoted.bind fun _ hq =>
    yields_pure fun _ => h _ _ hq

theorem yields_keyed_plain {value : Rule Value} (hv : Yields value Plain) :
    Yields (keyed value) Plain := by
  have hkey : Yields (firstOf [quoted, bareWord]) fun w => Quotable w.toList := by
    refine Yields.firstOf fun r hr => ?_
    rw [List.mem_cons, List.mem_singleton] at hr
    rcases hr with rfl | rfl
    · exact yields_quoted
    · exact yields_bareWord
  have hinner : Yields (trivia >>= fun _ => symbol ':' >>= fun _ => trivia >>= fun _ => value)
      Plain :=
    .behind fun _ => .behind fun _ => .behind fun _ => hv
  refine hkey.bind fun key hk => hinner.optional.bind fun inner hi => yields_pure ?_
  cases inner with
  | none => exact fun _ => hk
  | some v => exact fun hx => ⟨hk, hi v rfl (by rwa [Value.xmls] at hx)⟩

theorem plain_array {vs : List Value} (hvs : ∀ v ∈ vs, Plain v) : Plain (.array vs) := by
  intro hx
  rw [Value.xmls] at hx
  refine Value.allWritable_iff.mpr fun v hv => hvs v hv ?_
  refine List.eq_nil_iff_forall_not_mem.mpr fun t ht => ?_
  have hm := Value.mem_xmlsOfAll.mpr ⟨v, hv, ht⟩
  rw [hx] at hm
  cases hm

theorem yields_value_plain : Yields value Plain := by
  refine Yields.nested fun value hv => Yields.firstOf fun r hr => ?_
  simp only [List.mem_cons, List.not_mem_nil, or_false] at hr
  rcases hr with rfl | rfl | rfl | rfl | rfl | rfl
  · exact yields_xmlBlock_plain
  · exact yields_patternValue_plain fun _ _ h => h
  · exact yields_patternValue_plain fun _ _ h => h
  · exact yields_map fun _ _ => trivial
  · exact (yields_arrayOf hv).map fun _ hvs => plain_array hvs
  · exact yields_keyed_plain hv

end Grammar

namespace Value

mutual

theorem xmls_of_writable : ∀ {v : Value}, v.Writable → v.xmls = []
  | .literal _, _ => rfl
  | .glob _ _, _ => rfl
  | .regex _ _, _ => rfl
  | .xml _, hv => hv.elim
  | .none, _ => rfl
  | .array _, hv => by
    rw [xmls]
    exact xmlsOfAll_of_allWritable hv
  | .pair _ _, hv => by
    rw [xmls]
    exact xmls_of_writable hv.2

theorem xmlsOfAll_of_allWritable : ∀ {vs : List Value}, AllWritable vs → xmlsOfAll vs = []
  | [], _ => rfl
  | _ :: _, hvs => by
    rw [xmlsOfAll, xmls_of_writable hvs.1, xmlsOfAll_of_allWritable hvs.2]
    rfl

end

/-- The text is a spelling of the value with any blanks around it. -/
def SpelledIn (v : Value) (text : String) : Prop :=
  ∃ g s h, isBlankText g = true ∧ v.Spelled s ∧ isBlankText h = true ∧ text.toList = g ++ (s ++ h)

theorem parse_eq_ok {v : Value} (hv : v.Writable) {text : String} (ht : v.SpelledIn text) :
    Value.parse text = .ok v := by
  obtain ⟨g, s, h, hg, hs, hh, ht⟩ := ht
  have hends : Ends h := by
    have hs : Stops isLexical (h ++ []) := stops_blanks (fun _ => id) hh (stops_nil _)
    have ht := skipTrivia_blanks hh []
    rw [List.append_nil] at hs ht
    exact ⟨hs, by rw [ht]; nofun⟩
  have hfirst : (g ++ (s ++ h)).dropWhile isBlank = s ++ h := by
    obtain ⟨c, t, rfl, hc, -⟩ := hs.opens
    rw [dropWhile_blanks hg, List.cons_append, List.dropWhile_cons_of_neg (by simp [hc])]
  have hlast : h.dropWhile isBlank = [] := by
    have hdrop := dropWhile_blanks hh []
    rwa [List.append_nil] at hdrop
  refine parse_eq_ok_iff.mpr ?_
  rw [ht, read_bind, read_blanks, hfirst, Option.bind_some, read_bind,
    read_value_spelled hv hs hends, Option.bind_some, read_bind, read_blanks, hlast]
  rfl

theorem plain_of_parse {text : String} {v : Value} (h : Value.parse text = .ok v) : Plain v := by
  have hyields : Yields (do
      blanks
      let v ← value
      blanks
      return v) Plain :=
    .behind fun _ => yields_value_plain.bind fun _ hv => .behind fun _ => yields_pure hv
  exact hyields _ _ _ (parse_eq_ok_iff.mp h)

theorem spelledIn_write {v : Value} (hv : v.Writable) : v.SpelledIn (String.ofList v.write) :=
  ⟨[], v.write, [], rfl, spelled_write hv, rfl, by simp⟩

/-- **A value is read from each of its spellings, and what was read can be spelled.** The values
without markup that are read from any text are those whose texts can stand between quotes, and each
of them is read again from what is written. -/
theorem parse_spelled :
    (∀ (v : Value) (text : String), v.Writable ∧ v.SpelledIn text → Value.parse text = .ok v) ∧
      (∀ v : Value, (∃ text, Value.parse text = .ok v ∧ v.xmls = []) ↔ v.Writable) ∧
      ∀ (v : Value) (text : String), Value.parse text = .ok v ∧ v.xmls = [] →
        v.SpelledIn (String.ofList v.write) ∧ Value.parse (String.ofList v.write) = .ok v := by
  refine ⟨fun v text h => parse_eq_ok h.1 h.2, fun v => ⟨?_, fun hv => ?_⟩, fun v text h => ?_⟩
  · rintro ⟨text, hp, hx⟩
    exact plain_of_parse hp hx
  · exact ⟨_, parse_eq_ok hv (spelledIn_write hv), xmls_of_writable hv⟩
  · have hv := plain_of_parse h.1 h.2
    exact ⟨spelledIn_write hv, parse_eq_ok hv (spelledIn_write hv)⟩

/-- A negated pattern and no value, with blanks and a comma between them. -/
theorem parse_spelled_negatedGlob :
    Value.parse "[!glob \"*.cs\" ,none]" = .ok (.array [.glob "*.cs" true, .none]) ∧
      Value.parse (String.ofList (Value.array [.glob "*.cs" true, .none]).write) =
        .ok (.array [.glob "*.cs" true, .none]) := by
  have hitems : AllSpelled [.glob "*.cs" true, .none] "!glob \"*.cs\" ,none".toList :=
    ⟨_, [' ', ','], ['n', 'o', 'n', 'e'], ⟨[' '], rfl, rfl⟩, .inl (.inr ⟨[' '], [], rfl, rfl, rfl⟩),
      ⟨_, [], [], rfl, .inr ⟨rfl, rfl⟩, rfl, rfl⟩, rfl⟩
  have hspelled : (Value.array [.glob "*.cs" true, .none]).SpelledIn "[!glob \"*.cs\" ,none]" :=
    ⟨[], _, [], rfl, ⟨[], _, [], rfl, hitems, rfl, rfl⟩, rfl, rfl⟩
  have hread := parse_spelled.1 _ _ ⟨by decide, hspelled⟩
  exact ⟨hread, (parse_spelled.2.2 _ _ ⟨hread, rfl⟩).2⟩

end Value

end BuildPlan
