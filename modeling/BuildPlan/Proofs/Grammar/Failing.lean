import BuildPlan.Proofs.Grammar.Values
import BuildPlan.Proofs.Text.Positions
import Mathlib.Control.Monad.Basic

/-! # Where reading fails

A rule counts the bytes that it takes, and gives its failures as numbers of bytes too. Both are right if
what it takes has as many bytes as it says, and each failure lies between two characters of the text
(`Measured`). This goes over from the parts of a rule to the whole, so it holds of the rules for
documents, values and groups, and the error that they report is at a place between two characters of the
source. -/

namespace BuildPlan

open BuildPlan.Text

namespace Grammar

open Rule

variable {α β : Type}

/-! ### Readings -/

/-- The reading of a text counts bytes: as many as are taken from the front, and only whole characters
up to the furthest failure. -/
structure Reading.Counts (x : Reading α) (s : List Char) : Prop where
  taken : ∀ a t, x.found = some (a, t) → ∃ u, s = u ++ t ∧ byteSize u = x.taken
  far : ∀ n, x.far = some n → IsBoundary s n

namespace Reading

/-- The later one of two failures is one of them. -/
theorem far_max {P : Nat → Prop} {a b : Option Nat} (ha : ∀ n, a = some n → P n)
    (hb : ∀ n, b = some n → P n) (n : Nat) (h : max a b = some n) : P n := by
  cases a with
  | none =>
    cases b with
    | none => cases h
    | some k => exact hb n h
  | some m =>
    cases b with
    | none => exact ha n h
    | some k =>
      obtain rfl : max m k = n := Option.some.inj h
      rcases Std.max_eq_or (a := m) (b := k) with hmax | hmax
      · rw [hmax]
        exact ha m rfl
      · rw [hmax]
        exact hb k rfl

/-- A reading that finds nothing counts no bytes but those up to its failures. -/
theorem counts_none {s : List Char} {n : Nat} {far : Option Nat}
    (hfar : ∀ n, far = some n → IsBoundary s n) : (⟨none, n, far⟩ : Reading α).Counts s :=
  ⟨fun _ _ h => (by cases h), hfar⟩

theorem counts_refused (s : List Char) : (⟨none, 0, some 0⟩ : Reading α).Counts s :=
  counts_none fun n h => by
    cases h
    exact isBoundary_zero s

theorem counts_idle (a : α) (s : List Char) {far : Option Nat}
    (hfar : ∀ n, far = some n → IsBoundary s n) : (⟨some (a, s), 0, far⟩ : Reading α).Counts s :=
  ⟨fun _ _ h => by
    cases h
    exact ⟨[], rfl, rfl⟩, hfar⟩

/-- What is read behind counts on. -/
theorem Counts.andThen {a : α} {s t : List Char} {n : Nat} {far : Option Nat} {next : Reading β}
    (h : (⟨some (a, t), n, far⟩ : Reading α).Counts s) (hnext : next.Counts t) :
    (⟨next.found, n + next.taken, max far (next.far.map (n + ·))⟩ : Reading β).Counts s := by
  obtain ⟨u, rfl, rfl⟩ := h.taken a t rfl
  refine ⟨fun b t' hb => ?_, far_max h.far fun m hm => ?_⟩
  · obtain ⟨v, rfl, hv⟩ := hnext.taken b t' hb
    exact ⟨u ++ v, (List.append_assoc u v t').symm, by rw [byteSize_append, hv]⟩
  · obtain ⟨k, hk, rfl⟩ := Option.map_eq_some_iff.mp hm
    exact (hnext.far k hk).behind u

theorem Counts.map {x : Reading α} {s : List Char} (h : x.Counts s) (f : α → β) :
    (⟨x.found.map fun p => (f p.1, p.2), x.taken, x.far⟩ : Reading β).Counts s := by
  refine ⟨fun b t hb => ?_, h.far⟩
  obtain ⟨⟨a, t⟩, ha, he⟩ := Option.map_eq_some_iff.mp hb
  cases he
  exact h.taken a t ha

end Reading

/-! ### The constructions -/

/-- The rule counts the bytes of every text. -/
def Measured (r : Rule α) : Prop := ∀ s, (r s).Counts s

theorem measured_succeed (a : α) : Measured (succeed a) :=
  fun s => Reading.counts_idle a s fun _ h => by cases h

theorem measured_pure (a : α) : Measured (pure a) := measured_succeed a

theorem measured_refuse : Measured (refuse : Rule α) := Reading.counts_refused

theorem Measured.bind {r : Rule α} {f : α → Rule β} (hr : Measured r) (hf : ∀ a, Measured (f a)) :
    Measured (r >>= f) := by
  intro s
  have hs := hr s
  change (andThen r f s).Counts s
  unfold andThen
  split
  · next h =>
    rw [h] at hs
    exact Reading.counts_none hs.far
  · next a t n far h =>
    rw [h] at hs
    exact hs.andThen (hf a t)

theorem Measured.map {r : Rule α} (hr : Measured r) (f : α → β) : Measured (r.map f) := by
  intro s
  have hs := hr s
  unfold Rule.map
  split
  · next h =>
    rw [h] at hs
    exact Reading.counts_none hs.far
  · next h =>
    rw [h] at hs
    exact hs.map f

theorem Measured.orElse {r q : Rule α} (hr : Measured r) (hq : Measured q) :
    Measured (orElse r q) := by
  intro s
  have hs := hr s
  unfold Rule.orElse
  split
  · next h =>
    rw [h] at hs
    exact hs
  · next h =>
    rw [h] at hs
    exact ⟨(hq s).taken, Reading.far_max hs.far (hq s).far⟩

theorem measured_firstOf_nil : Measured (firstOf ([] : List (Rule α))) := measured_refuse

theorem Measured.firstOf_cons {r : Rule α} {rs : List (Rule α)} (hr : Measured r)
    (hrs : Measured (Rule.firstOf rs)) : Measured (Rule.firstOf (r :: rs)) := by
  cases rs with
  | nil => exact hr
  | cons q rs => exact hr.orElse hrs

theorem Measured.optional {r : Rule α} (hr : Measured r) : Measured (optional r) :=
  (hr.map some).orElse (measured_succeed none)

theorem Measured.select {r : Rule α} (hr : Measured r) (f : α → Option β) :
    Measured (r.select f) := by
  intro s
  have hs := hr s
  unfold Rule.select
  split
  · next h =>
    rw [h] at hs
    exact Reading.counts_none hs.far
  · next h =>
    rw [h] at hs
    split
    · next b _ => exact hs.map fun _ => b
    · exact Reading.counts_refused s

theorem Measured.keep {r : Rule α} (hr : Measured r) (p : α → Bool) : Measured (r.keep p) :=
  hr.select _

theorem measured_absent (r : Rule α) : Measured (absent r) := by
  intro s
  unfold absent
  split
  · exact Reading.counts_idle () s fun _ h => by cases h
  · exact Reading.counts_refused s

theorem measured_atEnd : Measured atEnd
  | [] => Reading.counts_idle () [] fun _ h => by cases h
  | c :: s => Reading.counts_refused (c :: s)

/-- Each round of a repetition counts on from the one before. -/
theorem Measured.manyUpTo {r : Rule α} (hr : Measured r) : ∀ bound : List Char,
    Measured (manyUpTo r bound)
  | [] => fun s => Reading.counts_idle [] s (hr s).far
  | _ :: bound => fun s => by
    have hs := hr s
    unfold Rule.manyUpTo
    split
    · next h =>
      rw [h] at hs
      exact Reading.counts_idle [] s hs.far
    · next a t n far h =>
      rw [h] at hs
      exact hs.andThen ((hr.manyUpTo bound t).map (a :: ·))

theorem Measured.many {r : Rule α} (hr : Measured r) : Measured (many r) :=
  fun s => hr.manyUpTo s s

theorem Measured.many1 {r : Rule α} (hr : Measured r) : Measured (many1 r) :=
  Measured.bind hr fun _ => hr.many.map _

theorem Measured.nested {step : Rule α → Rule α} (h : ∀ r, Measured r → Measured (step r)) :
    Measured (nested step) := by
  have hbound : ∀ bound : List Char, Measured (nestedUpTo step bound) := by
    intro bound
    induction bound with
    | nil => exact h _ measured_refuse
    | cons c bound ih => exact h _ ih
  exact fun s => hbound s s

/-! ### Characters -/

theorem measured_one (p : Char → Bool) : Measured (one p) := by
  intro s
  cases s with
  | nil => exact Reading.counts_refused []
  | cons c s =>
    rw [one]
    split
    · refine ⟨fun d t h => ?_, fun _ h => (by cases h)⟩
      cases h
      exact ⟨[c], rfl, rfl⟩
    · exact Reading.counts_refused (c :: s)

theorem measured_exactly : ∀ w : List Char, Measured (exactly w)
  | [] => measured_succeed ()
  | _ :: w => Measured.bind (measured_one _) fun _ => measured_exactly w

/-- A rule that cuts a text in two fails behind the first part. -/
theorem counts_split {s u t : List Char} (h : u ++ t = s) :
    (⟨some (u, t), byteSize u, some (byteSize u)⟩ : Reading (List Char)).Counts s := by
  obtain rfl := h
  refine ⟨fun v t' hv => ?_, fun n hn => ?_⟩
  · cases hv
    exact ⟨u, rfl, rfl⟩
  · cases hn
    exact isBoundary_append u t

theorem measured_run (p : Char → Bool) : Measured (run p) :=
  fun _ => counts_split List.takeWhile_append_dropWhile

theorem measured_run1 (p : Char → Bool) : Measured (run1 p) :=
  Measured.bind (measured_one p) fun _ => (measured_run p).map _

theorem measured_symbol (c : Char) : Measured (symbol c) := (measured_one _).map _

/-! ### Lexemes -/

theorem measured_blanks : Measured blanks := (measured_run isBlank).map _

theorem measured_spaces : Measured spaces := (measured_run _).map _

theorem measured_comment : Measured comment :=
  (measured_exactly _).bind fun _ => (measured_run _).bind fun _ => measured_pure _

theorem measured_trivia : Measured trivia :=
  (Measured.many (((measured_run1 isBlank).map _).firstOf_cons
    ((measured_comment.map _).firstOf_cons measured_firstOf_nil))).map _

theorem measured_reference : Measured reference :=
  (measured_symbol '\\').optional.bind fun _ => (measured_exactly _).bind fun _ =>
    (measured_run _).bind fun _ => (measured_symbol ')').bind fun _ => measured_pure _

theorem measured_word : Measured word :=
  (measured_one _).bind fun _ => (measured_run _).bind fun _ => measured_pure _

theorem measured_keyword (w : String) : Measured (keyword w) := (measured_word.keep _).map _

theorem measured_identifier : Measured identifier :=
  (((measured_one _).map _).firstOf_cons (measured_reference.firstOf_cons measured_firstOf_nil)).bind
    fun _ => (Measured.many ((measured_run1 _).firstOf_cons
      (measured_reference.firstOf_cons measured_firstOf_nil))).bind fun _ => measured_pure _

theorem measured_bareRun : Measured bareRun := by
  intro s
  have happend := splitBare_append_eq s
  unfold bareRun
  split
  · exact Reading.counts_refused s
  · next h =>
    rw [h] at happend
    exact counts_split happend

theorem measured_bareWord : Measured bareWord :=
  (Measured.many1 (measured_bareRun.firstOf_cons
    (measured_reference.firstOf_cons measured_firstOf_nil))).bind fun _ => measured_pure _

theorem measured_quotedPart : Measured quotedPart :=
  ((measured_exactly _).map _).firstOf_cons <| (measured_run1 _).firstOf_cons <|
    ((measured_one _).map _).firstOf_cons measured_firstOf_nil

theorem measured_quoted : Measured quoted :=
  (measured_symbol '"').bind fun _ => measured_quotedPart.many.bind fun _ =>
    (measured_symbol '"').bind fun _ => measured_pure _

theorem measured_group (opening closing : Char) : Measured (group opening closing) :=
  .nested fun _ h => (measured_symbol _).bind fun _ =>
    (Measured.many ((measured_run1 _).firstOf_cons (h.firstOf_cons measured_firstOf_nil))).bind
      fun _ => (measured_symbol _).bind fun _ => measured_pure _

theorem measured_parenthesized : Measured parenthesized := (measured_group _ _).map _

theorem measured_conditional : Measured conditional :=
  (measured_keyword _).bind fun _ => measured_trivia.bind fun _ =>
    measured_parenthesized.bind fun _ => measured_pure _

/-! ### Values -/

theorem measured_fenced : Measured fenced := fun s => counts_split (splitFence_append_eq s)

theorem measured_xmlBlock : Measured xmlBlock :=
  Measured.select ((measured_keyword _).bind fun _ => measured_trivia.bind fun _ =>
    (measured_exactly _).bind fun _ => measured_fenced.bind fun _ => (measured_exactly _).bind fun _ =>
      measured_pure _) _

theorem measured_patternValue (introducer : String) (build : String → Bool → Value) :
    Measured (patternValue introducer build) :=
  (measured_symbol '!').optional.bind fun _ => (measured_keyword _).bind fun _ =>
    measured_trivia.bind fun _ => measured_quoted.bind fun _ => measured_pure _

section Nested
variable {inner : Rule Value} (hi : Measured inner)
include hi

theorem measured_arrayOf : Measured (arrayOf inner) :=
  (measured_symbol '[').bind fun _ => measured_trivia.bind fun _ =>
    (Measured.many (hi.bind fun _ => measured_trivia.bind fun _ =>
      (((measured_symbol ',').bind fun _ => measured_trivia).optional.map _).bind fun _ =>
        measured_pure _)).bind fun _ => (measured_symbol ']').bind fun _ => measured_pure _

theorem measured_keyed : Measured (keyed inner) :=
  (measured_quoted.firstOf_cons (measured_bareWord.firstOf_cons measured_firstOf_nil)).bind fun _ =>
    (measured_trivia.bind fun _ => (measured_symbol ':').bind fun _ => measured_trivia.bind fun _ =>
      hi).optional.bind fun _ => measured_pure _

theorem measured_valueStep : Measured (valueStep inner) :=
  measured_xmlBlock.firstOf_cons <| (measured_patternValue _ _).firstOf_cons <|
    (measured_patternValue _ _).firstOf_cons <| ((measured_bareWord.keep _).map _).firstOf_cons <|
    ((measured_arrayOf hi).map _).firstOf_cons <| (measured_keyed hi).firstOf_cons measured_firstOf_nil

end Nested

theorem measured_value : Measured value := .nested fun _ h => measured_valueStep h

/-! ### Elements -/

theorem Measured.padded {r : Rule α} (hr : Measured r) : Measured (padded r) :=
  hr.bind fun _ => measured_trivia.bind fun _ => measured_pure _

theorem measured_guard : Measured guard := measured_conditional.padded.optional

theorem measured_constant : Measured constant :=
  measured_identifier.bind fun _ => (measured_absent _).bind fun _ => measured_pure _

theorem measured_constants : Measured constants :=
  (measured_constant.bind fun _ => (Measured.many (measured_trivia.bind fun _ =>
    (measured_symbol ',').bind fun _ => measured_trivia.bind fun _ => measured_constant)).bind fun _ =>
      measured_pure _).firstOf_cons ((measured_succeed []).firstOf_cons measured_firstOf_nil)

theorem measured_member : Measured member :=
  measured_identifier.padded.bind fun _ => (measured_symbol ':').padded.bind fun _ =>
    measured_constants.padded.bind fun _ => measured_pure _

theorem measured_configurationGroup : Measured configurationGroup :=
  (measured_keyword _).padded.bind fun _ => measured_identifier.padded.bind fun _ =>
    (measured_symbol '[').padded.bind fun _ => measured_member.many.bind fun _ =>
      (measured_symbol ']').bind fun _ => measured_pure _

theorem measured_action : Measured action :=
  ((measured_keyword _).map _).firstOf_cons
    (((measured_keyword _).map _).firstOf_cons measured_firstOf_nil)

theorem measured_nameParts : Measured nameParts := (measured_word.keep _).padded.many1

theorem measured_singleAssignment : Measured singleAssignment :=
  measured_guard.bind fun _ => measured_action.padded.bind fun _ => measured_nameParts.bind fun _ =>
    (measured_symbol ':').padded.bind fun _ => measured_value.bind fun _ =>
      (measured_absent _).bind fun _ => measured_pure _

theorem measured_arrayAssignment : Measured arrayAssignment :=
  measured_action.padded.bind fun _ => measured_nameParts.bind fun _ => measured_guard.bind fun _ =>
    (measured_arrayOf measured_value).bind fun _ => measured_pure _

theorem measured_heading : Measured heading :=
  measured_word.padded.bind fun _ => measured_identifier.padded.bind fun _ =>
    ((measured_symbol ':').padded.bind fun _ => measured_identifier.padded).optional.bind fun _ =>
      measured_pure _

theorem measured_invocation : Measured invocation := by
  have hargument : Measured argument :=
    measured_quoted.firstOf_cons ((measured_parenthesized.map _).firstOf_cons measured_firstOf_nil)
  exact measured_guard.bind fun _ => (measured_word.keep _).bind fun _ =>
    (measured_spaces.bind fun _ => hargument).optional.bind fun _ => measured_pure _

section Nested
variable {inner : Rule (List Element)} (hi : Measured inner)
include hi

theorem measured_body : Measured (body inner) :=
  (measured_symbol '\x7b').bind fun _ => hi.bind fun _ => (measured_symbol '\x7d').bind fun _ =>
    measured_pure _

theorem measured_element : Measured (element inner) := by
  have hblock : Measured (block inner) :=
    measured_conditional.padded.bind fun _ => (measured_body hi).bind fun _ => measured_pure _
  have hobject : Measured (object inner) :=
    measured_heading.bind fun _ => (measured_body hi).bind fun _ => measured_pure _
  exact (measured_comment.map _).firstOf_cons <| (measured_configurationGroup.map _).firstOf_cons <|
    hblock.firstOf_cons <| (measured_singleAssignment.map _).firstOf_cons <|
    (measured_arrayAssignment.map _).firstOf_cons <| hobject.firstOf_cons <|
    (measured_invocation.map _).firstOf_cons measured_firstOf_nil

theorem measured_elementsStep : Measured (elementsStep inner) :=
  measured_blanks.bind fun _ => Measured.many ((measured_element hi).bind fun _ =>
    measured_blanks.bind fun _ => measured_pure _)

end Nested

theorem measured_elements : Measured elements := .nested fun _ h => measured_elementsStep h

/-! ### Whole texts -/

theorem Measured.whole_error {r : Rule α} (hr : Measured r) {s : List Char} {n : Nat}
    (h : r.whole s = .error n) : IsBoundary s n := by
  have hs := (hr.bind fun a => measured_atEnd.map fun _ => a) s
  change ((r.andThen fun a => atEnd.map fun _ => a) s).Counts s at hs
  unfold Rule.whole at h
  split at h
  · cases h
  · next taken far hfound =>
    rw [hfound] at hs
    cases h
    cases hfar : far with
    | none => exact isBoundary_zero s
    | some m => exact hs.far m hfar

/-- The error of a rule is at a place between two characters of the text. -/
theorem Measured.parse_error {r : Rule α} (hr : Measured r) {source : String} {e : SyntaxError}
    (h : r.parse source = .error e) : IsBoundary source.toList e.position.offset ∧
      e = .atOffset source e.position.offset e.message := by
  unfold Rule.parse at h
  split at h
  · cases h
  · next n hn =>
    cases h
    have hboundary := hr.whole_error hn
    rw [SyntaxError.atOffset, offset_positionAt hboundary]
    exact ⟨hboundary, rfl⟩

end Grammar

open Grammar

/-- **The line and the column of an error identify its offset.** Of two places between characters the
one with the greater offset has the position behind, and from a position one walks back to its offset.
An offset behind the end counts as the end. Every error that is reported for a document, a value or a
group is at such a place. -/
theorem positions_identify_offsets (source : String) (message : String) :
    (∀ m n, IsBoundary source.toList m → IsBoundary source.toList n → m < n →
      (SyntaxError.atOffset source m message).position.Before
        (SyntaxError.atOffset source n message).position) ∧
    (∀ n, IsBoundary source.toList n → ∀ p, (SyntaxError.atOffset source n message).position = p →
      p.offset = n ∧ walk (p.line - 1) (p.column - 1) source.toList = some n) ∧
    (∀ n, source.utf8ByteSize ≤ n →
      SyntaxError.atOffset source n message =
        SyntaxError.atOffset source source.utf8ByteSize message) ∧
    ∀ e, Document.parse source = .error e ∨ Value.parse source = .error e ∨
        parseEnclosed source = .error e →
      IsBoundary source.toList e.position.offset ∧
        e = .atOffset source e.position.offset e.message := by
  refine ⟨fun m n hm hn h => before_positionAt hm hn h, ?_, fun n hn => ?_, fun e he => ?_⟩
  · rintro n hn p rfl
    exact ⟨offset_positionAt hn, walk_positionAt hn⟩
  · rw [← byteSize_toList] at hn ⊢
    rw [SyntaxError.atOffset, SyntaxError.atOffset, positionAt_of_le hn]
  · rcases he with he | he | he
    · exact (measured_elements.map _).parse_error he
    · exact (measured_blanks.bind fun _ => measured_value.bind fun _ => measured_blanks.bind fun _ =>
        measured_pure _).parse_error he
    · exact ((measured_group _ _).map _).parse_error he

/-- A property behind a comment, and a brace that closes nothing. -/
def strayBrace : String := "// ü\nset a: \"ö\" \x7d\n"

theorem positions_identify_offsets_strayBrace :
    Document.parse strayBrace = .error ⟨⟨18, 2, 12⟩, "unexpected text"⟩ ∧
    walk 1 11 strayBrace.toList = some 18 ∧
    (SyntaxError.atOffset strayBrace 5 "").position.Before ⟨18, 2, 12⟩ ∧
    SyntaxError.atOffset strayBrace 99 "" = SyntaxError.atOffset strayBrace 20 "" := by
  have hparse : Document.parse strayBrace = .error ⟨⟨18, 2, 12⟩, "unexpected text"⟩ := by decide +kernel
  obtain ⟨horder, hback, hend, herror⟩ := positions_identify_offsets strayBrace ""
  obtain ⟨hplace, -⟩ := herror _ (Or.inl hparse)
  have hposition : (SyntaxError.atOffset strayBrace 18 "").position = ⟨18, 2, 12⟩ := by decide +kernel
  have hcomment : IsBoundary strayBrace.toList 5 :=
    ⟨"// ü".toList, "\nset a: \"ö\" \x7d\n".toList, by decide +kernel, by decide +kernel⟩
  refine ⟨hparse, (hback 18 hplace _ hposition).2, ?_, hend 99 (by decide)⟩
  rw [← hposition]
  exact horder 5 18 hcomment hplace (by decide)

end BuildPlan
