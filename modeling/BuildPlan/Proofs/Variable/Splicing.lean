import BuildPlan.Proofs.Variable.Stages
import BuildPlan.Proofs.Xml.Open

/-! # Expansion splices values into a text

A text is a sequence of chunks: characters, escaped references, and references with backslashes in
front of them (`Chunks`). An expansion keeps the characters and fills the chunks with references, so
it splices values into the text, if the names and the values of the references are calm (`Harmless`).
No pass makes a reference that was not there. So an open fragment is well formed behind any number of
deferring passes and a complete one (`Deferred.isWellFormed`). -/

namespace BuildPlan.Variable

open BuildPlan.Xml

/-! ### The chunks of a text -/

/-- So many backslashes, as characters. -/
def backslashes (n : Nat) : List Char := List.replicate n '\\'

/-- The chunks of a text, with the symbols for which they stand. -/
inductive Chunks : List Char → List Symbol → Prop where
  | nil : Chunks [] []
  | char (c : Char) {s : List Char} {ss : List Symbol} (h : Chunks s ss) :
      Chunks (c :: s) (.char c :: ss)
  /-- The start of an escaped reference. -/
  | escape (n : Nat) {s : List Char} {ss : List Symbol} (h : Chunks s ss) :
      Chunks (backslashes (2 * n + 1) ++ '$' :: '(' :: s)
        (slashes n ++ .char '$' :: .char '(' :: ss)
  | reference (n : Nat) (name : List Char) {s : List Char} {ss : List Symbol} (h : Chunks s ss) :
      Chunks (backslashes (2 * n) ++ '$' :: '(' :: (name ++ ')' :: s))
        (slashes n ++ .reference name :: ss)

theorem Chunks.chars (l : List Char) {s : List Char} {ss : List Symbol} (h : Chunks s ss) :
    Chunks (l ++ s) (l.map .char ++ ss) := by
  induction l with
  | nil => exact h
  | cons c l ih => exact .char c ih

theorem slashes_eq_map (n : Nat) : slashes n = (backslashes n).map .char :=
  (List.map_replicate).symm

/-- What has been read of a text where the reading stands. -/
def readBefore : ReadState → List Char
  | .text n => backslashes n
  | .name n name => backslashes n ++ '$' :: '(' :: name.reverse

theorem chunks_readFrom {σ : ReadState} {s : List Char} (h : .unclosed ∉ readFrom σ s) :
    Chunks (readBefore σ ++ s) (readFrom σ s) := by
  fun_induction readFrom σ s with
  | case1 n =>
    have hn := Chunks.nil.chars (backslashes n)
    rwa [List.append_nil (List.map _ _), ← slashes_eq_map] at hn
  | case2 n s ih =>
    have hn := ih h
    rwa [readBefore, backslashes, List.replicate_succ', List.append_assoc] at hn
  | case3 n s ih =>
    have hn := ih h
    rwa [readBefore, List.append_assoc] at hn
  | case4 n c s _ _ ih =>
    rw [List.mem_append, List.mem_cons, not_or, not_or] at h
    rw [slashes_eq_map]
    exact (Chunks.char c (ih h.2.2)).chars (backslashes n)
  | case5 => exact absurd List.mem_cons_self h
  | case6 n acc s ih =>
    rw [List.mem_append, not_or] at h
    have hs : Chunks s (readFrom (.text 0) s) := ih h.2
    obtain hn | hn : n % 2 = 1 ∨ n % 2 = 0 := by omega
    · have hn' : n = 2 * (n / 2) + 1 := by omega
      have he := Chunks.escape (n / 2) (hs.chars (acc.reverse ++ [')']))
      rw [← hn'] at he
      rw [readReference, if_pos hn]
      simpa [readBefore] using he
    · have hn' : n = 2 * (n / 2) := by omega
      have he := Chunks.reference (n / 2) acc.reverse hs
      rw [← hn'] at he
      rw [readReference, if_neg (by omega)]
      simpa [readBefore] using he
  | case7 n acc c s _ ih =>
    have hn := ih h
    simpa [readBefore] using hn

/-- A text whose references all have an end is the sequence of its chunks. -/
theorem chunks_read {s : List Char} (h : .unclosed ∉ read s) : Chunks s (read s) :=
  chunks_readFrom h

/-! ### What may be spliced in -/

/-- The names of the references, in order. -/
def references (ss : List Symbol) : List (List Char) :=
  ss.filterMap fun
    | .reference name => some name
    | _ => none

@[simp] theorem mem_references {name : List Char} {ss : List Symbol} :
    name ∈ references ss ↔ .reference name ∈ ss := by
  unfold references
  rw [List.mem_filterMap]
  constructor
  · rintro ⟨s, hs, h⟩
    cases s with
    | reference => cases h; exact hs
    | char | unclosed => cases h
  · exact fun h => ⟨_, h, rfl⟩

/-- The names of the references are calm, and so are the values that they have, none of which is
empty. -/
def Harmless (b : Bindings) (ss : List Symbol) : Prop :=
  ∀ name ∈ references ss,
    Calm name ∧ ∀ value ∈ b.get? (String.ofList name), value ≠ "" ∧ Calm value.toList

instance (b : Bindings) (ss : List Symbol) : Decidable (Harmless b ss) :=
  inferInstanceAs (Decidable (∀ name ∈ references ss, _))

example : Harmless (.ofList [("A", "x")]) (read "<a>$(A)</a>".toList) ∧
    ¬ Harmless (.ofList [("A", "<")]) (read "<a>$(A)</a>".toList) := by
  decide +kernel

section Harmless
variable {b : Bindings} {s : Symbol} {ss ts : List Symbol}

theorem Harmless.mono (h : Harmless b ss)
    (hts : ∀ name, .reference name ∈ ts → .reference name ∈ ss) : Harmless b ts :=
  fun name hn => h name (mem_references.mpr (hts name (mem_references.mp hn)))

theorem Harmless.of_append (h : Harmless b (ss ++ ts)) : Harmless b ts :=
  h.mono fun _ => List.mem_append_right _

theorem Harmless.tail (h : Harmless b (s :: ss)) : Harmless b ss :=
  h.mono fun _ => List.mem_cons_of_mem _

end Harmless

theorem calm_append {s t : List Char} : Calm (s ++ t) ↔ Calm s ∧ Calm t := List.forall_mem_append

theorem calm_cons {c : Char} {s : List Char} : Calm (c :: s) ↔ isCalm c = true ∧ Calm s :=
  List.forall_mem_cons

theorem calm_backslashes (n : Nat) : Calm (backslashes n) := by
  intro c hc
  rw [List.eq_of_mem_replicate hc]
  decide

theorem backslashes_add (m n : Nat) : backslashes (m + n) = backslashes m ++ backslashes n :=
  (List.replicate_append_replicate).symm

/-- The start of a reference is a hole, with as much of the text behind it as is wanted. -/
theorem hole_of_calm (n : Nat) {u v : List Char} (hu : Calm u) (hne : v ≠ []) (hv : Calm v) :
    Hole (backslashes n ++ '$' :: '(' :: u) v := by
  refine ⟨?_, ⟨backslashes n, u, by simp⟩, ?_, hne, hv⟩
  · cases n with
    | zero => exact ⟨'$', rfl, Or.inl rfl⟩
    | succ n => exact ⟨'\\', by rw [backslashes, List.replicate_succ]; rfl, Or.inr rfl⟩
  · exact calm_append.mpr ⟨calm_backslashes n,
      calm_cons.mpr ⟨by decide, calm_cons.mpr ⟨by decide, hu⟩⟩⟩

theorem calm_opening (n : Nat) : Calm (backslashes n ++ ['$', '(']) :=
  calm_append.mpr ⟨calm_backslashes n, by decide⟩

/-! ### Complete expansion -/

theorem spliced_of_evaluate? {b : Bindings} {s : List Char} {ss : List Symbol} (h : Chunks s ss) :
    ∀ {r : List Char}, Harmless b ss → evaluate? b ss = some r → Spliced s r := by
  induction h with
  | nil =>
    intro r _ hr
    cases hr
    exact .nil
  | char c _ ih =>
    intro r hb hr
    obtain ⟨t, ht, rfl⟩ := evaluate?_char_cons_eq_some.mp hr
    exact .keep c (ih hb.tail ht)
  | escape n _ ih =>
    intro r hb hr
    obtain ⟨t, ht, rfl⟩ := evaluate?_slashes_char_eq_some.mp hr
    obtain ⟨t, hu, rfl⟩ := evaluate?_char_cons_eq_some.mp ht
    have hole : Hole (backslashes (2 * n + 1) ++ ['$', '(']) (backslashes n ++ ['$', '(']) :=
      hole_of_calm _ (by decide) (by simp) (calm_opening n)
    simpa [backslashes] using Spliced.hole hole (ih hb.of_append.tail.tail hu)
  | reference n name _ ih =>
    intro r hb hr
    obtain ⟨t, ht, rfl⟩ := (evaluate?_append_eq_some (evaluate?_slashes b n)).mp hr
    obtain ⟨v, t, hv, hu, rfl⟩ := evaluate?_cons_eq_some.mp ht
    obtain ⟨value, hget, rfl⟩ := Option.map_eq_some_iff.mp hv
    obtain ⟨hname, hvalue⟩ := hb name (by simp)
    obtain ⟨hne, hcalm⟩ := hvalue value hget
    have hole : Hole (backslashes (2 * n) ++ '$' :: '(' :: (name ++ [')']))
        (backslashes n ++ value.toList) := by
      refine hole_of_calm _ (calm_append.mpr ⟨hname, by decide⟩) (fun he => hne ?_)
        (calm_append.mpr ⟨calm_backslashes n, hcalm⟩)
      exact String.toList_eq_nil_iff.mp (List.append_eq_nil_iff.mp he).2
    simpa [backslashes] using Spliced.hole hole (ih hb.of_append.tail hu)

/-- **Complete expansion splices values into a text.** -/
theorem spliced_of_expandFully {b : Bindings} {t t' : String} (h : expandFully b t = .ok t')
    (hb : Harmless b (read t.toList)) : Spliced t.toList t'.toList := by
  have hr := expandFully_toOption b t
  rw [h] at hr
  obtain ⟨r, hr, he⟩ := Option.map_eq_some_iff.mp hr.symm
  have hclosed : .unclosed ∉ read t.toList := by
    intro hu
    rw [evaluate?_eq_none_of_unclosed hu] at hr
    cases hr
  rw [← he, String.toList_ofList]
  exact spliced_of_evaluate? (chunks_read hclosed) hb hr

/-! ### Deferring expansion -/

/-- Behind any number of backslashes, symbols are written as these and as a text into which values are
spliced. -/
def WrittenFrom (s : List Char) (ss : List Symbol) : Prop :=
  ∀ m, ∃ t, writeFrom m ss = backslashes m ++ t ∧ Spliced s t

section Writing
variable {s : List Char} {ss : List Symbol}

theorem WrittenFrom.slash (h : WrittenFrom s ss) : WrittenFrom ('\\' :: s) (.char '\\' :: ss) := by
  intro m
  obtain ⟨t, ht, hs⟩ := h (m + 1)
  refine ⟨'\\' :: t, ?_, .keep _ hs⟩
  rw [writeFrom, ht, backslashes_add, List.append_assoc]
  rfl

/-- A character is written for itself, but a dollar sign may get backslashes in front of it if a
parenthesis follows. -/
theorem writeFrom_char_eq {c : Char} (hc : c ≠ '\\') (m : Nat) (ss : List Symbol) :
    (writeFrom m (.char c :: ss) = backslashes m ++ c :: writeFrom 0 ss) ∨
      ∃ ts, c = '$' ∧ ss = .char '(' :: ts ∧
        writeFrom m (.char c :: ss) = backslashes (2 * m + 1) ++ c :: writeFrom 0 ss := by
  by_cases hd : ∃ ts, c = '$' ∧ ss = .char '(' :: ts
  · obtain ⟨ts, rfl, rfl⟩ := hd
    refine Or.inr ⟨ts, rfl, rfl, ?_⟩
    rw [writeFrom, writeFrom_char (by decide) (by simp)]
    rfl
  · refine Or.inl (writeFrom_char hc (fun ts hts hcd => hd ⟨ts, hcd, hts⟩) m)

/-- A dollar sign in front of a text that begins with a parenthesis may get backslashes: either the
parenthesis was there, or a value begins with it. -/
theorem spliced_dollar {t : List Char} (h : Spliced s ('(' :: t)) (m : Nat) :
    Spliced ('$' :: s) (backslashes m ++ '$' :: '(' :: t) := by
  generalize hr : '(' :: t = r at h
  cases h with
  | nil => cases hr
  | keep c h =>
    cases hr
    have hole : Hole ['$', '('] (backslashes m ++ ['$', '(']) :=
      hole_of_calm 0 (by decide) (by simp) (calm_opening m)
    simpa using Spliced.hole hole h
  | @hole u v s r hole h =>
    have hole' : Hole ('$' :: u) (backslashes m ++ '$' :: v) := by
      refine ⟨⟨'$', rfl, Or.inl rfl⟩, hole.refers.trans (List.suffix_cons _ _).isInfix,
        calm_cons.mpr ⟨by decide, hole.calm⟩, by simp, ?_⟩
      exact calm_append.mpr ⟨calm_backslashes m, calm_cons.mpr ⟨by decide, hole.value⟩⟩
    simpa using Spliced.hole hole' h

/-- A character that is kept. -/
theorem WrittenFrom.char (h : WrittenFrom s ss) (c : Char) :
    WrittenFrom (c :: s) (.char c :: ss) := by
  by_cases hc : c = '\\'
  · subst hc
    exact h.slash
  · intro m
    obtain ⟨t, ht, hs⟩ := h 0
    rw [backslashes, List.replicate_zero, List.nil_append] at ht
    rcases writeFrom_char_eq hc m ss with he | ⟨ts, rfl, rfl, he⟩
    · exact ⟨c :: t, by rw [he, ht], .keep c hs⟩
    · rw [writeFrom_char (by decide) (by simp), List.replicate_zero, List.nil_append] at ht
      subst ht
      refine ⟨backslashes (m + 1) ++ '$' :: '(' :: writeFrom 0 ts, ?_, spliced_dollar hs _⟩
      rw [he, show 2 * m + 1 = m + (m + 1) by omega, backslashes_add, List.append_assoc,
        writeFrom_char (by decide) (by simp)]
      rfl

/-- Characters of a value are written as calm ones, and there are some if the value is not empty. -/
theorem WrittenFrom.value (h : WrittenFrom s ss) : ∀ {l : List Char}, Calm l → ∀ m,
    ∃ w t, writeFrom m (l.map .char ++ ss) = backslashes m ++ (w ++ t) ∧ Calm w ∧
      (l ≠ [] → w ≠ []) ∧ Spliced s t
  | [], _, m => by
    obtain ⟨t, ht, hs⟩ := h m
    exact ⟨[], t, ht, by decide, fun hn => absurd rfl hn, hs⟩
  | c :: l, hl, m => by
    obtain ⟨hc, hl'⟩ := calm_cons.mp hl
    by_cases hslash : c = '\\'
    · subst hslash
      obtain ⟨w, t, ht, hw, -, hs⟩ := h.value hl' (m + 1)
      refine ⟨'\\' :: w, t, ?_, calm_cons.mpr ⟨hc, hw⟩, fun _ => List.cons_ne_nil _ _, hs⟩
      rw [List.map_cons, List.cons_append, writeFrom, ht, backslashes_add, List.append_assoc]
      rfl
    · obtain ⟨w, t, ht, hw, -, hs⟩ := h.value hl' 0
      rw [backslashes, List.replicate_zero, List.nil_append] at ht
      rcases writeFrom_char_eq hslash m (l.map .char ++ ss) with he | ⟨_, -, -, he⟩
      · exact ⟨c :: w, t, by rw [List.map_cons, List.cons_append, he, ht]; rfl,
          calm_cons.mpr ⟨hc, hw⟩, fun _ => List.cons_ne_nil _ _, hs⟩
      · refine ⟨backslashes (m + 1) ++ c :: w, t, ?_,
          calm_append.mpr ⟨calm_backslashes _, calm_cons.mpr ⟨hc, hw⟩⟩, by simp, hs⟩
        rw [List.map_cons, List.cons_append, he, ht, show 2 * m + 1 = m + (m + 1) by omega,
          backslashes_add, List.append_assoc, List.append_assoc]
        rfl

theorem writeFrom_slashes (m n : Nat) (ss : List Symbol) :
    writeFrom m (slashes n ++ ss) = writeFrom (m + n) ss := by
  induction n generalizing m with
  | zero => rfl
  | succ n ih =>
    rw [slashes, List.replicate_succ, List.cons_append, writeFrom, ← slashes, ih]
    congr 1
    omega

end Writing

theorem flatMap_substitute_slashes (b : Bindings) (n : Nat) (ss : List Symbol) :
    (slashes n ++ ss).flatMap (substitute b) = slashes n ++ ss.flatMap (substitute b) := by
  have hslashes : (slashes n).flatMap (substitute b) = slashes n := by
    induction n with
    | zero => rfl
    | succ n ih =>
      rw [slashes, List.replicate_succ, List.flatMap_cons, ← slashes, ih]
      rfl
  rw [List.flatMap_append, hslashes]

/-- The chunks of a text are written as a text into which values are spliced. -/
theorem Chunks.writtenFrom {b : Bindings} {s : List Char} {ss : List Symbol} (h : Chunks s ss) :
    Harmless b ss → WrittenFrom s (ss.flatMap (substitute b)) := by
  induction h with
  | nil => exact fun _ m => ⟨[], (List.append_nil _).symm, .nil⟩
  | char c _ ih => exact fun hb => (ih hb.tail).char c
  | @escape n s ss _ ih =>
    intro hb m
    obtain ⟨t, ht, hs⟩ := ih hb.of_append.tail.tail 0
    have hole : Hole (backslashes (2 * n + 1) ++ ['$', '('])
        (backslashes (m + 2 * n + 1) ++ ['$', '(']) :=
      hole_of_calm _ (by decide) (by simp) (calm_opening _)
    refine ⟨backslashes (m + 2 * n + 1) ++ '$' :: '(' :: t, ?_, by simpa using Spliced.hole hole hs⟩
    have hss : (slashes n ++ .char '$' :: .char '(' :: ss).flatMap (substitute b) =
        slashes n ++ .char '$' :: .char '(' :: ss.flatMap (substitute b) :=
      flatMap_substitute_slashes b n _
    have hm : 2 * (m + n) + 1 = m + (m + 2 * n + 1) := by omega
    rw [hss, writeFrom_slashes, writeFrom, ht, hm, ← List.append_assoc, ← backslashes_add]
    rfl
  | @reference n name s ss _ ih =>
    intro hb m
    have hwritten := ih hb.of_append.tail
    obtain ⟨hname, hvalue⟩ := hb name (by simp)
    have hss : (slashes n ++ .reference name :: ss).flatMap (substitute b) =
        slashes n ++ (substitute b (.reference name) ++ ss.flatMap (substitute b)) :=
      flatMap_substitute_slashes b n _
    rw [hss, substitute]
    cases hget : b.get? (String.ofList name) with
    | none =>
      -- the reference is kept, behind twice the backslashes that are left of it
      obtain ⟨t, ht, hs⟩ := hwritten 0
      have hole : Hole (backslashes (2 * n) ++ ['$', '(']) (backslashes (m + 2 * n) ++ ['$', '(']) :=
        hole_of_calm _ (by decide) (by simp) (calm_opening _)
      refine ⟨backslashes (m + 2 * n) ++ '$' :: '(' :: (name ++ ')' :: t), ?_, ?_⟩
      · have hm : 2 * (m + n) = m + (m + 2 * n) := by omega
        dsimp only
        rw [List.singleton_append, writeFrom_slashes, writeFrom, ht, hm, ← List.append_assoc,
          ← backslashes_add]
        simp [backslashes]
      · simpa using Spliced.hole hole ((Spliced.refl name).append (.keep ')' hs))
    | some value =>
      obtain ⟨hne, hcalm⟩ := hvalue value hget
      have hl : Calm (backslashes n ++ value.toList) :=
        calm_append.mpr ⟨calm_backslashes n, hcalm⟩
      obtain ⟨w, t, ht, hw, hwne, hs⟩ := hwritten.value hl m
      have hvne : backslashes n ++ value.toList ≠ [] := fun he =>
        hne (String.toList_eq_nil_iff.mp (List.append_eq_nil_iff.mp he).2)
      have hole : Hole (backslashes (2 * n) ++ '$' :: '(' :: (name ++ [')'])) w :=
        hole_of_calm _ (calm_append.mpr ⟨hname, by decide⟩) (hwne hvne) hw
      refine ⟨w ++ t, ?_, by simpa using Spliced.hole hole hs⟩
      rw [← ht, List.map_append, ← slashes_eq_map, List.append_assoc]
      rfl

/-- **Deferring expansion splices values into a text.** -/
theorem spliced_of_expandPartly {b : Bindings} {t t' : String} (h : expandPartly b t = .ok t')
    (hb : Harmless b (read t.toList)) : Spliced t.toList t'.toList := by
  unfold expandPartly at h
  dsimp only at h
  split at h
  · cases h
  · next hclosed =>
    cases h
    obtain ⟨r, hr, hs⟩ := (chunks_read hclosed).writtenFrom hb 0
    rw [String.toList_ofList, write, hr]
    exact hs

/-! ### References of a text that was written -/

theorem reference_not_mem_slashes (name : List Char) (n : Nat) :
    .reference name ∉ slashes n := by
  simp [slashes, List.mem_replicate]

theorem reference_not_mem_escaped (name : List Char) (n : Nat) (acc : List Char) :
    .reference name ∉ escaped n acc := by
  simp [escaped, slashes, List.mem_replicate]

/-- Reading a text that was written finds no reference that was not written, neither outside of an
escaped reference nor inside of one. -/
theorem mem_of_mem_reread {name : List Char} {ss : List Symbol} (hr : Readable ss) :
    (∀ j, .reference name ∈ readFrom (.text 0) (writeFrom j ss) → .reference name ∈ ss) ∧
      ∀ n acc j, .reference name ∈ readFrom (.name (2 * n + 1) acc) (writeFrom j ss) →
        .reference name ∈ ss := by
  -- the cases are those of writing, behind any number of backslashes
  obtain ⟨k, -⟩ : ∃ k, k = 0 := ⟨0, rfl⟩
  fun_induction writeFrom k ss with
  | case1 =>
    refine ⟨fun j h => ?_, fun n acc j h => ?_⟩
    · rw [reread_nil] at h
      exact absurd h (reference_not_mem_slashes name j)
    · rw [reread_name_nil] at h
      simp at h
  | case2 _ ss ih =>
    obtain ⟨ht, hn⟩ := ih hr.tail
    refine ⟨fun j h => ?_, fun n acc j h => ?_⟩
    · rw [writeFrom] at h
      exact List.mem_cons_of_mem _ (ht _ h)
    · rw [writeFrom] at h
      exact List.mem_cons_of_mem _ (hn _ _ _ h)
  | case3 _ ss ih =>
    obtain ⟨-, hn⟩ := ih hr.tail.tail
    refine ⟨fun j h => ?_, fun n acc j h => ?_⟩
    · rw [reread_open] at h
      exact List.mem_cons_of_mem _ (List.mem_cons_of_mem _ (hn _ _ _ h))
    · have hparen : ')' ∉ ['$', '('] := by decide
      rw [writeFrom, readFrom_name_slashes] at h
      change _ ∈ readFrom _ (['$', '('] ++ writeFrom 0 ss) at h
      rw [readFrom_name_append _ hparen] at h
      exact List.mem_cons_of_mem _ (List.mem_cons_of_mem _ (hn _ _ _ h))
  | case4 _ c ss hc hd ih =>
    obtain ⟨ht, hn⟩ := ih hr.tail
    refine ⟨fun j h => ?_, fun n acc j h => ?_⟩
    · rw [reread_char hc hd, List.mem_append, List.mem_cons] at h
      rcases h with h | h | h
      · exact absurd h (reference_not_mem_slashes name j)
      · cases h
      · exact List.mem_cons_of_mem _ (ht _ h)
    · by_cases hp : c = ')'
      · subst hp
        rw [reread_name_close, List.mem_append, List.mem_append, List.mem_cons] at h
        rcases h with h | h | h | h
        · exact absurd h (reference_not_mem_escaped name n acc)
        · exact absurd h (reference_not_mem_slashes name j)
        · cases h
        · exact List.mem_cons_of_mem _ (ht _ h)
      · rw [reread_name_char hc hd hp] at h
        exact List.mem_cons_of_mem _ (hn _ _ _ h)
  | case5 _ nm ss ih =>
    obtain ⟨ht, -⟩ := ih hr.tail
    have hnm : ')' ∉ nm := hr.names nm List.mem_cons_self
    refine ⟨fun j h => ?_, fun n acc j h => ?_⟩
    · rw [reread_reference hnm, List.mem_append, List.mem_cons] at h
      rcases h with h | h | h
      · exact absurd h (reference_not_mem_slashes name j)
      · rw [h]
        exact List.mem_cons_self
      · exact List.mem_cons_of_mem _ (ht _ h)
    · -- the reference is taken into the escaped one
      have hparen : ')' ∉ '$' :: '(' :: nm := by simpa using hnm
      rw [writeFrom, List.append_assoc, readFrom_name_slashes] at h
      change _ ∈ readFrom _ (('$' :: '(' :: nm) ++ ')' :: writeFrom 0 ss) at h
      rw [readFrom_name_append _ hparen, readFrom, readReference_odd, List.append_assoc,
        List.mem_append, List.mem_append, List.mem_singleton] at h
      rcases h with h | h | h
      · exact absurd h (reference_not_mem_escaped name n _)
      · cases h
      · exact List.mem_cons_of_mem _ (ht 0 h)
  | case6 => exact absurd List.mem_cons_self hr.closed

/-- No pass makes a reference that was not there. -/
theorem mem_read_of_expandPartly {b : Bindings} {t t' : String} (h : expandPartly b t = .ok t')
    {name : List Char} (hn : .reference name ∈ read t'.toList) : .reference name ∈ read t.toList := by
  unfold expandPartly at h
  dsimp only at h
  split at h
  · cases h
  · next hclosed =>
    cases h
    rw [String.toList_ofList] at hn
    have hr := (readable_read hclosed).flatMap_substitute b
    obtain ⟨s, hs, hm⟩ := List.mem_flatMap.mp ((mem_of_mem_reread hr).1 0 hn)
    rcases mem_substitute hm with ⟨c, hc⟩ | rfl
    · cases hc
    · exact hs

/-! ### Fragments behind all passes -/

/-- The text comes from the written one by deferring passes, each with some of the bindings. -/
inductive Deferred (bs : List Bindings) (written : String) : String → Prop where
  | start : Deferred bs written written
  | pass {b : Bindings} {t t' : String} (h : Deferred bs written t) (hb : b ∈ bs)
      (he : expand b .deferring t = .ok t') : Deferred bs written t'

theorem Deferred.mono {bs bs' : List Bindings} {written t : String} (h : Deferred bs written t)
    (hbs : bs ⊆ bs') : Deferred bs' written t := by
  induction h with
  | start => exact .start
  | pass _ hb he ih => exact ih.pass (hbs hb) he

/-- An open fragment is open behind deferring passes, and has no other references than before. -/
theorem Deferred.isOpen {bs : List Bindings} {written t : String} (h : Deferred bs written t)
    (ho : isOpen written.toList = true) (hb : ∀ b ∈ bs, Harmless b (read written.toList)) :
    Xml.isOpen t.toList = true ∧
      ∀ name, .reference name ∈ read t.toList → .reference name ∈ read written.toList := by
  induction h with
  | start => exact ⟨ho, fun _ hn => hn⟩
  | pass _ hmem he ih =>
    obtain ⟨hopen, hrefs⟩ := ih
    have hs := spliced_of_expandPartly he ((hb _ hmem).mono hrefs)
    exact ⟨isOpen_of_spliced hopen hs, fun name hn => hrefs name (mem_read_of_expandPartly he hn)⟩

/-- **An open fragment is well formed behind any number of deferring passes and a complete one**, if
the names and the values of its references are calm. -/
theorem Deferred.isWellFormed {bs : List Bindings} {written t t' : String} {b : Bindings}
    (h : Deferred bs written t) (he : expand b .complete t = .ok t')
    (ho : Xml.isOpen written.toList = true)
    (hb : ∀ b' ∈ b :: bs, Harmless b' (read written.toList)) :
    Xml.isWellFormed t'.toList = true := by
  obtain ⟨hopen, hrefs⟩ := h.isOpen ho fun b' hb' => hb b' (List.mem_cons_of_mem b hb')
  have hs := spliced_of_expandFully he ((hb b List.mem_cons_self).mono hrefs)
  exact isWellFormed_of_isOpen (isOpen_of_spliced hopen hs)

end BuildPlan.Variable
