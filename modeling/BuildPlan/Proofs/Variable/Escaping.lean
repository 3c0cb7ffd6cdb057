import BuildPlan.Proofs.Variable.Stages

/-! # Texts that are escaped

A text that is to stand for itself is written with more backslashes than it has: every `$(` gets one
more than twice those in front of it, and in front of a reference those at the end are doubled. This is
how a deferring expansion writes what it has put in (`writeFrom_chars`, `writeFrom_chars_reference`).
A complete expansion halves the backslashes again, and takes everything between an escaped `$(` and the
next closing parenthesis as it stands. So it gives the text back exactly if every `$(` in it is closed
before the next one and the end (`expand_escape`). -/

namespace BuildPlan.Variable

/-- A text as it is written behind so many backslashes. -/
def escapeFrom (beforeReference : Bool) : Nat → List Char → List Char
  | n, [] => List.replicate (if beforeReference then 2 * n else n) '\\'
  | n, '\\' :: s => escapeFrom beforeReference (n + 1) s
  | n, '$' :: '(' :: s =>
    List.replicate (2 * n + 1) '\\' ++ '$' :: '(' :: escapeFrom beforeReference 0 s
  | n, c :: s => List.replicate n '\\' ++ c :: escapeFrom beforeReference 0 s

/-- A text as it is written in order to stand for itself, before a reference or not. -/
def escape (beforeReference : Bool) (s : String) : String :=
  String.ofList (escapeFrom beforeReference 0 s.toList)

/-! ### What a deferring expansion writes -/

theorem map_char_ne {c : Char} {s : List Char} (hd : ∀ t, c = '$' → s = '(' :: t → False)
    (ss : List Symbol) (hss : ss.head? ≠ some (.char '(')) :
    ∀ ts, s.map .char ++ ss = .char '(' :: ts → c = '$' → False := by
  intro ts he hc
  cases s with
  | nil =>
    rw [List.map_nil, List.nil_append] at he
    exact hss (by rw [he]; rfl)
  | cons d s =>
    rw [List.map_cons, List.cons_append, List.cons.injEq, Symbol.char.injEq] at he
    exact hd s hc (by rw [he.1])

theorem writeFrom_chars (n : Nat) (s : List Char) :
    writeFrom n (s.map .char) = escapeFrom false n s := by
  fun_induction escapeFrom false n s with
  | case1 n => rfl
  | case2 n s ih => rw [List.map_cons, writeFrom, ih]
  | case3 n s ih => rw [List.map_cons, List.map_cons, writeFrom, ih]
  | case4 n c s hc hd ih =>
    have hne := map_char_ne hd [] (by simp)
    rw [List.append_nil] at hne
    rw [List.map_cons, writeFrom_char hc hne, ih]

theorem writeFrom_chars_reference (n : Nat) (s name : List Char) (ss : List Symbol) :
    writeFrom n (s.map .char ++ .reference name :: ss) =
      escapeFrom true n s ++ '$' :: '(' :: name ++ ')' :: write ss := by
  fun_induction escapeFrom true n s with
  | case1 n => simp [writeFrom, write]
  | case2 n s ih => rw [List.map_cons, List.cons_append, writeFrom, ih]
  | case3 n s ih =>
    rw [List.map_cons, List.map_cons, List.cons_append, List.cons_append, writeFrom, ih]
    simp
  | case4 n c s hc hd ih =>
    rw [List.map_cons, List.cons_append, writeFrom_char hc (map_char_ne hd _ (by simp)), ih]
    simp

/-! ### Closed parentheses -/

/-- A closing parenthesis comes before the next `$(` and the end. -/
def ClosesFirst (s : List Char) : Prop := ∃ u v, s = u ++ ')' :: v ∧ ¬ ['$', '('] <:+: u

/-- The parenthesis of every `$(` is closed before the next `$(` and the end. -/
def Closes (s : List Char) : Prop := ∀ u v, s = u ++ '$' :: '(' :: v → ClosesFirst v

theorem not_closesFirst_nil : ¬ ClosesFirst [] := by
  rintro ⟨u, v, h, -⟩
  simp at h

theorem closes_nil : Closes [] := by
  intro u v h
  simp at h

theorem closesFirst_cons {c : Char} {s : List Char} :
    ClosesFirst (c :: s) ↔ c = ')' ∨ ClosesFirst s ∧ ∀ t, c = '$' → s = '(' :: t → False := by
  constructor
  · rintro ⟨u, v, h, hu⟩
    cases u with
    | nil => exact Or.inl (List.cons.inj h).1
    | cons d u =>
      obtain ⟨rfl, rfl⟩ := List.cons.inj h
      refine Or.inr ⟨⟨u, v, rfl, fun hi => hu (hi.trans (List.suffix_cons c u).isInfix)⟩, ?_⟩
      rintro t rfl ht
      cases u with
      | nil => cases ht
      | cons d u =>
        obtain ⟨rfl, -⟩ := List.cons.inj ht
        exact hu (List.prefix_append ['$', '('] u).isInfix
  · rintro (rfl | ⟨⟨u, v, rfl, hu⟩, hd⟩)
    · exact ⟨[], s, rfl, by simp⟩
    · refine ⟨c :: u, v, rfl, fun hi => ?_⟩
      rcases List.infix_cons_iff.mp hi with hp | hi
      · obtain ⟨rfl, t, rfl⟩ := List.cons_prefix_cons.mp hp
        exact hd _ rfl rfl
      · exact hu hi

theorem closes_cons {c : Char} {s : List Char} :
    Closes (c :: s) ↔ (∀ t, c = '$' → s = '(' :: t → ClosesFirst t) ∧ Closes s := by
  constructor
  · intro h
    refine ⟨fun t hc hs => h [] t (by rw [hc, hs]; rfl), fun u v hs => h (c :: u) v (by rw [hs]; rfl)⟩
  · rintro ⟨hc, hs⟩ u v h
    cases u with
    | nil =>
      obtain ⟨rfl, rfl⟩ := List.cons.inj h
      exact hc v rfl rfl
    | cons d u => exact hs u v (List.cons.inj h).2

/-- Characters are settled exactly if every `$(` is closed, at the end and in front of what asks for the
same. -/
theorem isSettled_chars_iff {ss : List Symbol} (hss : ∀ o, isSettled o ss = !o)
    (hp : ss.head? ≠ some (.char '(')) : ∀ (opened : Bool) (s : List Char),
      isSettled opened (s.map .char ++ ss) = true ↔ (opened = true → ClosesFirst s) ∧ Closes s
  | opened, [] => by
    have hnil := not_closesFirst_nil
    have hcloses := closes_nil
    rw [List.map_nil, List.nil_append, hss]
    cases opened <;> simp [hnil, hcloses]
  | opened, c :: s => by
    by_cases hopen : ∃ t, c = '$' ∧ s = '(' :: t
    · obtain ⟨t, rfl, rfl⟩ := hopen
      have ih := isSettled_chars_iff hss hp true t
      rw [List.map_cons, List.map_cons, List.cons_append, List.cons_append, isSettled,
        Bool.and_eq_true, ih, closesFirst_cons, closes_cons, closes_cons]
      cases opened <;> simp
    · have hd : ∀ t, c = '$' → s = '(' :: t → False := fun t hc hs => hopen ⟨t, hc, hs⟩
      have hnone : (∀ t, c = '$' → s = '(' :: t → ClosesFirst t) ∧ Closes s ↔ Closes s :=
        and_iff_right fun t hc hs => (hd t hc hs).elim
      rw [closesFirst_cons, closes_cons, hnone, and_iff_left hd, List.map_cons, List.cons_append]
      by_cases hc : c = ')'
      · rw [hc, isSettled, isSettled_chars_iff hss hp false s]
        simp
      · rw [isSettled, isSettled_chars_iff hss hp opened s, or_iff_right hc]
        · exact map_char_ne hd ss hp
        · exact hc
termination_by _ s => s.length

instance (s : List Char) : Decidable (Closes s) :=
  decidable_of_iff (isSettled false (s.map .char ++ []) = true)
    ((isSettled_chars_iff (fun _ => rfl) (by simp) false s).trans (by simp))

/-! ### Reading what was escaped -/

/-- Behind a closing parenthesis reading begins anew. -/
theorem readFrom_append_close (σ : ReadState) (s t : List Char) :
    readFrom σ (s ++ ')' :: t) = readFrom σ (s ++ [')']) ++ read t := by
  fun_induction readFrom σ s with
  | case1 n =>
    rw [List.nil_append, List.nil_append, readFrom, readFrom]
    · simp [read, readFrom, slashes]
    all_goals simp
  | case2 n s ih => exact ih
  | case3 n s ih => exact ih
  | case4 n c s hc hd ih =>
    have hne : ∀ u v : List Char, c = '$' → s ++ ')' :: u = '(' :: v → False := by
      intro u v hdollar h
      cases s with
      | nil => cases h
      | cons d s => exact hd s hdollar (by rw [(List.cons.inj h).1])
    rw [List.cons_append, List.cons_append, readFrom, readFrom, ih, List.append_assoc,
      List.cons_append]
    · exact hc
    · exact hne []
    · exact hc
    · exact hne t
  | case5 n name =>
    rw [List.nil_append, List.nil_append, readFrom, readFrom]
    simp [read, readFrom, slashes]
  | case6 n name s ih =>
    rw [List.cons_append, List.cons_append, readFrom, readFrom, ih, List.append_assoc]
  | case7 n name c s hc ih =>
    rw [List.cons_append, List.cons_append, readFrom, readFrom, ih]
    · exact hc
    · exact hc

/-- An escaped text in front of a reference is read back, whatever stands behind. -/
theorem read_escape_reference {l n : List Char} (hl : Closes l) (hn : ')' ∉ n) (t : List Char) :
    read (escapeFrom true 0 l ++ '$' :: '(' :: n ++ ')' :: t) =
      l.map .char ++ .reference n :: read t := by
  have hr : Readable (l.map .char ++ [.reference n]) := ⟨by simp, by simpa using hn⟩
  have hsettled : isSettled false (l.map .char ++ [.reference n]) = true :=
    (isSettled_chars_iff (by simp [isSettled]) (by simp) false l).mpr ⟨by simp, hl⟩
  have hback := read_write hsettled hr
  rw [write, writeFrom_chars_reference] at hback
  rw [read, readFrom_append_close]
  exact (congrArg (· ++ read t) hback).trans (List.append_assoc _ _ _)

/-- An escaped text comes to itself exactly if every `$(` in it is closed. -/
theorem evaluate?_read_escape_iff (b : Bindings) (l : List Char) :
    evaluate? b (read (escapeFrom false 0 l)) = some l ↔ Closes l := by
  have hiff : isSettled false (l.map .char ++ []) = true ↔ _ :=
    isSettled_chars_iff (fun _ => rfl) (by simp) false l
  rw [List.append_nil] at hiff
  have hr : Readable (l.map .char) := ⟨by simp, by simp⟩
  rw [← writeFrom_chars]
  constructor
  · intro h
    by_contra hl
    have hs : isSettled false (l.map .char) = false :=
      Bool.eq_false_iff.mpr fun hs => hl (hiff.mp hs).2
    exact evaluate?_read_write_ne hs hr (by simp) (evaluate?_chars b l) h
  · intro hl
    have hback := read_write (hiff.mpr ⟨by simp, hl⟩) hr
    rw [write] at hback
    rw [hback, evaluate?_chars]

/-- A text as it is written at the end, and as it is written before a reference. -/
theorem write_plain (l : String) :
    String.ofList (write (plain l)) = escape false l ∧
      ∀ (n : String) (ss : List Symbol),
        String.ofList (write (plain l ++ .reference n.toList :: ss)) =
          escape true l ++ "$(" ++ n ++ ")" ++ String.ofList (write ss) := by
  refine ⟨congrArg String.ofList (writeFrom_chars 0 l.toList), fun n ss => ?_⟩
  rw [write, plain, writeFrom_chars_reference, ← String.toList_inj]
  simp [escape]

/-- **Escaping is undone by a complete expansion.** What a deferring expansion writes for characters is
their escaped text. It is expanded to the text itself, exactly if every `$(` of the text is closed, and
then also before a reference, with any text behind it that can be expanded. -/
theorem expand_escape (b : Bindings) (l : String) :
    (String.ofList (write (plain l)) = escape false l ∧
      ∀ (n : String) (ss : List Symbol),
        String.ofList (write (plain l ++ .reference n.toList :: ss)) =
          escape true l ++ "$(" ++ n ++ ")" ++ String.ofList (write ss)) ∧
    (expand b .complete (escape false l) = .ok l ↔ Closes l.toList) ∧
    (Closes l.toList → ∀ n v s r : String, ')' ∉ n.toList → b.get? n = some v →
      expand b .complete s = .ok r →
        expand b .complete (escape true l ++ "$(" ++ n ++ ")" ++ s) = .ok (l ++ v ++ r)) := by
  refine ⟨write_plain l, ?_, fun hl n v s r hn hv hs => ?_⟩
  · rw [expand_complete_ok, escape, String.toList_ofList, evaluate?_read_escape_iff]
  · have htext : (escape true l ++ "$(" ++ n ++ ")" ++ s).toList =
        escapeFrom true 0 l.toList ++ '$' :: '(' :: n.toList ++ ')' :: s.toList := by
      simp [escape]
    have href : (Symbol.reference n.toList).value? b = some v.toList := by
      rw [Symbol.value?, String.ofList_toList, hv, Option.map_some]
    rw [expand_complete_ok] at hs ⊢
    rw [htext, read_escape_reference hl hn, evaluate?_append_eq_some (evaluate?_chars b l.toList)]
    exact ⟨v.toList ++ r.toList, evaluate?_cons_eq_some.mpr ⟨_, _, href, hs, rfl⟩, by simp⟩

/-- Backslashes in front of a `$(`, behind its end and in front of a reference. -/
theorem expand_escape_backslashes :
    Closes "a\\\\$(N)\\".toList ∧
      escape true "a\\\\$(N)\\" = "a\\\\\\\\\\$(N)\\\\" ∧
      expand (.ofList [("N", "C:\\")]) .complete (escape false "a\\\\$(N)\\") =
        .ok "a\\\\$(N)\\" ∧
      expand (.ofList [("N", "C:\\")]) .complete
          (escape true "a\\\\$(N)\\" ++ "$(" ++ "N" ++ ")" ++ "\\\\$(N)") =
        .ok ("a\\\\$(N)\\" ++ "C:\\" ++ "\\C:\\") := by
  have hl : Closes "a\\\\$(N)\\".toList := by decide
  obtain ⟨-, hend, hbefore⟩ := expand_escape (.ofList [("N", "C:\\")]) "a\\\\$(N)\\"
  exact ⟨hl, by decide, hend.mpr hl, hbefore hl "N" "C:\\" "\\\\$(N)" "\\C:\\" (by decide) rfl rfl⟩

end BuildPlan.Variable
