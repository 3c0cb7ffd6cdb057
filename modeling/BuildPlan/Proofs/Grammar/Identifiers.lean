import BuildPlan.Proofs.Grammar.Lexemes

/-! # What identifiers are

An identifier is made of characters and variable references, and so is a bare word. Both are read
back if what stands behind them does not go on with them (`Stops isNameChar`, `Stops isLexical`).
The rule for identifiers finds nothing else (`isIdentifier_iff`). -/

namespace BuildPlan.Grammar

open BuildPlan.Text BuildPlan.Grammar.Rule

/-! ### Identifiers -/

/-- A character of the name in a variable reference. -/
def isReferenceChar (c : Char) : Bool := c != ')' && notLineEnd c

/-- A variable reference, which may be escaped. -/
inductive IsReference : List Char → Prop
  | plain {n : List Char} (hn : ∀ c ∈ n, isReferenceChar c = true) :
      IsReference ('$' :: '(' :: n ++ [')'])
  | escaped {n : List Char} (hn : ∀ c ∈ n, isReferenceChar c = true) :
      IsReference ('\\' :: '$' :: '(' :: n ++ [')'])

/-- What an identifier may go on with: letters, digits, underscores, dots, dashes and variable
references. -/
inductive IsNameTail : List Char → Prop
  | nil : IsNameTail []
  | char {c : Char} {s : List Char} (hc : isIdentifierChar c = true) (hs : IsNameTail s) :
      IsNameTail (c :: s)
  | reference {v s : List Char} (hv : IsReference v) (hs : IsNameTail s) : IsNameTail (v ++ s)

/-- An identifier begins with a letter, an underscore or a variable reference. -/
inductive IsIdentifier : List Char → Prop
  | word {c : Char} {s : List Char} (hc : isWordStart c = true) (hs : IsNameTail s) :
      IsIdentifier (c :: s)
  | reference {v s : List Char} (hv : IsReference v) (hs : IsNameTail s) : IsIdentifier (v ++ s)

theorem IsReference.exists_cons {v : List Char} (h : IsReference v) :
    ∃ c t, v = c :: t ∧ isIdentifierChar c = false ∧ isLexical c = true ∧
      isWordStart c = false := by
  cases h with
  | plain => exact ⟨'$', _, rfl, by decide⟩
  | escaped => exact ⟨'\\', _, rfl, by decide⟩

theorem IsIdentifier.exists_cons {w : List Char} (h : IsIdentifier w) :
    ∃ c t, w = c :: t ∧ isLexical c = true ∧ c ≠ '/' := by
  cases h with
  | word hc =>
    refine ⟨_, _, rfl, isLexical_of_isWordStart hc, ?_⟩
    rintro rfl
    cases hc
  | reference hv =>
    cases hv with
    | plain => exact ⟨'$', _, rfl, by decide⟩
    | escaped => exact ⟨'\\', _, rfl, by decide⟩

theorem IsIdentifier.head?_ne {w : List Char} (h : IsIdentifier w) (s : List Char) {c : Char}
    (hc : isLexical c = false) : (w ++ s).head? ≠ some c := by
  obtain ⟨d, t, rfl, hd, -⟩ := h.exists_cons
  intro he
  obtain rfl : d = c := Option.some.inj he
  rw [hd] at hc
  cases hc

theorem IsIdentifier.isNameTail {w : List Char} (h : IsIdentifier w) : IsNameTail w := by
  cases h with
  | word hc hs =>
    exact .char (isIdentifierChar_of_isWordChar (isWordChar_of_isWordStart hc)) hs
  | reference hv hs => exact .reference hv hs

theorem read_reference {v : List Char} (h : IsReference v) (s : List Char) :
    reference.read (v ++ s) = some (v, s) := by
  have hname : ∀ {n : List Char}, (∀ c ∈ n, isReferenceChar c = true) →
      (run fun c => c != ')' && notLineEnd c).read (n ++ ')' :: s) = some (n, ')' :: s) :=
    fun hn => read_run_append hn (stops_cons.mpr rfl)
  unfold reference
  cases h with
  | plain hn =>
    simp [read_bind, read_optional, read_symbol_cons, read_exactly_cons, hname hn]
  | escaped hn =>
    simp [read_bind, read_optional, read_symbol_cons, read_exactly_cons, hname hn]

theorem read_reference_eq_none {s : List Char} (h : Stops (fun c => c == '$' || c == '\\') s) :
    reference.read s = none := by
  unfold reference
  cases s with
  | nil => rfl
  | cons c s =>
    simp only [stops_cons, Bool.or_eq_false_iff, beq_eq_false_iff_ne] at h
    simp [read_bind, read_optional, read_symbol_cons, read_exactly_cons, h]

/-- One round of the rule for identifiers. -/
def namePart : Rule (List Char) := firstOf [run1 isIdentifierChar, reference]

theorem read_namePart_char {c : Char} (hc : isIdentifierChar c = true) (s : List Char) :
    namePart.read (c :: s) =
      some (c :: s.takeWhile isIdentifierChar, s.dropWhile isIdentifierChar) := by
  unfold namePart
  rw [read_firstOf_cons, read_run1_cons, if_pos hc, Option.some_or]

theorem read_namePart_reference {v : List Char} (hv : IsReference v) (s : List Char) :
    namePart.read (v ++ s) = some (v, s) := by
  unfold namePart
  rw [read_firstOf_cons, read_firstOf_cons, read_reference hv]
  obtain ⟨c, t, rfl, hc, -⟩ := hv.exists_cons
  rw [List.cons_append, read_run1_cons, if_neg (by simp [hc])]
  rfl

theorem read_namePart_eq_none {s : List Char} (hs : Stops isNameChar s) :
    namePart.read s = none := by
  have hc : Stops isIdentifierChar s := hs.mono fun c h => by simp [isNameChar, h]
  have hr : Stops (fun c => c == '$' || c == '\\') s := hs.mono fun c h => by
    simp only [isNameChar, Bool.or_eq_true] at h ⊢
    grind
  unfold namePart
  rw [read_firstOf_cons, read_firstOf_cons, read_run1_eq_none hc, read_reference_eq_none hr]
  rfl

theorem repeats_namePart {w s : List Char} (hw : IsNameTail w) (hs : Stops isNameChar s) :
    ∃ parts, Repeats namePart (w ++ s) parts s ∧ parts.flatten = w := by
  induction hw with
  | nil => exact ⟨[], .stop (read_namePart_eq_none hs), rfl⟩
  | char hc _ ih =>
    obtain ⟨parts, hp, rfl⟩ := ih
    exact hp.cons_run1 (fun _ _ h => read_namePart_char h _) hc
  | @reference v w hv _ ih =>
    obtain ⟨parts, hp, rfl⟩ := ih
    refine ⟨v :: parts, .step (by rw [List.append_assoc, read_namePart_reference hv]) ?_ hp, rfl⟩
    obtain ⟨c, t, rfl, -⟩ := hv.exists_cons
    simp only [List.cons_append, List.length_cons, List.length_append]
    omega

theorem read_identifier {w s : List Char} (hw : IsIdentifier w) (hs : Stops isNameChar s) :
    identifier.read (w ++ s) = some (String.ofList w, s) := by
  unfold identifier
  rw [read_bind, read_firstOf_cons, read_firstOf_cons, read_map]
  cases hw with
  | word hc ht =>
    obtain ⟨parts, hp, rfl⟩ := repeats_namePart ht hs
    rw [List.cons_append, read_one_cons, if_pos hc]
    simp only [Option.map_some, Option.some_or, Option.bind_some]
    rw [read_bind, ← namePart, hp.read_many]
    rfl
  | @reference v w hv ht =>
    obtain ⟨parts, hp, rfl⟩ := repeats_namePart ht hs
    rw [List.append_assoc, read_reference hv]
    obtain ⟨c, t, rfl, -, -, hc⟩ := hv.exists_cons
    rw [List.cons_append, read_one_cons, if_neg (by simp [hc])]
    simp only [Option.map_none, Option.none_or, Option.some_or, Option.bind_some]
    rw [read_bind, ← namePart, hp.read_many]
    rfl

theorem read_identifier_eq_none {s : List Char}
    (hs : Stops (fun c => isWordStart c || c == '$' || c == '\\') s) :
    identifier.read s = none := by
  have hw : Stops isWordStart s := hs.mono fun c h => by simp [h]
  have hr : Stops (fun c => c == '$' || c == '\\') s := hs.mono fun c h => by
    simp only [Bool.or_eq_true] at h ⊢
    grind
  unfold identifier
  rw [read_bind, read_firstOf_cons, read_firstOf_cons, read_map, read_one_eq_none hw,
    read_reference_eq_none hr]
  rfl

/-! ### What identifiers are -/

theorem IsNameTail.append {s t : List Char} (hs : IsNameTail s) (ht : IsNameTail t) :
    IsNameTail (s ++ t) := by
  induction hs with
  | nil => exact ht
  | char hc _ ih => exact .char hc ih
  | reference hv _ ih =>
    rw [List.append_assoc]
    exact .reference hv ih

theorem isNameTail_chars : ∀ {s : List Char}, (∀ c ∈ s, isIdentifierChar c = true) → IsNameTail s
  | [], _ => .nil
  | c :: s, h => .char (h c (by simp)) (isNameTail_chars fun d hd => h d (by simp [hd]))

theorem isNameTail_flatten : ∀ {parts : List (List Char)}, (∀ p ∈ parts, IsNameTail p) →
    IsNameTail parts.flatten
  | [], _ => .nil
  | p :: ps, h => (h p (by simp)).append (isNameTail_flatten fun q hq => h q (by simp [hq]))

theorem isReference_of_read {s v t : List Char} (h : reference.read s = some (v, t)) :
    s = v ++ t ∧ IsReference v := by
  obtain ⟨escape, s₁, he, h₁⟩ := of_read_bind h
  obtain ⟨x, s₂, ho, h₂⟩ := of_read_bind h₁
  obtain ⟨name, s₃, hn, h₃⟩ := of_read_bind h₂
  obtain ⟨y, s₄, hc, h₄⟩ := of_read_bind h₃
  have hs₂ := of_read_exactly ho
  have hs₄ := of_read_symbol hc
  have hname : ∀ c ∈ name, isReferenceChar c = true := by
    cases hn
    exact List.all_eq_true.mp List.all_takeWhile
  have hs₃ : s₂ = name ++ s₃ := by
    cases hn
    exact List.takeWhile_append_dropWhile.symm
  cases h₄
  rw [read_optional] at he
  cases hb : (symbol '\\').read s with
  | none =>
    rw [hb] at he
    cases he
    refine ⟨?_, .plain hname⟩
    rw [hs₂, hs₃, hs₄]
    simp
  | some p =>
    rw [hb] at he
    cases he
    refine ⟨?_, .escaped hname⟩
    rw [of_read_symbol hb, hs₂, hs₃, hs₄]
    simp

theorem isNameTail_of_read {s a t : List Char} (h : namePart.read s = some (a, t)) :
    s = a ++ t ∧ IsNameTail a := by
  unfold namePart at h
  rw [read_firstOf_cons, read_firstOf_cons, read_firstOf_nil, Option.or_none] at h
  rcases Option.or_eq_some_iff.mp h with h | ⟨-, h⟩
  · obtain ⟨rfl, ha⟩ := of_read_run1 h
    exact ⟨rfl, isNameTail_chars ha⟩
  · obtain ⟨rfl, ha⟩ := isReference_of_read h
    refine ⟨rfl, ?_⟩
    rw [← List.append_nil a]
    exact .reference ha .nil

/-- What the rule for identifiers finds is one. -/
theorem isIdentifier_of_read {s t : List Char} {a : String} (h : identifier.read s = some (a, t)) :
    s = a.toList ++ t ∧ IsIdentifier a.toList := by
  obtain ⟨first, s₁, hf, h₁⟩ := of_read_bind h
  obtain ⟨more, s₂, hm, h₂⟩ := of_read_bind h₁
  obtain ⟨rfl, hmore⟩ := of_read_manyUpTo isNameTail_of_read hm
  have htail := isNameTail_flatten hmore
  cases h₂
  rw [String.toList_ofList]
  rw [read_firstOf_cons, read_firstOf_cons, read_firstOf_nil, Option.or_none] at hf
  rcases Option.or_eq_some_iff.mp hf with hf | ⟨-, hf⟩
  · cases s with
    | nil => cases hf
    | cons c s =>
      rw [read_map, read_one_cons] at hf
      split at hf
      · next hc =>
        cases hf
        exact ⟨by simp, .word hc htail⟩
      · cases hf
  · obtain ⟨rfl, hv⟩ := isReference_of_read hf
    exact ⟨by simp, .reference hv htail⟩

/-- **The identifiers are the texts that the rule for them reads as a whole.** -/
theorem isIdentifier_iff {w : List Char} :
    IsIdentifier w ↔ identifier.read w = some (String.ofList w, []) := by
  constructor
  · intro h
    have hr := read_identifier (s := []) h (stops_nil _)
    rwa [List.append_nil] at hr
  · intro h
    have hw := (isIdentifier_of_read h).2
    rwa [String.toList_ofList] at hw

instance : DecidablePred IsIdentifier := fun _ => decidable_of_iff _ isIdentifier_iff.symm

/-! ### Bare words -/

/-- One round of the rule for bare words. -/
def barePart : Rule (List Char) := firstOf [bareRun, reference]

theorem splitBare_cons {c : Char} (hc : isIdentifierChar c = true) (s : List Char) :
    splitBare (c :: s) = (c :: (splitBare s).1, (splitBare s).2) := by
  rw [splitBare]
  · rw [if_pos (isBareChar_of_isIdentifierChar hc)]
  · rintro t rfl -
    cases hc

theorem splitBare_eq_nil : ∀ {s : List Char}, (splitBare s).1 = [] → (splitBare s).2 = s
  | [], _ => rfl
  | c :: s, h => by
    unfold splitBare at h ⊢
    split at h <;> simp_all
    split at h <;> simp_all

theorem splitBare_append_eq (s : List Char) : (splitBare s).1 ++ (splitBare s).2 = s := by
  fun_induction splitBare s with
  | case1 => rfl
  | case2 => rfl
  | case3 c s _ _ taken rest he ih =>
    rw [he] at ih
    rw [List.cons_append, ih]
  | case4 => rfl

theorem length_splitBare_le (s : List Char) : (splitBare s).2.length ≤ s.length := by
  have h := congrArg List.length (splitBare_append_eq s)
  rw [List.length_append] at h
  omega

theorem read_bareRun_of_ne_nil {s : List Char} (h : (splitBare s).1 ≠ []) :
    bareRun.read s = some (splitBare s) := by
  dsimp only [bareRun, Rule.read]
  split
  · next he => exact absurd (by rw [he]) h
  · next he => exact congrArg some he.symm

theorem read_barePart_char {c : Char} (hc : isIdentifierChar c = true) (s : List Char) :
    barePart.read (c :: s) = some (c :: (splitBare s).1, (splitBare s).2) := by
  have hs := splitBare_cons hc s
  unfold barePart
  rw [read_firstOf_cons, read_bareRun_of_ne_nil (by rw [hs]; simp), hs]
  rfl

theorem split_of_read_bareRun {s a t : List Char} (h : bareRun.read s = some (a, t)) :
    splitBare s = (a, t) ∧ a ≠ [] := by
  unfold Rule.read bareRun at h
  split at h
  · cases h
  · next taken rest hne he =>
    cases h
    exact ⟨he, hne⟩

theorem read_bareRun_of_nil {s : List Char} (h : (splitBare s).1 = []) : bareRun.read s = none := by
  have he : splitBare s = ([], s) := Prod.ext h (splitBare_eq_nil h)
  dsimp only [bareRun, Rule.read]
  rw [he]

theorem read_bareRun_eq_none {s : List Char} (hs : Stops isBareChar s) : bareRun.read s = none := by
  refine read_bareRun_of_nil ?_
  fun_cases splitBare s with
  | case1 => rfl
  | case2 => rfl
  | case3 c s _ hc => rw [stops_cons.mp hs] at hc; cases hc
  | case4 => rfl

theorem read_barePart_eq_none {s : List Char} (hs : Stops isLexical s) :
    barePart.read s = none := by
  have hr : Stops (fun c => c == '$' || c == '\\') s := hs.mono fun c h => by
    simp only [isLexical, Bool.or_eq_true] at h ⊢
    grind
  unfold barePart
  rw [read_firstOf_cons, read_firstOf_cons,
    read_bareRun_eq_none (hs.mono fun _ => isLexical_of_isBareChar), read_reference_eq_none hr]
  rfl

theorem read_barePart_reference {v : List Char} (hv : IsReference v) (s : List Char) :
    barePart.read (v ++ s) = some (v, s) := by
  have hb : Stops isBareChar (v ++ s) := by
    cases hv <;> exact stops_cons.mpr rfl
  unfold barePart
  rw [read_firstOf_cons, read_firstOf_cons, read_reference hv, read_bareRun_eq_none hb]
  rfl

theorem repeats_barePart {w s : List Char} (hw : IsNameTail w) (hs : Stops isLexical s) :
    ∃ parts, Repeats barePart (w ++ s) parts s ∧ parts.flatten = w := by
  induction hw with
  | nil => exact ⟨[], .stop (read_barePart_eq_none hs), rfl⟩
  | char hc _ ih =>
    obtain ⟨parts, hp, rfl⟩ := ih
    refine hp.cons_run splitBare (read_barePart_char hc) (fun _ => splitBare_eq_nil)
      (fun s h => ?_) length_splitBare_le
    rw [barePart, read_firstOf_cons, read_bareRun_of_ne_nil h]
    rfl
  | @reference v w hv _ ih =>
    obtain ⟨parts, hp, rfl⟩ := ih
    refine ⟨v :: parts, .step (by rw [List.append_assoc, read_barePart_reference hv]) ?_ hp, rfl⟩
    obtain ⟨c, t, rfl, -⟩ := hv.exists_cons
    simp only [List.cons_append, List.length_cons, List.length_append]
    omega

/-- An identifier is a bare word. -/
theorem read_bareWord {w s : List Char} (hw : IsIdentifier w) (hs : Stops isLexical s) :
    bareWord.read (w ++ s) = some (String.ofList w, s) := by
  obtain ⟨parts, hp, rfl⟩ := repeats_barePart hw.isNameTail hs
  cases parts with
  | nil =>
    obtain ⟨c, t, h, -⟩ := hw.exists_cons
    cases h
  | cons part parts =>
    unfold bareWord
    rw [read_bind, ← barePart, hp.read_many1]
    rfl

theorem read_bareWord_eq_none {s : List Char} (hs : Stops isLexical s) :
    bareWord.read s = none := by
  unfold bareWord many1
  rw [read_bind, read_andThen, ← barePart, read_barePart_eq_none hs]
  rfl

end BuildPlan.Grammar
