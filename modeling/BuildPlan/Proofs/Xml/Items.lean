import BuildPlan.Proofs.Xml.Reading

/-! # The items of content

What one item of content is: markup that ends with its closing bracket and is read whatever stands
behind it, character data, a start tag with its attributes, or text up to the next mark (`IsItem`). -/

namespace BuildPlan.Xml

/-! ### Marks -/

theorem stripMark_eq_some : ∀ {mark s rest : List Char},
    stripMark mark s = some rest ↔ s = mark ++ rest
  | [], s, rest => by
    rw [stripMark, Option.some.injEq, List.nil_append]
  | m :: mark, [], rest => by simp [stripMark]
  | m :: mark, c :: s, rest => by
    rw [stripMark]
    split
    · next h => rw [stripMark_eq_some, h, List.cons_append, List.cons.injEq, and_iff_right rfl]
    · next h => simp [Ne.symm h]

theorem stripMark_isSome {mark s : List Char} : (stripMark mark s).isSome = true ↔ mark <+: s := by
  rw [Option.isSome_iff_exists]
  constructor
  · rintro ⟨rest, h⟩
    exact ⟨rest, (stripMark_eq_some.mp h).symm⟩
  · rintro ⟨rest, rfl⟩
    exact ⟨rest, stripMark_eq_some.mpr rfl⟩

/-- The mark behind the text does not stand any earlier. -/
def First (mark a : List Char) : Prop := ∀ ⦃x y⦄, a ++ mark = x ++ (mark ++ y) → y = []

theorem first_nil (mark : List Char) : First mark [] := by
  intro x y h
  have hlen := congrArg List.length h
  simp only [List.nil_append, List.length_append] at hlen
  exact List.eq_nil_of_length_eq_zero (by omega)

theorem first_cons {mark a : List Char} {c : Char} :
    First mark (c :: a) ↔ ¬ mark <+: c :: (a ++ mark) ∧ First mark a := by
  constructor
  · intro h
    refine ⟨?_, fun x y he => h (x := c :: x) (by rw [List.cons_append, he, List.cons_append])⟩
    rintro ⟨y, hy⟩
    obtain rfl := h (x := []) hy.symm
    have hlen := congrArg List.length hy
    simp only [List.length_append, List.length_cons, List.length_nil] at hlen
    omega
  · rintro ⟨hp, h⟩ x y he
    cases x with
    | nil => exact absurd ⟨y, he.symm⟩ hp
    | cons d x => exact h (List.cons.inj he).2

/-- **What is read up to a mark**: the text in front of the first place where the mark stands. -/
theorem upToMark_eq_some {mark : List Char} (hne : mark ≠ []) : ∀ {s a rest : List Char},
    upToMark mark s = some (a, rest) ↔
      s = a ++ (mark ++ rest) ∧ (∀ c ∈ a, isXmlChar c = true) ∧ First mark a
  | [], a, rest => by simp [upToMark, hne]
  | c :: s, a, rest => by
    rw [upToMark]
    -- the mark stands in front just if it does so before what is read
    have hfront : ∀ a rest, mark <+: c :: (a ++ (mark ++ rest)) ↔ mark <+: c :: (a ++ mark) := by
      intro a rest
      refine ⟨fun hp => List.prefix_of_prefix_length_le hp ⟨rest, by simp⟩ (by simp; omega),
        fun hp => hp.trans ⟨rest, by simp⟩⟩
    cases hs : stripMark mark (c :: s) with
    | some r =>
      have hr := stripMark_eq_some.mp hs
      constructor
      · intro h
        cases h
        exact ⟨hr, List.forall_mem_nil _, first_nil mark⟩
      · rintro ⟨he, -, hfirst⟩
        cases a with
        | nil =>
          rw [he, List.nil_append] at hr
          rw [List.append_cancel_left hr]
        | cons d a =>
          obtain ⟨rfl, rfl⟩ := List.cons.inj he
          exact absurd ((hfront a rest).mp ⟨r, hr.symm⟩) (first_cons.mp hfirst).1
    | none =>
      have hn : ¬ mark <+: c :: s := by rw [← stripMark_isSome, hs]; simp
      dsimp only
      constructor
      · intro h
        split at h
        · next hc =>
          obtain ⟨⟨a, r⟩, hr, he⟩ := Option.map_eq_some_iff.mp h
          cases he
          obtain ⟨rfl, ha, hfirst⟩ := (upToMark_eq_some hne).mp hr
          exact ⟨rfl, List.forall_mem_cons.mpr ⟨hc, ha⟩,
            first_cons.mpr ⟨fun hp => hn ((hfront a _).mpr hp), hfirst⟩⟩
        · cases h
      · rintro ⟨he, ha, hfirst⟩
        cases a with
        | nil => exact absurd ⟨rest, he.symm⟩ hn
        | cons d a =>
          rw [List.cons_append] at he
          obtain ⟨rfl, rfl⟩ := List.cons.inj he
          obtain ⟨hc, ha⟩ := List.forall_mem_cons.mp ha
          rw [if_pos hc, (upToMark_eq_some hne).mpr ⟨rfl, ha, (first_cons.mp hfirst).2⟩]
          rfl

theorem firm_upToMark (mark : List Char) :
    Firm '>' (fun _ => true) (upToMark (mark ++ ['>'])) := by
  intro s a rest h
  obtain ⟨rfl, ha, hfirst⟩ := (upToMark_eq_some (by simp)).mp h
  refine ⟨a ++ mark, by simp, fun _ _ => rfl, fun t => ?_⟩
  exact (upToMark_eq_some (by simp)).mpr ⟨by simp, ha, hfirst⟩

/-- A mark is looked for in vain if it stands nowhere. -/
theorem upToMark_isNone {mark : List Char} (hne : mark ≠ []) : ∀ {s : List Char},
    (∀ c ∈ s, isXmlChar c = true) → ((upToMark mark s).isNone = true ↔ ¬ mark <:+: s)
  | [], _ => by simp [upToMark, hne]
  | c :: s, hs => by
    obtain ⟨hc, hs⟩ := List.forall_mem_cons.mp hs
    rw [upToMark, List.infix_cons_iff, ← stripMark_isSome, not_or, ← upToMark_isNone hne hs]
    cases stripMark mark (c :: s) with
    | some r => simp
    | none => simp [hc]

/-! ### Markup that ends with its closing bracket -/

theorem firm_comment : Firm '>' (fun _ => true) comment := by
  refine (firm_upToMark ['-', '-']).bind_of_stays fun text u s rest h => ?_
  split at h
  · cases h
  · next hn =>
    cases h
    refine ⟨rfl, fun t => ?_⟩
    rw [if_neg hn]
    rfl

theorem instruction_apply (s : List Char) :
    instruction s = if (stripMark ['x', 'm', 'l', ' '] s).isSome then none
      else (discard name >>= fun _ => skipSpaces >>= fun _ =>
        discard (upToMark ['?', '>']) : Reader Unit) s := by
  show (if (stripMark ['x', 'm', 'l', ' '] s).isSome then _ else _ : Reader Unit) s = _
  split <;> rfl

theorem firm_instruction : Firm '>' (fun _ => true) instruction := by
  have hrest : Firm '>' (fun _ => true) (discard name >>= fun _ => skipSpaces >>= fun _ =>
      discard (upToMark ['?', '>']) : Reader Unit) :=
    (local_name.mono fun _ _ => rfl).discard.bind_firm fun _ =>
      (local_skipSpaces.mono fun _ _ => rfl).bind_firm fun _ => (firm_upToMark ['?']).discard
  intro s u rest h
  rw [instruction_apply] at h
  split at h
  · cases h
  · next hn =>
    obtain ⟨w, rfl, hw, hall⟩ := hrest h
    refine ⟨w, rfl, hw, fun t => ?_⟩
    -- the mark of a document's declaration does not reach behind the closing bracket
    rw [instruction_apply, if_neg]
    · exact hall t
    · rw [stripMark_isSome] at hn ⊢
      intro hp
      have hw' : w ++ ['>'] <+: w ++ '>' :: t := ⟨t, by simp⟩
      rcases List.prefix_or_prefix_of_prefix hp hw' with hp | hp
      · exact hn (hp.trans ⟨rest, by simp⟩)
      · exact absurd (hp.subset (a := '>') (by simp)) (by decide)

/-- An end tag, behind its opening mark, and the elements open behind it. -/
def endTag (opened : List OpenElement) : Reader (List OpenElement) := do
  let name ← qualifiedName
  skipSpaces
  expect '>'
  match opened with
  | [] => failure
  | e :: outer => if e.name = name then return outer else failure

theorem firm_endTag (opened : List OpenElement) : Firm '>' (fun _ => true) (endTag opened) := by
  refine (local_qualifiedName.mono fun _ _ => rfl).bind_firm fun name => ?_
  refine (local_skipSpaces.mono fun _ _ => rfl).bind_firm fun _ => ?_
  refine (firm_expect '>').bind_of_stays fun _ outer s rest h => ?_
  cases opened with
  | nil => cases h
  | cons e opened =>
    dsimp only at h ⊢
    split at h
    · next he =>
      cases h
      exact ⟨rfl, fun t => by rw [if_pos he]; rfl⟩
    · cases h

/-! ### Text -/

/-- **What text is**: it goes up to the next mark of a tag, and its references can be resolved. -/
theorem characters_eq_some {s rest : List Char} {u : Unit} :
    characters s = some (u, rest) ↔
      ∃ text, s = text ++ rest ∧ '<' ∉ text ∧ (∀ c ∈ rest.head?, c = '<') ∧
        (∀ c ∈ text, isXmlChar c = true) ∧ ¬ [']', ']', '>'] <:+: text ∧ Resolvable text := by
  unfold characters
  rw [Reader.bind_eq_some]
  constructor
  · rintro ⟨text, s', ht, h⟩
    obtain ⟨rfl, htext, hrest⟩ := takeRun_eq_some.mp ht
    split at h
    · next hc =>
      cases h
      rw [Bool.and_eq_true, Bool.and_eq_true, List.all_eq_true, resolveText_isSome] at hc
      obtain ⟨⟨hx, hm⟩, hr⟩ := hc
      exact ⟨text, rfl, fun hlt => by simpa using htext '<' hlt,
        fun c hc => by simpa using hrest c hc, hx, (upToMark_isNone (by simp) hx).mp hm, hr⟩
    · cases h
  · rintro ⟨text, rfl, hlt, hrest, hx, hm, hr⟩
    refine ⟨text, rest, takeRun_eq_some.mpr ⟨rfl, fun c hc => ?_, fun c hc => ?_⟩, ?_⟩
    · have hne : c ≠ '<' := fun he => hlt (he ▸ hc)
      simpa using hne
    · simp [hrest c hc]
    · rw [if_pos]
      · rfl
      · rw [Bool.and_eq_true, Bool.and_eq_true, List.all_eq_true, resolveText_isSome]
        exact ⟨⟨hx, (upToMark_isNone (by simp) hx).mpr hm⟩, hr⟩

/-! ### Items -/

/-- The namespaces in scope. -/
def scope (opened : List OpenElement) : List (List Char × List Char) :=
  (opened.head?.map (·.namespaces)).getD []

theorem item_apply (opened : List OpenElement) (s : List Char) : item opened s =
    match s with
    | [] => none
    | '<' :: '!' :: '-' :: '-' :: r => (comment >>= fun _ => pure opened : Reader _) r
    | '<' :: '!' :: r =>
      (stripMark "[CDATA[".toList r).bind (discard (upToMark [']', ']', '>']) >>= fun _ =>
        pure opened : Reader _)
    | '<' :: '?' :: r => (instruction >>= fun _ => pure opened : Reader _) r
    | '<' :: '/' :: r => endTag opened r
    | '<' :: r => (startTag (scope opened) >>= fun p =>
        pure (if p.2 = true then opened else p.1 :: opened) : Reader _) r
    | s => (characters >>= fun _ => pure opened : Reader _) s := by
  show (match s with
    | [] => _
    | '<' :: '!' :: '-' :: '-' :: r => _
    | '<' :: '!' :: r => _
    | '<' :: '?' :: r => _
    | '<' :: '/' :: r => _
    | '<' :: r => _
    | s => _ : Reader _) s = _
  split
  · rfl
  · rfl
  · next r _ =>
    show (liftM (stripMark "[CDATA[".toList r) >>= _ : Reader _) _ = _
    cases stripMark "[CDATA[".toList r <;> rfl
  · rfl
  · rfl
  · rfl
  · rfl

/-- Behind an opening bracket, such a character begins markup that is no start tag. -/
def isMarker (c : Char) : Bool := c == '!' || c == '?' || c == '/'

/-- The mark in front of character data, and the mark behind it. -/
def dataMark : List Char := ['<', '!', '[', 'C', 'D', 'A', 'T', 'A', '[']

def dataEnd : List Char := [']', ']', '>']

/-- The text begins with an item: behind it stands the rest, and these elements are open. -/
inductive IsItem (opened : List OpenElement) : List Char → List OpenElement → List Char → Prop where
  /-- A comment, a processing instruction or an end tag. -/
  | markup {c : Char} {w rest : List Char} {opened' : List OpenElement} (hc : isMarker c = true)
      (hd : ∀ r, c :: w ≠ '!' :: '[' :: r)
      (h : ∀ t, item opened ('<' :: c :: (w ++ '>' :: t)) = some (opened', t)) :
      IsItem opened ('<' :: c :: (w ++ '>' :: rest)) opened' rest
  | data {s w rest : List Char} (h : upToMark dataEnd s = some (w, rest)) :
      IsItem opened (dataMark ++ s) opened rest
  | tag {s rest : List Char} {e : OpenElement} {empty : Bool}
      (hs : ∀ c ∈ s.head?, isMarker c = false)
      (h : startTag (scope opened) s = some ((e, empty), rest)) :
      IsItem opened ('<' :: s) (if empty then opened else e :: opened) rest
  | text {s rest : List Char} (hs : ∃ c ∈ s.head?, c ≠ '<')
      (h : characters s = some ((), rest)) : IsItem opened s opened rest

variable {opened opened' : List OpenElement} {s rest : List Char}

theorem item_tag (hs : ∀ c ∈ s.head?, isMarker c = false) :
    item opened ('<' :: s) = (startTag (scope opened) >>= fun p =>
      pure (if p.2 = true then opened else p.1 :: opened) : Reader _) s := by
  have hne : ∀ c r, isMarker c = true → s ≠ c :: r := by
    rintro c r hc rfl
    rw [hs c rfl] at hc
    cases hc
  rw [item_apply]
  split
  · next he => cases he
  · next he => exact absurd (List.cons.inj he).2 (hne _ _ (by decide))
  · next he => exact absurd (List.cons.inj he).2 (hne _ _ (by decide))
  · next he => exact absurd (List.cons.inj he).2 (hne _ _ (by decide))
  · next he => exact absurd (List.cons.inj he).2 (hne _ _ (by decide))
  · next he => rw [(List.cons.inj he).2]
  · next hn => exact absurd rfl (hn s)

theorem item_data (s : List Char) : item opened (dataMark ++ s) =
    (discard (upToMark dataEnd) >>= fun _ => pure opened : Reader _) s :=
  item_apply opened (dataMark ++ s)

theorem item_text (hs : ∃ c ∈ s.head?, c ≠ '<') :
    item opened s = (characters >>= fun _ => pure opened : Reader _) s := by
  obtain ⟨c, hc, hne⟩ := hs
  have hlt : ∀ r, s ≠ '<' :: r := by
    rintro r rfl
    exact hne (Option.some.inj hc).symm
  rw [item_apply]
  split
  · cases hc
  · exact absurd rfl (hlt _)
  · exact absurd rfl (hlt _)
  · exact absurd rfl (hlt _)
  · exact absurd rfl (hlt _)
  · exact absurd rfl (hlt _)
  · rfl

/-- **What an item is**, and how it is read. -/
theorem item_eq_some :
    item opened s = some (opened', rest) ↔ IsItem opened s opened' rest := by
  constructor
  · intro h
    have h' := h
    rw [item_apply] at h
    split at h
    · cases h
    · obtain ⟨w, rfl, -, hall⟩ := firm_comment.bind_pure (fun _ => opened) h
      exact .markup (w := '-' :: '-' :: w) rfl (by simp) hall
    · next r hr =>
      cases hm : stripMark "[CDATA[".toList r with
      | none => rw [hm] at h; cases h
      | some r' =>
        rw [hm, Option.bind_some] at h
        obtain rfl := stripMark_eq_some.mp hm
        obtain ⟨_, u, hu, h⟩ := Reader.bind_eq_some.mp h
        obtain ⟨w, hw⟩ := Reader.discard_eq_some.mp hu
        cases h
        exact .data hw
    · obtain ⟨w, rfl, -, hall⟩ := firm_instruction.bind_pure (fun _ => opened) h
      exact .markup rfl (by simp) hall
    · obtain ⟨w, rfl, -, hall⟩ := firm_endTag opened h
      exact .markup rfl (by simp) hall
    · next r h1 h2 h3 h4 =>
      obtain ⟨⟨e, empty⟩, u, ht, hu⟩ := Reader.bind_eq_some.mp h
      cases hu
      refine .tag (fun c hc => ?_) ht
      obtain ⟨r, rfl⟩ := List.head?_eq_some_iff.mp hc
      by_contra hm
      simp only [isMarker, Bool.not_eq_false, Bool.or_eq_true, beq_iff_eq] at hm
      rcases hm with (rfl | rfl) | rfl
      · exact h2 r rfl
      · exact h3 r rfl
      · exact h4 r rfl
    · next hnil _ _ _ _ hlt =>
      obtain ⟨_, u, ht, hu⟩ := Reader.bind_eq_some.mp h
      cases hu
      cases s with
      | nil => exact absurd rfl hnil
      | cons c s => exact .text ⟨c, rfl, fun he => hlt s (by rw [he])⟩ ht
  · rintro (⟨hc, -, h⟩ | ⟨h⟩ | ⟨hs, h⟩ | ⟨hs, h⟩)
    · exact h rest
    · rw [item_data]
      exact Reader.bind_eq_some.mpr ⟨.unit, _, Reader.discard_eq_some.mpr ⟨_, h⟩, rfl⟩
    · rw [item_tag hs]
      exact Reader.bind_eq_some.mpr ⟨_, _, h, rfl⟩
    · rw [item_text hs]
      exact Reader.bind_eq_some.mpr ⟨_, _, h, rfl⟩

end BuildPlan.Xml
