import BuildPlan.Proofs.Grammar.Headings

/-! # The names in a document

The objects in a document that was read are named by identifiers, at any depth
(`allNamed_of_parse`). The form of a heading gives its name back: two headings of one kind that are
named by identifiers and look the same have the same name (`Heading.name_eq_of_display_eq`). -/

namespace BuildPlan

open BuildPlan.Grammar BuildPlan.Grammar.Rule

/-! ### What rules find -/

namespace Grammar

variable {α β : Type} {P : α → Prop} {Q : β → Prop}

/-- Whatever the rule finds has the property. -/
def Yields (r : Rule α) (P : α → Prop) : Prop := ∀ s a t, r.read s = some (a, t) → P a

theorem Yields.bind {r : Rule α} {f : α → Rule β} (hr : Yields r P)
    (hf : ∀ a, P a → Yields (f a) Q) : Yields (r >>= f) Q := by
  intro s b t h
  obtain ⟨a, u, ha, hb⟩ := of_read_bind h
  exact hf a (hr s a u ha) u b t hb

/-- What comes first may be anything. -/
theorem Yields.behind {r : Rule α} {f : α → Rule β} (hf : ∀ a, Yields (f a) Q) :
    Yields (r >>= f) Q :=
  Yields.bind (P := fun _ => True) (fun _ _ _ _ => trivial) fun a _ => hf a

theorem yields_pure {a : α} (h : P a) : Yields (pure a) P := by
  intro s b t hb
  cases hb
  exact h

theorem Yields.map {r : Rule α} {f : α → β} (hr : Yields r P) (hf : ∀ a, P a → Q (f a)) :
    Yields (r.map f) Q := by
  intro s b t h
  rw [read_map] at h
  obtain ⟨⟨a, u⟩, ha, he⟩ := Option.map_eq_some_iff.mp h
  cases he
  exact hf a (hr s a u ha)

theorem yields_map {r : Rule α} {f : α → β} (hf : ∀ a, Q (f a)) : Yields (r.map f) Q :=
  Yields.map (P := fun _ => True) (fun _ _ _ _ => trivial) fun a _ => hf a

theorem Yields.firstOf : ∀ {rs : List (Rule α)}, (∀ r ∈ rs, Yields r P) → Yields (firstOf rs) P
  | [], _ => fun s a t h => by cases h
  | r :: rs, hr => fun s a t h => by
    rw [read_firstOf_cons] at h
    rcases Option.or_eq_some_iff.mp h with h | ⟨-, h⟩
    · exact hr r List.mem_cons_self s a t h
    · exact Yields.firstOf (fun q hq => hr q (List.mem_cons_of_mem _ hq)) s a t h

theorem Yields.manyUpTo {r : Rule α} (hr : Yields r P) : ∀ bound : List Char,
    Yields (manyUpTo r bound) fun as => ∀ a ∈ as, P a
  | [] => fun s as t h => by
    cases h
    simp
  | c :: bound => fun s as t h => by
    cases hs : r.read s with
    | none =>
      rw [read_manyUpTo_of_none hs] at h
      cases h
      simp
    | some p =>
      obtain ⟨a, u⟩ := p
      rw [read_manyUpTo_of_some hs] at h
      obtain ⟨⟨as', t'⟩, hm, he⟩ := Option.map_eq_some_iff.mp h
      cases he
      exact List.forall_mem_cons.mpr ⟨hr s a u hs, Yields.manyUpTo hr bound u as' t' hm⟩

theorem Yields.many {r : Rule α} (hr : Yields r P) : Yields (many r) fun as => ∀ a ∈ as, P a :=
  fun s as t h => hr.manyUpTo s s as t h

/-- A property that a step keeps holds of what the nested rule finds. -/
theorem Yields.nested {step : Rule α → Rule α} (h : ∀ r, Yields r P → Yields (step r) P) :
    Yields (nested step) P := by
  have hbound : ∀ bound : List Char, Yields (nestedUpTo step bound) P := by
    intro bound
    induction bound with
    | nil => exact h _ fun s a t hr => by cases hr
    | cons c bound ih => exact h _ ih
  exact fun s a t hr => hbound s s a t hr

theorem Yields.padded {r : Rule α} (hr : Yields r P) : Yields (padded r) P :=
  hr.bind fun _ ha => .behind fun _ => yields_pure ha

theorem yields_identifier : Yields identifier fun n => IsIdentifier n.toList :=
  fun _ _ _ h => (isIdentifier_of_read h).2

end Grammar

/-! ### Objects with names -/

mutual

/-- The objects in an element are named by identifiers. -/
def Element.Named : Element → Prop
  | .block _ body => AllNamed body
  | .object heading body => IsIdentifier heading.name.toList ∧ AllNamed body
  | .comment _ => True
  | .group _ => True
  | .assignment _ => True
  | .invocation _ => True

/-- The objects in elements are named by identifiers. -/
def AllNamed : List Element → Prop
  | [] => True
  | e :: es => e.Named ∧ AllNamed es

end

theorem allNamed_iff : ∀ {es : List Element}, AllNamed es ↔ ∀ e ∈ es, e.Named
  | [] => by simp [AllNamed]
  | e :: es => by rw [AllNamed, allNamed_iff, List.forall_mem_cons]

namespace Grammar

theorem yields_heading : Yields heading fun h => IsIdentifier h.name.toList :=
  .behind fun _ => yields_identifier.padded.bind fun _ hn => .behind fun _ => yields_pure hn

theorem yields_body {elements : Rule (List Element)} (he : Yields elements AllNamed) :
    Yields (body elements) AllNamed :=
  .behind fun _ => he.bind fun _ hes => .behind fun _ => yields_pure hes

theorem yields_element {elements : Rule (List Element)} (he : Yields elements AllNamed) :
    Yields (element elements) Element.Named := by
  refine Yields.firstOf fun r hr => ?_
  simp only [List.mem_cons, List.not_mem_nil, or_false] at hr
  rcases hr with rfl | rfl | rfl | rfl | rfl | rfl | rfl
  · exact yields_map fun _ => trivial
  · exact yields_map fun _ => trivial
  · exact .behind fun _ => (yields_body he).bind fun _ hb => yields_pure hb
  · exact yields_map fun _ => trivial
  · exact yields_map fun _ => trivial
  · exact yields_heading.bind fun _ hh => (yields_body he).bind fun _ hb => yields_pure ⟨hh, hb⟩
  · exact yields_map fun _ => trivial

theorem yields_elements : Yields elements AllNamed := by
  refine Yields.nested fun r hr => .behind fun _ s es t h => allNamed_iff.mpr ?_
  exact ((yields_element hr).bind fun _ he => .behind fun _ => yields_pure he).many s es t h

end Grammar

/-- **The objects in a document that was read are named by identifiers.** -/
theorem allNamed_of_parse {source : String} {d : Document} (h : Document.parse source = .ok d) :
    AllNamed d.elements := by
  have hyields := yields_elements.map (f := Document.mk) (Q := fun d => AllNamed d.elements)
    fun _ he => he
  exact hyields _ _ _ (parse_eq_ok_iff.mp h)

/-! ### Headings -/

/-- What a heading shows behind the name of the object. -/
def Heading.baseForm (h : Heading) : String :=
  match h.base with
  | some base => " : " ++ base
  | none => ""

theorem Heading.display_eq (h : Heading) : h.display = h.kind ++ " " ++ h.name ++ h.baseForm := by
  unfold display baseForm
  cases h.base with
  | none => simp
  | some base => simp [String.append_assoc]

theorem Heading.stops_baseForm (h : Heading) : Stops isLexical h.baseForm.toList := by
  unfold baseForm
  cases h.base with
  | none => exact stops_nil _
  | some base =>
    rw [String.toList_append]
    exact stops_cons.mpr rfl

/-- **Two headings of one kind that look the same have the same name**, if the names are
identifiers: a name ends where the identifier ends. -/
theorem Heading.name_eq_of_display_eq {h h' : Heading} (hk : h.kind = h'.kind)
    (hn : IsIdentifier h.name.toList) (hn' : IsIdentifier h'.name.toList)
    (hd : h.display = h'.display) : h.name = h'.name := by
  rw [display_eq, display_eq, hk, String.append_assoc, String.append_assoc] at hd
  have hl := congrArg String.toList hd
  simp only [String.toList_append, List.append_assoc] at hl
  have hrest := List.append_cancel_left (List.append_cancel_left hl)
  have hr := read_identifier hn h.stops_baseForm.isNameChar
  rw [hrest, read_identifier hn' h'.stops_baseForm.isNameChar] at hr
  simpa using (congrArg Prod.fst (Option.some.inj hr)).symm

end BuildPlan
