import BuildPlan.Proofs.Grammar.Names

/-! # The markup blocks of a document

A markup block is kept in a document only if it is a well-formed fragment, so all blocks of a
document that was read are well formed (`isWellFormed_of_parse`), wherever they stand. -/

namespace BuildPlan

/-! ### The blocks of values and elements -/

mutual

/-- The markup blocks in a value, in order. -/
def Value.xmls : Value → List String
  | .xml text => [text]
  | .array values => Value.xmlsOfAll values
  | .pair _ value => value.xmls
  | .literal _ => []
  | .glob _ _ => []
  | .regex _ _ => []
  | .none => []

/-- The markup blocks in values, in order. -/
def Value.xmlsOfAll : List Value → List String
  | [] => []
  | v :: vs => v.xmls ++ Value.xmlsOfAll vs

end

mutual

/-- The markup blocks in an element, in order. -/
def Element.xmls : Element → List String
  | .assignment a => a.value.xmls
  | .block _ body => Element.xmlsOfAll body
  | .object _ body => Element.xmlsOfAll body
  | .comment _ => []
  | .group _ => []
  | .invocation _ => []

/-- The markup blocks in elements, in order. -/
def Element.xmlsOfAll : List Element → List String
  | [] => []
  | e :: es => e.xmls ++ Element.xmlsOfAll es

end

/-- The markup blocks in a document, in order. -/
def Document.xmls (d : Document) : List String := Element.xmlsOfAll d.elements

theorem Value.mem_xmlsOfAll {t : String} : ∀ {vs : List Value},
    t ∈ Value.xmlsOfAll vs ↔ ∃ v ∈ vs, t ∈ v.xmls
  | [] => by simp [Value.xmlsOfAll]
  | v :: vs => by
    rw [Value.xmlsOfAll, List.mem_append, Value.mem_xmlsOfAll]
    simp

theorem Element.mem_xmlsOfAll {t : String} : ∀ {es : List Element},
    t ∈ Element.xmlsOfAll es ↔ ∃ e ∈ es, t ∈ e.xmls
  | [] => by simp [Element.xmlsOfAll]
  | e :: es => by
    rw [Element.xmlsOfAll, List.mem_append, Element.mem_xmlsOfAll]
    simp

/-! ### What is read -/

/-- The texts are well-formed fragments. -/
def AllFragments (ts : List String) : Prop := ∀ t ∈ ts, Xml.isWellFormed t.toList = true

theorem allFragments_nil : AllFragments [] := List.forall_mem_nil _

namespace Grammar

open Rule

theorem yields_xmlBlock : Yields xmlBlock fun v => AllFragments v.xmls := by
  intro s v rest h
  rw [xmlBlock, read_select] at h
  obtain ⟨⟨raw, u⟩, -, h⟩ := Option.bind_eq_some_iff.mp h
  obtain ⟨w, hw, he⟩ := Option.map_eq_some_iff.mp h
  cases he
  obtain ⟨text, ht, rfl⟩ := Option.map_eq_some_iff.mp hw
  unfold formatXml at ht
  dsimp only at ht
  split at ht
  · next hwf =>
    cases ht
    intro t hm
    obtain rfl := List.mem_singleton.mp hm
    rw [String.toList_ofList]
    exact hwf
  · cases ht

theorem yields_patternValue {introducer : String} {build : String → Bool → Value}
    (h : ∀ text negated, (build text negated).xmls = []) :
    Yields (patternValue introducer build) fun v => AllFragments v.xmls :=
  .behind fun _ => .behind fun _ => .behind fun _ => .behind fun _ =>
    yields_pure (by rw [h]; exact allFragments_nil)

theorem yields_arrayOf {value : Rule Value} {P : Value → Prop} (hv : Yields value P) :
    Yields (arrayOf value) fun vs => ∀ v ∈ vs, P v := by
  refine .behind fun _ => .behind fun _ => ?_
  have hitem : Yields (value >>= fun v => trivia >>= fun _ =>
      (discard (Rule.optional (symbol ',' >>= fun _ => trivia)) : Rule PUnit) >>= fun _ => pure v) P :=
    hv.bind fun _ hv => .behind fun _ => .behind fun _ => yields_pure hv
  exact hitem.many.bind fun _ hvs => .behind fun _ => yields_pure hvs

theorem Yields.optional {α : Type} {P : α → Prop} {r : Rule α} (hr : Yields r P) :
    Yields (Rule.optional r) fun o => ∀ a ∈ o, P a := by
  have horElse : Rule.optional r = Rule.firstOf [r.map some, Rule.succeed none] := rfl
  rw [horElse]
  refine Yields.firstOf fun q hq => ?_
  rw [List.mem_cons, List.mem_singleton] at hq
  rcases hq with rfl | rfl
  · refine hr.map fun a ha b hb => ?_
    rwa [← Option.some.inj hb]
  · exact yields_pure nofun

theorem yields_keyed {value : Rule Value}
    (hv : Yields value fun v => AllFragments v.xmls) :
    Yields (keyed value) fun v => AllFragments v.xmls := by
  have hinner : Yields (trivia >>= fun _ => symbol ':' >>= fun _ => trivia >>= fun _ => value)
      fun v => AllFragments v.xmls :=
    .behind fun _ => .behind fun _ => .behind fun _ => hv
  refine .behind fun key => hinner.optional.bind fun inner hi => yields_pure ?_
  cases inner with
  | none => exact allFragments_nil
  | some v =>
    intro t ht
    rw [Value.xmls] at ht
    exact hi v rfl t ht

theorem yields_value : Yields value fun v => AllFragments v.xmls := by
  refine Yields.nested fun value hv => Yields.firstOf fun r hr => ?_
  simp only [List.mem_cons, List.not_mem_nil, or_false] at hr
  rcases hr with rfl | rfl | rfl | rfl | rfl | rfl
  · exact yields_xmlBlock
  · exact yields_patternValue fun _ _ => by rw [Value.xmls]
  · exact yields_patternValue fun _ _ => by rw [Value.xmls]
  · exact yields_map fun _ => allFragments_nil
  · refine (yields_arrayOf hv).map fun vs hvs t ht => ?_
    rw [Value.xmls] at ht
    obtain ⟨v, hv, ht⟩ := Value.mem_xmlsOfAll.mp ht
    exact hvs v hv t ht
  · exact yields_keyed hv

theorem yields_singleAssignment :
    Yields singleAssignment fun a => AllFragments a.value.xmls :=
  .behind fun _ => .behind fun _ => .behind fun _ => .behind fun _ =>
    yields_value.bind fun _ hv => .behind fun _ => yields_pure hv

theorem yields_arrayAssignment :
    Yields arrayAssignment fun a => AllFragments a.value.xmls := by
  refine .behind fun _ => .behind fun _ => .behind fun _ =>
    (yields_arrayOf yields_value).bind fun vs hvs => yields_pure fun t ht => ?_
  rw [Value.xmls] at ht
  obtain ⟨v, hv, ht⟩ := Value.mem_xmlsOfAll.mp ht
  exact hvs v hv t ht

theorem yields_element_xmls {elements : Rule (List Element)}
    (he : Yields elements fun es => AllFragments (Element.xmlsOfAll es)) :
    Yields (element elements) fun e => AllFragments e.xmls := by
  have hbody : Yields (body elements) fun es => AllFragments (Element.xmlsOfAll es) :=
    .behind fun _ => he.bind fun _ hes => .behind fun _ => yields_pure hes
  refine Yields.firstOf fun r hr => ?_
  simp only [List.mem_cons, List.not_mem_nil, or_false] at hr
  rcases hr with rfl | rfl | rfl | rfl | rfl | rfl | rfl
  · exact yields_map fun _ => by rw [Element.xmls]; exact allFragments_nil
  · exact yields_map fun _ => by rw [Element.xmls]; exact allFragments_nil
  · exact .behind fun _ => hbody.bind fun _ hb => yields_pure (by rwa [Element.xmls])
  · exact yields_singleAssignment.map fun _ ha => by rwa [Element.xmls]
  · exact yields_arrayAssignment.map fun _ ha => by rwa [Element.xmls]
  · exact .behind fun _ => hbody.bind fun _ hb => yields_pure (by rwa [Element.xmls])
  · exact yields_map fun _ => by rw [Element.xmls]; exact allFragments_nil

theorem yields_elements_xmls :
    Yields elements fun es => AllFragments (Element.xmlsOfAll es) := by
  refine Yields.nested fun r hr => .behind fun _ s es rest h t ht => ?_
  obtain ⟨e, he, ht⟩ := Element.mem_xmlsOfAll.mp ht
  have hitem : Yields (element r >>= fun e => blanks >>= fun _ => pure e)
      fun e => AllFragments e.xmls :=
    (yields_element_xmls hr).bind fun _ he => .behind fun _ => yields_pure he
  exact hitem.many s es rest h e he t ht

end Grammar

/-- **All markup blocks of a document that was read are well-formed fragments.** -/
theorem isWellFormed_of_parse {source : String} {d : Document} (h : Document.parse source = .ok d)
    {t : String} (ht : t ∈ d.xmls) : Xml.isWellFormed t.toList = true := by
  have hyields := Grammar.yields_elements_xmls.map (f := Document.mk)
    (Q := fun d => AllFragments d.xmls) fun _ he => he
  exact hyields _ _ _ (Grammar.Rule.parse_eq_ok_iff.mp h) t ht

end BuildPlan
