import BuildPlan.Proofs.Grammar.Fragments
import BuildPlan.Proofs.Settings.Admitting
import BuildPlan.Proofs.Settings.Typing

/-! # Markup in settings

Markup comes into settings from the blocks in the bodies of the compiled objects, and is changed by
expansions alone. So what holds of these blocks and is kept by an expansion holds of all markup in
compiled settings (`Job.marked_answerAnew`). -/

namespace BuildPlan

open BuildPlan.Variable

variable {P Q : String → Prop}

/-! ### Reading and merging -/

namespace Definition

variable {d : Definition} {t : String}

theorem xml_of_readItem {value : Value} (h : d.readItem value = .ok (.xml t)) : t ∈ value.xmls := by
  unfold readItem at h
  split at h
  · cases h
  · cases h
  · cases h
    rw [Value.xmls]
    exact List.mem_singleton.mpr rfl
  · cases h
  · split at h <;> cases h

theorem xml_of_readSingle {value : Value} {is : List Item}
    (h : (do return [← d.readItem value]) = (.ok is : Fallible (List Item))) (ht : .xml t ∈ is) :
    t ∈ value.xmls := by
  obtain ⟨i, hi, h⟩ := Fallible.bind_ok.mp h
  cases h
  rw [← List.mem_singleton.mp ht] at hi
  exact xml_of_readItem hi

mutual

theorem xml_of_readItems : ∀ {value : Value} {is : List Item}, d.readItems value = .ok is →
    .xml t ∈ is → t ∈ value.xmls
  | .none, _, h, ht => by
    rw [readItems] at h
    cases h
    cases ht
  | .array values, _, h, ht => by
    rw [readItems] at h
    rw [Value.xmls]
    exact xml_of_readAllItems h ht
  | .literal _, _, h, ht | .glob _ _, _, h, ht | .regex _ _, _, h, ht | .xml _, _, h, ht
  | .pair _ _, _, h, ht => by
    rw [readItems] at h
    · exact xml_of_readSingle h ht
    all_goals nofun

theorem xml_of_readAllItems : ∀ {values : List Value} {is : List Item},
    d.readAllItems values = .ok is → .xml t ∈ is → t ∈ Value.xmlsOfAll values
  | [], _, h, ht => by
    rw [readAllItems] at h
    cases h
    cases ht
  | v :: vs, _, h, ht => by
    rw [readAllItems] at h
    obtain ⟨items, hi, h⟩ := Fallible.bind_ok.mp h
    obtain ⟨more, hm, h⟩ := Fallible.bind_ok.mp h
    cases h
    rw [Value.xmlsOfAll]
    exact List.mem_append.mpr
      ((List.mem_append.mp ht).imp (xml_of_readItems hi) (xml_of_readAllItems hm))

end

theorem xml_of_readEntry {value : Value} {e : String × Item} (h : d.readEntry value = .ok e)
    (ht : e.2 = .xml t) : t ∈ value.xmls := by
  cases value with
  | pair key value =>
    obtain ⟨i, hi, h⟩ := Fallible.bind_ok.mp h
    cases h
    obtain rfl : i = .xml t := ht
    rw [Value.xmls]
    exact xml_of_readItem hi
  | literal | glob | regex | xml | none | array => cases h

theorem xml_of_readEntries {value : Value} {es : List (String × Item)}
    (h : d.readEntries value = .ok es) {e : String × Item} (he : e ∈ es) (ht : e.2 = .xml t) :
    t ∈ value.xmls := by
  have hsingle : (do return [← d.readEntry value]) = (.ok es : Fallible (List (String × Item))) →
      t ∈ value.xmls := by
    intro h
    obtain ⟨e', he', h⟩ := Fallible.bind_ok.mp h
    cases h
    rw [List.mem_singleton.mp he] at ht
    exact xml_of_readEntry he' ht
  cases value with
  | none =>
    cases h
    cases he
  | array values =>
    obtain ⟨v, hv, he⟩ := (Fallible.mem_mapM h).mp he
    rw [Value.xmls]
    exact Value.mem_xmlsOfAll.mpr ⟨v, hv, xml_of_readEntry he ht⟩
  | literal | glob | regex | xml | pair => exact hsingle h

/-- **Markup that is read for a property stands in the value.** -/
theorem xml_of_read {value : Value} {v : PropertyValue} (h : d.read value = .ok v)
    (ht : .xml t ∈ v.items) : t ∈ value.xmls := by
  unfold read at h
  split at h
  · have hscalar : ∀ {value : Value}, (do return .scalar (some (← d.readItem value))) =
        (.ok v : Fallible PropertyValue) → t ∈ value.xmls := by
      intro value h
      obtain ⟨i, hi, h⟩ := Fallible.bind_ok.mp h
      cases h
      rw [← List.mem_singleton.mp ht] at hi
      exact xml_of_readItem hi
    split at h
    · cases h
      cases ht
    · cases h
    · exact hscalar h
  · obtain ⟨is, hi, h⟩ := Fallible.bind_ok.mp h
    cases h
    exact xml_of_readItems hi (OrderedSet.mem_items_ofList.mp ht)
  · obtain ⟨es, he, h⟩ := Fallible.bind_ok.mp h
    cases h
    obtain ⟨e, hm, hx⟩ := List.mem_map.mp ht
    exact xml_of_readEntries he (Dictionary.mem_of_mem_entries_ofList hm) hx

/-- No property has markup at first. -/
theorem xml_not_mem_initialValue (d : Definition) (t : String) : .xml t ∉ d.initialValue.items := by
  unfold initialValue
  cases d.shape with
  | scalar => cases d.initial <;> simp [PropertyValue.items]
  | set => simp [PropertyValue.items, OrderedSet.empty]
  | dictionary => simp [PropertyValue.items, Dictionary.values, Dictionary.empty]

end Definition

/-! ### Expanding -/

section Expanding
variable {b : Bindings} {e : Expansion}

/-- Every item of an expanded value is an item of the value, expanded. -/
theorem PropertyValue.mem_items_of_expand {v w : PropertyValue} (h : v.expand b e = .ok w) {j : Item}
    (hj : j ∈ w.items) : ∃ i ∈ v.items, i.expand b e = .ok j := by
  cases v with
  | scalar item =>
    cases item with
    | none =>
      cases h
      cases hj
    | some i =>
      obtain ⟨i', hi, h⟩ := Fallible.bind_ok.mp h
      cases h
      rw [← List.mem_singleton.mp hj] at hi
      exact ⟨i, List.mem_singleton.mpr rfl, hi⟩
  | set s =>
    obtain ⟨is, his, h⟩ := Fallible.bind_ok.mp h
    cases h
    exact (Fallible.mem_mapM his).mp (OrderedSet.mem_items_ofList.mp hj)
  | dictionary entries =>
    obtain ⟨es, hes, h⟩ := Fallible.bind_ok.mp h
    cases h
    obtain ⟨a, ha, rfl⟩ := List.mem_map.mp hj
    obtain ⟨a', ha', h⟩ := (Fallible.mem_mapM hes).mp (Dictionary.mem_of_mem_entries_ofList ha)
    obtain ⟨_, -, h⟩ := Fallible.bind_ok.mp h
    obtain ⟨i, hi, h⟩ := Fallible.bind_ok.mp h
    cases h
    exact ⟨a'.2, List.mem_map_of_mem ha', hi⟩

theorem Item.expand_eq_xml {i : Item} {t' : String} (h : i.expand b e = .ok (.xml t')) :
    ∃ t, i = .xml t ∧ Variable.expand b e t = .ok t' := by
  cases i with
  | xml t =>
    obtain ⟨u, hu, h⟩ := Fallible.bind_ok.mp h
    cases h
    exact ⟨t, rfl, hu⟩
  | text t | pattern p =>
    obtain ⟨_, -, h⟩ := Fallible.bind_ok.mp h
    cases h

end Expanding

/-! ### Bags -/

namespace Bag

/-- All markup in the bag has the property. -/
def Marked (P : String → Prop) (bag : Bag) : Prop :=
  ∀ e ∈ bag.values.entries, ∀ t, .xml t ∈ e.2.items → P t

variable {bag bag' : Bag} {d : Definition}

theorem Marked.imp (h : bag.Marked P) (hPQ : ∀ t, P t → Q t) : bag.Marked Q :=
  fun e he t ht => hPQ t (h e he t ht)

theorem marked_initial (r : Registry) : (initial r).Marked P := by
  intro e he t ht
  obtain ⟨d, -, rfl⟩ := List.mem_map.mp (Dictionary.mem_of_mem_entries_ofList he)
  exact absurd ht (d.xml_not_mem_initialValue t)

theorem Marked.current (h : bag.Marked P) {t : String} (ht : .xml t ∈ (bag.current d).items) : P t := by
  unfold Bag.current at ht
  cases hv : bag.values.get? d.name with
  | none =>
    rw [hv] at ht
    exact absurd ht (d.xml_not_mem_initialValue t)
  | some v =>
    rw [hv] at ht
    exact h _ (Dictionary.mem_of_get? hv) t ht

theorem Marked.apply (h : bag.Marked P) {action : Action} {value : Value}
    (hv : ∀ t ∈ value.xmls, P t) (ha : bag.apply d action value = .ok bag') : bag'.Marked P := by
  obtain ⟨v, hread, ha⟩ := Fallible.bind_ok.mp ha
  obtain ⟨w, hmerge, ha⟩ := Fallible.bind_ok.mp ha
  cases ha
  intro e he t ht
  rcases Dictionary.mem_put he with rfl | he
  · rcases PropertyValue.mem_items_of_merge? (Definition.merge_ok.mp hmerge) ht with ht | ht
    · exact h.current ht
    · exact hv t (Definition.xml_of_read hread ht)
  · exact h e he t ht

theorem mem_of_expandEntries {b : Bindings} {e : Expansion} :
    ∀ {es rs : List (String × PropertyValue)}, expandEntries b e es = .ok rs →
      ∀ r ∈ rs, ∃ a ∈ es, a.2.expand b e = .ok r.2
  | [], _, h => by
    cases h
    exact List.forall_mem_nil _
  | a :: es, rs, h => by
    obtain ⟨u, us, hu, hus, rfl⟩ := expandEntries_cons_ok.mp h
    refine List.forall_mem_cons.mpr ⟨⟨a, List.mem_cons_self, hu⟩, fun r hr => ?_⟩
    obtain ⟨a', ha', he⟩ := mem_of_expandEntries hus r hr
    exact ⟨a', List.mem_cons_of_mem _ ha', he⟩

/-- The markup in an expanded bag is expanded markup. -/
theorem Marked.expand (h : bag.Marked P) {b : Bindings} {e : Expansion}
    (hPQ : ∀ t t', P t → Variable.expand b e t = .ok t' → Q t')
    (he : bag.expand b e = .ok bag') : bag'.Marked Q := by
  intro r hr t' ht'
  obtain ⟨a, ha, hv⟩ := mem_of_expandEntries (expand_ok.mp he).1 r hr
  obtain ⟨i, hi, hit⟩ := PropertyValue.mem_items_of_expand hv ht'
  obtain ⟨t, rfl, ht⟩ := Item.expand_eq_xml hit
  exact hPQ t t' (h a ha t hi) ht

end Bag

/-! ### Walks -/

section Walks
variable {r : Registry} {defined : NameSet}

mutual

/-- An element adds the markup of its own blocks at most. -/
theorem Element.marked_walk : ∀ {e : Element} {bag bag' : Bag} {flow : Flow}, bag.Marked P →
    (∀ t ∈ e.xmls, P t) → (e.walk r defined bag).result = .ok (bag', flow) → bag'.Marked P
  | .block condition body, _, _, _, h, hP, hw => by
    rw [Element.walk] at hw
    obtain ⟨holds, -, hw⟩ := Logged.result_bind_ok.mp hw
    cases holds with
    | true => exact marked_walkAll h (by rwa [Element.xmls] at hP) hw
    | false =>
      cases hw
      exact h
  | .assignment a, _, _, _, h, hP, hw => by
    rw [Element.walk] at hw
    obtain ⟨holds, -, hw⟩ := Logged.result_bind_ok.mp hw
    cases holds with
    | true =>
      obtain ⟨d, -, hw⟩ := Logged.result_bind_ok.mp hw
      obtain ⟨changed, hc, hw⟩ := Logged.result_bind_ok.mp hw
      cases hw
      exact h.apply (by rwa [Element.xmls] at hP) hc
    | false =>
      cases hw
      exact h
  | .invocation i, _, _, _, h, _, hw => by
    rw [Element.walk] at hw
    obtain ⟨holds, -, hw⟩ := Logged.result_bind_ok.mp hw
    cases holds with
    | true =>
      obtain ⟨command, -, hw⟩ := Logged.result_bind_ok.mp hw
      cases command with
      | exclude | skip | warn =>
        cases hw
        exact h
      | error => cases hw
    | false =>
      cases hw
      exact h
  | .object _ _, _, _, _, h, _, hw | .group _, _, _, _, h, _, hw | .comment _, _, _, _, h, _, hw => by
    rw [Element.walk] at hw
    cases hw
    exact h

theorem marked_walkAll : ∀ {es : List Element} {bag bag' : Bag} {flow : Flow}, bag.Marked P →
    (∀ t ∈ Element.xmlsOfAll es, P t) → (walkAll r defined bag es).result = .ok (bag', flow) →
      bag'.Marked P
  | [], _, _, _, h, _, hw => by
    rw [walkAll] at hw
    cases hw
    exact h
  | e :: es, _, _, _, h, hP, hw => by
    rw [Element.xmlsOfAll, List.forall_mem_append] at hP
    rcases walkAll_cons_ok.mp hw with ⟨he, -⟩ | ⟨mid, he, hes⟩
    · exact Element.marked_walk h hP.1 he
    · exact marked_walkAll (Element.marked_walk h hP.1 he) hP.2 hes

end

end Walks

/-! ### Settings -/

/-- The settings are well typed, and all their markup has the property. -/
structure Settings.Marked (P : String → Prop) (s : Settings) : Prop where
  typed : s.WellTyped
  texts : s.bag.Marked P

namespace Settings.Marked

variable {s s' : Settings}

theorem imp (h : s.Marked P) (hPQ : ∀ t, P t → Q t) : s.Marked Q := ⟨h.typed, h.texts.imp hPQ⟩

theorem expand (h : s.Marked P) {b : Bindings} {e : Expansion}
    (hPQ : ∀ t t', P t → Variable.expand b e t = .ok t' → Q t') (he : s.expand b e = .ok s') :
    s'.Marked Q := by
  obtain ⟨bag, hbag, he⟩ := Fallible.bind_ok.mp he
  cases he
  exact ⟨wellTyped_iff.mpr (((wellTyped_iff.mp h.typed).gives_expand b e).ok hbag),
    h.texts.expand hPQ hbag⟩

/-- The items of the property for markup are markup. -/
theorem customXml (h : s.Marked P) {i : Item} (hi : i ∈ s.items PropertyName.customXml) :
    ∃ t, i = .xml t ∧ P t := by
  have hd : (Registry.blank PropertyName.customXml .set .xml).Registered :=
    ⟨.settings, by decide +kernel⟩
  unfold Settings.items at hi
  split at hi
  · next is hv =>
    have hkind : i.kind = .xml := (h.typed.fits _ _ hd hv).kind i hi
    cases i with
    | xml t => exact ⟨t, rfl, h.texts _ (Dictionary.mem_of_get? hv) t hi⟩
    | text | pattern => cases hkind
  · cases hi

end Settings.Marked

/-! ### Compiling -/

/-- What is compiled anew comes of a run. -/
theorem Job.run_of_answerAnew {j : Job} {external : NameSet} {s : Settings}
    (h : (j.answerAnew external).result = .ok s) : (j.run external).result = .ok s := by
  unfold answerAnew at h
  split at h
  · cases h
  · exact Fallible.within_ok.mp h

/-- **What holds of the blocks of an object and of the markup of its base holds of the markup of its
settings**, if the expansion keeps it. -/
theorem Job.marked_answerAnew {j : Job} {c : Context} (hr : j.registry = .ofContext c)
    (hbase : ∀ base ∈ j.base, base.Marked P) (hbody : ∀ t ∈ Element.xmlsOfAll j.object.body, P t)
    (hP : ∀ t t', P t → Variable.expand j.bindings .deferring t = .ok t' → P t') {external : NameSet}
    {s : Settings} (h : (j.answerAnew external).result = .ok s) : s.Marked P := by
  have hrun := run_of_answerAnew h
  have hstart : j.start.Marked P := by
    unfold start
    cases hb : j.base with
    | none => exact Bag.marked_initial _
    | some base => exact (hbase base hb).texts
  refine ⟨(Job.gives_run hr (fun base hb => (hbase base hb).typed) external).ok hrun, ?_⟩
  obtain ⟨⟨bag, flow⟩, hw, hrun⟩ := Logged.result_bind_ok.mp hrun
  obtain ⟨bag', hbag, hrun⟩ := Logged.result_bind_ok.mp hrun
  cases hrun
  exact (marked_walkAll hstart hbody hw).expand hP hbag

end BuildPlan
