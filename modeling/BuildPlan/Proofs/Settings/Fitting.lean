import BuildPlan.Proofs.Settings.Changes
import BuildPlan.Proofs.Settings.Deferring

/-! # Values that fit their properties

A value fits a property if it has its shape and all its items are of its kind. What is read for a
property fits it, and so does everything that is merged and expanded from there. So the properties of
every compiled object hold what their definitions say (`Bag.Holds.walkAll`). -/

namespace BuildPlan

open BuildPlan.Variable

namespace PropertyValue

/-! ### Parts of a merged value -/

variable {action : Action} {v w u : PropertyValue}

/-- Setting takes the shape of the new value, and adding keeps that of the current one. -/
theorem shape_of_merge? (h : merge? action v w = some u) :
    u.shape = v.shape ∨ u.shape = w.shape := by
  cases action with
  | set =>
    cases h
    exact Or.inr rfl
  | add =>
    cases v <;> cases w <;> cases h <;> exact Or.inl rfl

/-- A merged value has no items but those of its parts. -/
theorem mem_items_of_merge? (h : merge? action v w = some u) {i : Item} (hi : i ∈ u.items) :
    i ∈ v.items ∨ i ∈ w.items := by
  cases action with
  | set =>
    cases h
    exact Or.inr hi
  | add =>
    cases v with
    | scalar => cases h
    | set s =>
      cases w with
      | scalar | dictionary => cases h
      | set more =>
        cases h
        rwa [items, OrderedSet.insertAll_eq, OrderedSet.mem_items_ofList, List.mem_append] at hi
    | dictionary entries =>
      cases w with
      | scalar | set => cases h
      | dictionary more =>
        cases h
        obtain ⟨e, he, rfl⟩ := List.mem_map.mp hi
        exact (Dictionary.mem_entries_insertAll he).imp List.mem_map_of_mem List.mem_map_of_mem

end PropertyValue

namespace Definition

variable {d : Definition}

/-- The value has the shape of the property, and items of its kind. -/
structure Fits (d : Definition) (v : PropertyValue) : Prop where
  shape : v.shape = d.shape
  kind : ∀ i ∈ v.items, i.kind = d.item

/-! ### Reading -/

theorem kind_of_readItem {value : Value} {i : Item} (h : d.readItem value = .ok i) :
    i.kind = d.item := by
  unfold readItem at h
  split at h
  · next hd =>
    cases h
    exact hd.symm
  · cases h
  · next hd =>
    cases h
    exact hd.symm
  · cases h
  · next hd =>
    split at h
    · cases h
      exact hd.symm
    · cases h

theorem kind_of_readSingle {value : Value} {is : List Item}
    (h : (do return [← d.readItem value]) = (.ok is : Fallible (List Item))) :
    ∀ i ∈ is, i.kind = d.item := by
  obtain ⟨i, hi, h⟩ := Fallible.bind_ok.mp h
  cases h
  intro j hj
  rw [List.mem_singleton.mp hj]
  exact kind_of_readItem hi

mutual

theorem kind_of_readItems : ∀ {value : Value} {is : List Item}, d.readItems value = .ok is →
    ∀ i ∈ is, i.kind = d.item
  | .none, _, h => by
    rw [readItems] at h
    cases h
    simp
  | .array values, _, h => by
    rw [readItems] at h
    exact kind_of_readAllItems h
  | .literal _, _, h | .glob _ _, _, h | .regex _ _, _, h | .xml _, _, h | .pair _ _, _, h => by
    rw [readItems] at h
    · exact kind_of_readSingle h
    all_goals nofun

theorem kind_of_readAllItems : ∀ {values : List Value} {is : List Item},
    d.readAllItems values = .ok is → ∀ i ∈ is, i.kind = d.item
  | [], _, h => by
    rw [readAllItems] at h
    cases h
    simp
  | v :: vs, _, h => by
    rw [readAllItems] at h
    obtain ⟨items, hi, h⟩ := Fallible.bind_ok.mp h
    obtain ⟨more, hm, h⟩ := Fallible.bind_ok.mp h
    cases h
    exact List.forall_mem_append.mpr ⟨kind_of_readItems hi, kind_of_readAllItems hm⟩

end

theorem kind_of_readEntry {value : Value} {e : String × Item} (h : d.readEntry value = .ok e) :
    e.2.kind = d.item := by
  cases value with
  | pair key value =>
    obtain ⟨i, hi, h⟩ := Fallible.bind_ok.mp h
    cases h
    exact kind_of_readItem hi
  | literal | glob | regex | xml | none | array => cases h

theorem kind_of_readEntries {value : Value} {es : List (String × Item)}
    (h : d.readEntries value = .ok es) : ∀ e ∈ es, e.2.kind = d.item := by
  have hsingle : ∀ {v : Value}, (do return [← d.readEntry v]) =
      (.ok es : Fallible (List (String × Item))) → ∀ e ∈ es, e.2.kind = d.item := by
    intro v h
    obtain ⟨e, he, h⟩ := Fallible.bind_ok.mp h
    cases h
    intro e' he'
    rw [List.mem_singleton.mp he']
    exact kind_of_readEntry he
  have hall : ∀ {vs : List Value} {es : List (String × Item)}, vs.mapM d.readEntry = .ok es →
      ∀ e ∈ es, e.2.kind = d.item := by
    intro vs
    induction vs with
    | nil =>
      intro es h
      cases h
      simp
    | cons v vs ih =>
      intro es h
      rw [List.mapM_cons] at h
      obtain ⟨e, he, h⟩ := Fallible.bind_ok.mp h
      obtain ⟨es', hes, h⟩ := Fallible.bind_ok.mp h
      cases h
      exact List.forall_mem_cons.mpr ⟨kind_of_readEntry he, ih hes⟩
  cases value with
  | none =>
    cases h
    simp
  | array values => exact hall h
  | literal | glob | regex | xml | pair => exact hsingle h

/-- **What is read for a property fits it.** -/
theorem fits_of_read {value : Value} {v : PropertyValue} (h : d.read value = .ok v) : d.Fits v := by
  unfold read at h
  split at h
  · next hd =>
    have hscalar : ∀ {value : Value}, (do return .scalar (some (← d.readItem value))) =
        (.ok v : Fallible PropertyValue) → d.Fits v := by
      intro value h
      obtain ⟨i, hi, h⟩ := Fallible.bind_ok.mp h
      cases h
      exact ⟨hd.symm, fun j hj => by rw [List.mem_singleton.mp hj]; exact kind_of_readItem hi⟩
    split at h
    · cases h
      exact ⟨hd.symm, by simp [PropertyValue.items]⟩
    · cases h
    · exact hscalar h
  · next hd =>
    obtain ⟨is, hi, h⟩ := Fallible.bind_ok.mp h
    cases h
    exact ⟨hd.symm, fun i hm => kind_of_readItems hi i (OrderedSet.mem_items_ofList.mp hm)⟩
  · next hd =>
    obtain ⟨es, he, h⟩ := Fallible.bind_ok.mp h
    cases h
    refine ⟨hd.symm, fun i hm => ?_⟩
    obtain ⟨e, hm', rfl⟩ := List.mem_map.mp hm
    exact kind_of_readEntries he e (Dictionary.mem_of_mem_entries_ofList hm')

/-! ### Merging and expanding -/

theorem fits_initialValue (d : Definition) (h : d.initial ≠ none → d.item = .text) :
    d.Fits d.initialValue := by
  unfold initialValue
  cases hd : d.shape with
  | scalar =>
    refine ⟨hd.symm, fun i hi => ?_⟩
    obtain ⟨t, ht, rfl⟩ := Option.map_eq_some_iff.mp (Option.mem_toList.mp hi)
    exact (h (by rw [ht]; exact Option.some_ne_none t)).symm
  | set => exact ⟨hd.symm, by simp [PropertyValue.items, OrderedSet.empty]⟩
  | dictionary =>
    exact ⟨hd.symm, by simp [PropertyValue.items, Dictionary.values, Dictionary.empty]⟩

theorem Fits.merge? {action : Action} {v w u : PropertyValue} (hv : d.Fits v) (hw : d.Fits w)
    (h : PropertyValue.merge? action v w = some u) : d.Fits u :=
  ⟨(PropertyValue.shape_of_merge? h).elim (·.trans hv.shape) (·.trans hw.shape),
    fun i hi => (PropertyValue.mem_items_of_merge? h hi).elim (hv.kind i) (hw.kind i)⟩

theorem Fits.mergeAll : ∀ {cs : List (Action × PropertyValue)} {v u : PropertyValue}, d.Fits v →
    (∀ c ∈ cs, d.Fits c.2) → v.mergeAll cs = some u → d.Fits u
  | [], _, _, hv, _, h => by
    cases h
    exact hv
  | c :: cs, _, _, hv, hcs, h => by
    obtain ⟨hc, hcs⟩ := List.forall_mem_cons.mp hcs
    obtain ⟨w, hw, h⟩ := PropertyValue.mergeAll_cons_eq_some.mp h
    exact Fits.mergeAll (hv.merge? hc hw) hcs h

end Definition

theorem Item.kind_deferred (b : Bindings) (i : Item) : (i.deferred b).kind = i.kind := by
  cases i <;> rfl

theorem Definition.Fits.deferred {d : Definition} {v : PropertyValue} (h : d.Fits v) (b : Bindings) :
    d.Fits (v.deferred b) := by
  refine ⟨by cases v <;> exact h.shape, fun i hi => ?_⟩
  have hitem : ∃ j ∈ v.items, i = j.deferred b := by
    cases v with
    | scalar item =>
      cases item with
      | none => cases hi
      | some j => exact ⟨j, List.mem_singleton.mpr rfl, List.mem_singleton.mp hi⟩
    | set s =>
      obtain ⟨j, hj, rfl⟩ := List.mem_map.mp (OrderedSet.mem_items_ofList.mp hi)
      exact ⟨j, hj, rfl⟩
    | dictionary entries =>
      obtain ⟨e, he, rfl⟩ := List.mem_map.mp hi
      obtain ⟨e', he', rfl⟩ := List.mem_map.mp (Dictionary.mem_of_mem_entries_ofList he)
      exact ⟨e'.2, List.mem_map_of_mem he', rfl⟩
  obtain ⟨j, hj, rfl⟩ := hitem
  rw [Item.kind_deferred, h.kind j hj]

/-! ### Changes -/

/-- A change of a property gives it a value that fits, and the property is the one that the registry
has under its name. -/
def Change.FitsIn (r : Registry) : Change → Prop
  | .merge d _ value => r.property d.name = .ok d ∧ d.Fits value
  | .exclude => True

theorem Registry.property_name {r : Registry} {name : String} {d : Definition}
    (h : r.property name = .ok d) : d.name = name := by
  unfold property at h
  split at h
  · next d' hd =>
    cases h
    simpa using List.find?_some hd
  · cases h

section
variable {r : Registry} {defined : NameSet}

mutual

theorem Element.fitsIn_of_changes : ∀ {e : Element} {cs : List Change} {flow : Flow},
    e.changes r defined = .ok (cs, flow) → ∀ c ∈ cs, c.FitsIn r
  | .block condition body, _, _, h => by
    rw [Element.changes] at h
    obtain ⟨holds, -, h⟩ := Fallible.bind_ok.mp h
    cases holds with
    | true => exact fitsIn_of_changesAll h
    | false =>
      cases h
      simp
  | .assignment a, _, _, h => by
    rw [Element.changes] at h
    obtain ⟨holds, -, h⟩ := Fallible.bind_ok.mp h
    cases holds with
    | true =>
      obtain ⟨d, hd, h⟩ := Fallible.bind_ok.mp h
      obtain ⟨value, hv, h⟩ := Fallible.bind_ok.mp h
      cases h
      intro c hc
      rw [List.mem_singleton.mp hc]
      exact ⟨by rwa [Registry.property_name hd], Definition.fits_of_read hv⟩
    | false =>
      cases h
      simp
  | .invocation i, _, _, h => by
    rw [Element.changes] at h
    obtain ⟨holds, -, h⟩ := Fallible.bind_ok.mp h
    cases holds with
    | true =>
      obtain ⟨command, -, h⟩ := Fallible.bind_ok.mp h
      cases command with
      | exclude =>
        cases h
        intro c hc
        rw [List.mem_singleton.mp hc]
        trivial
      | skip | warn =>
        cases h
        simp
      | error => cases h
    | false =>
      cases h
      simp
  | .object _ _, _, _, h | .group _, _, _, h | .comment _, _, _, h => by
    rw [Element.changes] at h
    cases h
    simp

/-- The changes that a body makes fit. -/
theorem fitsIn_of_changesAll : ∀ {es : List Element} {cs : List Change} {flow : Flow},
    changesAll r defined es = .ok (cs, flow) → ∀ c ∈ cs, c.FitsIn r
  | [], _, _, h => by
    rw [changesAll] at h
    cases h
    simp
  | e :: es, cs, flow, h => by
    rcases changesAll_cons_ok.mp h with ⟨he, -⟩ | ⟨first, more, he, hes, rfl⟩
    · exact Element.fitsIn_of_changes he
    · exact List.forall_mem_append.mpr ⟨Element.fitsIn_of_changes he, fitsIn_of_changesAll hes⟩

end

theorem fits_of_changesOf {d : Definition} (hd : r.property d.name = .ok d) :
    ∀ {cs : List Change}, (∀ c ∈ cs, c.FitsIn r) → ∀ c ∈ changesOf d.name cs, d.Fits c.2
  | [], _ => by simp [changesOf]
  | .exclude :: cs, h => by
    rw [changesOf]
    exact fits_of_changesOf hd (List.forall_mem_cons.mp h).2
  | .merge d' action value :: cs, h => by
    obtain ⟨⟨hd', hf⟩, hcs⟩ := List.forall_mem_cons.mp h
    rw [changesOf]
    split
    · next hn =>
      rw [hn, hd] at hd'
      cases hd'
      exact List.forall_mem_cons.mpr ⟨hf, fits_of_changesOf hd hcs⟩
    · exact fits_of_changesOf hd hcs

/-- The bag has a value for the property, which fits. -/
def Bag.Holds (bag : Bag) (d : Definition) : Prop := ∃ v, bag.values.get? d.name = some v ∧ d.Fits v

/-- **A walk keeps values that fit.** -/
theorem Bag.Holds.walkAll {bag bag' : Bag} {d : Definition} {es : List Element} {flow : Flow}
    (hd : r.property d.name = .ok d) (h : bag.Holds d)
    (hw : (walkAll r defined bag es).result = .ok (bag', flow)) : bag'.Holds d := by
  obtain ⟨v, hv, hf⟩ := h
  obtain ⟨cs, hcs, hbag⟩ := walkAll_ok.mp hw
  obtain ⟨u, hu, hget⟩ := get?_of_changeAll hbag hv
  exact ⟨u, hget, hf.mergeAll (fits_of_changesOf hd (fitsIn_of_changesAll hcs)) hu⟩

end

end BuildPlan
