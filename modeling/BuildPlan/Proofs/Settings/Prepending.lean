import BuildPlan.Proofs.Settings.Changes
import BuildPlan.Proofs.Settings.Deferring
import BuildPlan.Proofs.Settings.Keeping
import BuildPlan.Proofs.Solution.Blocks

/-! # Inheriting as prepending

Settings that build on others come to what one object gives that holds the elements of both, those of
the base first. The difference is that the values of the base are expanded before anything is merged
into them, and once more behind that, instead of once at the end. It does not show in a property that is
set anew. In any other it does not show as long as the texts of the base settle and the keys of
dictionaries do not get in each other's way (`PropertyValue.Mergeable`): keys are merged as they are
written, and keys that are written differently may become equal by the expansion. -/

namespace BuildPlan

open BuildPlan.Variable

namespace PropertyValue

variable {b₁ b : Bindings} {v u u' : PropertyValue} {cs : List (Action × PropertyValue)}

theorem shape_deferred (b : Bindings) (v : PropertyValue) : (v.deferred b).shape = v.shape := by
  cases v <;> rfl

/-! ### Values that are expanded before the changes -/

/-- The value may be expanded with the first bindings before the changes are made: its texts settle,
and its keys stay as they are, or are kept apart by the expansion with the second bindings, as are the
keys that are added. -/
structure Mergeable (b₁ b : Bindings) (v : PropertyValue) (cs : List (Action × PropertyValue)) :
    Prop where
  settled : ∀ t ∈ v.sources, Settles b₁ t
  keys : (∀ k ∈ v.keys, Variable.deferred b₁ k = k) ∨
    (Dictionary.Apart (Variable.deferred b) v.keys ∧
      Dictionary.Apart (Variable.deferred b) ((addedEntries cs).map Prod.fst))

section Stages
variable (hb : b₁.orElse b = b)
include hb

theorem deferred_item {i : Item} (h : Settles b₁ i.source) :
    (i.deferred b₁).deferred b = i.deferred b := by
  rw [Item.deferred_deferred h, hb]

theorem deferred_set_insertAll {s : OrderedSet Item} (h : ∀ i ∈ s.items, Settles b₁ i.source)
    (more : List Item) :
    ((PropertyValue.set ((OrderedSet.ofList (s.items.map (Item.deferred b₁))).insertAll
      more)).deferred b) = (PropertyValue.set (s.insertAll more)).deferred b := by
  have hmap : (s.items.map (Item.deferred b₁)).map (Item.deferred b) =
      s.items.map (Item.deferred b) := by
    rw [List.map_map]
    exact List.map_congr_left fun i hi => deferred_item hb (h i hi)
  rw [deferred, deferred, ← OrderedSet.ofList_append, OrderedSet.insertAll_eq,
    OrderedSet.ofList_map_items, OrderedSet.ofList_map_items, List.map_append, List.map_append, hmap]

/-- The keys come out the same in any case. -/
theorem keys_deferred_dictionary {d : Dictionary String Item} (h : ∀ k ∈ d.keys, Settles b₁ k)
    (es : List (String × Item)) :
    (((d.rekey (Variable.deferred b₁) (Item.deferred b₁)).insertAll es).rekey (Variable.deferred b)
      (Item.deferred b)).keys =
      ((d.insertAll es).rekey (Variable.deferred b) (Item.deferred b)).keys :=
  Dictionary.keys_rekey_insertAll_rekey (fun k hk => by rw [Variable.deferred_deferred (h k hk), hb])
    es

theorem deferred_dictionary_insertAll {d : Dictionary String Item} {es : List (String × Item)}
    (hs : ∀ t ∈ sources (.dictionary d), Settles b₁ t)
    (hk : (∀ k ∈ d.keys, Variable.deferred b₁ k = k) ∨
      (Dictionary.Apart (Variable.deferred b) d.keys ∧
        Dictionary.Apart (Variable.deferred b) (es.map Prod.fst))) :
    ((d.rekey (Variable.deferred b₁) (Item.deferred b₁)).insertAll es).rekey (Variable.deferred b)
      (Item.deferred b) = (d.insertAll es).rekey (Variable.deferred b) (Item.deferred b) := by
  have hkey : ∀ k ∈ d.keys, Variable.deferred b (Variable.deferred b₁ k) = Variable.deferred b k :=
    fun k hm => by rw [Variable.deferred_deferred (hs k (List.mem_append_left _ hm)), hb]
  have hvalue : ∀ i ∈ d.values, (i.deferred b₁).deferred b = i.deferred b := fun i hi =>
    deferred_item hb (hs _ (List.mem_append_right _ (List.mem_map_of_mem hi)))
  rcases hk with hk | ⟨hd, he⟩
  · exact Dictionary.rekey_insertAll_of_fixed hvalue hk es
  · exact Dictionary.rekey_insertAll_rekey hkey hvalue hd he

/-- **A property comes out the same whether its value is expanded before the changes or not**, if it is
set by them or is mergeable. -/
theorem deferred_mergeAll (h : v.mergeAll cs = some u) (h' : (v.deferred b₁).mergeAll cs = some u')
    (hm : Sets cs ∨ Mergeable b₁ b v cs) : u'.deferred b = u.deferred b := by
  rcases mergeAll_cases (shape_deferred b₁ v).symm h h' with ⟨-, rfl⟩ | ⟨hn, hcase⟩
  · rfl
  have hm := hm.resolve_left hn
  rcases hcase with ⟨rfl, rfl, rfl⟩ | ⟨s, s', rfl, hs', rfl, rfl⟩ | ⟨d, d', rfl, hd', rfl, rfl⟩
  · cases u with
    | scalar item =>
      cases item with
      | none => rfl
      | some i =>
        have hi : Settles b₁ i.source := hm.settled _ (by simp [sources, keys, items])
        exact congrArg (fun j => PropertyValue.scalar (some j)) (deferred_item hb hi)
    | set s =>
      have hs : ∀ i ∈ s.items, Settles b₁ i.source := fun i hi =>
        hm.settled _ (List.mem_append_right _ (List.mem_map_of_mem hi))
      exact deferred_set_insertAll hb hs []
    | dictionary d =>
      exact congrArg PropertyValue.dictionary
        (deferred_dictionary_insertAll hb hm.settled hm.keys)
  · cases hs'
    exact deferred_set_insertAll hb (fun i hi =>
      hm.settled _ (List.mem_append_right _ (List.mem_map_of_mem hi))) _
  · cases hd'
    exact congrArg PropertyValue.dictionary (deferred_dictionary_insertAll hb hm.settled hm.keys)

end Stages

/-- What is there behind the changes was there before, or is also there if the value is expanded
first. -/
theorem mem_sources_mergeAll (h : v.mergeAll cs = some u)
    (h' : (v.deferred b₁).mergeAll cs = some u') {t : String} (ht : t ∈ u.sources) :
    t ∈ v.sources ∨ t ∈ u'.sources := by
  rcases mergeAll_cases (shape_deferred b₁ v).symm h h' with ⟨-, rfl⟩ | ⟨-, hcase⟩
  · exact Or.inr ht
  rcases hcase with ⟨-, rfl, -⟩ | ⟨s, s', rfl, -, rfl, rfl⟩ | ⟨d, d', rfl, -, rfl, rfl⟩
  · exact Or.inl ht
  · obtain ⟨i, hi, rfl⟩ := List.mem_map.mp ht
    rw [items, OrderedSet.insertAll_eq, OrderedSet.mem_items_ofList, List.mem_append] at hi
    rcases hi with hi | hi
    · exact Or.inl (List.mem_map_of_mem hi)
    · refine Or.inr (List.mem_append_right _ (List.mem_map_of_mem ?_))
      rw [items, OrderedSet.insertAll_eq, OrderedSet.mem_items_ofList]
      exact List.mem_append_right _ hi
  · have hentry : ∀ e ∈ (d.insertAll (addedEntries cs)).entries,
        e ∈ d.entries ∨ e ∈ (d'.insertAll (addedEntries cs)).entries := by
      intro e he
      have hget := Dictionary.get?_of_mem he
      rw [Dictionary.get?_insertAll, Option.or_eq_some_iff] at hget
      rcases hget with hget | ⟨-, hget⟩
      · refine Or.inr (Dictionary.mem_of_get? ?_)
        rw [Dictionary.get?_insertAll, hget, Option.some_or]
      · exact Or.inl (Dictionary.mem_of_get? hget)
    rcases List.mem_append.mp ht with ht | ht
    · obtain ⟨e, he, rfl⟩ := List.mem_map.mp ht
      exact (hentry e he).imp (fun h => List.mem_append_left _ (List.mem_map_of_mem h))
        fun h => List.mem_append_left _ (List.mem_map_of_mem h)
    · obtain ⟨i, hi, rfl⟩ := List.mem_map.mp ht
      obtain ⟨e, he, rfl⟩ := List.mem_map.mp hi
      exact (hentry e he).imp
        (fun h => List.mem_append_right _ (List.mem_map_of_mem (List.mem_map_of_mem h)))
        fun h => List.mem_append_right _ (List.mem_map_of_mem (List.mem_map_of_mem h))

end PropertyValue

/-! ### Bags that are expanded -/

namespace Bag

theorem expandEntries_deferring_ok {b : Bindings} : ∀ {es rs : List (String × PropertyValue)},
    expandEntries b .deferring es = .ok rs ↔
      (∀ e ∈ es, ∀ t ∈ e.2.sources, Closed t) ∧ rs = es.map fun e => (e.1, e.2.deferred b)
  | [], rs => by
    rw [expandEntries]
    simp [eq_comm]
  | e :: es, rs => by
    rw [expandEntries, Fallible.bind_ok]
    simp only [Fallible.bind_ok, Fallible.within_ok, PropertyValue.expand_deferring_ok,
      expandEntries_deferring_ok, List.forall_mem_cons, List.map_cons]
    constructor
    · rintro ⟨_, ⟨he, rfl⟩, _, ⟨hes, rfl⟩, h⟩
      cases h
      exact ⟨⟨he, hes⟩, rfl⟩
    · rintro ⟨⟨he, hes⟩, rfl⟩
      exact ⟨_, ⟨he, rfl⟩, _, ⟨hes, rfl⟩, rfl⟩

theorem expand_ok {b : Bindings} {e : Expansion} {bag bag' : Bag} :
    bag.expand b e = .ok bag' ↔ expandEntries b e bag.values.entries = .ok bag'.values.entries ∧
      bag'.context = bag.context ∧ bag'.excluded = bag.excluded := by
  unfold expand
  split
  · next f hf =>
    rw [hf]
    exact ⟨nofun, fun h => nomatch h.1⟩
  · next entries he =>
    constructor
    · intro h
      cases h
      exact ⟨he, rfl, rfl⟩
    · rintro ⟨h, hc, hx⟩
      obtain ⟨context, ⟨es, hd⟩, excluded⟩ := bag'
      cases he.symm.trans h
      cases hc
      cases hx
      rfl

/-- What a deferring expansion makes of a bag. -/
theorem get?_of_expand_deferring {b : Bindings} {bag bag' : Bag}
    (h : bag.expand b .deferring = .ok bag') :
    bag'.excluded = bag.excluded ∧
      (∀ n, bag'.values.get? n = (bag.values.get? n).map (PropertyValue.deferred b)) ∧
      ∀ n v, bag.values.get? n = some v → ∀ t ∈ v.sources, Closed t := by
  obtain ⟨he, -, hx⟩ := expand_ok.mp h
  obtain ⟨hclosed, hes⟩ := expandEntries_deferring_ok.mp he
  refine ⟨hx, fun n => ?_, fun n v hv => hclosed _ (Dictionary.mem_of_get? hv)⟩
  rw [Dictionary.get?, hes]
  exact Dictionary.lookup_map (fun _ => PropertyValue.deferred b) n _

/-- A bag is expanded if all references in it have an end. -/
theorem exists_expand_deferring {b : Bindings} {bag : Bag}
    (h : ∀ n v, bag.values.get? n = some v → ∀ t ∈ v.sources, Closed t) :
    ∃ bag', bag.expand b .deferring = .ok bag' := by
  have he : expandEntries b .deferring bag.values.entries = .ok _ := expandEntries_deferring_ok.mpr
    ⟨fun e he => h e.1 e.2 (Dictionary.get?_of_mem he), rfl⟩
  unfold expand
  split
  · next f hf => cases hf.symm.trans he
  · exact ⟨_, rfl⟩

theorem expand_sameShapes {b : Bindings} {bag bag' : Bag} (h : bag.expand b .deferring = .ok bag') :
    bag'.SameShapes bag := by
  obtain ⟨hx, hget, -⟩ := get?_of_expand_deferring h
  refine ⟨fun n => ?_, hx⟩
  rw [hget, Option.map_map]
  congr 1
  funext v
  exact PropertyValue.shape_deferred b v

/-! ### Changes behind an expansion -/

/-- **Changes behind an expansion can be made without it**, and if the bag can be expanded behind the
one, it can behind the other, and the mergeable properties come out the same. -/
theorem changeAll_of_expanded {b₁ b : Bindings} (hb : b₁.orElse b = b) {bag expanded two two' : Bag}
    {cs : List Change} (he : bag.expand b₁ .deferring = .ok expanded)
    (hc : expanded.changeAll cs = .ok two) (ht : two.expand b .deferring = .ok two') :
    ∃ one one', bag.changeAll cs = .ok one ∧ one.expand b .deferring = .ok one' ∧
      one'.excluded = two'.excluded ∧
      ∀ n, (∀ v, bag.values.get? n = some v → PropertyValue.Sets (changesOf n cs) ∨
          PropertyValue.Mergeable b₁ b v (changesOf n cs)) →
        one'.values.get? n = two'.values.get? n := by
  obtain ⟨-, hget, hclosed⟩ := get?_of_expand_deferring he
  obtain ⟨one, hone, hshapes⟩ := (expand_sameShapes he).changeAll hc
  obtain ⟨hx, hget₂, hclosed₂⟩ := get?_of_expand_deferring ht
  have hsome : ∀ n v, bag.values.get? n = some v → ∃ u u', v.mergeAll (changesOf n cs) = some u ∧
      one.values.get? n = some u ∧ (v.deferred b₁).mergeAll (changesOf n cs) = some u' ∧
      two.values.get? n = some u' := by
    intro n v hv
    have hv' : expanded.values.get? n = some (v.deferred b₁) := by rw [hget, hv, Option.map_some]
    obtain ⟨u, hu, hn⟩ := get?_of_changeAll hone hv
    obtain ⟨u', hu', hn'⟩ := get?_of_changeAll hc hv'
    exact ⟨u, u', hu, hn, hu', hn'⟩
  have hnone : ∀ n, bag.values.get? n = none → one.values.get? n = two.values.get? n := fun n hn =>
    get?_congr_of_changeAll (by rw [hget, hn, Option.map_none]) hone hc
  have hall : ∀ n u, one.values.get? n = some u → ∀ t ∈ u.sources, Closed t := by
    intro n u hu t ht
    cases hv : bag.values.get? n with
    | none => exact hclosed₂ n u (by rw [← hnone n hv, hu]) t ht
    | some v =>
      obtain ⟨_, u', hv₁, hu₁, hv₂, hu₂⟩ := hsome n v hv
      obtain rfl := Option.some.inj (hu.symm.trans hu₁)
      rcases PropertyValue.mem_sources_mergeAll hv₁ hv₂ ht with ht | ht
      · exact hclosed n v hv t ht
      · exact hclosed₂ n u' hu₂ t ht
  obtain ⟨one', hone'⟩ := exists_expand_deferring (b := b) hall
  obtain ⟨hx₁, hget₁, -⟩ := get?_of_expand_deferring hone'
  refine ⟨one, one', hone, hone', by rw [hx₁, hx, hshapes.excluded], fun n hm => ?_⟩
  rw [hget₁, hget₂]
  cases hv : bag.values.get? n with
  | none => rw [hnone n hv]
  | some v =>
    obtain ⟨u, u', hv₁, hu₁, hv₂, hu₂⟩ := hsome n v hv
    rw [hu₁, hu₂, Option.map_some, Option.map_some,
      PropertyValue.deferred_mergeAll hb hv₁ hv₂ (hm v hv)]

end Bag

/-! ### Objects -/

/-- What an object is compiled to if nothing is kept: its base is there, its body is walked, and what
is bound is expanded. -/
theorem Job.answerAnew_ok {j : Job} {external : NameSet} {s : Settings} :
    (j.answerAnew external).result = .ok s ↔ j.basePresent = true ∧ ∃ bag flow expanded,
      (walkAll j.registry (j.defined external) j.start j.object.body).result = .ok (bag, flow) ∧
      bag.expand j.bindings .deferring = .ok expanded ∧ s = ⟨j.key external, expanded⟩ := by
  unfold answerAnew
  cases hp : j.basePresent with
  | false => exact ⟨nofun, nofun⟩
  | true =>
    show ((j.run external).result.within j.context) = .ok s ↔ _
    rw [Fallible.within_ok, run, Logged.result_bind_ok, and_iff_right rfl]
    constructor
    · rintro ⟨⟨bag, flow⟩, hw, h⟩
      obtain ⟨expanded, he, h⟩ := Logged.result_bind_ok.mp h
      cases h
      exact ⟨bag, flow, expanded, hw, he, rfl⟩
    · rintro ⟨bag, flow, expanded, hw, he, rfl⟩
      exact ⟨(bag, flow), hw, Logged.result_bind_ok.mpr ⟨expanded, he, rfl⟩⟩

theorem Job.runIn_compile_ok {j : Job} {external : NameSet} {s t : Session} {settings : Settings}
    (hn : s.cache.get? (j.key external) = none)
    (h : (j.compile external).runIn s = (.ok settings, t)) :
    (j.answerAnew external).result = .ok settings ∧
      ∀ k, k ≠ j.key external → t.cache.get? k = s.cache.get? k := by
  rw [Compile.runIn_compile] at h
  have ha := (Session.answer_of_get?_eq_none hn).1
  rw [h] at ha
  refine ⟨ha.symm, fun k hk => ?_⟩
  have hk' : j.key external ∉ ({k} : Set SettingsKey) := fun hm => hk hm.symm
  have hagree := Session.answer_agree hk' s
  rw [h] at hagree
  exact (hagree k rfl).symm

/-- What objects that are compiled in one place have in common. -/
structure Site where
  scope : String
  registry : Registry
  configuration : Option Configuration
  bindings : Bindings
  /-- The constants that are defined in every configuration. -/
  external : NameSet

namespace Site

variable (p : Site)

/-- An object that is to be compiled there on the settings of a base. -/
def job (o : Object) (base : Option Settings) : Job :=
  ⟨o, p.scope, p.registry, p.configuration, base, p.bindings⟩

/-- Compiles an object there. -/
def compile (o : Object) (base : Option Settings) : Compile Settings :=
  (p.job o base).compile p.external

/-- The constants that are defined there. -/
def defined : NameSet := (p.job default none).defined p.external

/-- Walks over a body there, from the properties with their values at first. -/
def walk (body : List Element) : Fallible (Bag × Flow) :=
  (walkAll p.registry p.defined (.initial p.registry) body).result

end Site

/-- The object that holds the elements of both, the first ones in front, and builds on nothing. -/
def Object.prepended (base child : Object) : Object :=
  ⟨{ child.heading with base := none }, base.body ++ child.body⟩

/-- Two walks one after the other are a walk over both bodies, if the first one goes on to its end. -/
theorem walkAll_append_ok {r : Registry} {defined : NameSet} {bag mid bag' : Bag}
    {es fs : List Element} {flow : Flow}
    (he : (walkAll r defined bag es).result = .ok (mid, .goOn))
    (hf : (walkAll r defined mid fs).result = .ok (bag', flow)) :
    (walkAll r defined bag (es ++ fs)).result = .ok (bag', flow) := by
  rw [walkAll_append]
  exact Logged.result_bind_ok.mpr ⟨(mid, .goOn), he, hf⟩

/-- **To inherit is to prepend the body of the base**, for every property that is set anew, and for
every other one as long as the texts of the base settle and no keys get in each other's way. If an object
and, on top of it, a second one are compiled, and the walk over the first one goes on to its end, then
the object that holds the elements of both is compiled, is left out alike, and has the same values for
these properties. -/
theorem Site.compile_prepended {p : Site} {base child : Object} (hne : base.name ≠ child.name)
    {two : Settings}
    (h : ((p.compile base none >>= fun s => p.compile child (some s)).runIn .initial).1 = .ok two)
    {bag : Bag} (hw : p.walk base.body = .ok (bag, .goOn)) :
    ∃ cs flow one, changesAll p.registry p.defined child.body = .ok (cs, flow) ∧
      ((p.compile (base.prepended child) none).runIn .initial).1 = .ok one ∧
      one.isExcluded = two.isExcluded ∧
      ∀ n, (∀ v, bag.values.get? n = some v → PropertyValue.Sets (changesOf n cs) ∨
          PropertyValue.Mergeable p.bindings p.bindings v (changesOf n cs)) →
        one.value? n = two.value? n := by
  obtain ⟨first, s, hfirst, hsecond⟩ := Compile.runIn_bind_ok.mp (Prod.ext h rfl)
  obtain ⟨hfirst, hkept⟩ := Job.runIn_compile_ok rfl hfirst
  have hkey : (p.job child (some first)).key p.external ≠ (p.job base none).key p.external :=
    fun he => hne (congrArg SettingsKey.name he).symm
  have hnone : s.cache.get? ((p.job child (some first)).key p.external) = none := hkept _ hkey
  obtain ⟨hsecond, -⟩ := Job.runIn_compile_ok hnone hsecond
  obtain ⟨-, bag', flow', expanded, hw', he, rfl⟩ := Job.answerAnew_ok.mp hfirst
  cases hw'.symm.trans hw
  obtain ⟨-, changed, flow, two', hw₂, ht, rfl⟩ := Job.answerAnew_ok.mp hsecond
  obtain ⟨cs, hcs, hchanged⟩ := walkAll_ok.mp hw₂
  obtain ⟨one, one', hone, hone', hx, hvalues⟩ :=
    Bag.changeAll_of_expanded p.bindings.orElse_self he hchanged ht
  have hboth : p.walk (base.body ++ child.body) = .ok (one, flow) :=
    walkAll_append_ok hw (walkAll_ok.mpr ⟨cs, hcs, hone⟩)
  let job := p.job (base.prepended child) none
  have hanew : (job.answerAnew p.external).result = .ok ⟨job.key p.external, one'⟩ :=
    Job.answerAnew_ok.mpr ⟨rfl, one, flow, one', hboth, hone', rfl⟩
  refine ⟨cs, flow, ⟨job.key p.external, one'⟩, hcs, ?_, hx, hvalues⟩
  rw [compile, Compile.runIn_compile, ← hanew]
  exact (Session.answer_of_get?_eq_none rfl).1

/-! ### Keys that become equal -/

/-- An addition to the dictionary of properties. -/
def propertyAdded (key value : String) : Element :=
  .assignment ⟨.add, ["properties"], .pair key (.literal value), always⟩

/-- Settings of a template, compiled where the name `A` is bound. -/
def boundSite : Site := ⟨"template T", .settings, none, Bindings.empty.bind "A" "y", .empty⟩

/-- Settings with a reference for a key. -/
def referring : Object := ⟨⟨"settings", "P", none⟩, [propertyAdded "$(A)" "1"]⟩

/-- Settings that build on those, with another key. -/
def another : Object := ⟨⟨"settings", "C", some "P"⟩, [propertyAdded "z" "2"]⟩

/-- Settings that build on those, with the value of the reference for a key, and the reference once
more. -/
def colliding : Object :=
  ⟨⟨"settings", "C", some "P"⟩, [propertyAdded "y" "2", propertyAdded "$(A)" "3"]⟩

/-- The properties of settings that build on others. -/
def inheritedProperties? (p : Site) (base child : Object) : Option PropertyValue :=
  ((p.compile base none >>= fun s => p.compile child (some s)).runIn .initial).1.toOption.bind
    (·.value? PropertyName.properties)

/-- The properties of settings that hold the elements of both. -/
def prependedProperties? (p : Site) (base child : Object) : Option PropertyValue :=
  ((p.compile (base.prepended child) none).runIn .initial).1.toOption.bind
    (·.value? PropertyName.properties)

/-- Another key is not in the way of the first one. -/
theorem mergeable_another : PropertyValue.Mergeable boundSite.bindings boundSite.bindings
    (.dictionary (.ofList [("$(A)", .text "1")])) [(.add, .dictionary (.ofList [("z", .text "2")]))] where
  settled := by decide +kernel
  keys := Or.inr ⟨by decide +kernel, by decide +kernel⟩

/-- With another key it makes no difference that the first one is expanded before. -/
theorem compile_prepended_another : ∃ two one,
    ((boundSite.compile referring none >>= fun s => boundSite.compile another (some s)).runIn
      .initial).1 = .ok two ∧
    ((boundSite.compile (referring.prepended another) none).runIn .initial).1 = .ok one ∧
    one.value? PropertyName.properties = two.value? PropertyName.properties := by
  have hrun : ((boundSite.compile referring none >>= fun s => boundSite.compile another (some s)).runIn
      .initial).1.toOption.isSome = true := by
    decide +kernel
  have hwalk : (boundSite.walk referring.body).toOption.any (fun r => r.2 = .goOn ∧
      r.1.values.get? PropertyName.properties =
        some (.dictionary (.ofList [("$(A)", .text "1")]))) = true := by
    decide +kernel
  have hchanges : (changesAll boundSite.registry boundSite.defined another.body).toOption.any
      (fun r => changesOf PropertyName.properties r.1 =
        [(.add, .dictionary (.ofList [("z", .text "2")]))]) = true := by
    decide +kernel
  cases h : ((boundSite.compile referring none >>= fun s => boundSite.compile another (some s)).runIn
      .initial).1 with
  | error e =>
    rw [h] at hrun
    cases hrun
  | ok two =>
    cases hw : boundSite.walk referring.body with
    | error e =>
      rw [hw] at hwalk
      cases hwalk
    | ok r =>
      obtain ⟨bag, flow⟩ := r
      rw [hw] at hwalk
      obtain ⟨rfl, hbag⟩ := of_decide_eq_true hwalk
      obtain ⟨cs, _, one, hcs, hone, -, hvalues⟩ := Site.compile_prepended (by decide) h hw
      rw [hcs] at hchanges
      refine ⟨two, one, rfl, hone, hvalues _ fun v hv => Or.inr ?_⟩
      rw [of_decide_eq_true hchanges, ← Option.some.inj (hbag.symm.trans hv)]
      exact mergeable_another

/-- **Where a key is given as a reference and again as its value, it makes a difference**: the reference
that comes once more is put in its place in front of the value if it has not been expanded, and behind it
otherwise. -/
theorem prepended_differs :
    (boundSite.walk referring.body).toOption.map Prod.snd = some .goOn ∧
      inheritedProperties? boundSite referring colliding =
        some (.dictionary (.ofList [("y", .text "3")])) ∧
      prependedProperties? boundSite referring colliding =
        some (.dictionary (.ofList [("y", .text "2")])) := by
  decide +kernel

end BuildPlan
