import BuildPlan.Proofs.Settings.Fitting
import BuildPlan.Proofs.Settings.Prepending

/-! # Values that admit names

A list of values that is set as the patterns of a property is read, expanded twice and made ready to
match, and equal patterns count once on the way. What is matched in the end is what the values match one
by one (`whitelist_of_matchers`). And a property that is set behind a body has in the end what was set,
expanded, while the rest of the bag is what it would be without it (`Bag.expand_insert`). -/

namespace BuildPlan

open BuildPlan.Variable

/-- The property that admits projects. -/
def Definition.includeProjects : Definition :=
  Registry.blank PropertyName.includeProjects .set .pattern

/-- The pattern that a value declares, with its text expanded as far as possible and then fully. -/
def Value.expandedPattern (b : Bindings) (v : Value) : Fallible Pattern :=
  match Pattern.ofValue? v with
  | .some p => do
    let deferred ← Variable.expand b .deferring p.text
    let text ← Variable.expand b .complete deferred
    return { p with text := text }
  | .none => Definition.includeProjects.misfit (.notPattern v)

/-- This pattern, ready to match. -/
def Value.matcher (b : Bindings) (v : Value) : Fallible CompiledPattern := do
  Pattern.compile (← v.expandedPattern b)

/-! ### Patterns of values -/

section Patterns
variable {b : Bindings} {v : Value} {p : Pattern} {vs : List Value} {ps qs : List Pattern}
  {ms : List CompiledPattern}

theorem Value.expandedPattern_ok : v.expandedPattern b = .ok p ↔
    ∃ written text, Pattern.ofValue? v = some written ∧ Closed written.text ∧
      Variable.expand b .complete (deferred b written.text) = .ok text ∧
      p = { written with text := text } := by
  unfold expandedPattern
  cases Pattern.ofValue? v with
  | none => simp [Definition.misfit, Cause.raise]
  | some written =>
    dsimp only
    constructor
    · intro h
      obtain ⟨_, hd, hrest⟩ := Fallible.bind_ok.mp h
      obtain ⟨hc, rfl⟩ := expand_deferring_ok.mp hd
      obtain ⟨text, ht, hp⟩ := Fallible.bind_ok.mp hrest
      exact ⟨written, text, rfl, hc, ht, (Except.ok.inj hp).symm⟩
    · rintro ⟨_, text, hw, hc, ht, rfl⟩
      cases hw
      exact Fallible.bind_ok.mpr ⟨_, expand_deferring_ok.mpr ⟨hc, rfl⟩,
        Fallible.bind_ok.mpr ⟨text, ht, rfl⟩⟩

/-- Values that declare patterns are read as these patterns. -/
theorem Definition.readAllItems_includeProjects {f : Value → Pattern} : ∀ {vs : List Value},
    (∀ v ∈ vs, Pattern.ofValue? v = some (f v)) →
      Definition.includeProjects.readAllItems vs = .ok (vs.map fun v => .pattern (f v))
  | [], _ => rfl
  | v :: vs, h => by
    obtain ⟨hv, hvs⟩ := List.forall_mem_cons.mp h
    have hitem : Definition.includeProjects.readItem v = .ok (.pattern (f v)) := by
      show (match Pattern.ofValue? v with
        | some p => Except.ok (Item.pattern p)
        | none => Definition.includeProjects.misfit (.notPattern v)) = _
      rw [hv]
    have hitems : Definition.includeProjects.readItems v = .ok [.pattern (f v)] := by
      cases v with
      | literal | glob | regex => exact Fallible.bind_ok.mpr ⟨_, hitem, rfl⟩
      | xml | none | array | pair => cases hv
    rw [readAllItems]
    exact Fallible.bind_ok.mpr ⟨_, hitems,
      Fallible.bind_ok.mpr ⟨_, readAllItems_includeProjects hvs, rfl⟩⟩

/-- The patterns of values are read as a set, which is expanded twice. -/
theorem items_of_expandedPatterns (h : vs.mapM (Value.expandedPattern b) = .ok ps) :
    ∃ v v₁ items, Definition.includeProjects.read (.array vs) = .ok v ∧
      v.expand b .deferring = .ok v₁ ∧ v₁.expand b .complete = .ok (.set items) ∧
      ∀ p, p ∈ items.items.filterMap Item.pattern? ↔ p ∈ ps := by
  have hall : ∀ v ∈ vs, ∃ written text, Pattern.ofValue? v = some written ∧ Closed written.text ∧
      Variable.expand b .complete (deferred b written.text) = .ok text ∧
      v.expandedPattern b = .ok { written with text := text } := by
    intro v hv
    obtain ⟨p, hp⟩ := Fallible.exists_of_mapM_ok h hv
    obtain ⟨written, text, hw, hc, ht, rfl⟩ := Value.expandedPattern_ok.mp hp
    exact ⟨written, text, hw, hc, ht, hp⟩
  choose! written text hw hclosed htext hpattern using hall
  -- The set as it is read, as it is deferred, and as it is in the end.
  let v : PropertyValue := .set (.ofList (vs.map fun v => .pattern (written v)))
  have hv : ∀ i, i ∈ v.items ↔ ∃ u ∈ vs, Item.pattern (written u) = i := fun i =>
    OrderedSet.mem_items_ofList.trans List.mem_map
  have hdeferred : ∀ i, i ∈ (v.deferred b).items ↔
      ∃ u ∈ vs, (Item.pattern (written u)).deferred b = i := by
    intro i
    refine (OrderedSet.mem_items_ofList.trans List.mem_map).trans ?_
    constructor
    · rintro ⟨j, hj, rfl⟩
      obtain ⟨u, hu, rfl⟩ := (hv j).mp hj
      exact ⟨u, hu, rfl⟩
    · rintro ⟨u, hu, rfl⟩
      exact ⟨_, (hv _).mpr ⟨u, hu, rfl⟩, rfl⟩
  have hexpand : ∀ u ∈ vs, Item.expand b .complete ((Item.pattern (written u)).deferred b) =
      .ok (.pattern { written u with text := text u }) := fun u hu =>
    Fallible.bind_ok.mpr ⟨_, htext u hu, rfl⟩
  have hall : ∀ i ∈ (v.deferred b).items, ∃ j, i.expand b .complete = .ok j := fun i hi => by
    obtain ⟨u, hu, rfl⟩ := (hdeferred i).mp hi
    exact ⟨_, hexpand u hu⟩
  obtain ⟨items, hitems⟩ := Fallible.exists_mapM_ok hall
  refine ⟨v, v.deferred b, .ofList items, Fallible.bind_ok.mpr
    ⟨_, Definition.readAllItems_includeProjects hw, rfl⟩, (PropertyValue.expand_deferring_ok v _).mpr
    ⟨fun t ht => ?_, rfl⟩, Fallible.bind_ok.mpr ⟨items, hitems, rfl⟩, fun p => ?_⟩
  · obtain ⟨i, hi, rfl⟩ := List.mem_map.mp ht
    obtain ⟨u, hu, rfl⟩ := (hv i).mp hi
    exact hclosed u hu
  · rw [List.mem_filterMap, Fallible.mem_mapM h]
    constructor
    · rintro ⟨i, hi, hp⟩
      obtain ⟨j, hj, hji⟩ := (Fallible.mem_mapM hitems).mp (OrderedSet.mem_items_ofList.mp hi)
      obtain ⟨u, hu, rfl⟩ := (hdeferred j).mp hj
      cases (hexpand u hu).symm.trans hji
      cases hp
      exact ⟨u, hu, hpattern u hu⟩
    · rintro ⟨u, hu, hp⟩
      cases (hpattern u hu).symm.trans hp
      exact ⟨_, OrderedSet.mem_items_ofList.mpr ((Fallible.mem_mapM hitems).mpr
        ⟨_, (hdeferred _).mpr ⟨u, hu, rfl⟩, hexpand u hu⟩), rfl⟩

/-- **What a list of values matches in the end is what they match one by one.** -/
theorem whitelist_of_matchers (h : vs.mapM (Value.matcher b) = .ok ms) :
    ∃ v v₁ items w, Definition.includeProjects.read (.array vs) = .ok v ∧
      v.expand b .deferring = .ok v₁ ∧ v₁.expand b .complete = .ok (.set items) ∧
      Whitelist.ofPatterns (items.items.filterMap Item.pattern?) = .ok w ∧
      ∀ m, m ∈ w.patterns ↔ m ∈ ms := by
  have hall : ∀ v ∈ vs, ∃ p m, v.expandedPattern b = .ok p ∧ p.compile = .ok m := fun v hv => by
    obtain ⟨m, hm⟩ := Fallible.exists_of_mapM_ok h hv
    obtain ⟨p, hp, hm⟩ := Fallible.bind_ok.mp hm
    exact ⟨p, m, hp, hm⟩
  obtain ⟨ps, hps⟩ := Fallible.exists_mapM_ok fun v hv => (hall v hv).imp fun _ ⟨_, hp, _⟩ => hp
  obtain ⟨v, v₁, items, hread, hv₁, hitems, hmem⟩ := items_of_expandedPatterns hps
  have hcompile : ∀ p ∈ items.items.filterMap Item.pattern?, ∃ m, p.compile = .ok m := by
    intro p hp
    obtain ⟨u, hu, hup⟩ := (Fallible.mem_mapM hps).mp ((hmem p).mp hp)
    obtain ⟨_, m, hp', hm⟩ := hall u hu
    cases hp'.symm.trans hup
    exact ⟨m, hm⟩
  obtain ⟨ms', hms'⟩ := Fallible.exists_mapM_ok hcompile
  refine ⟨v, v₁, items, ⟨ms'⟩, hread, hv₁, hitems, Fallible.bind_ok.mpr ⟨ms', hms', rfl⟩, fun m => ?_⟩
  rw [Fallible.mem_mapM hms', Fallible.mem_mapM h]
  constructor
  · rintro ⟨p, hp, hm⟩
    obtain ⟨u, hu, hup⟩ := (Fallible.mem_mapM hps).mp ((hmem p).mp hp)
    exact ⟨u, hu, Fallible.bind_ok.mpr ⟨p, hup, hm⟩⟩
  · rintro ⟨u, hu, hm⟩
    obtain ⟨p, hp, hm⟩ := Fallible.bind_ok.mp hm
    exact ⟨p, (hmem p).mpr ((Fallible.mem_mapM hps).mpr ⟨u, hu, hp⟩), hm⟩

end Patterns

/-! ### Properties that are set last -/

namespace Bag

variable {b : Bindings} {e : Expansion} {n : String} {v v₁ : PropertyValue}

theorem expandEntries_cons_ok {entry : String × PropertyValue} {es rs : List (String × PropertyValue)} :
    expandEntries b e (entry :: es) = .ok rs ↔ ∃ u us, entry.2.expand b e = .ok u ∧
      expandEntries b e es = .ok us ∧ rs = (entry.1, u) :: us := by
  rw [expandEntries, Fallible.bind_ok]
  simp only [Fallible.within_ok]
  constructor
  · rintro ⟨u, hu, h⟩
    obtain ⟨us, hus, h⟩ := Fallible.bind_ok.mp h
    cases h
    exact ⟨u, us, hu, hus, rfl⟩
  · rintro ⟨u, us, hu, hus, rfl⟩
    exact ⟨u, hu, Fallible.bind_ok.mpr ⟨us, hus, rfl⟩⟩

theorem expandEntries_put (hv : v.expand b e = .ok v₁) : ∀ {es rs : List (String × PropertyValue)},
    expandEntries b e es = .ok rs →
      expandEntries b e (Dictionary.put n v es) = .ok (Dictionary.put n v₁ rs)
  | [], _, h => by
    cases h
    exact expandEntries_cons_ok.mpr ⟨v₁, [], hv, rfl, rfl⟩
  | entry :: es, _, h => by
    obtain ⟨u, us, hu, hus, rfl⟩ := expandEntries_cons_ok.mp h
    rw [Dictionary.put_cons, Dictionary.put_cons]
    split
    · exact expandEntries_cons_ok.mpr ⟨v₁, us, hv, hus, rfl⟩
    · exact expandEntries_cons_ok.mpr ⟨u, _, hu, expandEntries_put hv hus, rfl⟩

/-- **Where a property is changed before an expansion, it is changed behind it, and nothing else is.** -/
theorem expand_insert {bag bag₁ : Bag} (h : bag.expand b e = .ok bag₁) (hv : v.expand b e = .ok v₁) :
    { bag with values := bag.values.insert n v }.expand b e =
      .ok { bag₁ with values := bag₁.values.insert n v₁ } := by
  obtain ⟨hes, hc, hx⟩ := expand_ok.mp h
  exact expand_ok.mpr ⟨expandEntries_put hv hes, hc, hx⟩

end Bag

/-! ### Walks that come to their end -/

theorem Registry.mem_of_command {r : Registry} {name : String} {c : Command}
    (h : r.command name = .ok c) : c ∈ r.commands := by
  unfold command at h
  split at h
  · next hc =>
    cases h
    exact List.mem_of_find?_eq_some hc
  · cases h

section GoOn
variable {r : Registry} {defined : NameSet}

mutual

theorem Element.goOn_of_changes (hr : ∀ c ∈ r.commands, c = .warn ∨ c = .error) :
    ∀ {e : Element} {cs : List Change} {flow : Flow},
      e.changes r defined = .ok (cs, flow) → flow = .goOn
  | .block condition body, _, _, h => by
    rw [Element.changes] at h
    obtain ⟨holds, -, h⟩ := Fallible.bind_ok.mp h
    cases holds with
    | true => exact goOn_of_changesAll hr h
    | false =>
      cases h
      rfl
  | .assignment a, _, _, h => by
    rw [Element.changes] at h
    obtain ⟨holds, -, h⟩ := Fallible.bind_ok.mp h
    cases holds with
    | true =>
      obtain ⟨d, -, h⟩ := Fallible.bind_ok.mp h
      obtain ⟨value, -, h⟩ := Fallible.bind_ok.mp h
      cases h
      rfl
    | false =>
      cases h
      rfl
  | .invocation i, _, _, h => by
    rw [Element.changes] at h
    obtain ⟨holds, -, h⟩ := Fallible.bind_ok.mp h
    cases holds with
    | true =>
      obtain ⟨command, hc, h⟩ := Fallible.bind_ok.mp h
      obtain rfl | rfl := hr command (Registry.mem_of_command hc)
      · cases h
        rfl
      · cases h
    | false =>
      cases h
      rfl
  | .object _ _, _, _, h | .group _, _, _, h | .comment _, _, _, h => by
    rw [Element.changes] at h
    cases h
    rfl

/-- Where no command stops a walk, it goes on to the end of the body. -/
theorem goOn_of_changesAll (hr : ∀ c ∈ r.commands, c = .warn ∨ c = .error) :
    ∀ {es : List Element} {cs : List Change} {flow : Flow},
      changesAll r defined es = .ok (cs, flow) → flow = .goOn
  | [], _, _, h => by
    rw [changesAll] at h
    cases h
    rfl
  | e :: es, _, _, h => by
    rcases changesAll_cons_ok.mp h with ⟨he, -⟩ | ⟨_, _, -, hes, -⟩
    · cases Element.goOn_of_changes hr he
    · exact goOn_of_changesAll hr hes

end

end GoOn

end BuildPlan
