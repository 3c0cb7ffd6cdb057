import BuildPlan.Proofs.Collection.Rewriting
import BuildPlan.Settings.Walk

/-! # What a body changes

The body of an object says what is changed in a bag and where the walk ends, and it says so without
regard to the bag: the conditions are judged by the constants that are defined, and the values are read
by the definitions of the properties. So a walk makes a list of changes, one after another
(`walkAll_ok`). What becomes of one property then depends on its own changes alone
(`get?_of_changeAll`): if it is set, what was there before is lost, and otherwise all changes add to it
(`mergeAll_cases`). -/

namespace BuildPlan

/-! ### Changes -/

/-- A change of a bag. -/
inductive Change where
  /-- Merges a value into a property. -/
  | merge (property : Definition) (action : Action) (value : PropertyValue)
  /-- Marks the object as left out. -/
  | exclude

namespace Bag

/-- Makes one change. -/
def change (bag : Bag) : Change → Fallible Bag
  | .merge d action incoming => do
    let merged ← d.merge action (bag.current d) incoming
    return { bag with values := bag.values.insert d.name merged }
  | .exclude => .ok bag.exclude

/-- Makes changes one after another. -/
def changeAll (bag : Bag) (cs : List Change) : Fallible Bag := cs.foldlM change bag

theorem changeAll_cons_ok {bag bag' : Bag} {c : Change} {cs : List Change} :
    bag.changeAll (c :: cs) = .ok bag' ↔
      ∃ changed, bag.change c = .ok changed ∧ changed.changeAll cs = .ok bag' :=
  Fallible.bind_ok

theorem changeAll_append_ok {bag bag' : Bag} {cs ds : List Change} :
    bag.changeAll (cs ++ ds) = .ok bag' ↔
      ∃ changed, bag.changeAll cs = .ok changed ∧ changed.changeAll ds = .ok bag' := by
  rw [changeAll, List.foldlM_append]
  exact Fallible.bind_ok

theorem changeAll_singleton (bag : Bag) (c : Change) : bag.changeAll [c] = bag.change c := by
  show bag.change c >>= pure = _
  exact bind_pure _

theorem apply_ok {bag bag' : Bag} {d : Definition} {action : Action} {value : Value} :
    bag.apply d action value = .ok bag' ↔
      ∃ incoming, d.read value = .ok incoming ∧
        bag.change (.merge d action incoming) = .ok bag' :=
  Fallible.bind_ok

end Bag

mutual

/-- The changes that an element makes where the constants are defined, and whether the walk goes on
behind it. -/
def Element.changes (r : Registry) (defined : NameSet) : Element → Fallible (List Change × Flow)
  | .block condition body => do
    if ← judge condition defined then changesAll r defined body else return ([], .goOn)
  | .assignment a => do
    if ← judge a.condition defined then
      let definition ← r.property a.name
      return ([.merge definition a.action (← definition.read a.value)], .goOn)
    else return ([], .goOn)
  | .invocation c => do
    if ← judge c.condition defined then
      match ← r.command c.name with
      | .exclude => return ([.exclude], .stop)
      | .skip => return ([], .stop)
      | .warn => return ([], .goOn)
      | .error => (Cause.user (c.argument.getD "error")).raise
    else return ([], .goOn)
  | .object _ _ => return ([], .goOn)
  | .group _ => return ([], .goOn)
  | .comment _ => return ([], .goOn)

/-- The changes that elements make, one after another, until one of them stops the walk. -/
def changesAll (r : Registry) (defined : NameSet) : List Element → Fallible (List Change × Flow)
  | [] => return ([], .goOn)
  | e :: es => do
    match ← e.changes r defined with
    | (cs, .stop) => return (cs, .stop)
    | (cs, .goOn) => do
      let (more, flow) ← changesAll r defined es
      return (cs ++ more, flow)

end

/-! ### A walk makes changes -/

section Walk
variable {r : Registry} {defined : NameSet}

theorem changesAll_cons_ok {e : Element} {es : List Element} {cs : List Change} {flow : Flow} :
    changesAll r defined (e :: es) = .ok (cs, flow) ↔
      (e.changes r defined = .ok (cs, .stop) ∧ flow = .stop) ∨
        ∃ first more, e.changes r defined = .ok (first, .goOn) ∧
          changesAll r defined es = .ok (more, flow) ∧ cs = first ++ more := by
  rw [changesAll, Fallible.bind_ok]
  constructor
  · rintro ⟨⟨first, _ | _⟩, he, h⟩
    · obtain ⟨⟨more, flow'⟩, hes, h⟩ := Fallible.bind_ok.mp h
      cases h
      exact Or.inr ⟨first, more, he, hes, rfl⟩
    · cases h
      exact Or.inl ⟨he, rfl⟩
  · rintro (⟨he, rfl⟩ | ⟨first, more, he, hes, rfl⟩)
    · exact ⟨(cs, .stop), he, rfl⟩
    · exact ⟨(first, .goOn), he, Fallible.bind_ok.mpr ⟨(more, flow), hes, rfl⟩⟩

theorem walkAll_cons_ok {bag bag' : Bag} {e : Element} {es : List Element} {flow : Flow} :
    (walkAll r defined bag (e :: es)).result = .ok (bag', flow) ↔
      ((e.walk r defined bag).result = .ok (bag', .stop) ∧ flow = .stop) ∨
        ∃ mid, (e.walk r defined bag).result = .ok (mid, .goOn) ∧
          (walkAll r defined mid es).result = .ok (bag', flow) := by
  rw [walkAll, Logged.result_bind_ok]
  constructor
  · rintro ⟨⟨mid, _ | _⟩, he, h⟩
    · exact Or.inr ⟨mid, he, h⟩
    · cases h
      exact Or.inl ⟨he, rfl⟩
  · rintro (⟨he, rfl⟩ | ⟨mid, he, h⟩)
    · exact ⟨(bag', .stop), he, rfl⟩
    · exact ⟨(mid, .goOn), he, h⟩

/-- What is walked comes to the changes that are given beside it. -/
def Makes (bag : Bag) (walked : Logged (Bag × Flow)) (given : Fallible (List Change × Flow)) : Prop :=
  ∀ bag' flow, walked.result = .ok (bag', flow) ↔
    ∃ cs, given = .ok (cs, flow) ∧ bag.changeAll cs = .ok bag'

theorem makes_nothing (bag : Bag) (flow : Flow) :
    Makes bag (pure (bag, flow)) (pure ([], flow)) := by
  intro bag' flow'
  constructor
  · intro h
    cases h
    exact ⟨[], rfl, rfl⟩
  · rintro ⟨cs, h, hcs⟩
    cases h
    cases hcs
    rfl

/-- What may fail is the same for both. -/
theorem Makes.of_lift {α : Type} {bag : Bag} {m : Fallible α} {f : α → Logged (Bag × Flow)}
    {g : α → Fallible (List Change × Flow)} (h : ∀ a, Makes bag (f a) (g a)) :
    Makes bag (Logged.lift m >>= f) (m >>= g) := by
  intro bag' flow
  rw [Logged.result_bind_ok]
  constructor
  · rintro ⟨a, ha, hf⟩
    obtain ⟨cs, hcs, hbag⟩ := (h a bag' flow).mp hf
    exact ⟨cs, Fallible.bind_ok.mpr ⟨a, ha, hcs⟩, hbag⟩
  · rintro ⟨cs, hg, hbag⟩
    obtain ⟨a, ha, hcs⟩ := Fallible.bind_ok.mp hg
    exact ⟨a, ha, (h a bag' flow).mpr ⟨cs, hcs, hbag⟩⟩

theorem makes_assignment (bag : Bag) (d : Definition) (action : Action) (value : Value) :
    Makes bag (do return (← bag.apply d action value, .goOn))
      (do return ([.merge d action (← d.read value)], .goOn)) := by
  intro bag' flow
  refine Logged.result_bind_ok.trans ⟨?_, ?_⟩
  · rintro ⟨changed, hc, h⟩
    cases h
    obtain ⟨incoming, hr, hc⟩ := Bag.apply_ok.mp hc
    exact ⟨_, Fallible.bind_ok.mpr ⟨incoming, hr, rfl⟩, by rwa [Bag.changeAll_singleton]⟩
  · rintro ⟨cs, hcs, hc⟩
    obtain ⟨incoming, hr, h⟩ := Fallible.bind_ok.mp hcs
    cases h
    rw [Bag.changeAll_singleton] at hc
    exact ⟨bag', Bag.apply_ok.mpr ⟨incoming, hr, hc⟩, rfl⟩

theorem makes_command (bag : Bag) (argument : Option String) (c : Command) :
    Makes bag (c.run argument bag)
      (match c with
      | .exclude => return ([.exclude], .stop)
      | .skip => return ([], .stop)
      | .warn => return ([], .goOn)
      | .error => (Cause.user (argument.getD "error")).raise) := by
  intro bag' flow
  cases c with
  | exclude =>
    constructor
    · intro h
      cases h
      exact ⟨_, rfl, rfl⟩
    · rintro ⟨cs, h, hc⟩
      cases h
      cases hc
      rfl
  | skip => exact makes_nothing bag .stop bag' flow
  | warn => exact makes_nothing bag .goOn bag' flow
  | error =>
    constructor
    · intro h
      cases h
    · rintro ⟨cs, h, -⟩
      cases h

mutual

/-- What an element does to a bag is to make its changes. -/
theorem Element.walk_makes (bag : Bag) : ∀ e : Element,
    Makes bag (e.walk r defined bag) (e.changes r defined)
  | .block condition body => by
    rw [Element.walk, Element.changes]
    refine Makes.of_lift fun holds => ?_
    cases holds with
    | true => exact walkAll_makes bag body
    | false => exact makes_nothing bag .goOn
  | .assignment a => by
    rw [Element.walk, Element.changes]
    refine Makes.of_lift fun holds => ?_
    cases holds with
    | true => exact Makes.of_lift fun d => makes_assignment bag d a.action a.value
    | false => exact makes_nothing bag .goOn
  | .invocation c => by
    rw [Element.walk, Element.changes]
    refine Makes.of_lift fun holds => ?_
    cases holds with
    | true => exact Makes.of_lift fun command => makes_command bag c.argument command
    | false => exact makes_nothing bag .goOn
  | .object _ _ => by
    rw [Element.walk, Element.changes]
    exact makes_nothing bag .goOn
  | .group _ => by
    rw [Element.walk, Element.changes]
    exact makes_nothing bag .goOn
  | .comment _ => by
    rw [Element.walk, Element.changes]
    exact makes_nothing bag .goOn

theorem walkAll_makes (bag : Bag) : ∀ es : List Element,
    Makes bag (walkAll r defined bag es) (changesAll r defined es)
  | [] => by
    rw [walkAll, changesAll]
    exact makes_nothing bag .goOn
  | e :: es => by
    intro bag' flow
    rw [walkAll_cons_ok]
    constructor
    · rintro (⟨he, rfl⟩ | ⟨mid, he, hes⟩)
      · obtain ⟨cs, hcs, hbag⟩ := (e.walk_makes bag bag' .stop).mp he
        exact ⟨cs, changesAll_cons_ok.mpr (Or.inl ⟨hcs, rfl⟩), hbag⟩
      · obtain ⟨first, hfirst, hmid⟩ := (e.walk_makes bag mid .goOn).mp he
        obtain ⟨more, hmore, hbag⟩ := (walkAll_makes mid es bag' flow).mp hes
        exact ⟨first ++ more, changesAll_cons_ok.mpr (Or.inr ⟨first, more, hfirst, hmore, rfl⟩),
          Bag.changeAll_append_ok.mpr ⟨mid, hmid, hbag⟩⟩
    · rintro ⟨cs, hcs, hbag⟩
      rcases changesAll_cons_ok.mp hcs with ⟨he, rfl⟩ | ⟨first, more, hfirst, hmore, rfl⟩
      · exact Or.inl ⟨(e.walk_makes bag bag' .stop).mpr ⟨cs, he, hbag⟩, rfl⟩
      · obtain ⟨mid, hmid, hbag⟩ := Bag.changeAll_append_ok.mp hbag
        exact Or.inr ⟨mid, (e.walk_makes bag mid .goOn).mpr ⟨first, hfirst, hmid⟩,
          (walkAll_makes mid es bag' flow).mpr ⟨more, hmore, hbag⟩⟩

end

/-- **What a body does to a bag is to make its changes**, which do not depend on the bag. -/
theorem walkAll_ok {bag bag' : Bag} {es : List Element} {flow : Flow} :
    (walkAll r defined bag es).result = .ok (bag', flow) ↔
      ∃ cs, changesAll r defined es = .ok (cs, flow) ∧ bag.changeAll cs = .ok bag' :=
  walkAll_makes bag es bag' flow

end Walk

/-! ### The changes of one property -/

namespace PropertyValue

/-- Merges a value into another one, if it fits. -/
def merge? : Action → PropertyValue → PropertyValue → Option PropertyValue
  | .set, _, incoming => some incoming
  | .add, .set items, .set more => some (.set (items.insertAll more.items))
  | .add, .dictionary entries, .dictionary more =>
    some (.dictionary (entries.insertAll more.entries))
  | .add, _, _ => none

/-- Merges values one after another. -/
def mergeAll (v : PropertyValue) (cs : List (Action × PropertyValue)) : Option PropertyValue :=
  cs.foldlM (fun v c => merge? c.1 v c.2) v

theorem mergeAll_cons_eq_some {v u : PropertyValue} {c : Action × PropertyValue}
    {cs : List (Action × PropertyValue)} :
    v.mergeAll (c :: cs) = some u ↔ ∃ w, merge? c.1 v c.2 = some w ∧ w.mergeAll cs = some u :=
  Option.bind_eq_some_iff

end PropertyValue

theorem Definition.merge_ok {d : Definition} {action : Action} {v w u : PropertyValue} :
    d.merge action v w = .ok u ↔ PropertyValue.merge? action v w = some u := by
  unfold merge PropertyValue.merge?
  split <;> simp [Cause.raise, misfit]

/-- The changes of a property: what is done with which value. -/
def changesOf (property : String) : List Change → List (Action × PropertyValue)
  | [] => []
  | .merge d action value :: cs =>
    if d.name = property then (action, value) :: changesOf property cs else changesOf property cs
  | .exclude :: cs => changesOf property cs

/-- **What becomes of a property depends on its own changes alone.** -/
theorem get?_of_changeAll {n : String} : ∀ {cs : List Change} {bag bag' : Bag} {v : PropertyValue},
    bag.changeAll cs = .ok bag' → bag.values.get? n = some v →
      ∃ u, v.mergeAll (changesOf n cs) = some u ∧ bag'.values.get? n = some u
  | [], _, _, v, h, hv => by
    cases h
    exact ⟨v, rfl, hv⟩
  | .exclude :: cs, bag, bag', v, h, hv => by
    obtain ⟨mid, hmid, h⟩ := Bag.changeAll_cons_ok.mp h
    cases hmid
    have hrest := get?_of_changeAll h hv
    exact hrest
  | .merge d action value :: cs, bag, bag', v, h, hv => by
    obtain ⟨mid, hmid, h⟩ := Bag.changeAll_cons_ok.mp h
    obtain ⟨merged, hm, hmid⟩ := Fallible.bind_ok.mp hmid
    cases hmid
    by_cases hn : d.name = n
    · subst hn
      have hcur : bag.current d = v := by rw [Bag.current, hv, Option.getD_some]
      rw [hcur, Definition.merge_ok] at hm
      obtain ⟨u, hu, hget⟩ := get?_of_changeAll (v := merged) h (by
        rw [Dictionary.get?_insert, if_pos rfl])
      refine ⟨u, ?_, hget⟩
      rw [changesOf, if_pos rfl]
      exact PropertyValue.mergeAll_cons_eq_some.mpr ⟨merged, hm, hu⟩
    · obtain ⟨u, hu, hget⟩ := get?_of_changeAll (v := v) h (by
        rw [Dictionary.get?_insert, if_neg hn, hv])
      exact ⟨u, by rwa [changesOf, if_neg hn], hget⟩

/-- The same changes of the same value give the same. -/
theorem get?_congr_of_changeAll {n : String} : ∀ {cs : List Change} {a b a' b' : Bag},
    a.values.get? n = b.values.get? n → a.changeAll cs = .ok a' → b.changeAll cs = .ok b' →
      a'.values.get? n = b'.values.get? n
  | [], _, _, _, _, h, ha, hb => by
    cases ha
    cases hb
    exact h
  | .exclude :: cs, a, b, _, _, h, ha, hb => by
    obtain ⟨_, hc, ha⟩ := Bag.changeAll_cons_ok.mp ha
    cases hc
    obtain ⟨_, hc, hb⟩ := Bag.changeAll_cons_ok.mp hb
    cases hc
    have hx : a.exclude.values.get? n = b.exclude.values.get? n := h
    have hrest := get?_congr_of_changeAll hx ha hb
    exact hrest
  | .merge d action value :: cs, a, b, _, _, h, ha, hb => by
    obtain ⟨_, hc, ha⟩ := Bag.changeAll_cons_ok.mp ha
    obtain ⟨merged, hm, hc⟩ := Fallible.bind_ok.mp hc
    cases hc
    obtain ⟨_, hc, hb⟩ := Bag.changeAll_cons_ok.mp hb
    obtain ⟨merged', hm', hc⟩ := Fallible.bind_ok.mp hc
    cases hc
    refine get?_congr_of_changeAll ?_ ha hb
    rw [Dictionary.get?_insert, Dictionary.get?_insert]
    by_cases hn : d.name = n
    · have hcur : a.current d = b.current d := by rw [Bag.current, Bag.current, hn, h]
      rw [hcur, hm'] at hm
      rw [if_pos hn, if_pos hn, Except.ok.inj hm]
    · rw [if_neg hn, if_neg hn, h]

/-! ### Two bags -/

/-- The bags have the same properties, with values of the same shapes, and are left out alike. -/
structure Bag.SameShapes (a b : Bag) : Prop where
  values : ∀ n, (a.values.get? n).map PropertyValue.shape = (b.values.get? n).map PropertyValue.shape
  excluded : a.excluded = b.excluded

/-- A value is merged into another one, too, if that has the same shape. -/
theorem PropertyValue.merge?_of_shape {action : Action} {v v' w u : PropertyValue}
    (hs : v.shape = v'.shape) (h : merge? action v w = some u) :
    ∃ u', merge? action v' w = some u' ∧ u.shape = u'.shape := by
  cases action with
  | set =>
    cases h
    exact ⟨_, rfl, rfl⟩
  | add =>
    cases v <;> cases v' <;> cases hs <;> cases w <;> cases h <;> exact ⟨_, rfl, rfl⟩

/-- **What can be changed in one bag can be changed in the other.** -/
theorem Bag.SameShapes.changeAll : ∀ {cs : List Change} {a b a' : Bag}, a.SameShapes b →
    a.changeAll cs = .ok a' → ∃ b', b.changeAll cs = .ok b' ∧ a'.SameShapes b'
  | [], _, b, _, hab, h => by
    cases h
    exact ⟨b, rfl, hab⟩
  | .exclude :: cs, a, b, a', hab, h => by
    obtain ⟨mid, hmid, h⟩ := Bag.changeAll_cons_ok.mp h
    cases hmid
    have hx : a.exclude.SameShapes b.exclude := ⟨hab.values, rfl⟩
    obtain ⟨b', hb, hs⟩ := SameShapes.changeAll hx h
    exact ⟨b', Bag.changeAll_cons_ok.mpr ⟨_, rfl, hb⟩, hs⟩
  | .merge d action value :: cs, a, b, a', hab, h => by
    obtain ⟨mid, hmid, h⟩ := Bag.changeAll_cons_ok.mp h
    obtain ⟨merged, hm, hmid⟩ := Fallible.bind_ok.mp hmid
    cases hmid
    have hcur : (a.current d).shape = (b.current d).shape := by
      have hv := hab.values d.name
      unfold current
      cases ha : a.values.get? d.name <;> cases hb : b.values.get? d.name <;>
        rw [ha, hb] at hv <;> simp_all
    obtain ⟨merged', hm', hshape⟩ :=
      PropertyValue.merge?_of_shape hcur (Definition.merge_ok.mp hm)
    have hmid : ({ a with values := a.values.insert d.name merged } : Bag).SameShapes
        { b with values := b.values.insert d.name merged' } := by
      refine ⟨fun n => ?_, hab.excluded⟩
      rw [Dictionary.get?_insert, Dictionary.get?_insert]
      split
      · exact congrArg some hshape
      · exact hab.values n
    obtain ⟨b', hb, hs⟩ := SameShapes.changeAll hmid h
    exact ⟨b', Bag.changeAll_cons_ok.mpr
      ⟨_, Fallible.bind_ok.mpr ⟨merged', Definition.merge_ok.mpr hm', rfl⟩, hb⟩, hs⟩

namespace PropertyValue

/-- One of the changes sets the property, so that what was there before is lost. -/
def Sets (cs : List (Action × PropertyValue)) : Prop := ∃ c ∈ cs, c.1 = .set

/-- The entries that changes put into a dictionary, one after another. -/
def addedEntries (cs : List (Action × PropertyValue)) : List (String × Item) :=
  cs.flatMap fun c =>
    match c.2 with
    | .dictionary more => more.entries
    | _ => []

/-- The items that changes put into a set, one after another. -/
def addedItems (cs : List (Action × PropertyValue)) : List Item :=
  cs.flatMap fun c =>
    match c.2 with
    | .set more => more.items
    | _ => []

/-- **The same changes of two values**: if they set the property, nothing is left of either. Otherwise
they add the same to both, or there are none. -/
theorem mergeAll_cases : ∀ {cs : List (Action × PropertyValue)} {v v' u u' : PropertyValue},
    v.shape = v'.shape → v.mergeAll cs = some u → v'.mergeAll cs = some u' →
      (Sets cs ∧ u = u') ∨ (¬ Sets cs ∧
        ((cs = [] ∧ u = v ∧ u' = v') ∨
          (∃ s s', v = .set s ∧ v' = .set s' ∧ u = .set (s.insertAll (addedItems cs)) ∧
            u' = .set (s'.insertAll (addedItems cs))) ∨
          ∃ d d', v = .dictionary d ∧ v' = .dictionary d' ∧
            u = .dictionary (d.insertAll (addedEntries cs)) ∧
            u' = .dictionary (d'.insertAll (addedEntries cs))))
  | [], _, _, _, _, _, h, h' => by
    cases h
    cases h'
    exact Or.inr ⟨by simp [Sets], Or.inl ⟨rfl, rfl, rfl⟩⟩
  | (.set, w) :: cs, _, _, u, u', _, h, h' => by
    obtain ⟨_, hw, h⟩ := mergeAll_cons_eq_some.mp h
    obtain ⟨_, hw', h'⟩ := mergeAll_cons_eq_some.mp h'
    cases hw
    cases hw'
    exact Or.inl ⟨⟨_, List.mem_cons_self, rfl⟩, Option.some.inj (h.symm.trans h')⟩
  | (.add, w) :: cs, v, v', u, u', hs, h, h' => by
    obtain ⟨x, hx, h⟩ := mergeAll_cons_eq_some.mp h
    obtain ⟨x', hx', h'⟩ := mergeAll_cons_eq_some.mp h'
    have hsets : Sets ((.add, w) :: cs) ↔ Sets cs := by simp [Sets]
    rw [hsets]
    cases v with
    | scalar => cases hx
    | set s =>
      cases v' with
      | scalar | dictionary => cases hs
      | set s' =>
        cases w with
        | scalar | dictionary => cases hx
        | set more =>
          cases hx
          cases hx'
          have hadded : ∀ t : OrderedSet Item, t.insertAll (addedItems ((.add, .set more) :: cs)) =
              (t.insertAll more.items).insertAll (addedItems cs) := fun t =>
            t.insertAll_append more.items (addedItems cs)
          have hshape : shape (.set (s.insertAll more.items)) =
              shape (.set (s'.insertAll more.items)) := rfl
          rcases mergeAll_cases hshape h h' with h | ⟨hn, h⟩
          · exact Or.inl h
          · refine Or.inr ⟨hn, Or.inr (Or.inl ⟨s, s', rfl, rfl, ?_⟩)⟩
            rw [hadded, hadded]
            rcases h with ⟨rfl, rfl, rfl⟩ | ⟨_, _, hv, hv', rfl, rfl⟩ | ⟨_, _, hv, _⟩
            · exact ⟨rfl, rfl⟩
            · cases hv
              cases hv'
              exact ⟨rfl, rfl⟩
            · cases hv
    | dictionary d =>
      cases v' with
      | scalar | set => cases hs
      | dictionary d' =>
        cases w with
        | scalar | set => cases hx
        | dictionary more =>
          cases hx
          cases hx'
          have hadded : ∀ t : Dictionary String Item,
              t.insertAll (addedEntries ((.add, .dictionary more) :: cs)) =
                (t.insertAll more.entries).insertAll (addedEntries cs) := fun t =>
            t.insertAll_append more.entries (addedEntries cs)
          have hshape : shape (.dictionary (d.insertAll more.entries)) =
              shape (.dictionary (d'.insertAll more.entries)) := rfl
          rcases mergeAll_cases hshape h h' with h | ⟨hn, h⟩
          · exact Or.inl h
          · refine Or.inr ⟨hn, Or.inr (Or.inr ⟨d, d', rfl, rfl, ?_⟩)⟩
            rw [hadded, hadded]
            rcases h with ⟨rfl, rfl, rfl⟩ | ⟨_, _, hv, _⟩ | ⟨_, _, hv, hv', rfl, rfl⟩
            · exact ⟨rfl, rfl⟩
            · cases hv
            · cases hv
              cases hv'
              exact ⟨rfl, rfl⟩

end PropertyValue

end BuildPlan
