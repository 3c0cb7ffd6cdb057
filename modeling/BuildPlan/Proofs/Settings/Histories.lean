import BuildPlan.Proofs.Collection.Occurrences
import BuildPlan.Proofs.Settings.Fitting

/-! # Histories of a property

A property is set and added to, one value after another. What comes of it can be said without going
through the steps: the values from the last setting on count, and the one at the start if nothing is set. A
scalar has the last of them, a set the items of all of them, each where it occurs first, and a dictionary
their entries, each key where it occurs first and with its last value (`applyAll_exact`). -/

namespace BuildPlan

/-! ### Going through lists -/

namespace Fallible

variable {α β γ : Type} {f : α → Fallible β} {as : List α}

theorem mapM_singleton (f : α → Fallible β) (a : α) : [a].mapM f = do return [← f a] := by
  rw [List.mapM_cons]
  rfl

theorem exists_mapM_ok_iff : (∃ bs, as.mapM f = .ok bs) ↔ ∀ a ∈ as, ∃ b, f a = .ok b :=
  ⟨fun ⟨_, h⟩ _ ha => exists_of_mapM_ok h ha, exists_mapM_ok⟩

theorem mapM_flatMap_concat {parts : γ → List α} {cs : List γ} {c : γ} {bs bs' : List β}
    (h : (cs.flatMap parts).mapM f = .ok bs) (h' : (parts c).mapM f = .ok bs') :
    ((cs ++ [c]).flatMap parts).mapM f = .ok (bs ++ bs') := by
  rw [List.flatMap_append, List.flatMap_singleton, List.mapM_append, h, h']
  rfl

end Fallible

open Fallible

/-! ### Parts of values -/

namespace Value

mutual

/-- The values inside of arrays, at any depth, from left to right. The word for no value is none of
them. -/
def leaves : Value → List Value
  | .none => []
  | .array values => leavesAll values
  | single => [single]

def leavesAll : List Value → List Value
  | [] => []
  | v :: vs => leaves v ++ leavesAll vs

end

/-- The values of an array, or the value itself. The word for no value has none. -/
def members : Value → List Value
  | .none => []
  | .array values => values
  | single => [single]

end Value

/-- The entries of a dictionary. -/
def PropertyValue.entries : PropertyValue → List (String × Item)
  | .dictionary entries => entries.entries
  | _ => []

/-- Values of one shape are merged, unless one of them is added to a scalar. -/
theorem PropertyValue.exists_merge?_iff {action : Action} {v w : PropertyValue}
    (h : w.shape = v.shape) :
    (∃ u, merge? action v w = some u) ↔ (v.shape = .scalar → action ≠ .add) := by
  cases action with
  | set => simp [merge?]
  | add => cases v <;> cases w <;> simp_all [merge?, shape]

namespace Definition

variable {d : Definition}

/-- The value can be read for the property: for a scalar as one item or as none, for a set as items inside
of arrays, and for a dictionary as a pair or an array of pairs. -/
def Readable (d : Definition) (value : Value) : Prop :=
  match d.shape with
  | .scalar => value = .none ∨ ∃ i, d.readItem value = .ok i
  | .set => ∀ leaf ∈ value.leaves, ∃ i, d.readItem leaf = .ok i
  | .dictionary => ∀ member ∈ value.members, ∃ e, d.readEntry member = .ok e

/-- The value of the property is made of values, one after another, behind one from the start if there is
one. -/
def MadeOf (d : Definition) (start : Option PropertyValue) (values : List Value) :
    PropertyValue → Prop
  | .scalar item => d.shape = .scalar ∧
    match values.getLast? with
    | none => start = some (.scalar item)
    | some last => (last = .none ∧ item = none) ∨ ∃ i, d.readItem last = .ok i ∧ item = some i
  | .set items => d.shape = .set ∧
    ∃ read, (values.flatMap Value.leaves).mapM d.readItem = .ok read ∧
      FirstOccurrences (start.elim [] PropertyValue.items ++ read) items.items
  | .dictionary entries => d.shape = .dictionary ∧
    ∃ read, (values.flatMap Value.members).mapM d.readEntry = .ok read ∧
      LastValues (start.elim [] PropertyValue.entries ++ read) entries.entries

/-! ### Reading -/

theorem readItem_none_or_array {value : Value} (h : value = .none ∨ ∃ values, value = .array values)
    (i : Item) : d.readItem value ≠ .ok i := by
  unfold readItem
  rcases h with rfl | ⟨values, rfl⟩ <;> cases d.item <;> nofun

mutual

/-- A value is read leaf by leaf. -/
theorem readItems_eq : ∀ value : Value, d.readItems value = value.leaves.mapM d.readItem
  | .none => by rw [readItems, Value.leaves, List.mapM_nil]; rfl
  | .array values => by
    rw [readItems, Value.leaves]
    exact readAllItems_eq values
  | .literal _ | .glob _ _ | .regex _ _ | .xml _ | .pair _ _ => by
    rw [readItems, Value.leaves, mapM_singleton]
    all_goals nofun

theorem readAllItems_eq : ∀ values : List Value,
    d.readAllItems values = (Value.leavesAll values).mapM d.readItem
  | [] => by rw [readAllItems, Value.leavesAll, List.mapM_nil]; rfl
  | v :: vs => by
    rw [readAllItems, Value.leavesAll, List.mapM_append, readItems_eq v, readAllItems_eq vs]

end

theorem readEntries_eq (value : Value) : d.readEntries value = value.members.mapM d.readEntry := by
  cases value with
  | none | array => rfl
  | literal | glob | regex | xml | pair => exact (mapM_singleton _ _).symm

theorem read_scalar_ok (hd : d.shape = .scalar) {value : Value} {v : PropertyValue} :
    d.read value = .ok v ↔ (value = .none ∧ v = .scalar none) ∨
      ∃ i, d.readItem value = .ok i ∧ v = .scalar (some i) := by
  have hsingle : ∀ {value : Value}, (do return .scalar (some (← d.readItem value))) =
      (.ok v : Fallible PropertyValue) ↔ ∃ i, d.readItem value = .ok i ∧ v = .scalar (some i) := by
    intro value
    refine Fallible.bind_ok.trans (exists_congr fun i => and_congr_right fun _ => ?_)
    exact (Except.ok.injEq _ _).to_iff.trans eq_comm
  unfold read
  rw [hd]
  cases value with
  | none =>
    have hnone : ¬ ∃ i, d.readItem .none = .ok i ∧ v = .scalar (some i) := fun ⟨i, hi, _⟩ =>
      readItem_none_or_array (Or.inl rfl) i hi
    rw [or_iff_left hnone, and_iff_right rfl, eq_comm]
    exact (Except.ok.injEq _ _).to_iff
  | array values =>
    have harray : ¬ ∃ i, d.readItem (.array values) = .ok i ∧ v = .scalar (some i) := fun ⟨i, hi, _⟩ =>
      readItem_none_or_array (Or.inr ⟨values, rfl⟩) i hi
    rw [or_iff_left_of_imp (fun h => absurd h harray)]
    exact ⟨nofun, nofun⟩
  | literal | glob | regex | xml | pair => simpa using hsingle

theorem read_set_ok (hd : d.shape = .set) {value : Value} {v : PropertyValue} :
    d.read value = .ok v ↔
      ∃ is, value.leaves.mapM d.readItem = .ok is ∧ v = .set (.ofList is) := by
  unfold read
  rw [hd, ← readItems_eq]
  refine Fallible.bind_ok.trans (exists_congr fun is => and_congr_right fun _ => ?_)
  exact (Except.ok.injEq _ _).to_iff.trans eq_comm

theorem read_dictionary_ok (hd : d.shape = .dictionary) {value : Value} {v : PropertyValue} :
    d.read value = .ok v ↔
      ∃ es, value.members.mapM d.readEntry = .ok es ∧ v = .dictionary (.ofList es) := by
  unfold read
  rw [hd, ← readEntries_eq]
  refine Fallible.bind_ok.trans (exists_congr fun es => and_congr_right fun _ => ?_)
  exact (Except.ok.injEq _ _).to_iff.trans eq_comm

/-- The values that are read are the readable ones. -/
theorem exists_read_ok_iff {value : Value} : (∃ v, d.read value = .ok v) ↔ d.Readable value := by
  unfold Readable
  split
  · next hd =>
    simp only [read_scalar_ok hd]
    constructor
    · rintro ⟨v, ⟨rfl, -⟩ | ⟨i, hi, -⟩⟩
      · exact Or.inl rfl
      · exact Or.inr ⟨i, hi⟩
    · rintro (rfl | ⟨i, hi⟩)
      · exact ⟨_, Or.inl ⟨rfl, rfl⟩⟩
      · exact ⟨_, Or.inr ⟨i, hi, rfl⟩⟩
  · next hd =>
    simp only [read_set_ok hd, ← exists_mapM_ok_iff]
    exact ⟨fun ⟨_, is, his, _⟩ => ⟨is, his⟩, fun ⟨is, his⟩ => ⟨_, is, his, rfl⟩⟩
  · next hd =>
    simp only [read_dictionary_ok hd, ← exists_mapM_ok_iff]
    exact ⟨fun ⟨_, es, hes, _⟩ => ⟨es, hes⟩, fun ⟨es, hes⟩ => ⟨_, es, hes, rfl⟩⟩

/-! ### One step -/

theorem madeOf_start {v : PropertyValue} (hv : v.shape = d.shape) : d.MadeOf (some v) [] v := by
  cases v with
  | scalar item => exact ⟨hv.symm, rfl⟩
  | set items =>
    refine ⟨hv.symm, [], rfl, ?_⟩
    rw [List.append_nil]
    exact firstOccurrences_of_nodup items.distinct
  | dictionary entries =>
    refine ⟨hv.symm, [], rfl, ?_⟩
    rw [List.append_nil]
    exact lastValues_of_nodup entries.distinct

/-- What is read is made of the value alone. -/
theorem madeOf_read {value : Value} {v : PropertyValue} (h : d.read value = .ok v) :
    d.MadeOf none [value] v := by
  cases hd : d.shape with
  | scalar =>
    rcases (read_scalar_ok hd).mp h with ⟨rfl, rfl⟩ | ⟨i, hi, rfl⟩
    · exact ⟨hd, Or.inl ⟨rfl, rfl⟩⟩
    · exact ⟨hd, Or.inr ⟨i, hi, rfl⟩⟩
  | set =>
    obtain ⟨is, his, rfl⟩ := (read_set_ok hd).mp h
    refine ⟨hd, is, by rwa [List.flatMap_singleton], ?_⟩
    exact (firstOccurrences_of_nodup OrderedSet.empty.distinct).insertAll
  | dictionary =>
    obtain ⟨es, hes, rfl⟩ := (read_dictionary_ok hd).mp h
    refine ⟨hd, es, by rwa [List.flatMap_singleton], ?_⟩
    exact (lastValues_of_nodup Dictionary.empty.distinct).insertAll

/-- What is added comes behind what was there. -/
theorem MadeOf.add {start : Option PropertyValue} {values : List Value} {value : Value}
    {v w u : PropertyValue} (h : d.MadeOf start values v) (hr : d.read value = .ok w)
    (hm : PropertyValue.merge? .add v w = some u) : d.MadeOf start (values ++ [value]) u := by
  cases v with
  | scalar item => cases hm
  | set items =>
    obtain ⟨hd, read, hread, hfirst⟩ := h
    obtain ⟨is, his, rfl⟩ := (read_set_ok hd).mp hr
    cases hm
    refine ⟨hd, read ++ is, mapM_flatMap_concat hread his, ?_⟩
    rw [OrderedSet.insertAll_ofList, ← List.append_assoc]
    exact hfirst.insertAll
  | dictionary entries =>
    obtain ⟨hd, read, hread, hlast⟩ := h
    obtain ⟨es, hes, rfl⟩ := (read_dictionary_ok hd).mp hr
    cases hm
    refine ⟨hd, read ++ es, mapM_flatMap_concat hread hes, ?_⟩
    rw [Dictionary.insertAll_ofList, ← List.append_assoc]
    exact hlast.insertAll

end Definition

namespace Bag

variable {bag bag' mid : Bag} {d : Definition}

/-- Nothing is different but the value of the property. -/
structure SameBut (d : Definition) (bag bag' : Bag) : Prop where
  context : bag'.context = bag.context
  excluded : bag'.excluded = bag.excluded
  others : ∀ n, n ≠ d.name → bag'.values.get? n = bag.values.get? n

theorem SameBut.trans (h : SameBut d bag mid) (h' : SameBut d mid bag') : SameBut d bag bag' :=
  ⟨h'.context.trans h.context, h'.excluded.trans h.excluded,
    fun n hn => (h'.others n hn).trans (h.others n hn)⟩

/-- The bag with another value of the property. -/
def put (bag : Bag) (d : Definition) (v : PropertyValue) : Bag :=
  { bag with values := bag.values.insert d.name v }

@[simp] theorem current_put (bag : Bag) (d : Definition) (v : PropertyValue) :
    (bag.put d v).current d = v := by
  rw [current, put, Dictionary.get?_insert, if_pos rfl, Option.getD_some]

theorem sameBut_put (bag : Bag) (d : Definition) (v : PropertyValue) : SameBut d bag (bag.put d v) :=
  ⟨rfl, rfl, fun n hn => by rw [put, Dictionary.get?_insert, if_neg hn.symm]⟩

theorem apply_ok_iff {action : Action} {value : Value} :
    bag.apply d action value = .ok bag' ↔ ∃ w u, d.read value = .ok w ∧
      PropertyValue.merge? action (bag.current d) w = some u ∧ bag' = bag.put d u := by
  rw [apply_ok]
  constructor
  · rintro ⟨w, hw, h⟩
    obtain ⟨u, hu, h⟩ := Fallible.bind_ok.mp h
    cases h
    exact ⟨w, u, hw, Definition.merge_ok.mp hu, rfl⟩
  · rintro ⟨w, u, hw, hu, rfl⟩
    exact ⟨w, hw, Fallible.bind_ok.mpr ⟨u, Definition.merge_ok.mpr hu, rfl⟩⟩

/-- A step succeeds if the value is readable and is not added to a scalar. -/
theorem exists_apply_ok_iff (h : (bag.current d).shape = d.shape) {action : Action} {value : Value} :
    (∃ bag', bag.apply d action value = .ok bag') ↔
      d.Readable value ∧ (d.shape = .scalar → action ≠ .add) := by
  have hmerge : ∀ {w}, d.read value = .ok w → ((∃ u, PropertyValue.merge? action (bag.current d) w =
      some u) ↔ (d.shape = .scalar → action ≠ .add)) := fun hw => by
    rw [PropertyValue.exists_merge?_iff ((Definition.fits_of_read hw).shape.trans h.symm), h]
  rw [← Definition.exists_read_ok_iff]
  constructor
  · rintro ⟨bag', hbag⟩
    obtain ⟨w, u, hw, hu, -⟩ := apply_ok_iff.mp hbag
    exact ⟨⟨w, hw⟩, (hmerge hw).mp ⟨u, hu⟩⟩
  · rintro ⟨⟨w, hw⟩, ha⟩
    obtain ⟨u, hu⟩ := (hmerge hw).mpr ha
    exact ⟨_, apply_ok_iff.mpr ⟨w, u, hw, hu, rfl⟩⟩

theorem shape_of_apply (h : (bag.current d).shape = d.shape) {action : Action} {value : Value}
    (hbag : bag.apply d action value = .ok bag') : (bag'.current d).shape = d.shape := by
  obtain ⟨w, u, hw, hu, rfl⟩ := apply_ok_iff.mp hbag
  rw [current_put]
  exact (PropertyValue.shape_of_merge? hu).elim (·.trans h) (·.trans (Definition.fits_of_read hw).shape)

theorem sameBut_of_apply {action : Action} {value : Value}
    (hbag : bag.apply d action value = .ok bag') : SameBut d bag bag' := by
  obtain ⟨w, u, -, -, rfl⟩ := apply_ok_iff.mp hbag
  exact sameBut_put bag d u

/-! ### Many steps -/

/-- Applies values to a property, one after another. -/
def applyAll (bag : Bag) (d : Definition) (steps : List (Action × Value)) : Fallible Bag :=
  steps.foldlM (fun bag step => bag.apply d step.1 step.2) bag

theorem applyAll_concat_ok {steps : List (Action × Value)} {step : Action × Value} :
    bag.applyAll d (steps ++ [step]) = .ok bag' ↔
      ∃ mid, bag.applyAll d steps = .ok mid ∧ mid.apply d step.1 step.2 = .ok bag' := by
  rw [applyAll, List.foldlM_append, Fallible.bind_ok]
  refine exists_congr fun mid => and_congr_right fun _ => ?_
  show (mid.apply d step.1 step.2 >>= pure) = _ ↔ _
  rw [bind_pure]

/-- The values that count are the start and those of the steps if all of them add, and otherwise those
from the last setting on. -/
structure Counts (d : Definition) (start : PropertyValue) (steps : List (Action × Value))
    (v : PropertyValue) : Prop where
  added : (∀ step ∈ steps, step.1 = .add) → d.MadeOf (some start) (steps.map Prod.snd) v
  set : ∀ before value after, steps = before ++ (.set, value) :: after →
    (∀ step ∈ after, step.1 = .add) → d.MadeOf none (value :: after.map Prod.snd) v

theorem Counts.step {start v w u : PropertyValue} {steps : List (Action × Value)} {action : Action}
    {value : Value} (h : Counts d start steps v) (hr : d.read value = .ok w)
    (hm : PropertyValue.merge? action v w = some u) :
    Counts d start (steps ++ [(action, value)]) u := by
  refine ⟨fun hadd => ?_, fun before last after hsplit hadd => ?_⟩
  · obtain ⟨hsteps, hlast⟩ := List.forall_mem_append.mp hadd
    obtain rfl : action = .add := hlast _ List.mem_cons_self
    rw [List.map_append]
    exact (h.added hsteps).add hr hm
  · rcases concat_eq_append_cons.mp hsplit with ⟨rfl, rfl, heq⟩ | ⟨more, rfl, rfl⟩
    · cases heq
      cases hm
      exact Definition.madeOf_read hr
    · obtain ⟨hmore, hlast⟩ := List.forall_mem_append.mp hadd
      obtain rfl : action = .add := hlast _ List.mem_cons_self
      rw [List.map_append, ← List.cons_append]
      exact (h.set before last more rfl hmore).add hr hm

/-- What a run keeps: the shape of the property, and all that is not its value. -/
theorem kept_of_applyAll (h : (bag.current d).shape = d.shape) {steps : List (Action × Value)} :
    ∀ {bag' : Bag}, bag.applyAll d steps = .ok bag' →
      (bag'.current d).shape = d.shape ∧ SameBut d bag bag' := by
  induction steps using List.reverseRecOn with
  | nil =>
    rintro _ ⟨⟩
    exact ⟨h, rfl, rfl, fun _ _ => rfl⟩
  | append_singleton steps step ih =>
    intro bag' hbag
    obtain ⟨mid, hmid, hbag⟩ := applyAll_concat_ok.mp hbag
    obtain ⟨hshape, hsame⟩ := ih hmid
    exact ⟨shape_of_apply hshape hbag, hsame.trans (sameBut_of_apply hbag)⟩

/-- A run succeeds if all its steps would succeed alone. -/
theorem exists_applyAll_ok_iff (h : (bag.current d).shape = d.shape) (steps : List (Action × Value)) :
    (∃ bag', bag.applyAll d steps = .ok bag') ↔
      ∀ step ∈ steps, d.Readable step.2 ∧ (d.shape = .scalar → step.1 ≠ .add) := by
  induction steps using List.reverseRecOn with
  | nil => exact ⟨fun _ _ h => absurd h List.not_mem_nil, fun _ => ⟨bag, rfl⟩⟩
  | append_singleton steps step ih =>
    rw [List.forall_mem_append, ← ih, List.forall_mem_singleton]
    constructor
    · rintro ⟨bag', hbag⟩
      obtain ⟨mid, hmid, hbag⟩ := applyAll_concat_ok.mp hbag
      exact ⟨⟨mid, hmid⟩, (exists_apply_ok_iff (kept_of_applyAll h hmid).1).mp ⟨bag', hbag⟩⟩
    · rintro ⟨⟨mid, hmid⟩, hstep⟩
      obtain ⟨bag', hbag⟩ := (exists_apply_ok_iff (kept_of_applyAll h hmid).1).mpr hstep
      exact ⟨bag', applyAll_concat_ok.mpr ⟨mid, hmid, hbag⟩⟩

theorem counts_of_applyAll (h : (bag.current d).shape = d.shape) {steps : List (Action × Value)} :
    ∀ {bag' : Bag}, bag.applyAll d steps = .ok bag' →
      Counts d (bag.current d) steps (bag'.current d) := by
  induction steps using List.reverseRecOn with
  | nil =>
    rintro _ ⟨⟩
    exact ⟨fun _ => Definition.madeOf_start h, fun before _ _ hsplit => by cases before <;> cases hsplit⟩
  | append_singleton steps step ih =>
    intro bag' hbag
    obtain ⟨mid, hmid, hbag⟩ := applyAll_concat_ok.mp hbag
    obtain ⟨w, u, hw, hu, rfl⟩ := apply_ok_iff.mp hbag
    rw [current_put]
    exact (ih hmid).step hw hu

/-! ### Failing steps -/

/-- Reads a value and merges it into a property of a bag that is changed in place: the bag is left as it
is when the value cannot be read, and the property has its value at first when merging fails and nothing
was there. -/
def applyInPlace (bag : Bag) (d : Definition) (action : Action) (value : Value) :
    Fallible Unit × Bag :=
  match d.read value with
  | .error e => (.error e, bag)
  | .ok incoming =>
    let entered := bag.put d (bag.current d)
    match d.merge action (entered.current d) incoming with
    | .error e => (.error e, entered)
    | .ok merged => (.ok (), entered.put d merged)

/-- The bag holds the same values. -/
structure Unchanged (d : Definition) (bag left : Bag) : Prop extends SameBut d bag left where
  current : left.current d = bag.current d

theorem put_put (bag : Bag) (d : Definition) (v w : PropertyValue) :
    (bag.put d v).put d w = bag.put d w := by
  simp only [put, Dictionary.insert_insert_self]

/-- A step that succeeds does the same in place. -/
theorem applyInPlace_of_ok {action : Action} {value : Value}
    (h : bag.apply d action value = .ok bag') : bag.applyInPlace d action value = (.ok (), bag') := by
  obtain ⟨w, u, hw, hu, rfl⟩ := apply_ok_iff.mp h
  simp only [applyInPlace, hw, current_put, Definition.merge_ok.mpr hu, put_put]

/-- A step that fails changes nothing in place. -/
theorem applyInPlace_of_error {action : Action} {value : Value} {e : Failure}
    (h : bag.apply d action value = .error e) :
    ∃ left, bag.applyInPlace d action value = (.error e, left) ∧ Unchanged d bag left := by
  unfold apply at h
  unfold applyInPlace
  cases hr : d.read value with
  | error e' =>
    rw [hr] at h
    cases h
    exact ⟨bag, rfl, ⟨rfl, rfl, fun _ _ => rfl⟩, rfl⟩
  | ok incoming =>
    simp only [current_put]
    cases hm : d.merge action (bag.current d) incoming with
    | error e' =>
      simp only [hr, hm, bind, Except.bind] at h
      cases h
      exact ⟨_, rfl, sameBut_put bag d _, current_put bag d _⟩
    | ok merged =>
      simp only [hr, hm, bind, Except.bind] at h
      cases h

/-- **What comes of a property.** All steps succeed if and only if every value is readable and none is
added to a scalar. Then the property is made of the values that count and nothing else is different. In
place, a step that succeeds does the same, and a step that fails changes nothing. -/
theorem applyAll_exact (h : (bag.current d).shape = d.shape) (steps : List (Action × Value)) :
    ((∃ bag', bag.applyAll d steps = .ok bag') ↔
      ∀ step ∈ steps, d.Readable step.2 ∧ (d.shape = .scalar → step.1 ≠ .add)) ∧
    (∀ bag', bag.applyAll d steps = .ok bag' →
      Counts d (bag.current d) steps (bag'.current d) ∧ SameBut d bag bag') ∧
    ∀ before step after mid, steps = before ++ step :: after → bag.applyAll d before = .ok mid →
      (∀ bag', mid.apply d step.1 step.2 = .ok bag' →
        mid.applyInPlace d step.1 step.2 = (.ok (), bag')) ∧
      ∀ e, mid.apply d step.1 step.2 = .error e → bag.applyAll d steps = .error e ∧
        ∃ left, mid.applyInPlace d step.1 step.2 = (.error e, left) ∧ Unchanged d mid left := by
  refine ⟨exists_applyAll_ok_iff h steps, fun bag' hbag =>
    ⟨counts_of_applyAll h hbag, (kept_of_applyAll h hbag).2⟩, ?_⟩
  rintro before step after mid rfl hmid
  refine ⟨fun bag' => applyInPlace_of_ok, fun e hstep => ⟨?_, applyInPlace_of_error hstep⟩⟩
  unfold applyAll at hmid ⊢
  rw [List.foldlM_append, hmid]
  show mid.apply d step.1 step.2 >>= _ = _
  rw [hstep]
  rfl

/-- References that are set to nested arrays and then added to. -/
theorem applyAll_exact_libRefs :
    let d := Registry.blank PropertyName.libRefs .set .text
    let nested := Value.array [.literal "B", .array [.none, .literal "A"], .literal "B"]
    let steps := [(Action.add, Value.literal "Z"), (.set, nested), (.add, .array [.literal "A"]),
      (.add, .literal "C")]
    ∃ bag', (initial .settings).applyAll d steps = .ok bag' ∧
      (bag'.current d).items = [.text "B", .text "A", .text "C"] ∧
      d.MadeOf none [nested, .array [.literal "A"], .literal "C"] (bag'.current d) := by
  intro d nested steps
  have hshape : ((initial .settings).current d).shape = d.shape := by decide
  obtain ⟨-, hcounts, -⟩ := applyAll_exact hshape steps
  exact ⟨_, rfl, by decide, (hcounts _ rfl).1.set [(.add, .literal "Z")] nested _ rfl (by decide)⟩

end Bag

end BuildPlan
