import BuildPlan.Proofs.Settings.Fitting
import BuildPlan.Template

/-! # Settings are well typed

Settings are made by compiling objects, on no base or on settings that were made before, and by
expanding settings that were made before. However many of these calls there are, every property has a
value that fits its registered definition, and no call finds a value of a wrong shape
(`wellTyped_of_reached`). It does not matter in which context a base was compiled, since a name stands for
the same definition in all registries. -/

namespace BuildPlan

open BuildPlan.Variable

/-! ### Failures about shapes -/

/-- The cause is that a value is merged into one of another shape. -/
def Cause.IsWrongShape : Cause → Prop
  | .invalidValue _ .wrongShape => True
  | _ => False

namespace Fallible

variable {α β : Type} {P Q : α → Prop} {R : β → Prop} {r : Fallible α} {f : α → Fallible β}

/-- What is given has the property, and a failure is not about a shape. -/
def Gives (P : α → Prop) : Fallible α → Prop
  | .ok a => P a
  | .error e => ¬ e.cause.IsWrongShape

theorem Gives.ok (h : r.Gives P) {a : α} (ha : r = .ok a) : P a := by
  subst ha
  exact h

theorem Gives.error (h : r.Gives P) {e : Failure} (he : r = .error e) : ¬ e.cause.IsWrongShape := by
  subst he
  exact h

theorem Gives.imp (h : r.Gives P) (hPQ : ∀ a, r = .ok a → Q a) : r.Gives Q := by
  cases r with
  | ok a => exact hPQ a rfl
  | error e => exact h

theorem Gives.bind (h : r.Gives P) (hf : ∀ a, P a → (f a).Gives R) : (r >>= f).Gives R := by
  cases r with
  | ok a => exact hf a h
  | error e => exact h

theorem Gives.within (h : r.Gives P) (context : String) : (r.within context).Gives P := by
  cases r with
  | ok a => exact h
  | error e => exact h

theorem gives_mapM : ∀ {as : List α}, (∀ a ∈ as, (f a).Gives R) →
    (as.mapM f).Gives fun bs => ∀ b ∈ bs, R b
  | [], _ => List.forall_mem_nil _
  | a :: as, h => by
    obtain ⟨ha, has⟩ := List.forall_mem_cons.mp h
    rw [List.mapM_cons]
    exact ha.bind fun b hb => (gives_mapM has).bind fun bs hbs => List.forall_mem_cons.mpr ⟨hb, hbs⟩

end Fallible

open Fallible

/-! ### Reading and merging -/

namespace Definition

variable {d : Definition}

theorem gives_readItem (value : Value) : (d.readItem value).Gives fun _ => True := by
  unfold readItem
  split
  · trivial
  · exact id
  · trivial
  · exact id
  · split
    · trivial
    · exact id

mutual

theorem gives_readItems : ∀ value : Value, (d.readItems value).Gives fun _ => True
  | .none => by
    rw [readItems]
    trivial
  | .array values => by
    rw [readItems]
    exact gives_readAllItems values
  | .literal _ | .glob _ _ | .regex _ _ | .xml _ | .pair _ _ => by
    rw [readItems]
    · exact (gives_readItem _).bind fun _ _ => trivial
    all_goals nofun

theorem gives_readAllItems : ∀ values : List Value, (d.readAllItems values).Gives fun _ => True
  | [] => by
    rw [readAllItems]
    trivial
  | v :: vs => by
    rw [readAllItems]
    exact (gives_readItems v).bind fun _ _ => (gives_readAllItems vs).bind fun _ _ => trivial

end

theorem gives_readEntry (value : Value) : (d.readEntry value).Gives fun _ => True := by
  cases value with
  | pair key value => exact (gives_readItem value).bind fun _ _ => trivial
  | literal | glob | regex | xml | none | array => exact id

theorem gives_readEntries (value : Value) : (d.readEntries value).Gives fun _ => True := by
  have hsingle : (do return [← d.readEntry value] : Fallible (List (String × Item))).Gives
      fun _ => True := (gives_readEntry value).bind fun _ _ => trivial
  cases value with
  | none => trivial
  | array values =>
    have hall : (values.mapM d.readEntry).Gives fun es => ∀ _ ∈ es, True :=
      gives_mapM fun v _ => gives_readEntry v
    exact hall.imp fun _ _ => trivial
  | literal | glob | regex | xml | pair => exact hsingle

/-- A value is read to one that fits, or it is not read for another reason than its shape. -/
theorem gives_read (value : Value) : (d.read value).Gives d.Fits := by
  have hread : (d.read value).Gives fun _ => True := by
    have hscalar : (do return .scalar (some (← d.readItem value)) : Fallible PropertyValue).Gives
        fun _ => True := (gives_readItem value).bind fun _ _ => trivial
    unfold read
    split
    · split
      · trivial
      · exact id
      · exact hscalar
    · exact (gives_readItems value).bind fun _ _ => trivial
    · exact (gives_readEntries value).bind fun _ _ => trivial
  exact hread.imp fun _ => fits_of_read

/-- Two values that fit are merged to one that fits, unless something is added to a scalar. -/
theorem gives_merge {v w : PropertyValue} (hv : d.Fits v) (hw : d.Fits w) (action : Action) :
    (d.merge action v w).Gives d.Fits := by
  have hshape : v.shape = w.shape := hv.shape.trans hw.shape.symm
  have hmerge : (d.merge action v w).Gives fun _ => True := by
    cases action with
    | set => trivial
    | add =>
      cases v with
      | scalar => exact id
      | set =>
        cases w with
        | scalar | dictionary => cases hshape
        | set => trivial
      | dictionary =>
        cases w with
        | scalar | set => cases hshape
        | dictionary => trivial
  exact hmerge.imp fun u hu => hv.merge? hw (merge_ok.mp hu)

end Definition

/-! ### Expanding -/

section Expanding
variable {b : Bindings} {e : Expansion} {d : Definition}

theorem Variable.gives_expand (b : Bindings) (e : Expansion) (text : String) :
    (Variable.expand b e text).Gives fun _ => True := by
  cases e with
  | deferring =>
    unfold Variable.expand expandPartly
    dsimp only
    split
    · exact id
    · trivial
  | complete =>
    have hsymbol : ∀ s ∈ read text.toList, (evaluate b text s).Gives fun _ => True := by
      intro s _
      unfold evaluate
      split
      · trivial
      · split
        · trivial
        · exact id
      · exact id
    exact (gives_mapM hsymbol).bind fun _ _ => trivial

theorem Item.gives_expand (i : Item) : (i.expand b e).Gives fun j => j.kind = i.kind := by
  cases i with
  | text t | xml t => exact (Variable.gives_expand b e t).bind fun _ _ => rfl
  | pattern p => exact (Variable.gives_expand b e p.text).bind fun _ _ => rfl

theorem Definition.Fits.gives_expand {v : PropertyValue} (h : d.Fits v) :
    (v.expand b e).Gives d.Fits := by
  have hitem : ∀ i ∈ v.items, (i.expand b e).Gives fun j => j.kind = d.item := fun i hi =>
    (Item.gives_expand i).imp fun j hj => ((Item.gives_expand i).ok hj).trans (h.kind i hi)
  cases v with
  | scalar item =>
    cases item with
    | none => exact h
    | some i =>
      exact (hitem i (List.mem_singleton.mpr rfl)).bind fun j hj =>
        ⟨h.shape, fun _ hm => by rwa [List.mem_singleton.mp hm]⟩
  | set s =>
    exact (gives_mapM hitem).bind fun js hjs =>
      ⟨h.shape, fun j hj => hjs j (OrderedSet.mem_items_ofList.mp hj)⟩
  | dictionary entries =>
    have hentry : ∀ a ∈ entries.entries, (do
        return (← Variable.expand b e a.1, ← a.2.expand b e) : Fallible (String × Item)).Gives
          fun a' => a'.2.kind = d.item := fun a ha =>
      (Variable.gives_expand b e a.1).bind fun _ _ =>
        (hitem a.2 (List.mem_map_of_mem ha)).bind fun _ hj => hj
    refine (gives_mapM hentry).bind fun es hes => ⟨h.shape, fun j hj => ?_⟩
    obtain ⟨a, ha, rfl⟩ := List.mem_map.mp hj
    exact hes a (Dictionary.mem_of_mem_entries_ofList ha)

end Expanding

/-! ### Registered definitions -/

/-- The definition is in the registry of some context. -/
def Definition.Registered (d : Definition) : Prop := ∃ c, d ∈ (Registry.ofContext c).properties

/-- **A name stands for the same definition in all registries.** -/
theorem Definition.Registered.eq_of_name {d d' : Definition} (h : d.Registered) (h' : d'.Registered)
    (hn : d.name = d'.name) : d = d' := by
  obtain ⟨c, hc⟩ := h
  obtain ⟨c', hc'⟩ := h'
  have hall : ∀ d ∈ (Registry.ofContext c).properties, ∀ d' ∈ (Registry.ofContext c').properties,
      d.name = d'.name → d = d' := by
    cases c <;> cases c' <;> decide +kernel
  exact hall d hc d' hc' hn

/-- Only texts are there at first. -/
theorem Definition.Registered.fits_initialValue {d : Definition} (h : d.Registered) :
    d.Fits d.initialValue := by
  obtain ⟨c, hc⟩ := h
  have hall : ∀ d ∈ (Registry.ofContext c).properties, d.initial ≠ none → d.item = .text := by
    cases c <;> decide
  exact Definition.fits_initialValue d (hall d hc)

theorem Registry.gives_property (c : Context) (name : String) :
    ((ofContext c).property name).Gives Definition.Registered := by
  unfold property
  split
  · next d hd => exact ⟨c, List.mem_of_find?_eq_some hd⟩
  · exact id

/-! ### Bags -/

/-- The value fits the definition that is registered under the name. -/
def Typed (e : String × PropertyValue) : Prop :=
  ∃ d : Definition, d.Registered ∧ d.name = e.1 ∧ d.Fits e.2

theorem Typed.fits {d : Definition} {v : PropertyValue} (h : Typed (d.name, v)) (hd : d.Registered) :
    d.Fits v := by
  obtain ⟨d', hd', hn, hf⟩ := h
  rwa [hd.eq_of_name hd' hn.symm]

namespace Bag

variable {bag : Bag}

/-- All values of the bag fit their definitions. -/
def WellTyped (bag : Bag) : Prop := ∀ e ∈ bag.values.entries, Typed e

theorem wellTyped_initial (c : Context) : (initial (.ofContext c)).WellTyped := by
  intro e he
  obtain ⟨d, hd, rfl⟩ := List.mem_map.mp (Dictionary.mem_of_mem_entries_ofList he)
  have hd : d.Registered := ⟨c, hd⟩
  exact ⟨d, hd, rfl, hd.fits_initialValue⟩

theorem WellTyped.fits_current (h : bag.WellTyped) {d : Definition} (hd : d.Registered) :
    d.Fits (bag.current d) := by
  unfold current
  cases hv : bag.values.get? d.name with
  | none => exact hd.fits_initialValue
  | some v => exact (h _ (Dictionary.mem_of_get? hv)).fits hd

/-- A value that is set takes the place of one that fits, and it fits itself. -/
theorem WellTyped.gives_apply (h : bag.WellTyped) {d : Definition} (hd : d.Registered)
    (action : Action) (value : Value) : (bag.apply d action value).Gives WellTyped := by
  refine (Definition.gives_read value).bind fun v hv =>
    (Definition.gives_merge (h.fits_current hd) hv action).bind fun w hw => ?_
  intro e he
  rcases Dictionary.mem_put he with rfl | he
  · exact ⟨d, hd, rfl, hw⟩
  · exact h e he

theorem gives_expandEntries {b : Bindings} {e : Expansion} :
    ∀ {es : List (String × PropertyValue)}, (∀ a ∈ es, Typed a) →
      (expandEntries b e es).Gives fun rs => ∀ a ∈ rs, Typed a
  | [], _ => List.forall_mem_nil _
  | (n, v) :: es, h => by
    obtain ⟨⟨d, hd, hn, hf⟩, hes⟩ := List.forall_mem_cons.mp h
    rw [expandEntries]
    exact (hf.gives_expand.within _).bind fun w hw => (gives_expandEntries hes).bind fun rs hrs =>
      List.forall_mem_cons.mpr ⟨⟨d, hd, hn, hw⟩, hrs⟩

theorem WellTyped.gives_expand (h : bag.WellTyped) (b : Bindings) (e : Expansion) :
    (bag.expand b e).Gives WellTyped := by
  have hentries := gives_expandEntries (b := b) (e := e) h
  unfold expand
  split
  · next f hf => exact hentries.error hf
  · next rs hrs => exact hentries.ok hrs

end Bag

/-! ### Walks -/

section Walks
variable {c : Context} {defined : NameSet}

theorem gives_judge (expression : String) (defined : NameSet) :
    (judge expression defined).Gives fun _ => True := by
  unfold judge
  split
  · trivial
  · exact id

mutual

/-- An element leaves a bag well typed, whatever the context in which the bag was made. -/
theorem Element.gives_walk {bag : Bag} (h : bag.WellTyped) : ∀ e : Element,
    (e.walk (.ofContext c) defined bag).result.Gives fun out => out.1.WellTyped
  | .block condition body => by
    rw [Element.walk, Logged.result_bind]
    refine (gives_judge condition defined).bind fun holds _ => ?_
    cases holds with
    | true => exact gives_walkAll h body
    | false => exact h
  | .assignment a => by
    rw [Element.walk, Logged.result_bind]
    refine (gives_judge a.condition defined).bind fun holds _ => ?_
    cases holds with
    | true =>
      rw [if_pos rfl, Logged.result_bind]
      refine (Registry.gives_property c a.name).bind fun d hd => ?_
      rw [Logged.result_bind]
      exact (h.gives_apply hd a.action a.value).bind fun _ hbag => hbag
    | false => exact h
  | .invocation i => by
    rw [Element.walk, Logged.result_bind]
    refine (gives_judge i.condition defined).bind fun holds _ => ?_
    cases holds with
    | true =>
      have hcommand : ((Registry.ofContext c).command i.name).Gives fun _ => True := by
        unfold Registry.command
        split
        · trivial
        · exact id
      rw [if_pos rfl, Logged.result_bind]
      refine hcommand.bind fun command _ => ?_
      cases command with
      | exclude | skip | warn => exact h
      | error => exact id
    | false => exact h
  | .object _ _ | .group _ | .comment _ => by
    rw [Element.walk]
    exact h

theorem gives_walkAll {bag : Bag} (h : bag.WellTyped) : ∀ es : List Element,
    (walkAll (.ofContext c) defined bag es).result.Gives fun out => out.1.WellTyped
  | [] => by
    rw [walkAll]
    exact h
  | e :: es => by
    rw [walkAll, Logged.result_bind]
    refine (Element.gives_walk h e).bind fun out hout => ?_
    obtain ⟨bag', flow⟩ := out
    cases flow with
    | stop => exact hout
    | goOn => exact gives_walkAll hout es

end

end Walks

/-! ### Settings -/

/-- The items of a set and the keys of a dictionary are distinct. -/
def PropertyValue.Distinct : PropertyValue → Prop
  | .scalar _ => True
  | .set items => items.items.Nodup
  | .dictionary entries => entries.keys.Nodup

theorem PropertyValue.distinct : ∀ v : PropertyValue, v.Distinct
  | .scalar _ => trivial
  | .set items => items.distinct
  | .dictionary entries => entries.distinct

namespace Settings

variable {s : Settings}

/-- Every property is registered, and its value fits the definition and holds nothing twice. -/
structure WellTyped (s : Settings) : Prop where
  registered : ∀ n v, s.value? n = some v → ∃ d : Definition, d.Registered ∧ d.name = n
  fits : ∀ (d : Definition) v, d.Registered → s.value? d.name = some v → d.Fits v
  distinct : ∀ n v, s.value? n = some v → v.Distinct

theorem wellTyped_iff : s.WellTyped ↔ s.bag.WellTyped := by
  constructor
  · rintro h ⟨n, v⟩ he
    have hv : s.value? n = some v := Dictionary.get?_of_mem he
    obtain ⟨d, hd, rfl⟩ := h.registered n v hv
    exact ⟨d, hd, rfl, h.fits d v hd hv⟩
  · intro h
    refine ⟨fun n v hv => ?_, fun d v hd hv => (h _ (Dictionary.mem_of_get? hv)).fits hd,
      fun _ v _ => v.distinct⟩
    obtain ⟨d, hd, hn, -⟩ := h _ (Dictionary.mem_of_get? hv)
    exact ⟨d, hd, hn⟩

/-- Nothing is dropped of a set of texts, of xml or of patterns, nor of the declared projects. -/
structure Legible (s : Settings) : Prop where
  texts : ∀ (d : Definition) v, d.Registered → d.shape = .set → d.item = .text → s.value? d.name = some v →
    v.items = (s.texts d.name).map .text
  xmls : ∀ (d : Definition) v, d.Registered → d.shape = .set → d.item = .xml → s.value? d.name = some v →
    v.items = (s.texts d.name).map .xml
  patterns : ∀ (d : Definition) v, d.Registered → d.shape = .set → d.item = .pattern → s.value? d.name = some v →
    v.items = (s.patterns d.name).map .pattern
  projects : ∀ v, s.value? PropertyName.projects = some v →
    ∃ entries, v = .dictionary entries ∧
      entries.entries = s.projectDeclarations.map fun e => (e.1, .text e.2)

/-- What is filtered by a reading that inverts the making of items is all there. -/
theorem eq_map_filterMap {α : Type} {make : α → Item} {read : Item → Option α} {is : List Item}
    (h : ∀ i ∈ is, ∃ a, i = make a ∧ read i = some a) : is = (is.filterMap read).map make := by
  induction is with
  | nil => rfl
  | cons i is ih =>
    obtain ⟨⟨a, hi, ha⟩, his⟩ := List.forall_mem_cons.mp h
    rw [List.filterMap_cons, ha, List.map_cons, ← ih his, ← hi]

theorem eq_map_filterMap_entries : ∀ {es : List (String × Item)}, (∀ e ∈ es, e.2.kind = .text) →
    es = (es.filterMap fun (key, item) => item.text?.map fun text => (key, text)).map
      fun e => (e.1, .text e.2)
  | [], _ => rfl
  | (n, i) :: es, h => by
    obtain ⟨hi, hes⟩ := List.forall_mem_cons.mp h
    cases i with
    | text t => exact congrArg (List.cons _) (eq_map_filterMap_entries hes)
    | pattern | xml => cases hi

/-- The items of a set are all read by a reading of their kind. -/
theorem WellTyped.items_eq_map (h : s.WellTyped) {d : Definition} {v : PropertyValue}
    (hd : d.Registered) (hs : d.shape = .set) (hv : s.value? d.name = some v) {α : Type}
    {make : α → Item} {read : Item → Option α}
    (hread : ∀ i : Item, i.kind = d.item → ∃ a, i = make a ∧ read i = some a) :
    v.items = ((s.items d.name).filterMap read).map make := by
  have hf := h.fits d v hd hv
  have hshape := hf.shape.trans hs
  cases v with
  | scalar | dictionary => cases hshape
  | set is =>
    rw [items, hv]
    exact eq_map_filterMap fun i hi => hread i (hf.kind i hi)

/-- The accessors read all items of the kind that the definition says. -/
theorem WellTyped.legible (h : s.WellTyped) : s.Legible := by
  refine ⟨fun d v hd hs hi hv => h.items_eq_map hd hs hv fun i hk => ?_,
    fun d v hd hs hi hv => h.items_eq_map hd hs hv fun i hk => ?_,
    fun d v hd hs hi hv => h.items_eq_map hd hs hv fun i hk => ?_, fun v hv => ?_⟩
  · rw [hi] at hk
    cases i with
    | text t => exact ⟨t, rfl, rfl⟩
    | pattern | xml => cases hk
  · rw [hi] at hk
    cases i with
    | xml t => exact ⟨t, rfl, rfl⟩
    | pattern | text => cases hk
  · rw [hi] at hk
    cases i with
    | pattern p => exact ⟨p, rfl, rfl⟩
    | xml | text => cases hk
  · have hd : (Registry.blank PropertyName.projects .dictionary .text).Registered :=
      ⟨.template, List.mem_singleton.mpr rfl⟩
    have hf := h.fits _ v hd hv
    have hshape := hf.shape
    cases v with
    | scalar | set => cases hshape
    | dictionary entries =>
      refine ⟨entries, rfl, ?_⟩
      rw [projectDeclarations, Settings.entries, hv]
      exact eq_map_filterMap_entries fun e he => hf.kind e.2 (List.mem_map_of_mem he)

end Settings

/-! ### Calls -/

/-- A call of a compiler, or of settings that are to be expanded. -/
inductive Call where
  | compile (job : Job) (external : NameSet)
  | expand (settings : Settings) (b : Bindings) (e : Expansion)

namespace Call

/-- The call is for one of the contexts, and for settings that were made before. -/
def Admissible (made : List Settings) : Call → Prop
  | .compile j _ => (∃ c, j.registry = .ofContext c) ∧ ∀ base ∈ j.base, base ∈ made
  | .expand settings _ _ => settings ∈ made

/-- What the call gives in a session. -/
def answerIn (s : Session) : Call → Fallible Settings × Session
  | .compile j external => s.answer j external
  | .expand settings b e => (settings.expand b e, s)

end Call

/-- A session, and the settings that were made so far. -/
structure Made where
  session : Session
  settings : List Settings

/-- What is there behind one more call. -/
def Made.after (m : Made) (c : Call) : Made :=
  ⟨(c.answerIn m.session).2, (c.answerIn m.session).1.toOption.toList ++ m.settings⟩

/-- What a chain of calls comes to, from the session in which nothing was kept. -/
inductive Reached : Made → Prop
  | start : Reached ⟨.initial, []⟩
  | call {m : Made} {c : Call} (h : Reached m) (hc : c.Admissible m.settings) : Reached (m.after c)

/-- All settings that were made, and all that are kept, are well typed. -/
structure Made.WellTyped (m : Made) : Prop where
  made : ∀ settings ∈ m.settings, settings.WellTyped
  kept : ∀ settings ∈ m.session.cache.values, settings.WellTyped

theorem Job.gives_run {j : Job} {c : Context} (hr : j.registry = .ofContext c)
    (hb : ∀ base ∈ j.base, base.WellTyped) (external : NameSet) :
    (j.run external).result.Gives Settings.WellTyped := by
  have hstart : j.start.WellTyped := by
    unfold start
    cases hbase : j.base with
    | none =>
      rw [hr]
      exact Bag.wellTyped_initial c
    | some base => exact Settings.wellTyped_iff.mp (hb base hbase)
  rw [run, Logged.result_bind, hr]
  refine (gives_walkAll hstart j.object.body).bind fun out hout => ?_
  rw [Logged.result_bind]
  exact (hout.gives_expand j.bindings .deferring).bind fun _ hbag => Settings.wellTyped_iff.mpr hbag

/-- **A call gives well-typed settings where all are well typed**, and does not fail because of a
shape. -/
theorem Made.WellTyped.gives_answerIn {m : Made} (h : m.WellTyped) {c : Call}
    (hc : c.Admissible m.settings) : (c.answerIn m.session).1.Gives Settings.WellTyped ∧
      ∀ settings ∈ (c.answerIn m.session).2.cache.values, settings.WellTyped := by
  cases c with
  | expand settings b e =>
    have hbag := Settings.wellTyped_iff.mp (h.made settings hc)
    exact ⟨(hbag.gives_expand b e).bind fun _ hbag => Settings.wellTyped_iff.mpr hbag, h.kept⟩
  | compile j external =>
    obtain ⟨⟨context, hr⟩, hb⟩ := hc
    have hrun := (Job.gives_run hr (fun base hm => h.made base (hb base hm)) external).within j.context
    rw [Call.answerIn, Session.answer]
    split
    · exact ⟨id, h.kept⟩
    · split
      · next settings hs =>
        exact ⟨h.kept settings (List.mem_map_of_mem (Dictionary.mem_of_get? hs)), h.kept⟩
      · dsimp only
        split
        · next settings hs =>
          refine ⟨hrun.ok hs, fun kept hk => ?_⟩
          rcases Dictionary.mem_values_insert hk with rfl | hk
          · exact hrun.ok hs
          · exact h.kept kept hk
        · next e he => exact ⟨hrun.error he, h.kept⟩

theorem Made.WellTyped.after {m : Made} (h : m.WellTyped) {c : Call} (hc : c.Admissible m.settings) :
    (m.after c).WellTyped := by
  obtain ⟨hanswer, hkept⟩ := h.gives_answerIn hc
  refine ⟨fun settings hs => ?_, hkept⟩
  rcases List.mem_append.mp hs with hs | hs
  · cases hr : (c.answerIn m.session).1 with
    | error e =>
      rw [hr] at hs
      cases hs
    | ok made =>
      rw [hr] at hs
      rw [List.mem_singleton.mp hs]
      exact hanswer.ok hr
  · exact h.made settings hs

theorem Reached.wellTyped {m : Made} (h : Reached m) : m.WellTyped := by
  induction h with
  | start => exact ⟨List.forall_mem_nil _, List.forall_mem_nil _⟩
  | call _ hc ih => exact ih.after hc

/-- **Settings are always well typed.** Whatever is compiled and expanded, one call after another, with
any objects and bindings, in any of the contexts, and on bases that were made before in any of them: each
property of the settings that are made is registered and has a value of the registered shape, with items
of the registered kind and none of them twice, and the accessors read all of these items. No further call
fails because a value does not match the kind of its property. -/
theorem wellTyped_of_reached {m : Made} (h : Reached m) :
    (∀ settings ∈ m.settings, settings.WellTyped ∧ settings.Legible) ∧
      ∀ c : Call, c.Admissible m.settings → ∀ e, (c.answerIn m.session).1 = .error e →
        ¬ e.cause.IsWrongShape :=
  ⟨fun settings hs => ⟨h.wellTyped.made settings hs, (h.wellTyped.made settings hs).legible⟩,
    fun _ hc _ he => (h.wellTyped.gives_answerIn hc).1.error he⟩

/-- Settings that add a library. -/
def addsLibrary : Call :=
  .compile ⟨⟨⟨"settings", "S", none⟩,
      [.assignment ⟨.add, ["lib", "refs"], .literal "A", always⟩]⟩,
    "template T", .settings, none, none, .empty⟩ .empty

/-- A template that builds on settings, of another context, and adds a project. -/
def addsProject (base : Option Settings) : Call :=
  .compile ⟨⟨⟨"template", "T", none⟩,
      [.assignment ⟨.add, ["projects"], .pair "P" (.literal "S"), always⟩]⟩,
    "template T", .template, none, base, .empty⟩ .empty

/-- What is made of a template that builds on settings. -/
def mixed : Made :=
  let m := (⟨.initial, []⟩ : Made).after addsLibrary
  m.after (addsProject m.settings.head?)

/-- Settings of two contexts keep the properties of both. -/
theorem wellTyped_mixed : Reached mixed ∧
    (mixed.settings.map fun s => (s.texts PropertyName.libRefs, s.projectDeclarations)) =
      [(["A"], [("P", "S")]), (["A"], [])] ∧ ∀ s ∈ mixed.settings, s.WellTyped ∧ s.Legible := by
  have hfirst : Reached ((⟨.initial, []⟩ : Made).after addsLibrary) :=
    .call .start ⟨⟨.settings, rfl⟩, by simp⟩
  have h : Reached mixed := .call hfirst ⟨⟨.template, rfl⟩, fun base hb => List.mem_of_mem_head? hb⟩
  exact ⟨h, by decide +kernel, (wellTyped_of_reached h).1⟩

end BuildPlan
