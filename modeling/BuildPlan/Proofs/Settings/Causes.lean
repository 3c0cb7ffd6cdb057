import BuildPlan.Settings.Compile

/-! # Who looks for the base

Only a job that comes to the compiler can fail because its base is not there. Whatever else may fail
while settings are compiled and expanded fails for other causes (`Job.findsBase_run`), and so does all
that is put together from such parts. -/

namespace BuildPlan

open BuildPlan.Variable

/-- The cause is that the base of an object is not compiled yet. -/
def Cause.IsBaseMissing : Cause → Prop
  | .baseNotCompiled _ _ => True
  | _ => False

namespace Fallible

variable {α β : Type} {r : Fallible α} {f : α → Fallible β}

/-- If it fails because a base is missing, the cause is one of these. -/
def Excused (E : Cause → Prop) : Fallible α → Prop
  | .ok _ => True
  | .error e => e.cause.IsBaseMissing → E e.cause

/-- If it fails, this is not because a base is missing. -/
def FindsBase (r : Fallible α) : Prop := r.Excused fun _ => False

section
variable {E : Cause → Prop}

theorem FindsBase.excused (h : r.FindsBase) : r.Excused E := by
  cases r with
  | ok => trivial
  | error e => exact fun hmissing => (h hmissing).elim

@[simp] theorem excused_within (context : String) (r : Fallible α) :
    (r.within context).Excused E ↔ r.Excused E := by
  cases r <;> exact Iff.rfl

theorem Excused.bind (hr : r.Excused E) (hf : ∀ a, (f a).Excused E) : (r >>= f).Excused E := by
  cases r with
  | ok a => exact hf a
  | error e => exact hr

end

/-- A failure for another cause. -/
theorem findsBase_raise {cause : Cause} (h : ¬ cause.IsBaseMissing) :
    FindsBase (cause.raise : Fallible α) := h

@[simp] theorem findsBase_within (context : String) (r : Fallible α) :
    (r.within context).FindsBase ↔ r.FindsBase := excused_within context r

theorem FindsBase.bind (hr : r.FindsBase) (hf : ∀ a, (f a).FindsBase) : (r >>= f).FindsBase :=
  Excused.bind hr hf

theorem findsBase_mapM (hf : ∀ a, (f a).FindsBase) : ∀ as : List α, (as.mapM f).FindsBase
  | [] => trivial
  | a :: as => by
    rw [List.mapM_cons]
    exact (hf a).bind fun _ => (findsBase_mapM hf as).bind fun _ => trivial

end Fallible

open Fallible

/-! ### Expansion -/

theorem Variable.findsBase_expand (b : Bindings) (e : Expansion) (text : String) :
    (expand b e text).FindsBase := by
  cases e with
  | deferring =>
    unfold expand expandPartly
    dsimp only
    split
    · exact findsBase_raise id
    · trivial
  | complete =>
    refine (findsBase_mapM (fun s => ?_) _).bind fun _ => trivial
    unfold evaluate
    split
    · trivial
    · split
      · trivial
      · exact findsBase_raise id
    · exact findsBase_raise id

theorem Item.findsBase_expand (b : Bindings) (e : Expansion) (item : Item) :
    (item.expand b e).FindsBase := by
  cases item with
  | text | xml | pattern => exact (Variable.findsBase_expand b e _).bind fun _ => trivial

theorem PropertyValue.findsBase_expand (b : Bindings) (e : Expansion) (value : PropertyValue) :
    (value.expand b e).FindsBase := by
  cases value with
  | scalar item =>
    cases item with
    | none => trivial
    | some item => exact (item.findsBase_expand b e).bind fun _ => trivial
  | set items => exact (findsBase_mapM (Item.findsBase_expand b e) _).bind fun _ => trivial
  | dictionary entries =>
    refine (findsBase_mapM (fun entry => ?_) _).bind fun _ => trivial
    exact (Variable.findsBase_expand b e _).bind fun _ =>
      (Item.findsBase_expand b e _).bind fun _ => trivial

theorem Bag.findsBase_expandEntries (b : Bindings) (e : Expansion) :
    ∀ es : List (String × PropertyValue), (expandEntries b e es).FindsBase
  | [] => trivial
  | (_, value) :: es => by
    unfold expandEntries
    exact ((findsBase_within _ _).mpr (value.findsBase_expand b e)).bind fun _ =>
      (findsBase_expandEntries b e es).bind fun _ => trivial

theorem Bag.findsBase_expand (bag : Bag) (b : Bindings) (e : Expansion) :
    (bag.expand b e).FindsBase := by
  have hentries := findsBase_expandEntries b e bag.values.entries
  unfold expand
  split
  · next f hf =>
    rw [hf] at hentries
    exact hentries
  · trivial

theorem Settings.findsBase_expand (s : Settings) (b : Bindings) (e : Expansion) :
    (s.expand b e).FindsBase :=
  (s.bag.findsBase_expand b e).bind fun _ => trivial

/-! ### Assignments -/

namespace Definition

theorem findsBase_readItem (d : Definition) (value : Value) : (d.readItem value).FindsBase := by
  unfold readItem
  split
  · trivial
  · exact findsBase_raise id
  · trivial
  · exact findsBase_raise id
  · split
    · trivial
    · exact findsBase_raise id

mutual

theorem findsBase_readItems (d : Definition) : ∀ value : Value, (d.readItems value).FindsBase
  | .none => by
    rw [readItems]
    trivial
  | .array values => by
    rw [readItems]
    exact findsBase_readAllItems d values
  | .literal _ | .glob _ _ | .regex _ _ | .xml _ | .pair _ _ => by
    rw [readItems]
    · exact (d.findsBase_readItem _).bind fun _ => trivial
    all_goals nofun

theorem findsBase_readAllItems (d : Definition) :
    ∀ values : List Value, (d.readAllItems values).FindsBase
  | [] => by
    rw [readAllItems]
    trivial
  | v :: vs => by
    rw [readAllItems]
    exact (findsBase_readItems d v).bind fun _ =>
      (findsBase_readAllItems d vs).bind fun _ => trivial

end

theorem findsBase_readEntry (d : Definition) (value : Value) : (d.readEntry value).FindsBase := by
  cases value with
  | pair key value => exact (d.findsBase_readItem value).bind fun _ => trivial
  | literal | glob | regex | xml | none | array => exact findsBase_raise id

theorem findsBase_readEntries (d : Definition) (value : Value) :
    (d.readEntries value).FindsBase := by
  cases value with
  | none => trivial
  | array values => exact findsBase_mapM d.findsBase_readEntry values
  | literal | glob | regex | xml | pair => exact (d.findsBase_readEntry _).bind fun _ => trivial

theorem findsBase_read (d : Definition) (value : Value) : (d.read value).FindsBase := by
  unfold read
  split
  · split
    · trivial
    · exact findsBase_raise id
    · exact (d.findsBase_readItem _).bind fun _ => trivial
  · exact (d.findsBase_readItems _).bind fun _ => trivial
  · exact (d.findsBase_readEntries _).bind fun _ => trivial

theorem findsBase_merge (d : Definition) (action : Action) (current incoming : PropertyValue) :
    (d.merge action current incoming).FindsBase := by
  unfold merge
  split
  · trivial
  · exact findsBase_raise id
  · trivial
  · trivial
  · exact findsBase_raise id

end Definition

theorem Bag.findsBase_apply (bag : Bag) (d : Definition) (action : Action) (value : Value) :
    (bag.apply d action value).FindsBase :=
  (d.findsBase_read value).bind fun _ => (d.findsBase_merge action _ _).bind fun _ => trivial

theorem Registry.findsBase_property (r : Registry) (name : String) : (r.property name).FindsBase := by
  unfold property
  split
  · trivial
  · exact findsBase_raise id

theorem Registry.findsBase_command (r : Registry) (name : String) : (r.command name).FindsBase := by
  unfold command
  split
  · trivial
  · exact findsBase_raise id

/-! ### The walk -/

/-- What goes on from a result is excused if both of its parts are. -/
theorem Logged.excused_bind {α β : Type} {E : Cause → Prop} {m : Logged α} {f : α → Logged β}
    (hm : m.result.Excused E) (hf : ∀ a, (f a).result.Excused E) : (m >>= f).result.Excused E := by
  rw [result_bind]
  exact hm.bind hf

theorem Logged.findsBase_bind {α β : Type} {m : Logged α} {f : α → Logged β}
    (hm : m.result.FindsBase) (hf : ∀ a, (f a).result.FindsBase) : (m >>= f).result.FindsBase :=
  excused_bind hm hf

theorem findsBase_judge (expression : String) (defined : NameSet) :
    (judge expression defined).FindsBase := by
  unfold judge
  split
  · trivial
  · exact findsBase_raise id

theorem Command.findsBase_run (c : Command) (argument : Option String) (bag : Bag) :
    (c.run argument bag).result.FindsBase := by
  cases c with
  | exclude | skip | warn => trivial
  | error => exact findsBase_raise id

section Walk
variable {r : Registry} {defined : NameSet}

mutual

theorem Element.findsBase_walk (bag : Bag) : ∀ e : Element,
    (e.walk r defined bag).result.FindsBase
  | .block condition body => by
    unfold Element.walk
    refine Logged.findsBase_bind (findsBase_judge condition defined) fun holds => ?_
    split
    · exact findsBase_walkAll bag body
    · trivial
  | .assignment a => by
    unfold Element.walk
    refine Logged.findsBase_bind (findsBase_judge a.condition defined) fun holds => ?_
    split
    · exact Logged.findsBase_bind (r.findsBase_property a.name) fun d =>
        Logged.findsBase_bind (bag.findsBase_apply d a.action a.value) fun _ => trivial
    · trivial
  | .invocation c => by
    unfold Element.walk
    refine Logged.findsBase_bind (findsBase_judge c.condition defined) fun holds => ?_
    split
    · exact Logged.findsBase_bind (r.findsBase_command c.name) fun command =>
        command.findsBase_run c.argument bag
    · trivial
  | .object _ _ | .group _ | .comment _ => by
    unfold Element.walk
    trivial

theorem findsBase_walkAll (bag : Bag) : ∀ es : List Element,
    (walkAll r defined bag es).result.FindsBase
  | [] => by
    unfold walkAll
    trivial
  | e :: es => by
    unfold walkAll
    refine Logged.findsBase_bind (Element.findsBase_walk bag e) fun out => ?_
    split
    · trivial
    · exact findsBase_walkAll _ es

end

end Walk

/-- **Compiling an object does not look for its base.** -/
theorem Job.findsBase_run (j : Job) (external : NameSet) : (j.run external).result.FindsBase :=
  Logged.findsBase_bind (findsBase_walkAll j.start j.object.body) fun out =>
    Logged.findsBase_bind (out.1.findsBase_expand j.bindings .deferring) fun _ => trivial

end BuildPlan
