import BuildPlan.Proofs.Settings.Supplying
import BuildPlan.Proofs.Solution.Stages

/-! # Bases in a resolution

The body of a template builds on nothing, and the body of a module on that of the template that it is
looked up by. Settings objects build on those beside them, and those of a module on the ones of its
template too. Templates and their settings stand under their names, so the resolution of a document is
in order if no template names a base: nothing fails because a base is missing, and every base is
there, compiled and of the name that is asked for, before an object builds on it
(`Solution.bases_compiled_first`). -/

namespace BuildPlan

open BuildPlan.Variable Fallible

/-! ### Checks

None of them looks for a base. -/

theorem Pattern.findsBase_compile (p : Pattern) : p.compile.FindsBase := by
  unfold compile
  split
  · trivial
  · exact findsBase_raise id

theorem Pattern.findsBase_compileAll (ps : List Pattern) : (compileAll ps).FindsBase :=
  findsBase_mapM findsBase_compile ps

theorem Whitelist.findsBase_ofPatterns (ps : List Pattern) : (ofPatterns ps).FindsBase :=
  (Pattern.findsBase_compileAll ps).bind fun _ => trivial

theorem findsBase_selectFiles (fs : FileSystem) (includes excludes : List Pattern) (folder : String) :
    (selectFiles fs includes excludes folder).result.FindsBase := by
  unfold selectFiles
  split
  · trivial
  · refine Logged.findsBase_bind (Pattern.findsBase_compileAll includes) fun included =>
      Logged.findsBase_bind (Pattern.findsBase_compileAll excludes) fun excluded => ?_
    split
    · trivial
    · split
      · exact (findsBase_within _ _).mpr (findsBase_raise id)
      · trivial

theorem findsBase_declaredGuid (module project : String) (s : Settings) :
    (declaredGuid module project s).FindsBase := by
  unfold declaredGuid
  split
  · trivial
  · split
    · trivial
    · exact findsBase_raise id

theorem Identity.findsBase_ofSettings (module project : String) (s : Settings) :
    (ofSettings module project s).FindsBase :=
  (findsBase_declaredGuid module project s).bind fun _ => trivial

theorem Identities.findsBase_meet (known : Identities) (current : Identity) (c : Configuration) :
    (known.meet current c).FindsBase := by
  unfold meet
  split
  · next identity _ =>
    have hcheck : (identity.check current c).FindsBase := by
      unfold Identity.check
      split
      · exact findsBase_raise id
      · trivial
    exact hcheck.bind fun _ => trivial
  · trivial

theorem findsBase_settingsObjectsFrom (parent : Heading) : ∀ (os : List Object) (seen : List String),
    (settingsObjectsFrom parent seen os).FindsBase
  | [], _ => trivial
  | o :: os, seen => by
    unfold settingsObjectsFrom
    split
    · exact findsBase_raise id
    · split
      · exact findsBase_raise id
      · exact (findsBase_settingsObjectsFrom parent os _).bind fun _ => trivial

theorem Object.findsBase_settingsObjects (o : Object) : o.settingsObjects.FindsBase :=
  findsBase_settingsObjectsFrom o.heading _ []

/-- There are patterns and a folder for which the matcher itself fails for this cause. -/
def PatternMatcher.Raises (matcher : PatternMatcher) (cause : Cause) : Prop :=
  ∃ includes excludes folder e, (matcher includes excludes folder).result = .error e ∧ e.cause = cause

theorem PatternMatcher.excused_raises (matcher : PatternMatcher) (includes excludes : List Pattern)
    (folder : String) : (matcher includes excludes folder).result.Excused matcher.Raises := by
  cases h : (matcher includes excludes folder).result with
  | ok files => trivial
  | error e => exact fun _ => ⟨includes, excludes, folder, e, h, rfl⟩

/-- Selecting files by a walk compiles nothing. -/
theorem not_raises_selectFiles (fs : FileSystem) (object base : String) :
    ¬ (selectFiles fs).Raises (.baseNotCompiled object base) := by
  rintro ⟨includes, excludes, folder, e, he, hcause⟩
  have hfinds := findsBase_selectFiles fs includes excludes folder
  rw [he] at hfinds
  exact hfinds (hcause ▸ trivial)

namespace Module

theorem excused_resolveProject (ctx : ModuleContext) (module : String) (c : Configuration)
    (b : Bindings) (settings : Dictionary String Settings) (known : Identities)
    (entry : String × String) :
    (resolveProject ctx module c b settings known entry).result.Excused ctx.matcher.Raises := by
  have hexpand : (Declaration.expand b entry).FindsBase :=
    (findsBase_expand b .complete _).bind fun _ => (findsBase_expand b .complete _).bind fun _ =>
      trivial
  unfold resolveProject
  refine Logged.excused_bind hexpand.excused fun d => ?_
  dsimp only
  split
  · exact (findsBase_raise id).excused
  · next compiled _ =>
    refine Logged.excused_bind ((excused_within _ _).mpr (compiled.findsBase_expand _ _).excused)
      fun expanded => ?_
    split
    · trivial
    · refine Logged.excused_bind ((excused_within _ _).mpr
        (Identity.findsBase_ofSettings _ _ _).excused) fun current => ?_
      refine Logged.excused_bind (Identities.findsBase_meet known current c).excused fun met => ?_
      exact Logged.excused_bind ((excused_within _ _).mpr (ctx.matcher.excused_raises _ _ _))
        fun files => trivial

theorem excused_resolveProjects (ctx : ModuleContext) (module : String) (c : Configuration)
    (b : Bindings) (settings : Dictionary String Settings) :
    ∀ (entries : List (String × String)) (known : Identities) (ps : Dictionary String Project),
      (resolveProjects ctx module c b settings known ps entries).result.Excused ctx.matcher.Raises
  | [], _, _ => trivial
  | entry :: entries, known, ps => by
    unfold resolveProjects
    refine Logged.excused_bind (excused_resolveProject ctx module c b settings known entry)
      fun resolved => ?_
    split
    · exact excused_resolveProjects ctx module c b settings entries _ _
    · split
      · exact (findsBase_raise id).excused
      · exact excused_resolveProjects ctx module c b settings entries _ _

end Module

namespace Solution

theorem findsBase_wrapper? : ∀ (es : List Element) (found : Option Object),
    (wrapper? found es).FindsBase
  | [], _ => trivial
  | e :: es, found => by
    cases e with
    | object heading body =>
      unfold wrapper?
      split
      · split
        · exact findsBase_raise id
        · split
          · exact findsBase_raise id
          · exact findsBase_wrapper? es _
      · exact findsBase_wrapper? es found
    | comment | group | assignment | invocation | block => exact findsBase_wrapper? es found

theorem findsBase_bodyOf (d : Document) : (bodyOf d).FindsBase := by
  refine (findsBase_wrapper? d.elements none).bind fun found => ?_
  cases found <;> trivial

theorem findsBase_membersOf (group : String) : ∀ (members : List (String × NameSet))
    (seen : List String), (membersOf group seen members).FindsBase
  | [], _ => trivial
  | (name, constants) :: rest, seen => by
    unfold membersOf
    split
    · exact findsBase_raise id
    · exact (findsBase_membersOf group rest _).bind fun _ => trivial

theorem findsBase_groupsOf : ∀ (gs : List ConfigurationGroup) (seen : List String),
    (groupsOf seen gs).FindsBase
  | [], _ => trivial
  | g :: gs, seen => by
    unfold groupsOf
    split
    · exact findsBase_raise id
    · exact (findsBase_membersOf g.name g.members []).bind fun _ =>
        (findsBase_groupsOf gs _).bind fun _ => trivial

theorem findsBase_declaredConfigurations (body : Object) (wanted : List String) :
    (declaredConfigurations body wanted).FindsBase := by
  unfold declaredConfigurations
  refine (findsBase_groupsOf _ []).bind fun groups => ?_
  split
  · exact findsBase_raise id
  · dsimp only
    split
    · exact findsBase_raise id
    · trivial

theorem findsBase_checkKinds (body : Object) (objects : List Object) :
    (checkKinds body objects).FindsBase := by
  unfold checkKinds
  split
  · exact findsBase_raise id
  · trivial

theorem findsBase_checkProjects (s : Solution) (whitelists : Dictionary Configuration Whitelist)
    (c : Configuration) : (checkProjects s whitelists c).FindsBase := by
  unfold checkProjects
  dsimp only
  split
  · exact findsBase_raise id
  · split
    · split
      · exact (findsBase_within _ _).mpr (findsBase_raise id)
      · trivial
    · trivial

end Solution

/-! ### Templates -/

/-- The settings of the variant are given, and they stand under their names: the compiled body under
the name of the template. -/
structure TemplateVariant.IsGiven (given : Set Settings) (template : String) (v : TemplateVariant) :
    Prop where
  name : v.root.name = template
  root : v.root ∈ given
  settings : Stocked given v.settings

theorem TemplateVariant.IsGiven.mono {given more : Set Settings} {template : String}
    {v : TemplateVariant} (h : v.IsGiven given template) (hsub : given ⊆ more) :
    v.IsGiven more template :=
  ⟨h.name, hsub h.root, h.settings.mono hsub⟩

/-- Compiled settings have the name of their object, and they are given from then on. -/
theorem Job.supplies_compile {E : Cause → Prop} {j : Job} {external : NameSet} {given : Set Settings}
    (hj : j.Supplied given) :
    (j.compile external).Supplies E (fun s more => s.name = j.object.name ∧ s ∈ more) given :=
  Compile.supplies_compile hj fun s hs => ⟨congrArg SettingsKey.name hs, Set.mem_insert s given⟩

namespace Template

variable {E : Cause → Prop} {object : Object} {children : List Object} {external : NameSet}
  {b : Bindings} {cs : List Configuration} {given : Set Settings}

theorem supplies_resolveVariant (hbase : object.base = none) (c : Configuration) :
    (resolveVariant object children external b c).Supplies E
      (fun v more => v.IsGiven more object.name) given := by
  rw [resolveVariant_eq]
  refine (Job.supplies_compile (.of_none hbase rfl)).bind fun root more _ hroot => ?_
  split
  · exact Compile.supplies_throw id
  · have hdeclares : ∀ h ∈ children.map fun child => (⟨child, child.base⟩ : Heir),
        h.DeclaresBase := by
      intro h hm
      obtain ⟨child, -, rfl⟩ := List.mem_map.mp hm
      exact fun n hn => hn
    have hsettings : (compileSettings object children external b c).Supplies E
        (fun all more => Stocked more all) more :=
      (Compile.supplies_within _).mpr (Heir.supplies_compileAll hdeclares (.empty more))
    exact hsettings.bind fun settings all hall hstocked => ⟨hroot.1, hall hroot.2, hstocked⟩

theorem supplies_resolve (hbase : object.base = none) :
    (resolve object cs external b).Supplies E
      (fun t more => ∀ e ∈ t.variants.entries, e.2.IsGiven more object.name) given := by
  unfold resolve
  refine Compile.supplies_ofFallible_bind object.findsBase_settingsObjects fun children _ => ?_
  refine (Compile.supplies_mapM (P := fun e all => e.2.IsGiven all object.name)
    (fun hsub he => he.mono hsub) fun c _ more _ => ?_).bind fun variants all _ hall => ?_
  · exact (supplies_resolveVariant hbase c).bind fun v all _ hv => hv
  · exact fun e he => hall e (Dictionary.mem_of_mem_entries_ofList he)

end Template

/-! ### Modules -/

namespace Module

variable {ctx : ModuleContext} {object : Object} {template : Template} {name : String}
  {given : Set Settings}

/-- An object of a module that names a base has this one in effect. -/
theorem declaresBase_of_mem_heirs {children : List Object} {h : Heir}
    (hm : h ∈ heirs template children) : h.DeclaresBase := by
  obtain ⟨child, -, rfl⟩ := List.mem_map.mp hm
  intro n hn
  have hchild : child.base = some n := hn
  show child.base.or _ = some n
  rw [hchild, Option.some_or]

theorem supplies_resolveVariant (hbase : object.base = some name) (children : List Object)
    (known : Identities) (c : Configuration) {variant : TemplateVariant}
    (hv : variant.IsGiven given name) :
    (resolveVariant ctx object children template known c variant).Supplies ctx.matcher.Raises (fun _ _ => True)
      given := by
  rw [resolveVariant_eq]
  have hroot : Job.Supplied ⟨object, object.heading.display, .template, some c, some variant.root,
      bindingsIn ctx object template c⟩ given :=
    .of_some rfl hv.root fun n hn => by
      cases hbase.symm.trans hn
      exact hv.name
  refine (Job.supplies_compile hroot).bind fun root more hmore _ => ?_
  split
  · trivial
  · have hown : (compileOwn ctx object children template c variant).Supplies ctx.matcher.Raises
        (fun all more => Stocked more all) more :=
      (Compile.supplies_within _).mpr (Heir.supplies_compileAll
        (fun h hm => declaresBase_of_mem_heirs hm) (hv.settings.mono hmore))
    exact hown.bind fun own _ _ _ =>
      Compile.supplies_ofLogged (excused_resolveProjects _ _ _ _ _ _ _ _) fun _ _ => trivial

theorem supplies_resolveVariants (hbase : object.base = some name) (children : List Object) :
    ∀ (variants : List (Configuration × TemplateVariant)) (known : Identities)
      {given : Set Settings}, (∀ e ∈ variants, e.2.IsGiven given name) →
      (resolveVariants ctx object children template known variants).Supplies ctx.matcher.Raises (fun _ _ => True) given
  | [], _, _, _ => trivial
  | (c, variant) :: rest, known, given, hv => by
    have hhead : variant.IsGiven given name := hv _ List.mem_cons_self
    rw [resolveVariants]
    refine (supplies_resolveVariant hbase children known c hhead).bind fun resolved more hmore _ => ?_
    refine (supplies_resolveVariants hbase children rest resolved.1 fun e he => ?_).bind
      fun _ _ _ _ => trivial
    exact (hv e (List.mem_cons_of_mem _ he)).mono hmore

theorem supplies_resolve (hbase : object.base = some name)
    (hv : ∀ e ∈ template.variants.entries, e.2.IsGiven given name) :
    (resolve ctx object template).Supplies ctx.matcher.Raises (fun _ _ => True) given := by
  unfold resolve
  refine Compile.supplies_ofFallible_bind object.findsBase_settingsObjects fun children _ => ?_
  exact (supplies_resolveVariants hbase children _ _ hv).bind fun _ _ _ _ => trivial

end Module

/-! ### The solution -/

namespace Solution

variable {E : Cause → Prop} {o : Options} {fs : FileSystem} {given : Set Settings}

theorem supplies_compileSettings {body : Object} (hbase : body.base = none)
    (cs : List Configuration) :
    (compileSettings o body cs).Supplies E (fun _ _ => True) given := by
  unfold compileSettings
  refine (Compile.supplies_mapM (P := fun _ _ => True) (fun _ h => h) fun c _ more _ => ?_).imp
    fun _ _ _ _ => trivial
  have hsettings : (resolveSettings body o.constants (bindingsIn o body) c).Supplies E
      (fun _ _ => True) more := by
    unfold resolveSettings
    refine (Job.supplies_compile (.of_none hbase rfl)).bind fun compiled _ _ _ => ?_
    refine Compile.supplies_ofFallible_bind
      ((findsBase_within _ _).mpr (compiled.findsBase_expand _ _)) fun expanded _ => ?_
    exact Compile.supplies_ofFallible_bind (Whitelist.findsBase_ofPatterns _) fun _ _ => trivial
  exact hsettings.bind fun _ _ _ _ => trivial

/-- All variants of the templates are given, under the names of the templates. -/
def TemplatesGiven (given : Set Settings) (templates : Dictionary String Template) : Prop :=
  ∀ n t, templates.get? n = some t → ∀ e ∈ t.variants.entries, e.2.IsGiven given n

theorem templatesGiven_empty (given : Set Settings) : TemplatesGiven given .empty := by
  intro n t h
  cases h

theorem supplies_resolveTemplates {cs : List Configuration} {external : NameSet} {b : Bindings} :
    ∀ {os : List Object} {templates : Dictionary String Template} {given : Set Settings},
      (∀ o ∈ os, o.base = none) → TemplatesGiven given templates →
      (resolveTemplates cs external b templates os).Supplies E
        (fun out more => TemplatesGiven more out) given
  | [], _, _, _, ht => ht
  | o :: os, templates, given, hbase, ht => by
    rw [resolveTemplates]
    split
    · exact Compile.supplies_throw id
    · refine (Template.supplies_resolve (hbase o List.mem_cons_self)).bind
        fun template more hmore hvariants => ?_
      refine supplies_resolveTemplates (fun o' ho' => hbase o' (List.mem_cons_of_mem _ ho'))
        fun n t hn => ?_
      rw [Dictionary.get?_insert] at hn
      split at hn
      · next hname =>
        cases hn
        cases hname
        exact hvariants
      · exact fun e he => (ht n t hn e he).mono hmore

theorem supplies_resolveModules {ctx : ModuleContext} {templates : Dictionary String Template} :
    ∀ {os : List Object} {modules : Dictionary String Module} {given : Set Settings},
      TemplatesGiven given templates →
      (resolveModules ctx templates modules os).Supplies ctx.matcher.Raises (fun _ _ => True) given
  | [], _, _, _ => trivial
  | o :: os, modules, given, ht => by
    rw [resolveModules]
    split
    · exact Compile.supplies_throw id
    · split
      · exact Compile.supplies_throw id
      · next name hb =>
        split
        · exact Compile.supplies_throw id
        · next template hget =>
          -- the template has been looked up by the base that the heading of the module names
          refine (Module.supplies_resolve hb (ht name template hget)).bind fun _ more hmore _ => ?_
          exact supplies_resolveModules fun n t hn e he => (ht n t hn e he).mono hmore

theorem supplies_forM {α : Type} {f : α → Fallible Unit} (hf : ∀ a, (f a).FindsBase) :
    ∀ {as : List α} {given : Set Settings},
      (as.forM fun a => Compile.ofFallible (f a)).Supplies E (fun _ _ => True) given
  | [], _ => trivial
  | a :: as, given => by
    show (Compile.ofFallible (f a) >>= fun _ =>
      as.forM fun a => Compile.ofFallible (f a)).Supplies E _ given
    exact Compile.supplies_ofFallible_bind (hf a) fun _ _ => supplies_forM hf

theorem supplies_resolveBody {body : Object} (hbase : body.base = none)
    (htemplates : ∀ t ∈ templatesIn body, t.base = none) (cs : List Configuration) :
    (resolveBody o fs body cs).Supplies (o.matcher fs).Raises (fun _ _ => True) given := by
  unfold resolveBody
  refine (supplies_compileSettings hbase cs).bind fun resolved more _ _ => ?_
  refine Compile.supplies_ofFallible_bind (findsBase_checkKinds _ _) fun _ _ => ?_
  refine (supplies_resolveTemplates htemplates (templatesGiven_empty more)).bind fun templates more _ ht => ?_
  have hmodules : (resolveModules (contextOf o fs body resolved) templates .empty
      (modulesIn body)).Supplies (contextOf o fs body resolved).matcher.Raises (fun _ _ => True) more :=
    supplies_resolveModules ht
  refine hmodules.bind fun modules more _ _ => ?_
  exact (supplies_forM fun c => findsBase_checkProjects _ _ c).bind fun _ _ _ _ => trivial

/-- The resolution of a document is in order if no template names a base. -/
theorem supplies_resolve {d : Document}
    (h : ∀ body, bodyOf d = .ok body → ∀ t ∈ templatesIn body, t.base = none) :
    (resolve o fs d).Supplies (o.matcher fs).Raises (fun _ _ => True) given := by
  rw [resolve_eq]
  refine Compile.supplies_ofFallible_bind (findsBase_bodyOf d) fun body hb => ?_
  refine Compile.supplies_ofFallible_bind (findsBase_declaredConfigurations body o.groups)
    fun cs _ => ?_
  exact supplies_resolveBody (heading_of_bodyOf hb).2 (h body hb) cs

/-- **No object is compiled before its base.** If no template of a document names a base, its
resolution does not fail because a base is not compiled yet, whatever it is resolved with: not if files
are selected by a walk, and otherwise only if what finds the files of projects fails for this cause itself.
And every object that is compiled on the way builds on settings that were compiled before it, if it builds
on any, and if it names a base, on settings of this name. -/
theorem bases_compiled_first {d : Document}
    (h : ∀ body, bodyOf d = .ok body → ∀ t ∈ templatesIn body, t.base = none) :
    (o.matcher = selectFiles → ∀ e object base, ((resolve o fs d).runIn .initial).1 = .error e →
        e.cause ≠ .baseNotCompiled object base) ∧
      (∀ e object base, ((resolve o fs d).runIn .initial).1 = .error e →
        e.cause = .baseNotCompiled object base → (o.matcher fs).Raises (.baseNotCompiled object base)) ∧
      ∀ before j r behind, (resolve o fs d).callsIn .initial = before ++ (j, r) :: behind →
        (∀ base, j.base = some base → ∃ j', (j', .ok base) ∈ before) ∧
        ∀ n, j.object.base = some n → ∃ base, j.base = some base ∧ base.name = n := by
  have hsupplies : (resolve o fs d).Supplies (o.matcher fs).Raises (fun _ _ => True) ∅ :=
    supplies_resolve h
  have hraises : ∀ e object base, ((resolve o fs d).runIn .initial).1 = .error e →
      e.cause = .baseNotCompiled object base →
        (o.matcher fs).Raises (.baseNotCompiled object base) := by
    intro e object base he hcause
    have hexcused := hsupplies.excused Session.keyed_initial he
    rw [hcause] at hexcused
    exact hexcused trivial
  refine ⟨fun hwalk e object base he hcause => ?_, hraises, fun before j r behind hcalls => ?_⟩
  · have hnever := not_raises_selectFiles fs object base
    rw [← hwalk] at hnever
    exact hnever (hraises e object base he hcause)
  · have hsupplied := hsupplies.supplied Session.keyed_initial hcalls
    exact ⟨fun base hb => (hsupplied.mem base hb).resolve_left (Set.notMem_empty base),
      hsupplied.named⟩

/-- A template with a child in front of its parent, and a module in which both names are taken again,
one of them for settings that build on those of the template. -/
def takenAgain : Document :=
  ⟨[.group ⟨"g", [("Debug", .empty)]⟩,
    .object ⟨moduleKind, "Core", some "T"⟩
      [.object ⟨settingsKind, "Child", some "Child"⟩ [], .object ⟨settingsKind, "Parent", none⟩ []],
    .object ⟨templateKind, "T", none⟩
      [.assignment ⟨.add, ["projects"], .pair "P" (.literal "Child"), always⟩,
        .object ⟨settingsKind, "Child", some "Parent"⟩ [],
        .object ⟨settingsKind, "Parent", none⟩ []]]⟩

theorem bases_compiled_first_takenAgain :
    (((resolve ⟨[], .empty, [], none, selectFiles⟩ .empty takenAgain).callsIn .initial).map fun call =>
        (call.1.scope, call.1.object.heading.display, call.1.base.map (·.name))) =
      [("solution", "solution Solution", none), ("template T", "template T", none),
        ("template T", "settings Parent", none), ("template T", "settings Child : Parent", some "Parent"),
        ("module Core : T", "module Core : T", some "T"),
        ("module Core : T", "settings Child : Child", some "Child"),
        ("module Core : T", "settings Parent", none)] ∧
    (∀ e object base,
        ((resolve ⟨[], .empty, [], none, selectFiles⟩ .empty takenAgain).runIn .initial).1 = .error e →
        e.cause ≠ .baseNotCompiled object base) ∧
      ∀ before j r behind,
        (resolve ⟨[], .empty, [], none, selectFiles⟩ .empty takenAgain).callsIn .initial =
          before ++ (j, r) :: behind →
        (∀ base, j.base = some base → ∃ j', (j', .ok base) ∈ before) ∧
        ∀ n, j.object.base = some n → ∃ base, j.base = some base ∧ base.name = n := by
  have hbase : ∀ body, bodyOf takenAgain = .ok body → ∀ t ∈ templatesIn body, t.base = none := by
    intro body hb
    cases hb
    decide +kernel
  obtain ⟨hnever, -, hcalls⟩ :=
    @bases_compiled_first ⟨[], .empty, [], none, selectFiles⟩ .empty takenAgain hbase
  exact ⟨by decide +kernel, hnever rfl, hcalls⟩

end Solution

end BuildPlan
