import BuildPlan.Proofs.Solution.Consistency

/-! # One identity for one project

A project is one of a module. It has one identity in all configurations of a solution, and under one
configuration its name is no other project's. The first is checked when the modules are resolved and the
second behind that, and where nothing else fails, a document for which one of them does not hold fails for
this reason (`one_identity`). The name of a project may move from one module to another between two
configurations, though, and what it names has another identity there (`identity_moves`). -/

namespace BuildPlan

open BuildPlan.Variable

namespace Compile

variable {α β : Type} {m : Compile α} {f : α → Compile β}

theorem result_fresh_bind_of_ok {a : α} (h : m.fresh.result = .ok a) :
    (m >>= f).fresh.result = (f a).fresh.result := by
  rw [fresh_bind, Logged.result_bind, h]
  rfl

theorem result_fresh_bind_of_error {e : Failure} (h : m.fresh.result = .error e) :
    (m >>= f).fresh.result = .error e := by
  rw [fresh_bind, Logged.result_bind, h]
  rfl

end Compile

namespace Solution

/-! ### In front of the modules -/

/-- The properties and the templates of a document are resolved to these, each by themselves. -/
structure ComesToModules (o : Options) (d : Document) (body : Object) (cs : List Configuration)
    (resolved : List (Configuration × Settings × Whitelist)) (templates : Dictionary String Template) :
    Prop where
  hasBody : bodyOf d = .ok body
  hasConfigurations : declaredConfigurations body o.groups = .ok cs
  settings : ((compileSettings o body cs).runIn .initial).1 = .ok resolved
  kinds : checkKinds body (Element.objects body.body) = .ok ()
  templates : ((resolveTemplates cs o.constants (bindingsIn o body) .empty (templatesIn body)).runIn
    .initial).1 = .ok templates

/-- The modules and the checks behind them. -/
def resolveRest (o : Options) (fs : FileSystem) (body : Object) (cs : List Configuration)
    (resolved : List (Configuration × Settings × Whitelist)) (templates : Dictionary String Template) :
    Compile Solution := do
  let modules ← resolveModules (contextOf o fs body resolved) templates .empty (modulesIn body)
  let solution := assemble body cs resolved templates modules
  cs.forM fun c => Compile.ofFallible
    (checkProjects solution (contextOf o fs body resolved).whitelists c)
  return solution

section Rest
variable {o : Options} {fs : FileSystem} {source : String} {d : Document} {body : Object}
  {cs : List Configuration} {resolved : List (Configuration × Settings × Whitelist)}
  {templates : Dictionary String Template} {modules : Dictionary String Module}

/-- What is left to do are the modules and the checks. -/
theorem ComesToModules.result_eq (h : ComesToModules o d body cs resolved templates)
    (hd : Document.parse source = .ok d) (fs : FileSystem) :
    ((resolve o fs d).runIn .initial).1 =
      (resolveRest o fs body cs resolved templates).fresh.result := by
  have hn := identified_of_parse hd h.hasBody
  have hcs := nodup_of_declaredConfigurations h.hasConfigurations
  have hsettings : (compileSettings o body cs).fresh.result = .ok resolved := by
    rw [← h.settings, ((asksOnce_compileSettings o body hcs).runIn_eq_fresh fun _ _ => rfl).1]
  have htemplates : (resolveTemplates cs o.constants (bindingsIn o body) .empty
      (templatesIn body)).fresh.result = .ok templates := by
    rw [← h.templates, ((asksOnce_templatesIn hn hcs _ _).runIn_eq_fresh fun _ _ => rfl).1]
  rw [((asksOnce_resolve hd o fs).runIn_eq_fresh (s := .initial) fun _ _ => rfl).1, resolve_eq,
    h.hasBody, Compile.ofFallible_ok_bind, h.hasConfigurations, Compile.ofFallible_ok_bind, resolveBody,
    Compile.result_fresh_bind_of_ok hsettings, h.kinds, Compile.ofFallible_ok_bind,
    Compile.result_fresh_bind_of_ok htemplates]
  rfl

end Rest

/-! ### Modules that are compared -/

section Modules
variable {ctx : ModuleContext} {templates : Dictionary String Template}

/-- The object is a module of this template. -/
def AppliesTo (templates : Dictionary String Template) (object : Object) (template : Template) : Prop :=
  ∃ name, object.base = some name ∧ templates.get? name = some template

/-- Nothing fails in these modules but comparing the identities of projects. -/
structure OnlyCompare (ctx : ModuleContext) (templates : Dictionary String Template)
    (objects : List Object) : Prop where
  names : (objects.map Object.name).Nodup
  modules : ∀ object ∈ objects, ∃ template, AppliesTo templates object template ∧
    Module.OnlyCompares ctx object template .initial

/-- In one of these modules two configurations disagree about a project. -/
def SomeDisagrees (ctx : ModuleContext) (templates : Dictionary String Template)
    (objects : List Object) : Prop :=
  ∃ object ∈ objects, ∃ template, AppliesTo templates object template ∧
    Module.Disagrees ctx object template .initial

theorem AppliesTo.unique {object : Object} {template template' : Template}
    (h : AppliesTo templates object template) (h' : AppliesTo templates object template') :
    template = template' := by
  obtain ⟨name, hb, ht⟩ := h
  obtain ⟨name', hb', ht'⟩ := h'
  obtain rfl : name = name' := Option.some.inj (hb.symm.trans hb')
  exact Option.some.inj (ht.symm.trans ht')

/-- A module is resolved with the template that it names. -/
theorem resolveModules_cons {object : Object} {template : Template} {objects : List Object}
    {modules : Dictionary String Module} (hc : modules.contains object.name = false)
    (ht : AppliesTo templates object template) :
    resolveModules ctx templates modules (object :: objects) =
      Module.resolve ctx object template >>= fun m =>
        resolveModules ctx templates (modules.insert object.name m) objects := by
  obtain ⟨name, hb, ht⟩ := ht
  rw [resolveModules, if_neg (Bool.eq_false_iff.mp hc), hb]
  dsimp only
  rw [ht]

/-- Of modules that are only compared, the first one about which two configurations disagree fails. -/
theorem fails_of_someDisagrees : ∀ {objects : List Object} {modules : Dictionary String Module},
    (∀ object ∈ objects, object.kind = moduleKind) → OnlyCompare ctx templates objects →
      (∀ object ∈ objects, modules.contains object.name = false) →
        SomeDisagrees ctx templates objects → ∃ project field configuration,
          (resolveModules ctx templates modules objects).fresh.result =
            .error (Cause.inconsistentIdentity project field configuration).failure
  | [], _, _, _, _, h => by
    obtain ⟨object, hobject, -⟩ := h
    cases hobject
  | object :: objects, modules, hk, hcompare, hnew, hdisagree => by
    obtain ⟨hc, hnew⟩ := List.forall_mem_cons.mp hnew
    obtain ⟨hko, hk⟩ := List.forall_mem_cons.mp hk
    obtain ⟨hnames, hmodules⟩ := hcompare
    obtain ⟨hname, hnames⟩ := List.nodup_cons.mp hnames
    obtain ⟨⟨template, happlies, hobject⟩, hmodules⟩ := List.forall_mem_cons.mp hmodules
    have hfresh := ((Module.asksOnce_resolve hko ctx template).runIn_eq_fresh (s := .initial)
      fun _ _ => rfl).1
    rw [resolveModules_cons hc happlies]
    rcases Module.resolve_compares hobject with ⟨⟨m, hm⟩, hagrees⟩ | ⟨⟨p, f, c, hf⟩, -⟩
    · rw [Compile.result_fresh_bind_of_ok (hfresh.symm.trans hm)]
      refine fails_of_someDisagrees hk ⟨hnames, hmodules⟩ (fun other ho => ?_) ?_
      · rw [Dictionary.contains, Dictionary.get?_insert, if_neg, ← Dictionary.contains, hnew other ho]
        intro he
        exact hname (he ▸ List.mem_map_of_mem ho)
      · obtain ⟨other, ho, template', happlies', hd⟩ := hdisagree
        rcases List.mem_cons.mp ho with rfl | ho
        · exact absurd (happlies.unique happlies' ▸ hd) hagrees
        · exact ⟨other, ho, template', happlies', hd⟩
    · exact ⟨p, f, c, Compile.result_fresh_bind_of_error (hfresh.symm.trans hf)⟩

end Modules

/-! ### Projects that are checked -/

section Checks
variable {s : Solution} {ws : Dictionary Configuration Whitelist} {c : Configuration}
  {cs : List Configuration}

/-- If the names of projects are restricted, the projects of the configuration reference one another
alone. -/
def ReferencesMet (s : Solution) (ws : Dictionary Configuration Whitelist) (c : Configuration) : Prop :=
  (ws.get? c).any (·.isActive) = true →
    ∀ p ∈ s.projects c, ∀ reference ∈ p.projectRefs, reference ∈ (s.projects c).map (·.name)

/-- Where the references are met, a check fails for a name that comes twice. -/
theorem checkProjects_error (h : s.ReferencesMet ws c) {e : Failure}
    (he : checkProjects s ws c = .error e) : ∃ n, e = (Cause.duplicate .project n).failure := by
  unfold checkProjects at he
  dsimp only at he
  split at he
  · next n _ => exact ⟨n, (Except.error.inj he).symm⟩
  · split at he
    · next ha =>
      split at he
      · next project reference hdangling =>
        obtain ⟨p, hp, -, hr, hmissing⟩ := exists_of_danglingReference? hdangling
        exact absurd (h ha p hp reference hr) hmissing
      · cases he
    · cases he

/-- Checks of projects, two of which have one name, end with a failure for such a name. -/
theorem fails_of_repeated (h : ∀ c ∈ cs, s.ReferencesMet ws c)
    (hr : ∃ c ∈ cs, ¬ ((s.projects c).map (·.name)).Nodup) : ∃ n,
      (cs.forM fun c => Compile.ofFallible (checkProjects s ws c)).fresh.result =
        .error (Cause.duplicate .project n).failure := by
  obtain ⟨c, hc, hn⟩ := hr
  obtain ⟨c', hc', e, he, hrun⟩ := exists_error_of_forM (f := checkProjects s ws) .initial
    ⟨c, hc, fun hok => hn (nodup_of_checkProjects hok)⟩
  obtain ⟨n, rfl⟩ := checkProjects_error (h c' hc') he
  have hasks : (cs.forM fun c => Compile.ofFallible (checkProjects s ws c)).AsksOnce ∅ :=
    asksOnce_forM_ofFallible _ cs
  exact ⟨n, by rw [← (hasks.runIn_eq_fresh (s := .initial) nofun).1, hrun]⟩

end Checks

/-! ### One identity -/

/-- **A project of a module has one identity in a solution, and its name is no other project's under one
configuration.** Two projects of one name have the same identity if their modules are the same, and are
the same project if their configurations are; and this identity is the one that the settings of each of
them declare, up to the spelling of the source path. Where the resolution comes to the modules and nothing
else fails, it fails for an identity if two configurations disagree about a project of a module, and for a
name if two projects have it under one configuration. -/
theorem one_identity (o : Options) (fs : FileSystem) (d : Document) :
    (∀ s, ResolvesTo o fs d s → ∀ c₁ ∈ s.configurations, ∀ c₂, ∀ p₁ ∈ s.projects c₁,
      ∀ p₂ ∈ s.projects c₂, p₁.name = p₂.name →
        (p₁.module = p₂.module → p₁.identity = p₂.identity) ∧ (c₁ = c₂ → p₁ = p₂) ∧
          p₁.Fits ∧ p₂.Fits) ∧
    ∀ source body cs resolved templates, Document.parse source = .ok d →
      ComesToModules o d body cs resolved templates →
        (OnlyCompare (contextOf o fs body resolved) templates (modulesIn body) →
          SomeDisagrees (contextOf o fs body resolved) templates (modulesIn body) →
            ∃ project field configuration, ((resolve o fs d).runIn .initial).1 =
              .error (Cause.inconsistentIdentity project field configuration).failure) ∧
        ∀ modules, ((resolveModules (contextOf o fs body resolved) templates .empty
            (modulesIn body)).runIn .initial).1 = .ok modules →
          (∀ c ∈ cs, (assemble body cs resolved templates modules).ReferencesMet
            (contextOf o fs body resolved).whitelists c) →
          (∃ c ∈ cs, ¬ (((assemble body cs resolved templates modules).projects c).map
            (·.name)).Nodup) →
            ∃ name, ((resolve o fs d).runIn .initial).1 =
              .error (Cause.duplicate .project name).failure := by
  refine ⟨fun s h c₁ hc c₂ p₁ h₁ p₂ h₂ hn => identity_eq h hc h₁ h₂ hn,
    fun source body cs resolved templates hd h => ?_⟩
  have hn := identified_of_parse hd h.hasBody
  rw [h.result_eq hd]
  refine ⟨fun hcompare hdisagree => ?_, fun modules hm href hrepeated => ?_⟩
  · have hnew : ∀ object ∈ modulesIn body,
        (.empty : Dictionary String Module).contains object.name = false := fun _ _ => rfl
    obtain ⟨p, f, c, hfails⟩ := fails_of_someDisagrees (forall_filter_kind hn _).1 hcompare hnew hdisagree
    exact ⟨p, f, c, Compile.result_fresh_bind_of_error hfails⟩
  · have hmodules : (resolveModules (contextOf o fs body resolved) templates .empty
        (modulesIn body)).fresh.result = .ok modules := by
      rw [← hm, ((asksOnce_modulesIn hn _ templates).runIn_eq_fresh fun _ _ => rfl).1]
    obtain ⟨n, hfails⟩ := fails_of_repeated href hrepeated
    refine ⟨n, ?_⟩
    rw [resolveRest, Compile.result_fresh_bind_of_ok hmodules]
    exact Compile.result_fresh_bind_of_error hfails

/-! ### Modules for one template -/

open BuildPlan.Module (debug release)

/-- Two configurations, and modules with these bodies for a template with one project. -/
def withModules (bodies : List (String × List Element)) : Document :=
  ⟨.group ⟨"g", [("Debug", .empty), ("Release", .empty)]⟩ ::
    .object ⟨templateKind, "T", none⟩
      [.assignment ⟨.add, ["projects"], .pair "P" (.literal "S"), always⟩,
        .object ⟨settingsKind, "S", none⟩ []] ::
    bodies.map fun (name, body) => .object ⟨moduleKind, name, some "T"⟩ body⟩

/-- The document as it is written, in front of the modules. -/
def withModulesSource : String :=
  "configuration g [ Debug: Release: ]\ntemplate T \x7b add projects: P: S\n settings S \x7b \x7d \x7d\n"

/-- The body of the solution. -/
def bodyWith (bodies : List (String × List Element)) : Object :=
  ⟨⟨solutionKind, defaultName, none⟩, (withModules bodies).elements⟩

/-- Its resolved properties. -/
def resolvedWith (bodies : List (String × List Element)) : List (Configuration × Settings × Whitelist) :=
  ((compileSettings (.ofEnvironment []) (bodyWith bodies) [debug, release]).runIn .initial).1.toOption.getD
    []

/-- Its resolved templates. -/
def templatesWith (bodies : List (String × List Element)) : Dictionary String Template :=
  ((resolveTemplates [debug, release] .empty (bindingsIn (.ofEnvironment []) (bodyWith bodies)) .empty
    (templatesIn (bodyWith bodies))).runIn .initial).1.toOption.getD .empty

theorem comesToModules_withModules {bodies : List (String × List Element)}
    (hbody : bodyOf (withModules bodies) = .ok (bodyWith bodies))
    (hcs : declaredConfigurations (bodyWith bodies) [] = .ok [debug, release])
    (hsettings : ((compileSettings (.ofEnvironment []) (bodyWith bodies) [debug, release]).runIn
      .initial).1.isOk = true)
    (hkinds : checkKinds (bodyWith bodies) (Element.objects (bodyWith bodies).body) = .ok ())
    (htemplates : ((resolveTemplates [debug, release] .empty
      (bindingsIn (.ofEnvironment []) (bodyWith bodies)) .empty (templatesIn (bodyWith bodies))).runIn
        .initial).1.isOk = true) :
    ComesToModules (.ofEnvironment []) (withModules bodies) (bodyWith bodies) [debug, release]
      (resolvedWith bodies) (templatesWith bodies) where
  hasBody := hbody
  hasConfigurations := hcs
  settings := Fallible.eq_ok_getD hsettings []
  kinds := hkinds
  templates := Fallible.eq_ok_getD htemplates .empty

/-- The modules and source paths of the projects under each configuration. -/
def sources (s : Solution) : List (List (String × String × String)) :=
  s.configurations.map fun c =>
    (s.projects c).map fun p => (p.name, p.module, p.identity.sourcePath)

/-- A solution with one project under each of two configurations. -/
theorem exists_of_sources {o : Options} {d : Document} {a b : String × String × String}
    (h : ((resolve o default d).runIn .initial).1.toOption.any (sources · = [[a], [b]]) = true) :
    ∃ s c₁ c₂ p₁ p₂, ResolvesTo o default d s ∧ c₁ ∈ s.configurations ∧ c₂ ∈ s.configurations ∧
      p₁ ∈ s.projects c₁ ∧ p₂ ∈ s.projects c₂ ∧
      (p₁.name, p₁.module, p₁.identity.sourcePath) = a ∧
      (p₂.name, p₂.module, p₂.identity.sourcePath) = b := by
  obtain ⟨s, hs, h⟩ := exists_resolvesTo_with o default d (sources · = [[a], [b]]) h
  obtain ⟨c₁, _, hcs, h₁, h⟩ := List.map_eq_cons_iff.mp h
  obtain ⟨c₂, _, rfl, h₂, h⟩ := List.map_eq_cons_iff.mp h
  obtain ⟨p₁, _, hp₁, ha, -⟩ := List.map_eq_cons_iff.mp h₁
  obtain ⟨p₂, _, hp₂, hb, -⟩ := List.map_eq_cons_iff.mp h₂
  exact ⟨s, c₁, c₂, p₁, p₂, hs, by simp [hcs], by simp [hcs], by simp [hp₁], by simp [hp₂], ha, hb⟩

/-- Settings that declare another identifier under the second configuration. -/
def reidentified : List Element :=
  [.object ⟨settingsKind, "S", none⟩
    [.assignment ⟨.set, ["project", "guid"], .literal Module.other, "Release"⟩]]

/-- The module with these settings. -/
def moduleReidentified : Object := ⟨⟨moduleKind, "A", some "T"⟩, reidentified⟩

theorem parse_reidentified : Document.parse (withModulesSource ++
    "module A : T \x7b settings S \x7b if (Release) set project guid: \"" ++ Module.other ++
      "\" \x7d \x7d") = .ok (withModules [("A", reidentified)]) := by
  decide +kernel

theorem parse_twoModules : Document.parse (withModulesSource ++
    "module A : T \x7b \x7d\nmodule B : T \x7b \x7d") = .ok (withModules [("A", []), ("B", [])]) := by
  decide +kernel

/-- What the modules of the document have in common. -/
def contextWith (bodies : List (String × List Element)) : ModuleContext :=
  contextOf (.ofEnvironment []) default (bodyWith bodies) (resolvedWith bodies)

/-- The template of the modules. -/
def templateWith (bodies : List (String × List Element)) : Template :=
  ((templatesWith bodies).get? "T").getD ⟨"", .empty, .empty⟩

/-- The module is only compared, and its configurations disagree. -/
theorem compares_reidentified :
    Module.OnlyCompares (contextWith [("A", reidentified)]) moduleReidentified
        (templateWith [("A", reidentified)]) .initial ∧
      Module.Disagrees (contextWith [("A", reidentified)]) moduleReidentified
        (templateWith [("A", reidentified)]) .initial := by
  have hdebug : Module.DeclaresAlone (contextWith [("A", reidentified)]) moduleReidentified
      (templateWith [("A", reidentified)]) debug ⟨"P", generatedGuid "A" "P", "A"⟩ :=
    Module.declaresAlone_of (by decide +kernel)
  have hrelease : Module.DeclaresAlone (contextWith [("A", reidentified)]) moduleReidentified
      (templateWith [("A", reidentified)]) release
      ⟨"P", ⟨0x000000003d4a4b5c9e8f1a2b3c4d5e6f⟩, "A"⟩ :=
    Module.declaresAlone_of (by decide +kernel)
  exact ⟨Module.onlyCompares_of_declaresAlone
      (fun excludes folder => congrArg Logged.result (selectFiles_nil default excludes folder)) rfl
      (by decide +kernel) hdebug hrelease,
    Module.disagrees_of_declaresAlone (by decide) hdebug hrelease rfl (by decide +kernel)⟩

/-- The project of one module has one identity under two configurations. With another identifier under the
second one the document fails, and so it does with the name in two modules. -/
theorem one_identity_withModules :
    (∃ s c₁ c₂ p₁ p₂, ResolvesTo (.ofEnvironment []) default (withModules [("A", [])]) s ∧
      c₁ ∈ s.configurations ∧ c₂ ∈ s.configurations ∧ p₁ ∈ s.projects c₁ ∧ p₂ ∈ s.projects c₂ ∧
      p₁.identity = p₂.identity) ∧
    (∃ project field configuration,
      ((resolve (.ofEnvironment []) default (withModules [("A", reidentified)])).runIn .initial).1 =
        .error (Cause.inconsistentIdentity project field configuration).failure) ∧
    ∃ name, ((resolve (.ofEnvironment []) default (withModules [("A", []), ("B", [])])).runIn
      .initial).1 = .error (Cause.duplicate .project name).failure := by
  refine ⟨?_, ?_, ?_⟩
  · obtain ⟨s, c₁, c₂, p₁, p₂, hs, hc₁, hc₂, hp₁, hp₂, h₁, h₂⟩ :=
      exists_of_sources (o := .ofEnvironment []) (d := withModules [("A", [])])
        (a := ("P", "A", "A")) (b := ("P", "A", "A")) (by decide +kernel)
    have heq := h₁.trans h₂.symm
    simp only [Prod.mk.injEq] at heq
    exact ⟨s, c₁, c₂, p₁, p₂, hs, hc₁, hc₂, hp₁, hp₂,
      ((one_identity _ _ _).1 s hs c₁ hc₁ c₂ p₁ hp₁ p₂ hp₂ heq.1).1 heq.2.1⟩
  · have hcomes : ComesToModules (.ofEnvironment []) (withModules [("A", reidentified)]) _ _ _ _ :=
      comesToModules_withModules (by decide +kernel) (by decide +kernel) (by decide +kernel)
        (by decide +kernel) (by decide +kernel)
    have happlies : AppliesTo (templatesWith [("A", reidentified)]) moduleReidentified
        (templateWith [("A", reidentified)]) := ⟨"T", rfl, by decide +kernel⟩
    have hmodules : modulesIn (bodyWith [("A", reidentified)]) = [moduleReidentified] := by
      decide +kernel
    obtain ⟨hcompares, hdisagrees⟩ := compares_reidentified
    obtain ⟨hfails, -⟩ := (one_identity _ default _).2 _ _ _ _ _ parse_reidentified hcomes
    rw [hmodules] at hfails
    exact hfails ⟨List.nodup_singleton _, List.forall_mem_singleton.mpr ⟨_, happlies, hcompares⟩⟩
      ⟨_, List.mem_singleton_self _, _, happlies, hdisagrees⟩
  · have hcomes : ComesToModules (.ofEnvironment []) (withModules [("A", []), ("B", [])]) _ _ _ _ :=
      comesToModules_withModules (by decide +kernel) (by decide +kernel) (by decide +kernel)
        (by decide +kernel) (by decide +kernel)
    have hmodules : ((resolveModules (contextWith [("A", []), ("B", [])])
        (templatesWith [("A", []), ("B", [])]) .empty
        (modulesIn (bodyWith [("A", []), ("B", [])]))).runIn .initial).1.isOk = true := by
      decide +kernel
    have hinactive : ∀ c ∈ [debug, release],
        ¬ ((contextWith [("A", []), ("B", [])]).whitelists.get? c).any (·.isActive) = true := by
      decide +kernel
    exact ((one_identity _ default _).2 _ _ _ _ _ parse_twoModules hcomes).2 _
      (Fallible.eq_ok_getD hmodules .empty) (fun c hc ha => absurd ha (hinactive c hc))
      ⟨debug, List.mem_cons_self, by decide +kernel⟩

/-- **A name can move from one module to another between two configurations.** The project that is left out
of one module under the second configuration, and of another one under the first, is one of the first module
and then one of the second, with the source path of either. -/
theorem identity_moves : ∃ s c₁ c₂ p₁ p₂,
    ResolvesTo (.ofEnvironment []) default (withModules
        [("A", [.invocation ⟨"exclude", none, "Release"⟩]),
          ("B", [.invocation ⟨"exclude", none, "Debug"⟩])]) s ∧
      c₁ ∈ s.configurations ∧ c₂ ∈ s.configurations ∧ p₁ ∈ s.projects c₁ ∧ p₂ ∈ s.projects c₂ ∧
      p₁.name = p₂.name ∧ p₁.identity.sourcePath = "A" ∧ p₂.identity.sourcePath = "B" := by
  obtain ⟨s, c₁, c₂, p₁, p₂, hs, hc₁, hc₂, hp₁, hp₂, h₁, h₂⟩ :=
    exists_of_sources (o := .ofEnvironment []) (d := withModules
        [("A", [.invocation ⟨"exclude", none, "Release"⟩]),
          ("B", [.invocation ⟨"exclude", none, "Debug"⟩])])
      (a := ("P", "A", "A")) (b := ("P", "B", "B")) (by decide +kernel)
  simp only [Prod.mk.injEq] at h₁ h₂
  exact ⟨s, c₁, c₂, p₁, p₂, hs, hc₁, hc₂, hp₁, hp₂, h₁.1.trans h₂.1.symm, h₁.2.2, h₂.2.2⟩

end Solution

end BuildPlan
