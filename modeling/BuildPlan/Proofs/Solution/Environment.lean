import BuildPlan.Solution

/-! # The environment under the built-in names

The environment is bound before the names that the stages of a resolution bind themselves. A stage
that binds a name hides what the environment says about it, but the names of the template, module
and project are bound by later stages only, and what an earlier stage puts in for them stays. So the
environment counts for nothing exactly if it binds none of these three
(`environment_hidden_iff`). -/

namespace BuildPlan

open BuildPlan.Variable

/-- The names that the stages of a resolution bind themselves. -/
def Variable.builtIn : List String :=
  [solutionName, configuration, configurationGroup, templateName, moduleName, projectName]

/-- The built-in names that only later stages bind than the one that resolves the solution. -/
def Variable.lateBound : List String := [templateName, moduleName, projectName]

namespace Bindings

theorem get?_bindAll_eq_of_filter {p : String × String → Bool} {n : String} :
    ∀ (pairs : List (String × String)) (b c : Bindings), (∀ v, (n, v) ∈ pairs → p (n, v) = true) →
      b.get? n = c.get? n → (b.bindAll pairs).get? n = (c.bindAll (pairs.filter p)).get? n
  | [], _, _, _, he => he
  | (m, v) :: pairs, b, c, hp, he => by
    have hp' : ∀ w, (n, w) ∈ pairs → p (n, w) = true := fun w hw => hp w (List.mem_cons_of_mem _ hw)
    have ih : ∀ c' : Bindings, (b.bind m v).get? n = c'.get? n → _ :=
      fun c' => get?_bindAll_eq_of_filter pairs (b.bind m v) c' hp'
    by_cases hpv : p (m, v) = true
    · rw [List.filter_cons_of_pos hpv]
      exact ih (c.bind m v) (by rw [get?_bind, get?_bind, he])
    · rw [List.filter_cons_of_neg hpv]
      have hne : n ≠ m := by
        rintro rfl
        exact hpv (hp v (by simp))
      exact ih c (by rw [get?_bind, if_neg hne, he])

end Bindings

namespace Solution

/-- The options without the built-in names in the environment. -/
def Options.unseeded (o : Options) : Options :=
  { o with environment := o.environment.filter fun p => !builtIn.contains p.1 }

/-- A resolution in which nothing was kept before. -/
def ResolvesTo (o : Options) (fs : FileSystem) (d : Document) (s : Solution) : Prop :=
  ((resolve o fs d).runIn .initial).1 = .ok s

/-- What the environment says about built-in names does not count: a document that resolves without
it resolves to the same settings and the same projects with it. -/
def Hidden (o : Options) (fs : FileSystem) (d : Document) : Prop :=
  ∀ s, ResolvesTo o.unseeded fs d s →
    ∃ t, ResolvesTo o fs d t ∧ t.settings = s.settings ∧ t.modules = s.modules

/-! ### Bindings that become the same -/

/-- The projects do not depend on what is bound for the solution, once the module has its own. -/
theorem resolveProjects_congr (b b' : Bindings) (external : NameSet) (matcher : PatternMatcher) (root : String)
    (whitelists : Dictionary Configuration Whitelist) (module : String) (c : Configuration)
    (own : Bindings) (settings : Dictionary String Settings) :
    ∀ (entries : List (String × String)) (known : Identities) (ps : Dictionary String Project),
      Module.resolveProjects ⟨external, matcher, root, b, whitelists⟩ module c own settings known ps
          entries =
        Module.resolveProjects ⟨external, matcher, root, b', whitelists⟩ module c own settings known ps
          entries
  | [], _, _ => rfl
  | entry :: entries, known, ps => by
    unfold Module.resolveProjects
    simp only [resolveProjects_congr b b' external matcher root whitelists module c own settings
      entries]
    rfl

section Same
variable {b b' : Bindings} (hb : ∀ c : Configuration, c.bind b = c.bind b')
include hb

theorem resolveSettings_congr (body : Object) (external : NameSet) (c : Configuration) :
    resolveSettings body external b c = resolveSettings body external b' c := by
  unfold resolveSettings
  rw [hb]

theorem templateResolve_congr (object : Object) (configurations : List Configuration)
    (external : NameSet) :
    Template.resolve object configurations external b =
      Template.resolve object configurations external b' := by
  unfold Template.resolve Template.resolveVariant
  simp only [hb]

theorem resolveTemplates_congr (configurations : List Configuration) (external : NameSet) :
    ∀ (os : List Object) (templates : Dictionary String Template),
      resolveTemplates configurations external b templates os =
        resolveTemplates configurations external b' templates os
  | [], _ => rfl
  | o :: os, templates => by
    unfold resolveTemplates
    simp only [templateResolve_congr hb, resolveTemplates_congr configurations external os]

theorem resolveVariants_congr (external : NameSet) (matcher : PatternMatcher) (root : String)
    (whitelists : Dictionary Configuration Whitelist) (object : Object) (children : List Object)
    (template : Template) :
    ∀ (vs : List (Configuration × TemplateVariant)) (known : Identities),
      Module.resolveVariants ⟨external, matcher, root, b, whitelists⟩ object children template known
          vs =
        Module.resolveVariants ⟨external, matcher, root, b', whitelists⟩ object children template known
          vs
  | [], _ => rfl
  | (c, variant) :: vs, known => by
    unfold Module.resolveVariants Module.resolveVariant
    simp only [hb, resolveProjects_congr b b' external matcher root whitelists,
      resolveVariants_congr external matcher root whitelists object children template vs]

theorem resolveModules_congr (external : NameSet) (matcher : PatternMatcher) (root : String)
    (whitelists : Dictionary Configuration Whitelist) (templates : Dictionary String Template) :
    ∀ (os : List Object) (modules : Dictionary String Module),
      resolveModules ⟨external, matcher, root, b, whitelists⟩ templates modules os =
        resolveModules ⟨external, matcher, root, b', whitelists⟩ templates modules os
  | [], _ => rfl
  | o :: os, modules => by
    unfold resolveModules Module.resolve
    simp only [resolveVariants_congr hb external matcher root whitelists,
      resolveModules_congr external matcher root whitelists templates os]

end Same

theorem bind_ofList_unseeded {o : Options} (hl : ∀ n ∈ lateBound, n ∉ o.environment.map Prod.fst)
    (name : String) (c : Configuration) :
    c.bind ((Bindings.ofList o.unseeded.environment).bind solutionName name) =
      c.bind ((Bindings.ofList o.environment).bind solutionName name) := by
  refine congrArg Bindings.mk (funext fun n => ?_)
  by_cases hn : n ∈ builtIn ∧ n ∉ lateBound
  · have hn' : n = solutionName ∨ n = configuration ∨ n = configurationGroup := by
      simp only [builtIn, lateBound, List.mem_cons, List.not_mem_nil, or_false, not_or] at hn
      grind
    rcases hn' with rfl | rfl | rfl <;> rfl
  · have he : (Bindings.ofList o.environment).get? n =
        (Bindings.ofList o.unseeded.environment).get? n := by
      refine Bindings.get?_bindAll_eq_of_filter _ .empty .empty (fun v hv => ?_) rfl
      rw [Bool.not_eq_true', List.contains_eq_mem, decide_eq_false_iff_not]
      exact fun hb => hn ⟨hb, fun hl' => hl n hl' (List.mem_map_of_mem hv)⟩
    simp only [Bindings.get?_bind, he]

/-- If the environment binds no name that is bound late, the resolution does not depend on what it
says about the built-in names. -/
theorem resolve_unseeded {o : Options} (hl : ∀ n ∈ lateBound, n ∉ o.environment.map Prod.fst)
    (fs : FileSystem) (d : Document) : resolve o.unseeded fs d = resolve o fs d := by
  have hb := bind_ofList_unseeded hl
  unfold resolve
  simp only [resolveSettings_congr (hb _), resolveTemplates_congr (hb _),
    resolveModules_congr (hb _)]
  rfl

/-! ### Names that are bound late -/

/-- The output paths of a solution, and the source paths of its projects. -/
def paths (s : Solution) : List (Option String) :=
  s.settings.values.map (·.text? PropertyName.outputPath) ++
    s.modules.values.flatMap fun m => m.variants.values.flatMap fun ps =>
      ps.values.map (·.settings.text? PropertyName.sourcePath)

/-- The paths of the resolved solution. -/
def resolvedPaths? (o : Options) (fs : FileSystem) (d : Document) : Option (List (Option String)) :=
  ((resolve o fs d).runIn .initial).1.toOption.map paths

theorem not_hidden {o : Options} {fs : FileSystem} {d : Document} {r : List (Option String)}
    {q : Option (List (Option String))}
    (h : resolvedPaths? o.unseeded fs d = some r ∧ resolvedPaths? o fs d = q)
    (hne : q ≠ some r) : ¬ Hidden o fs d := by
  intro hh
  obtain ⟨h, hq⟩ := h
  unfold resolvedPaths? at h hq
  cases hs : ((resolve o.unseeded fs d).runIn .initial).1 with
  | error f =>
    rw [hs] at h
    cases h
  | ok s =>
    obtain ⟨t, ht, hset, hmod⟩ := hh s hs
    rw [ResolvesTo] at ht
    rw [hs, Except.toOption, Option.map_some] at h
    rw [ht, Except.toOption, Option.map_some, paths, hset, hmod] at hq
    exact hne (hq.symm.trans (congrArg some (Option.some.inj h)))

/-- The options with nothing but an environment. -/
def Options.ofEnvironment (env : List (String × String)) : Options := ⟨env, .empty, [], none, selectFiles⟩

/-- A solution with a project, which has this source path if there is one. -/
def withSource (path : Option String) : Document :=
  ⟨[.group ⟨"g", [("Debug", .empty)]⟩,
    .object ⟨templateKind, "T", none⟩
      [.assignment ⟨.add, ["projects"], .pair "P" (.literal "S"), always⟩,
        .object ⟨settingsKind, "S", none⟩
          (path.toList.map fun p => .assignment ⟨.set, ["source", "path"], .literal p, always⟩)],
    .object ⟨moduleKind, "Core", some "T"⟩ []]⟩

/-- A solution with an output path and nothing else. -/
def withOutput (path : String) : Document :=
  ⟨[.group ⟨"g", [("Debug", .empty)]⟩,
    .assignment ⟨.set, ["output", "path"], .literal path, always⟩]⟩

/-- The name of the module, put in for the template. -/
theorem resolvedPaths?_moduleName :
    resolvedPaths? (Options.ofEnvironment [(moduleName, "Other")]).unseeded default
        (withSource none) = some [some ".", some "Core"] ∧
      resolvedPaths? (.ofEnvironment [(moduleName, "Other")]) default
        (withSource none) = some [some ".", some "Other"] := by
  decide +kernel

/-- The name of the project, put in for the template. -/
theorem resolvedPaths?_projectName :
    resolvedPaths? (Options.ofEnvironment [(projectName, "Other")]).unseeded default
        (withSource (some "$(PROJECT_NAME)")) = some [some ".", some "P"] ∧
      resolvedPaths? (.ofEnvironment [(projectName, "Other")]) default
        (withSource (some "$(PROJECT_NAME)")) = some [some ".", some "Other"] := by
  decide +kernel

/-- The name of the template, put in for the solution behind an open reference. -/
theorem resolvedPaths?_templateName :
    resolvedPaths? (Options.ofEnvironment [("A", "$("), (templateName, "T")]).unseeded default
        (withOutput "$(A)$(TEMPLATE_NAME)") = some [some "$($(TEMPLATE_NAME)"] ∧
      resolvedPaths? (.ofEnvironment [("A", "$("), (templateName, "T")]) default
        (withOutput "$(A)$(TEMPLATE_NAME)") = none := by
  decide +kernel

/-- **The environment is hidden by the built-in names exactly if it binds none that is bound
late**: for these built-in names in the environment, and whatever else is there, no document tells
whether the environment says something about them. -/
theorem environment_hidden_iff (names : List String) :
    (∀ o fs d, (∀ n ∈ builtIn, n ∈ o.environment.map Prod.fst → n ∈ names) → Hidden o fs d) ↔
      ∀ n ∈ lateBound, n ∉ names := by
  constructor
  · intro h n hn hmem
    simp only [lateBound, List.mem_cons, List.not_mem_nil, or_false] at hn
    rcases hn with rfl | rfl | rfl
    · refine not_hidden resolvedPaths?_templateName (by decide) (h _ _ _ fun n hb hm => ?_)
      have hne : n ≠ "A" := fun he => absurd (he ▸ hb) (by decide)
      grind [Options.ofEnvironment]
    · refine not_hidden resolvedPaths?_moduleName (by decide) (h _ _ _ fun n _ hm => ?_)
      rwa [List.mem_singleton.mp hm]
    · refine not_hidden resolvedPaths?_projectName (by decide) (h _ _ _ fun n _ hm => ?_)
      rwa [List.mem_singleton.mp hm]
  · intro h o fs d hn s hs
    have hl : ∀ n ∈ lateBound, n ∉ o.environment.map Prod.fst := by
      intro n hl hm
      refine h n hl (hn n ?_ hm)
      exact List.mem_of_mem_drop (i := 3) hl
    rw [ResolvesTo, resolve_unseeded hl] at hs
    exact ⟨s, hs, rfl, rfl⟩

/-- The name that the environment gives to every module takes the place of the module's own. -/
theorem moduleName_shown :
    ¬ Hidden (.ofEnvironment [(moduleName, "Other")]) default (withSource none) :=
  not_hidden resolvedPaths?_moduleName (by decide)

end Solution

end BuildPlan
