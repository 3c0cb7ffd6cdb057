import BuildPlan.Proofs.Collection.Dictionary
import BuildPlan.Proofs.Settings.Runs
import BuildPlan.Proofs.Solution.Environment

/-! # The stages of a resolution

What each stage of a resolution has done if it gives something: for one project, for the projects
of a module under a configuration, for templates and modules under all configurations, and for the
solution. -/

namespace BuildPlan

open BuildPlan.Variable

/-! ### Projects -/

namespace Module

section Projects
variable {ctx : ModuleContext} {module : String} {c : Configuration} {b : Bindings}
  {settings : Dictionary String Settings} {known : Identities} {entry : String × String}

/-- A declared project is left out because its settings say so, or because it is not admitted. -/
theorem resolveProject_none :
    (resolveProject ctx module c b settings known entry).result = .ok none ↔
      ∃ d compiled expanded, Declaration.expand b entry = .ok d ∧
        settings.get? d.settings = some compiled ∧
        compiled.expand (b.bind projectName d.project) .complete = .ok expanded ∧
        (expanded.isExcluded || !ctx.allows c d.project) = true := by
  unfold resolveProject
  rw [Logged.result_bind_ok]
  constructor
  · rintro ⟨d, hd, h⟩
    dsimp only at h
    split at h
    · cases h
    · next compiled hc =>
      obtain ⟨expanded, he, h⟩ := Logged.result_bind_ok.mp h
      split at h
      · next hx => exact ⟨d, compiled, expanded, hd, hc, Fallible.within_ok.mp he, hx⟩
      · obtain ⟨current, -, h⟩ := Logged.result_bind_ok.mp h
        obtain ⟨met, -, h⟩ := Logged.result_bind_ok.mp h
        obtain ⟨files, -, h⟩ := Logged.result_bind_ok.mp h
        cases h
  · rintro ⟨d, compiled, expanded, hd, hc, he, hx⟩
    refine ⟨d, hd, ?_⟩
    dsimp only
    rw [hc]
    refine Logged.result_bind_ok.mpr ⟨expanded, Fallible.within_ok.mpr he, ?_⟩
    rw [if_pos hx]
    rfl

/-- A declared project that is there has the identity met, and the files found where the identity
says. -/
theorem resolveProject_some {p : Project} {known' : Identities} :
    (resolveProject ctx module c b settings known entry).result = .ok (some (p, known')) ↔
      ∃ d compiled expanded current identity files, Declaration.expand b entry = .ok d ∧
        settings.get? d.settings = some compiled ∧
        compiled.expand (b.bind projectName d.project) .complete = .ok expanded ∧
        (expanded.isExcluded || !ctx.allows c d.project) = false ∧
        Identity.ofSettings module d.project expanded = .ok current ∧
        Identities.meet known current c = .ok (identity, known') ∧
        (ctx.matcher (expanded.patterns PropertyName.includeFiles)
          (expanded.patterns PropertyName.excludeFiles)
          (Path.join ctx.searchRoot identity.sourcePath)).result = .ok files ∧
        p = ⟨identity, module, c, expanded, files, expanded.texts PropertyName.libRefs,
          expanded.texts PropertyName.projectRefs⟩ := by
  unfold resolveProject
  rw [Logged.result_bind_ok]
  constructor
  · rintro ⟨d, hd, h⟩
    dsimp only at h
    split at h
    · cases h
    · next compiled hc =>
      obtain ⟨expanded, he, h⟩ := Logged.result_bind_ok.mp h
      split at h
      · cases h
      · next hx =>
        obtain ⟨current, hcur, h⟩ := Logged.result_bind_ok.mp h
        obtain ⟨⟨identity, known₁⟩, hmet, h⟩ := Logged.result_bind_ok.mp h
        obtain ⟨files, hf, h⟩ := Logged.result_bind_ok.mp h
        cases h
        exact ⟨d, compiled, _, current, identity, files, hd, hc, Fallible.within_ok.mp he,
          Bool.eq_false_iff.mpr hx, Fallible.within_ok.mp hcur, hmet, Fallible.within_ok.mp hf, rfl⟩
  · rintro ⟨d, compiled, expanded, current, identity, files, hd, hc, he, hx, hcur, hmet, hf, rfl⟩
    refine ⟨d, hd, ?_⟩
    dsimp only
    rw [hc]
    refine Logged.result_bind_ok.mpr ⟨expanded, Fallible.within_ok.mpr he, ?_⟩
    rw [if_neg (by simp [hx])]
    refine Logged.result_bind_ok.mpr ⟨current, Fallible.within_ok.mpr hcur, ?_⟩
    refine Logged.result_bind_ok.mpr ⟨(identity, known'), hmet, ?_⟩
    exact Logged.result_bind_ok.mpr ⟨files, Fallible.within_ok.mpr hf, rfl⟩

/-- What a declaration adds goes to those behind it. -/
theorem resolveProjects_cons_ok {ps : Dictionary String Project} {entries : List (String × String)}
    {out : Identities × Dictionary String Project} :
    (resolveProjects ctx module c b settings known ps (entry :: entries)).result = .ok out ↔
      ((resolveProject ctx module c b settings known entry).result = .ok none ∧
        (resolveProjects ctx module c b settings known ps entries).result = .ok out) ∨
      ∃ p known', (resolveProject ctx module c b settings known entry).result =
          .ok (some (p, known')) ∧ ps.contains p.name = false ∧
        (resolveProjects ctx module c b settings known' (ps.insert p.name p) entries).result =
          .ok out := by
  rw [resolveProjects, Logged.result_bind_ok]
  constructor
  · rintro ⟨r, hr, h⟩
    cases r with
    | none => exact Or.inl ⟨hr, h⟩
    | some r =>
      dsimp only at h
      split at h
      · cases h
      · next hn => exact Or.inr ⟨r.1, r.2, hr, Bool.eq_false_iff.mpr hn, h⟩
  · rintro (⟨hr, h⟩ | ⟨p, known', hr, hn, h⟩)
    · exact ⟨none, hr, h⟩
    · refine ⟨some (p, known'), hr, ?_⟩
      dsimp only
      rw [if_neg (by simp [hn])]
      exact h

end Projects

/-! ### Modules -/

/-- The bindings of a module under a configuration. -/
def bindingsIn (ctx : ModuleContext) (object : Object) (template : Template) (c : Configuration) :
    Bindings :=
  ((c.bind ctx.bindings).bind templateName template.name).bind moduleName object.name

/-- Compiles the body of a module behind that of its template. -/
def compileRoot (ctx : ModuleContext) (object : Object) (template : Template) (c : Configuration)
    (variant : TemplateVariant) : Compile Settings :=
  Job.compile ⟨object, object.heading.display, .template, some c, some variant.root,
    bindingsIn ctx object template c⟩ ctx.external

/-- Compiles the settings objects of a module. -/
def compileOwn (ctx : ModuleContext) (object : Object) (children : List Object)
    (template : Template) (c : Configuration) (variant : TemplateVariant) :
    Compile (Dictionary String Settings) :=
  Compile.within (object.heading.display ++ " [" ++ c.display ++ "]")
    (Heir.compileAll variant.settings
      (fun child base => Job.compile ⟨child, object.heading.display, .settings, some c, base,
        bindingsIn ctx object template c⟩ ctx.external)
      (heirs template children))

section Variants
variable {ctx : ModuleContext} {object : Object} {children : List Object} {template : Template}
  {known known' : Identities} {c : Configuration} {variant : TemplateVariant} {s t : Session}

theorem resolveVariant_eq :
    resolveVariant ctx object children template known c variant =
      compileRoot ctx object template c variant >>= fun root =>
        if root.isExcluded then pure (known, .empty)
        else compileOwn ctx object children template c variant >>= fun own =>
          Compile.ofLogged (resolveProjects ctx object.name c (bindingsIn ctx object template c)
            (variant.settings.insertAll own.entries) known .empty root.projectDeclarations) :=
  rfl

/-- A module that is left out has no projects, and any other one those that are declared. -/
theorem runIn_resolveVariant_ok {ps : Dictionary String Project} :
    (resolveVariant ctx object children template known c variant).runIn s = (.ok (known', ps), t) ↔
      ∃ root u, (compileRoot ctx object template c variant).runIn s = (.ok root, u) ∧
        ((root.isExcluded = true ∧ known' = known ∧ ps = .empty ∧ t = u) ∨
          root.isExcluded = false ∧ ∃ own v,
            (compileOwn ctx object children template c variant).runIn u = (.ok own, v) ∧
            (resolveProjects ctx object.name c (bindingsIn ctx object template c)
              (variant.settings.insertAll own.entries) known .empty
              root.projectDeclarations).result = .ok (known', ps) ∧
            t = v.warn (resolveProjects ctx object.name c (bindingsIn ctx object template c)
              (variant.settings.insertAll own.entries) known .empty
              root.projectDeclarations).warnings) := by
  rw [resolveVariant_eq, Compile.runIn_bind_ok]
  refine exists_congr fun root => exists_congr fun u => and_congr_right fun _ => ?_
  cases hx : root.isExcluded with
  | true =>
    rw [if_pos rfl, Compile.runIn_pure_ok]
    simp only [Prod.mk.injEq, true_and, Bool.true_eq_false, false_and, or_false]
    constructor
    · rintro ⟨⟨rfl, rfl⟩, rfl⟩
      exact ⟨rfl, rfl, rfl⟩
    · rintro ⟨rfl, rfl, rfl⟩
      exact ⟨⟨rfl, rfl⟩, rfl⟩
  | false =>
    rw [if_neg (by simp), Compile.runIn_bind_ok]
    simp only [Bool.false_eq_true, false_and, true_and, false_or]
    refine exists_congr fun own => exists_congr fun v => and_congr_right fun _ => ?_
    rw [Compile.runIn_ofLogged, Prod.mk.injEq]
    exact and_congr_right fun _ => eq_comm

theorem runIn_resolveVariants_cons_ok {rest : List (Configuration × TemplateVariant)}
    {out : List (Configuration × Dictionary String Project)} :
    (resolveVariants ctx object children template known ((c, variant) :: rest)).runIn s =
        (.ok out, t) ↔
      ∃ known' ps more u, (resolveVariant ctx object children template known c variant).runIn s =
          (.ok (known', ps), u) ∧
        (resolveVariants ctx object children template known' rest).runIn u = (.ok more, t) ∧
        out = (c, ps) :: more := by
  rw [resolveVariants, Compile.runIn_bind_ok]
  constructor
  · rintro ⟨⟨known', ps⟩, u, hv, h⟩
    obtain ⟨more, v, hm, h⟩ := Compile.runIn_bind_ok.mp h
    cases h
    exact ⟨known', ps, more, u, hv, hm, rfl⟩
  · rintro ⟨known', ps, more, u, hv, hm, rfl⟩
    exact ⟨(known', ps), u, hv, Compile.runIn_bind_ok.mpr ⟨more, t, hm, rfl⟩⟩

theorem runIn_resolve_ok {m : Module} :
    (resolve ctx object template).runIn s = (.ok m, t) ↔
      ∃ children variants, object.settingsObjects = .ok children ∧
        (resolveVariants ctx object children template .empty template.variants.entries).runIn s =
          (.ok variants, t) ∧
        m = ⟨object.name, template.name, .ofList variants⟩ := by
  unfold resolve
  simp only [Compile.runIn_bind_ok, Compile.runIn_ofFallible_ok, Compile.runIn_pure_ok]
  constructor
  · rintro ⟨children, _, ⟨hc, rfl⟩, variants, _, hv, rfl, rfl⟩
    exact ⟨children, variants, hc, hv, rfl⟩
  · rintro ⟨children, variants, hc, hv, rfl⟩
    exact ⟨children, s, ⟨hc, rfl⟩, variants, t, hv, rfl, rfl⟩

end Variants

end Module

/-! ### Templates -/

namespace Template

/-- The bindings of a template under a configuration. -/
def bindingsIn (object : Object) (b : Bindings) (c : Configuration) : Bindings :=
  (c.bind b).bind templateName object.name

/-- Compiles the body of a template. -/
def compileRoot (object : Object) (external : NameSet) (b : Bindings) (c : Configuration) :
    Compile Settings :=
  Job.compile ⟨object, object.heading.display, .template, some c, none, bindingsIn object b c⟩
    external

/-- Compiles the settings objects of a template. -/
def compileSettings (object : Object) (children : List Object) (external : NameSet) (b : Bindings)
    (c : Configuration) : Compile (Dictionary String Settings) :=
  Compile.within (object.heading.display ++ " [" ++ c.display ++ "]")
    (Heir.compileAll .empty
      (fun child base => Job.compile ⟨child, object.heading.display, .settings, some c, base,
        bindingsIn object b c⟩ external)
      (children.map fun child => ⟨child, child.base⟩))

section Variants
variable {object : Object} {children : List Object} {external : NameSet} {b : Bindings}
  {configurations : List Configuration} {c : Configuration} {s t : Session}

theorem resolveVariant_eq :
    resolveVariant object children external b c =
      compileRoot object external b c >>= fun root =>
        if root.projectDeclarations.isEmpty && !root.isExcluded then
          throw (Cause.missingProjectDeclarations object.name).failure
        else compileSettings object children external b c >>= fun settings =>
          pure ⟨root, root.projectDeclarations, settings⟩ := by
  unfold resolveVariant
  refine bind_congr fun root => ?_
  dsimp only
  split <;> rfl

theorem runIn_resolve_ok {m : Template} :
    (resolve object configurations external b).runIn s = (.ok m, t) ↔
      ∃ children variants, object.settingsObjects = .ok children ∧
        (configurations.mapM fun c => do
            return (c, ← resolveVariant object children external b c)).runIn s =
          (.ok variants, t) ∧
        m = ⟨object.name, .ofList (children.map fun child => (child.name, child.base)),
          .ofList variants⟩ := by
  unfold resolve
  simp only [Compile.runIn_bind_ok, Compile.runIn_ofFallible_ok, Compile.runIn_pure_ok]
  constructor
  · rintro ⟨children, _, ⟨hc, rfl⟩, variants, _, hv, rfl, rfl⟩
    exact ⟨children, variants, hc, hv, rfl⟩
  · rintro ⟨children, variants, hc, hv, rfl⟩
    exact ⟨children, s, ⟨hc, rfl⟩, variants, t, hv, rfl, rfl⟩

/-- A template is resolved for the configurations that it is asked for. -/
theorem mem_of_runIn_resolve {m : Template}
    (h : (resolve object configurations external b).runIn s = (.ok m, t)) :
    ∀ e ∈ m.variants.entries, e.1 ∈ configurations := by
  obtain ⟨_, variants, -, hv, rfl⟩ := runIn_resolve_ok.mp h
  intro e he
  have hk : e.1 ∈ (Dictionary.ofList variants).keys := List.mem_map_of_mem he
  rwa [Dictionary.mem_keys_ofList, Compile.keys_of_runIn_mapM hv] at hk

end Variants

end Template

/-! ### The solution -/

namespace Solution

theorem runIn_resolveTemplates_cons_ok {configurations : List Configuration} {external : NameSet}
    {b : Bindings} {templates out : Dictionary String Template} {o : Object} {os : List Object}
    {s t : Session} :
    (resolveTemplates configurations external b templates (o :: os)).runIn s = (.ok out, t) ↔
      templates.contains o.name = false ∧
        ∃ template u, (Template.resolve o configurations external b).runIn s = (.ok template, u) ∧
          (resolveTemplates configurations external b (templates.insert o.name template) os).runIn
            u = (.ok out, t) := by
  rw [resolveTemplates]
  split
  · next hc => simp [hc]
  · next hc => rw [Compile.runIn_bind_ok, and_iff_right (Bool.eq_false_iff.mpr hc)]

theorem runIn_resolveModules_cons_ok {ctx : ModuleContext} {templates : Dictionary String Template}
    {modules out : Dictionary String Module} {o : Object} {os : List Object} {s t : Session} :
    (resolveModules ctx templates modules (o :: os)).runIn s = (.ok out, t) ↔
      modules.contains o.name = false ∧
        ∃ name template module u, o.base = some name ∧ templates.get? name = some template ∧
          (Module.resolve ctx o template).runIn s = (.ok module, u) ∧
          (resolveModules ctx templates (modules.insert o.name module) os).runIn u =
            (.ok out, t) := by
  rw [resolveModules]
  split
  · next hc => simp [hc]
  · next hc =>
    rw [and_iff_right (Bool.eq_false_iff.mpr hc)]
    constructor
    · intro h
      split at h
      · cases h
      · next name hb =>
        split at h
        · cases h
        · next template ht =>
          obtain ⟨module, u, hm, h⟩ := Compile.runIn_bind_ok.mp h
          exact ⟨name, template, module, u, hb, ht, hm, h⟩
    · rintro ⟨name, template, module, u, hb, ht, hm, h⟩
      rw [hb]
      dsimp only
      rw [ht]
      exact Compile.runIn_bind_ok.mpr ⟨module, u, hm, h⟩

/-- A solution object that is found was found before, or it is one of the elements and builds on
nothing. -/
theorem wrapper?_eq_some : ∀ {es : List Element} {found : Option Object} {o : Object},
    wrapper? found es = .ok (some o) →
      found = some o ∨ .object o.heading o.body ∈ es ∧ o.kind = solutionKind ∧ o.base = none
  | [], _, _, h => by
    cases h
    exact Or.inl rfl
  | e :: es, found, o, h => by
    have hrest : wrapper? found es = .ok (some o) →
        found = some o ∨ .object o.heading o.body ∈ e :: es ∧ o.kind = solutionKind ∧ o.base = none :=
      fun h => (wrapper?_eq_some h).imp_right fun ⟨hm, hother⟩ => ⟨List.mem_cons_of_mem e hm, hother⟩
    cases e with
    | object heading body =>
      rw [wrapper?] at h
      split at h
      · next hkind =>
        split at h
        · cases h
        · split at h
          · cases h
          · next hbase =>
            rcases wrapper?_eq_some h with ho | ⟨hm, hother⟩
            · cases ho
              exact Or.inr ⟨List.mem_cons_self, hkind, hbase⟩
            · exact Or.inr ⟨List.mem_cons_of_mem _ hm, hother⟩
      · exact hrest h
    | comment | group | assignment | invocation | block => exact hrest h

/-- The body of a solution is that of a solution, and builds on nothing. -/
theorem heading_of_bodyOf {d : Document} {body : Object} (h : bodyOf d = .ok body) :
    body.kind = solutionKind ∧ body.base = none := by
  obtain ⟨found, hw, h⟩ := Fallible.bind_ok.mp h
  cases found with
  | none =>
    cases h
    exact ⟨rfl, rfl⟩
  | some o =>
    cases h
    exact ((wrapper?_eq_some hw).resolve_left nofun).2

/-- The bindings of a solution. -/
def bindingsIn (o : Options) (body : Object) : Bindings :=
  (Bindings.ofList o.environment).bind solutionName body.name

/-- Compiles the properties of a solution for configurations. -/
def compileSettings (o : Options) (body : Object) (cs : List Configuration) :
    Compile (List (Configuration × Settings × Whitelist)) :=
  cs.mapM fun c => do return (c, ← resolveSettings body o.constants (bindingsIn o body) c)

/-- What the modules of a solution have in common. -/
def contextOf (o : Options) (fs : FileSystem) (body : Object)
    (resolved : List (Configuration × Settings × Whitelist)) : ModuleContext :=
  ⟨o.constants, o.matcher fs, o.searchRoot.getD ".", bindingsIn o body,
    .ofList (resolved.map fun (c, _, w) => (c, w))⟩

/-- The templates that a body declares. -/
def templatesIn (body : Object) : List Object :=
  (Element.objects body.body).filter (·.kind = templateKind)

/-- The modules that a body declares. -/
def modulesIn (body : Object) : List Object :=
  (Element.objects body.body).filter (·.kind = moduleKind)

/-- The solution of what was resolved. -/
def assemble (body : Object) (cs : List Configuration)
    (resolved : List (Configuration × Settings × Whitelist))
    (templates : Dictionary String Template) (modules : Dictionary String Module) : Solution :=
  ⟨body.name, cs, .ofList (resolved.map fun (c, s, _) => (c, s)), templates, modules⟩

/-- Resolves the body of a solution for configurations. -/
def resolveBody (o : Options) (fs : FileSystem) (body : Object) (cs : List Configuration) :
    Compile Solution := do
  let resolved ← compileSettings o body cs
  Compile.ofFallible (checkKinds body (Element.objects body.body))
  let templates ← resolveTemplates cs o.constants (bindingsIn o body) .empty (templatesIn body)
  let ctx := contextOf o fs body resolved
  let modules ← resolveModules ctx templates .empty (modulesIn body)
  let solution := assemble body cs resolved templates modules
  cs.forM fun c => Compile.ofFallible (checkProjects solution ctx.whitelists c)
  return solution

theorem resolve_eq (o : Options) (fs : FileSystem) (d : Document) :
    resolve o fs d = Compile.ofFallible (bodyOf d) >>= fun body =>
      Compile.ofFallible (declaredConfigurations body o.groups) >>= resolveBody o fs body :=
  rfl

section Body
variable {o : Options} {fs : FileSystem} {body : Object} {cs : List Configuration} {s t : Session}

theorem runIn_forM_ofFallible_ok {α : Type} {f : α → Fallible Unit} : ∀ {as : List α}
    {s t : Session} {u : Unit}, (as.forM fun a => Compile.ofFallible (f a)).runIn s = (.ok u, t) ↔
      (∀ a ∈ as, f a = .ok ()) ∧ s = t
  | [], s, t, _ => by simp [List.forM]
  | a :: as, s, t, _ => by
    show (Compile.ofFallible (f a) >>= fun _ =>
      as.forM fun a => Compile.ofFallible (f a)).runIn s = _ ↔ _
    rw [Compile.runIn_bind_ok]
    simp only [Compile.runIn_ofFallible_ok, List.forall_mem_cons]
    constructor
    · rintro ⟨_, u, ⟨hf, rfl⟩, h⟩
      obtain ⟨has, rfl⟩ := runIn_forM_ofFallible_ok.mp h
      exact ⟨⟨hf, has⟩, rfl⟩
    · rintro ⟨⟨hf, has⟩, rfl⟩
      exact ⟨(), s, ⟨hf, rfl⟩, runIn_forM_ofFallible_ok.mpr ⟨has, rfl⟩⟩

/-- A solution is there if its properties, templates and modules are, and no check fails. -/
theorem runIn_resolveBody_ok {solution : Solution} :
    (resolveBody o fs body cs).runIn s = (.ok solution, t) ↔
      ∃ resolved templates modules u v, (compileSettings o body cs).runIn s = (.ok resolved, u) ∧
        checkKinds body (Element.objects body.body) = .ok () ∧
        (resolveTemplates cs o.constants (bindingsIn o body) .empty (templatesIn body)).runIn u =
          (.ok templates, v) ∧
        (resolveModules (contextOf o fs body resolved) templates .empty (modulesIn body)).runIn v =
          (.ok modules, t) ∧
        solution = assemble body cs resolved templates modules ∧
        ∀ c ∈ cs, checkProjects solution (contextOf o fs body resolved).whitelists c = .ok () := by
  unfold resolveBody
  simp only [Compile.runIn_bind_ok, Compile.runIn_ofFallible_ok, Compile.runIn_pure_ok,
    runIn_forM_ofFallible_ok]
  constructor
  · rintro ⟨resolved, u, hs, _, _, ⟨hk, rfl⟩, templates, v, ht, modules, w, hm, _, _, ⟨hc, rfl⟩, rfl,
      rfl⟩
    exact ⟨resolved, templates, modules, u, v, hs, hk, ht, hm, rfl, hc⟩
  · rintro ⟨resolved, templates, modules, u, v, hs, hk, ht, hm, rfl, hc⟩
    exact ⟨resolved, u, hs, (), u, ⟨hk, rfl⟩, templates, v, ht, modules, t, hm, (), t, ⟨hc, rfl⟩,
      rfl, rfl⟩

theorem runIn_resolve_ok {d : Document} {solution : Solution} :
    (resolve o fs d).runIn s = (.ok solution, t) ↔
      ∃ body cs, bodyOf d = .ok body ∧ declaredConfigurations body o.groups = .ok cs ∧
        (resolveBody o fs body cs).runIn s = (.ok solution, t) := by
  rw [resolve_eq]
  simp only [Compile.runIn_bind_ok, Compile.runIn_ofFallible_ok]
  constructor
  · rintro ⟨body, _, ⟨hb, rfl⟩, cs, _, ⟨hc, rfl⟩, h⟩
    exact ⟨body, cs, hb, hc, h⟩
  · rintro ⟨body, cs, hb, hc, h⟩
    exact ⟨body, s, ⟨hb, rfl⟩, cs, s, ⟨hc, rfl⟩, h⟩

end Body

/-- A run that gives something gives a solution, and one with the property that was checked. -/
theorem exists_resolvesTo_with (o : Options) (fs : FileSystem) (d : Document) (P : Solution → Prop)
    [DecidablePred P] (h : ((resolve o fs d).runIn .initial).1.toOption.any (P ·) = true) :
    ∃ s, ResolvesTo o fs d s ∧ P s := by
  unfold ResolvesTo
  cases hr : ((resolve o fs d).runIn .initial).1 with
  | error e =>
    rw [hr] at h
    cases h
  | ok s =>
    rw [hr] at h
    exact ⟨s, rfl, of_decide_eq_true h⟩

end Solution

end BuildPlan
