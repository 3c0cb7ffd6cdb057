import BuildPlan.Proofs.Solution.Admission

/-! # Resolved solutions are coherent

A resolution fails early wherever two parts of a solution would not fit each other. What it gives is
coherent as a whole: the properties, the templates and the modules are there for the same
configurations, every project stands where its fields say, and under each configuration the projects
have distinct names, are all admitted and reference one another alone if the names are restricted
(`coherent_of_resolvesTo`). -/

namespace BuildPlan

open BuildPlan.Variable

namespace Module

/-! ### Projects in their places -/

/-- A project stands under its name, module and configuration, is not left out and is admitted. -/
structure Stands (ctx : ModuleContext) (module : String) (c : Configuration) (e : String × Project) :
    Prop where
  name : e.2.name = e.1
  module : e.2.module = module
  configuration : e.2.configuration = c
  included : e.2.settings.isExcluded = false
  allowed : ctx.allows c e.1 = true

section Projects
variable {ctx : ModuleContext} {module : String} {c : Configuration} {b : Bindings}
  {settings : Dictionary String Settings} {known known' : Identities}

theorem stands_of_resolveProject {entry : String × String} {p : Project} (hk : known.Named)
    (h : (resolveProject ctx module c b settings known entry).result = .ok (some (p, known'))) :
    Stands ctx module c (p.name, p) := by
  obtain ⟨d, _, expanded, current, i, _, -, -, -, hx, hcur, hmet, -, rfl⟩ := resolveProject_some.mp h
  have hproject : i.name = d.project :=
    (Identities.meet_ok hk hmet).1.trans (Identity.of_ofSettings hcur).1
  obtain ⟨hincluded, hallowed⟩ := Bool.or_eq_false_iff.mp hx
  refine ⟨rfl, rfl, rfl, hincluded, ?_⟩
  show ctx.allows c i.name = true
  rw [hproject]
  simpa using hallowed

theorem stands_of_runIn_resolveVariant {object : Object} {children : List Object}
    {template : Template} {variant : TemplateVariant} {ps : Dictionary String Project} {s t : Session}
    (hk : known.Named)
    (h : (resolveVariant ctx object children template known c variant).runIn s =
      (.ok (known', ps), t)) :
    (∀ e ∈ ps.entries, Stands ctx object.name c e) ∧ known'.Named := by
  obtain ⟨root, u, -, ⟨-, rfl, rfl, -⟩ | ⟨-, own, v, -, hps, -⟩⟩ := runIn_resolveVariant_ok.mp h
  · exact ⟨List.forall_mem_nil _, hk⟩
  · exact forall_of_resolveProjects stands_of_resolveProject hk (List.forall_mem_nil _) hps

theorem stands_of_runIn_resolveVariants {object : Object} {children : List Object}
    {template : Template} : ∀ {vs : List (Configuration × TemplateVariant)} {known : Identities}
      {out : List (Configuration × Dictionary String Project)} {s t : Session}, known.Named →
        (resolveVariants ctx object children template known vs).runIn s = (.ok out, t) →
          ∀ v ∈ out, ∀ e ∈ v.2.entries, Stands ctx object.name v.1 e
  | [], _, _, _, _, _, h => by
    cases h
    exact List.forall_mem_nil _
  | (c, variant) :: vs, _, _, _, _, hk, h => by
    obtain ⟨known₁, ps, more, u, hv, hmore, rfl⟩ := runIn_resolveVariants_cons_ok.mp h
    obtain ⟨hstands, hnamed⟩ := stands_of_runIn_resolveVariant hk hv
    exact List.forall_mem_cons.mpr ⟨hstands, stands_of_runIn_resolveVariants hnamed hmore⟩

end Projects

/-- The module has an entry for each of the configurations, in order, with its projects in their
places. -/
structure Placed (ctx : ModuleContext) (cs : List Configuration) (key : String) (m : Module) :
    Prop where
  name : m.name = key
  configurations : m.variants.keys = cs
  stands : ∀ v ∈ m.variants.entries, ∀ e ∈ v.2.entries, Stands ctx key v.1 e

theorem placed_of_runIn_resolve {ctx : ModuleContext} {object : Object} {template : Template}
    {m : Module} {s t : Session} (h : (resolve ctx object template).runIn s = (.ok m, t)) :
    m.Placed ctx template.variants.keys object.name := by
  obtain ⟨children, variants, -, hv, rfl⟩ := runIn_resolve_ok.mp h
  have hkeys : variants.map Prod.fst = template.variants.keys := keys_of_runIn_resolveVariants hv
  refine ⟨rfl, ?_, fun v hmem => ?_⟩
  · have hd : (variants.map Prod.fst).Nodup := hkeys ▸ template.variants.distinct
    rw [Dictionary.keys, Dictionary.entries_ofList hd, hkeys]
  · exact stands_of_runIn_resolveVariants Identities.named_empty hv v
      (Dictionary.mem_of_mem_entries_ofList hmem)

end Module

/-! ### Templates -/

/-- The template has an entry for each of the configurations, in order. -/
structure Template.Placed (cs : List Configuration) (key : String) (m : Template) : Prop where
  name : m.name = key
  configurations : m.variants.keys = cs

theorem Template.placed_of_runIn_resolve {object : Object} {cs : List Configuration}
    {external : NameSet} {b : Bindings} {m : Template} {s t : Session} (hcs : cs.Nodup)
    (h : (resolve object cs external b).runIn s = (.ok m, t)) : m.Placed cs object.name := by
  obtain ⟨_, variants, -, hv, rfl⟩ := runIn_resolve_ok.mp h
  have hkeys : variants.map Prod.fst = cs := Compile.keys_of_runIn_mapM hv
  exact ⟨rfl, by rw [Dictionary.keys, Dictionary.entries_ofList (hkeys ▸ hcs), hkeys]⟩

namespace Solution

/-- All templates that are resolved for configurations have entries for them. -/
theorem placed_of_runIn_resolveTemplates {cs : List Configuration} {external : NameSet}
    {b : Bindings} (hcs : cs.Nodup) : ∀ {os : List Object} {templates out : Dictionary String Template}
      {s t : Session}, (∀ e ∈ templates.entries, e.2.Placed cs e.1) →
        (resolveTemplates cs external b templates os).runIn s = (.ok out, t) →
          ∀ e ∈ out.entries, e.2.Placed cs e.1
  | [], _, _, _, _, hm, h => by
    cases h
    exact hm
  | o :: os, templates, out, s, t, hm, h => by
    obtain ⟨-, template, _, hres, h⟩ := runIn_resolveTemplates_cons_ok.mp h
    refine placed_of_runIn_resolveTemplates hcs (fun e he => ?_) h
    rcases Dictionary.mem_put he with rfl | he
    · exact Template.placed_of_runIn_resolve hcs hres
    · exact hm e he

/-- All modules have entries for the configurations of their templates. -/
theorem placed_of_runIn_resolveModules {ctx : ModuleContext} {cs : List Configuration}
    {templates : Dictionary String Template} (ht : ∀ e ∈ templates.entries, e.2.Placed cs e.1) :
    ∀ {os : List Object} {modules out : Dictionary String Module} {s t : Session},
      (∀ e ∈ modules.entries, e.2.Placed ctx cs e.1) →
        (resolveModules ctx templates modules os).runIn s = (.ok out, t) →
          ∀ e ∈ out.entries, e.2.Placed ctx cs e.1
  | [], _, _, _, _, hm, h => by
    cases h
    exact hm
  | o :: os, modules, out, s, t, hm, h => by
    obtain ⟨-, name, template, module, _, -, hget, hres, h⟩ := runIn_resolveModules_cons_ok.mp h
    refine placed_of_runIn_resolveModules ht (fun e he => ?_) h
    rcases Dictionary.mem_put he with rfl | he
    · have hplaced := Module.placed_of_runIn_resolve hres
      rwa [(ht _ (Dictionary.mem_of_get? hget)).configurations] at hplaced
    · exact hm e he

/-! ### Configurations and their names -/

/-- Distinct groups have configurations that differ in the group or in the name. -/
theorem nodup_names_flatMap_members : ∀ {groups : List (String × List Configuration)},
    (groups.map Prod.fst).Nodup → (∀ g ∈ groups, Members g) →
      ((groups.flatMap Prod.snd).map fun c => (c.group, c.name)).Nodup
  | [], _, _ => .nil
  | g :: groups, hd, hm => by
    obtain ⟨hg, hm⟩ := List.forall_mem_cons.mp hm
    rw [List.map_cons, List.nodup_cons] at hd
    rw [List.flatMap_cons, List.map_append, List.nodup_append]
    refine ⟨List.Nodup.of_map Prod.snd (by rw [List.map_map]; exact hg.names),
      nodup_names_flatMap_members hd.2 hm, ?_⟩
    rintro pair hp _ hp' rfl
    obtain ⟨c, hc, rfl⟩ := List.mem_map.mp hp
    obtain ⟨c', hc', he⟩ := List.mem_map.mp hp'
    obtain ⟨g', hg', hc'⟩ := List.mem_flatMap.mp hc'
    refine hd.1 (List.mem_map.mpr ⟨g', hg', ?_⟩)
    rw [← (hm g' hg').group c' hc', ← hg.group c hc]
    exact congrArg Prod.fst he

theorem nodup_names_of_declaredConfigurations {body : Object} {wanted : List String}
    {cs : List Configuration} (h : declaredConfigurations body wanted = .ok cs) :
    (cs.map fun c => (c.group, c.name)).Nodup := by
  obtain ⟨groups, hg, -, -, rfl⟩ := declaredConfigurations_eq_ok.mp h
  obtain ⟨hd, hm, -⟩ := members_of_groupsOf hg
  exact nodup_names_flatMap_members (hd.sublist (List.filter_sublist.map _))
    fun g hgm => (hm g (List.mem_of_mem_filter hgm)).1

/-! ### Whitelists of a solution -/

/-- The properties of the solution admit these names under the configuration. -/
def Whitelists (s : Solution) (c : Configuration) (w : Whitelist) : Prop :=
  ∃ settings, s.settings.get? c = some settings ∧
    Whitelist.ofPatterns (settings.patterns PropertyName.includeProjects) = .ok w

theorem ofPatterns_of_runIn_resolveSettings {body : Object} {external : NameSet} {b : Bindings}
    {c : Configuration} {r : Settings × Whitelist} {s t : Session}
    (h : (resolveSettings body external b c).runIn s = (.ok r, t)) :
    Whitelist.ofPatterns (r.1.patterns PropertyName.includeProjects) = .ok r.2 := by
  obtain ⟨_, _, -, h⟩ := Compile.runIn_bind_ok.mp h
  obtain ⟨_, _, -, h⟩ := Compile.runIn_bind_ok.mp h
  obtain ⟨_, _, hw, h⟩ := Compile.runIn_bind_ok.mp h
  cases h
  exact (Compile.runIn_ofFallible_ok.mp hw).1

/-- The properties are compiled for the configurations in order, each with the names it admits. -/
theorem ofPatterns_of_runIn_compileSettings {o : Options} {body : Object} :
    ∀ {cs : List Configuration} {resolved : List (Configuration × Settings × Whitelist)}
      {s t : Session}, (compileSettings o body cs).runIn s = (.ok resolved, t) →
        ∀ e ∈ resolved, Whitelist.ofPatterns (e.2.1.patterns PropertyName.includeProjects) = .ok e.2.2
  | [], _, _, _, h => by
    cases h
    exact List.forall_mem_nil _
  | c :: cs, _, _, _, h => by
    obtain ⟨e, more, u, he, hmore, rfl⟩ := Compile.runIn_mapM_cons_ok.mp h
    obtain ⟨_, _, hr, he⟩ := Compile.runIn_bind_ok.mp he
    cases he
    exact List.forall_mem_cons.mpr
      ⟨ofPatterns_of_runIn_resolveSettings hr, ofPatterns_of_runIn_compileSettings hmore⟩

section Looking
variable {resolved : List (Configuration × Settings × Whitelist)} {c : Configuration} {α : Type}

/-- What is stored under the distinct configurations is found there. -/
theorem get?_ofList_resolved (hd : (resolved.map Prod.fst).Nodup) (f : Settings × Whitelist → α)
    {r : Settings × Whitelist} (hr : (c, r) ∈ resolved) :
    (Dictionary.ofList (resolved.map fun e => (e.1, f e.2))).get? c = some (f r) := by
  refine Dictionary.get?_of_mem ?_
  rw [Dictionary.entries_ofList (by rwa [List.map_map])]
  exact List.mem_map_of_mem hr

theorem keys_ofList_resolved (hd : (resolved.map Prod.fst).Nodup) (f : Settings × Whitelist → α) :
    (Dictionary.ofList (resolved.map fun e => (e.1, f e.2))).keys = resolved.map Prod.fst := by
  rw [Dictionary.keys, Dictionary.entries_ofList (by rwa [List.map_map]), List.map_map]
  rfl

end Looking

/-- Checked projects reference one another alone if the names are restricted. -/
theorem mem_names_of_checkProjects {s : Solution} {ws : Dictionary Configuration Whitelist}
    {c : Configuration} {w : Whitelist} (h : checkProjects s ws c = .ok ()) (hw : ws.get? c = some w)
    (ha : w.isActive = true) {p : Project} (hp : p ∈ s.projects c) {reference : String}
    (hr : reference ∈ p.projectRefs) : reference ∈ (s.projects c).map (·.name) := by
  unfold checkProjects at h
  dsimp only at h
  split at h
  · cases h
  · rw [hw, Option.any_some, if_pos ha] at h
    split at h
    · cases h
    · next hnone => exact danglingReference?_eq_none hnone hp hr

/-! ### Coherent solutions -/

/-- Under the configuration the projects of all modules have distinct names, and if the names are
restricted, then the projects are admitted and reference one another alone. -/
structure CoherentIn (s : Solution) (c : Configuration) : Prop where
  names : ((s.projects c).map (·.name)).Nodup
  included : ∀ p ∈ s.projects c, p.settings.isExcluded = false
  whitelist : ∃ w, s.Whitelists c w ∧ (w.isActive = true → ∀ p ∈ s.projects c,
    w.allows p.name = true ∧ ∀ reference ∈ p.projectRefs, reference ∈ (s.projects c).map (·.name))

/-- The parts of the solution fit each other. -/
structure Coherent (s : Solution) : Prop where
  configurations : (s.configurations.map fun c => (c.group, c.name)).Nodup
  settings : s.settings.keys = s.configurations
  templates : ∀ e ∈ s.templates.entries, e.2.name = e.1 ∧ e.2.variants.keys = s.configurations
  modules : ∀ e ∈ s.modules.entries, e.2.name = e.1 ∧ e.2.variants.keys = s.configurations
  places : ∀ e ∈ s.modules.entries, ∀ v ∈ e.2.variants.entries, ∀ q ∈ v.2.entries,
    q.2.name = q.1 ∧ q.2.module = e.1 ∧ q.2.configuration = v.1
  projects : ∀ c ∈ s.configurations, s.CoherentIn c

variable {o : Options} {fs : FileSystem} {body : Object} {cs : List Configuration} {s : Solution}

/-- **Stage by stage, the body of a solution is resolved to parts that fit each other.** -/
theorem coherent_of_runIn_resolveBody {y z : Session}
    (hnames : (cs.map fun c => (c.group, c.name)).Nodup)
    (h : (resolveBody o fs body cs).runIn y = (.ok s, z)) : s.Coherent := by
  obtain ⟨resolved, templates, modules, u, v, hr, -, ht, hm, rfl, hc⟩ := runIn_resolveBody_ok.mp h
  have hcs : cs.Nodup := hnames.of_map _
  have hkeys : resolved.map Prod.fst = cs := Compile.keys_of_runIn_mapM hr
  have hd : (resolved.map Prod.fst).Nodup := hkeys ▸ hcs
  have htemplates := placed_of_runIn_resolveTemplates hcs (List.forall_mem_nil _) ht
  have hmodules := placed_of_runIn_resolveModules htemplates (List.forall_mem_nil _) hm
  refine ⟨hnames, (keys_ofList_resolved hd Prod.fst).trans hkeys, fun e he => ?_, fun e he => ?_,
    fun e he v hv q hq => ?_, fun c hmem => ?_⟩
  · exact ⟨(htemplates e he).name, (htemplates e he).configurations⟩
  · exact ⟨(hmodules e he).name, (hmodules e he).configurations⟩
  · have hq := (hmodules e he).stands v hv q hq
    exact ⟨hq.name, hq.module, hq.configuration⟩
  · have hstands : ∀ p ∈ projects (assemble body cs resolved templates modules) c,
        p.settings.isExcluded = false ∧ (contextOf o fs body resolved).allows c p.name = true := by
      intro p hp
      obtain ⟨e, he, hp⟩ := mem_projects.mp hp
      obtain ⟨v, hv, rfl, q, hq, rfl⟩ := Module.mem_projects.mp hp
      have hq := (hmodules e he).stands v hv q hq
      exact ⟨hq.included, by rw [hq.name]; exact hq.allowed⟩
    obtain ⟨⟨_, settings, w⟩, hmem', rfl⟩ := List.mem_map.mp (hkeys ▸ hmem)
    have hw : (contextOf o fs body resolved).whitelists.get? _ = some w :=
      get?_ofList_resolved hd Prod.snd hmem'
    refine ⟨nodup_of_checkProjects (hc _ hmem), fun p hp => (hstands p hp).1, w,
      ⟨settings, get?_ofList_resolved hd Prod.fst hmem',
        ofPatterns_of_runIn_compileSettings hr _ hmem'⟩, fun ha p hp => ⟨?_, fun reference hr =>
        mem_names_of_checkProjects (hc _ hmem) hw ha hp hr⟩⟩
    have hallows := (hstands p hp).2
    rwa [ModuleContext.allows, hw, Option.all_some] at hallows

/-- **A document is resolved to a coherent solution, or not at all.** No two configurations have the
same group and name; the properties, every template and every module are there for exactly these
configurations, in order; every project stands under its own name, module and configuration and is not
left out; and under each configuration the names of the projects of all modules are distinct, and if
the whitelist is active, it admits every project, and every project references projects of the same
configuration alone. -/
theorem coherent_of_resolvesTo {d : Document} (h : ResolvesTo o fs d s) : s.Coherent := by
  obtain ⟨body, cs, -, hcs, h⟩ := runIn_resolve_ok.mp (Prod.ext h rfl)
  exact coherent_of_runIn_resolveBody (nodup_names_of_declaredConfigurations hcs) h

/-- A solution in which one project is admitted and references itself. -/
def selfReference : Document :=
  ⟨[.group ⟨"g", [("Debug", .empty), ("Release", .empty)]⟩,
    .assignment ⟨.add, ["include", "projects"], .literal "P", always⟩,
    .object ⟨templateKind, "T", none⟩
      [.assignment ⟨.add, ["projects"], .pair "P" (.literal "S"), always⟩,
        .assignment ⟨.add, ["projects"], .pair "Q" (.literal "S"), always⟩,
        .object ⟨settingsKind, "S", none⟩
          [.assignment ⟨.add, ["project", "refs"], .literal "P", always⟩]],
    .object ⟨moduleKind, "Core", some "T"⟩ []]⟩

/-- One of two projects is admitted, and the whitelist is active. -/
theorem coherent_selfReference : ∃ s, ResolvesTo (.ofEnvironment []) default selfReference s ∧
    s.configurations.map (fun c => (s.projects c).map fun p => (p.name, p.projectRefs)) =
      [[("P", ["P"])], [("P", ["P"])]] ∧ s.Coherent := by
  obtain ⟨s, hs, hprojects⟩ := exists_resolvesTo_with (.ofEnvironment []) default selfReference
    (fun s => s.configurations.map (fun c => (s.projects c).map fun p => (p.name, p.projectRefs)) =
      [[("P", ["P"])], [("P", ["P"])]]) (by decide +kernel)
  exact ⟨s, hs, hprojects, coherent_of_resolvesTo hs⟩

end Solution

end BuildPlan
