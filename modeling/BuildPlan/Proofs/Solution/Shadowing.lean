import BuildPlan.Proofs.Inheritance.Meaning
import BuildPlan.Proofs.Solution.Cache
import BuildPlan.Proofs.Solution.Identity

/-! # Settings objects of a module

A module may declare settings objects that its template declares as well. Such an object counts for the
projects that name it and for the module's own objects that build on it, and for nothing else: what the
template compiled stays as it is, also if it builds on an object that the module declares anew
(`shadowing_exact`). -/

namespace BuildPlan

open BuildPlan.Variable

namespace Heir

variable {hs : List Heir} {inherited : Dictionary String Settings}

/-! ### Compiling that may fail -/

/-- The settings to which an object compiles among others, if it does. -/
inductive CompilesTo (hs : List Heir) (inherited : Dictionary String Settings)
    (compile : Object → Option Settings → Fallible Settings) : Heir → Settings → Prop
  /-- Without a base, the object is compiled on its own. -/
  | origin {h : Heir} {s : Settings} (hb : h.base = none) (hc : compile h.object none = .ok s) :
      CompilesTo hs inherited compile h s
  /-- A base that is another one of the objects counts with what it compiles to. -/
  | within {h p : Heir} {base s : Settings} (hp : p ∈ hs) (hb : h.base = some p.name)
      (hne : p.name ≠ h.name) (hm : CompilesTo hs inherited compile p base)
      (hc : compile h.object (some base) = .ok s) : CompilesTo hs inherited compile h s
  /-- Any other base, and one with the object's own name, is one of the inherited settings. -/
  | beyond {h : Heir} {b : String} {base s : Settings} (hb : h.base = some b)
      (hn : b = h.name ∨ b ∉ hs.map name) (hi : inherited.get? b = some base)
      (hc : compile h.object (some base) = .ok s) : CompilesTo hs inherited compile h s

/-- An object that compiles means the settings to which it does. -/
theorem CompilesTo.means {compile : Object → Option Settings → Fallible Settings} {h : Heir}
    {s : Settings} (hc : CompilesTo hs inherited compile h s) :
    Means hs inherited (fun o base => (compile o base).toOption.getD default) h s := by
  have hval : ∀ {o base s}, compile o base = .ok s →
      s = (compile o base).toOption.getD default := by
    intro o base s h
    rw [h]
    rfl
  induction hc with
  | origin hb hc =>
    rw [hval hc]
    exact .origin hb
  | within hp hb hne _ hc ih =>
    rw [hval hc]
    exact .within hp hb hne ih
  | beyond hb hn hi hc =>
    rw [hval hc]
    exact .beyond hb hn hi

theorem CompilesTo.unique {compile : Object → Option Settings → Fallible Settings}
    (hd : (hs.map name).Nodup) {h : Heir} {s t : Settings}
    (h1 : CompilesTo hs inherited compile h s) (h2 : CompilesTo hs inherited compile h t) : s = t :=
  h1.means.unique hd h2.means

section All
variable {compile : Object → Option Settings → Compile Settings}

/-- With every awaited object compiled, an object compiles to what is computed for it. -/
theorem compilesTo_compiled {compiled : Dictionary String Settings} {done : List String} {h : Heir}
    {s : Settings} (hk : BasesKnown hs inherited) (hh : h ∈ hs)
    (hr : h.isReady (hs.map name) done = true)
    (hc : ∀ p ∈ hs, p.name ∈ done → ∃ s, compiled.get? p.name = some s ∧
      CompilesTo hs inherited (fun o base => (compile o base).fresh.result) p s)
    (hcs : (compile h.object (h.baseSettings (hs.map name) inherited compiled)).fresh.result =
      .ok s) :
    CompilesTo hs inherited (fun o base => (compile o base).fresh.result) h s := by
  rcases baseSettings_cases hk hh hr hc with
    ⟨hb, he⟩ | ⟨p, base, hp, hb, hne, hm, he⟩ | ⟨b, base, hb, hn, hi, he⟩
  · rw [he] at hcs
    exact .origin hb hcs
  · rw [he] at hcs
    exact .within hp hb hne hm hcs
  · rw [he] at hcs
    exact .beyond hb hn hi hcs

/-- Objects in turn are compiled to what they compile to. -/
theorem compilesTo_of_compileEach (hd : (hs.map name).Nodup) (hk : BasesKnown hs inherited) :
    ∀ {order : List Heir} {done : List String} {compiled all : Dictionary String Settings},
      InTurn (hs.map name) done order → (∀ h ∈ order, h ∈ hs) →
      (∀ p ∈ hs, p.name ∈ done → ∃ s, compiled.get? p.name = some s ∧
        CompilesTo hs inherited (fun o base => (compile o base).fresh.result) p s) →
      (compileEach (hs.map name) inherited compile compiled order).fresh.result = .ok all →
      ∀ p ∈ hs, p.name ∈ done ∨ p ∈ order → ∃ s, all.get? p.name = some s ∧
        CompilesTo hs inherited (fun o base => (compile o base).fresh.result) p s
  | [], _, _, _, _, _, hc, hall, p, hp, hpd => by
    cases hall
    exact hc p hp (hpd.resolve_right List.not_mem_nil)
  | h :: order, done, compiled, all, ht, hmem, hc, hall, p, hp, hpd => by
    obtain ⟨s, hcs, hall⟩ := Compile.result_fresh_bind_ok.mp hall
    have hh := hmem h List.mem_cons_self
    have hc' : ∀ p ∈ hs, p.name ∈ h.name :: done → ∃ s', (compiled.insert h.name s).get? p.name =
        some s' ∧ CompilesTo hs inherited (fun o base => (compile o base).fresh.result) p s' := by
      intro p hp hpd
      rw [Dictionary.get?_insert]
      by_cases he : h.name = p.name
      · obtain rfl := eq_of_name_eq hd hh hp he
        rw [if_pos rfl]
        exact ⟨s, rfl, compilesTo_compiled hk hh ht.1 hc hcs⟩
      · rw [if_neg he]
        exact hc p hp ((List.mem_cons.mp hpd).resolve_left (Ne.symm he))
    refine compilesTo_of_compileEach hd hk ht.2 (fun k hm => hmem k (List.mem_cons_of_mem _ hm)) hc'
      hall p hp ?_
    rcases hpd with hpd | hpd
    · exact Or.inl (List.mem_cons_of_mem _ hpd)
    · rcases List.mem_cons.mp hpd with rfl | hpd
      · exact Or.inl List.mem_cons_self
      · exact Or.inr hpd

/-- **If all objects are compiled, each of them has the settings to which it compiles**, and nothing
else is there. -/
theorem compilesTo_of_compileAll (hd : (hs.map name).Nodup) {all : Dictionary String Settings}
    (h : (compileAll inherited compile hs).fresh.result = .ok all) :
    (∀ p ∈ hs, ∃ s, all.get? p.name = some s ∧
        CompilesTo hs inherited (fun o base => (compile o base).fresh.result) p s) ∧
      ∀ n ∉ hs.map name, all.get? n = none := by
  have hu : unknownBase? inherited hs = none := by
    by_contra hne
    obtain ⟨⟨p, b⟩, he⟩ := Option.ne_none_iff_exists'.mp hne
    unfold compileAll at h
    rw [he] at h
    cases h
  have hstuck : (schedule hs).2 = [] := by
    by_contra hne
    unfold compileAll at h
    rw [hu] at h
    obtain ⟨_, -, h⟩ := Compile.result_fresh_bind_ok.mp h
    rw [if_neg (by rwa [List.isEmpty_iff])] at h
    cases h
  have hperm : (schedule hs).1.Perm hs := by
    have := schedule_perm hs
    rwa [hstuck, List.append_nil] at this
  rw [compileAll_eq_compileEach hu hstuck] at h
  obtain ⟨compiled, hcompiled, h⟩ := Compile.result_fresh_bind_ok.mp h
  cases h
  have heach := compilesTo_of_compileEach hd (basesKnown_of_unknownBase? hu)
    (roundsUpTo_inTurn hs [] hs) (fun k hm => hperm.mem_iff.mp hm) (by simp) hcompiled
  -- The names are distinct, so the list of what was compiled is a dictionary as it stands.
  have hkeys : ∀ l : List Heir, ((l.filterMap fun h => (compiled.get? h.name).map fun s =>
      (h.name, s)).map Prod.fst).Sublist (l.map name) := by
    intro l
    induction l with
    | nil => exact .slnil
    | cons p l ih =>
      rw [List.filterMap_cons, List.map_cons]
      cases compiled.get? p.name with
      | none => exact ih.cons _
      | some s => exact ih.cons_cons _
  have hentries := Dictionary.entries_ofList (hd.sublist (hkeys hs))
  refine ⟨fun p hp => ?_, fun n hn => ?_⟩
  · obtain ⟨s, hget, hs⟩ := heach p hp (Or.inr (hperm.mem_iff.mpr hp))
    refine ⟨s, Dictionary.get?_of_mem ?_, hs⟩
    rw [hentries]
    exact List.mem_filterMap.mpr ⟨p, hp, by rw [hget]; rfl⟩
  · rw [Option.eq_none_iff_forall_ne_some]
    intro s hget
    have hm : n ∈ (Dictionary.ofList _).keys :=
      List.mem_map_of_mem (Dictionary.mem_of_get? hget)
    rw [Dictionary.mem_keys_ofList] at hm
    exact hn ((hkeys hs).subset hm)

end All

end Heir

theorem Compile.fresh_within_ok {α : Type} {context : String} {m : Compile α} {a : α} :
    (m.within context).fresh.result = .ok a ↔ m.fresh.result = .ok a := by
  induction m with
  | done r => exact Fallible.within_ok
  | warn _ _ ih => exact ih
  | ask _ _ _ ih => exact ih _

namespace Module

variable {ctx : ModuleContext} {object : Object} {template : Template} {c : Configuration}
  {variant : TemplateVariant} {children : List Object}

/-- Compiles the body of a module, behind the body of its template, whatever was kept before. -/
def rootAnew (ctx : ModuleContext) (object : Object) (template : Template) (c : Configuration)
    (variant : TemplateVariant) : Fallible Settings :=
  (Job.answerAnew ⟨object, object.heading.display, .template, some c, some variant.root,
    bindingsIn ctx object template c⟩ ctx.external).result

/-- Compiles a settings object of a module with the settings of its base, whatever was kept before. -/
def childAnew (ctx : ModuleContext) (object : Object) (template : Template) (c : Configuration)
    (child : Object) (base : Option Settings) : Fallible Settings :=
  (Job.answerAnew ⟨child, object.heading.display, .settings, some c, base,
    bindingsIn ctx object template c⟩ ctx.external).result

/-- A settings object of a module with the base that it declares, or else the one that the template
declares for its name. -/
def heir (template : Template) (child : Object) : Heir :=
  ⟨child, child.base.or ((template.bases.get? child.name).join)⟩

/-! ### The declared projects -/

section Projects
variable {module : String} {b : Bindings} {settings : Dictionary String Settings}
  {known known' : Identities}

/-- What was there before is still there. -/
theorem get?_of_resolveProjects : ∀ {entries : List (String × String)} {known : Identities}
    {ps ps' : Dictionary String Project},
      (resolveProjects ctx module c b settings known ps entries).result = .ok (known', ps') →
        ∀ n p, ps.get? n = some p → ps'.get? n = some p
  | [], _, _, _, h, n, p, hn => by
    cases h
    exact hn
  | entry :: entries, known, ps, ps', h, n, p, hn => by
    rcases resolveProjects_cons_ok.mp h with ⟨-, h⟩ | ⟨q, known₁, -, hnew, h⟩
    · exact get?_of_resolveProjects h n p hn
    · refine get?_of_resolveProjects h n p ?_
      rw [Dictionary.get?_insert, if_neg, hn]
      rintro rfl
      rw [Dictionary.contains, hn] at hnew
      cases hnew

/-- **Every declared project has its settings**, fully expanded, unless these leave it out or it is not
admitted. -/
theorem declared_of_resolveProjects : ∀ {entries : List (String × String)} {known : Identities}
    {ps ps' : Dictionary String Project}, known.Named →
      (resolveProjects ctx module c b settings known ps entries).result = .ok (known', ps') →
        ∀ entry ∈ entries, ∃ d compiled expanded, Declaration.expand b entry = .ok d ∧
          settings.get? d.settings = some compiled ∧
          compiled.expand (b.bind projectName d.project) .complete = .ok expanded ∧
          (expanded.isExcluded = false → ctx.allows c d.project = true →
            ∃ p, ps'.get? d.project = some p ∧ p.settings = expanded)
  | [], _, _, _, _, _ => by simp
  | entry :: entries, known, ps, ps', hk, h => by
    rcases resolveProjects_cons_ok.mp h with ⟨hnone, h⟩ | ⟨p, known₁, hp, -, h⟩
    · refine List.forall_mem_cons.mpr ⟨?_, declared_of_resolveProjects hk h⟩
      obtain ⟨d, compiled, expanded, hd, hc, he, hx⟩ := resolveProject_none.mp hnone
      refine ⟨d, compiled, expanded, hd, hc, he, fun hnx ha => ?_⟩
      rw [hnx, ha] at hx
      cases hx
    · have hnamed := (has_of_resolveProject hk hp).2.2
      refine List.forall_mem_cons.mpr ⟨?_, declared_of_resolveProjects hnamed h⟩
      obtain ⟨d, compiled, expanded, current, i, _, hd, hc, he, -, hcur, hmet, -, hpe⟩ :=
        resolveProject_some.mp hp
      have hname : p.name = d.project := by
        rw [hpe]
        exact (Identities.meet_ok hk hmet).1.trans (Identity.of_ofSettings hcur).1
      refine ⟨d, compiled, expanded, hd, hc, he, fun _ _ =>
        ⟨p, get?_of_resolveProjects h _ p ?_, by rw [hpe]⟩⟩
      rw [← hname, Dictionary.get?_insert, if_pos rfl]

end Projects

/-! ### One configuration after another -/

/-- What a module has under a configuration if every job is compiled anew. -/
theorem fresh_resolveVariant_ok {known known' : Identities} {ps : Dictionary String Project}
    (h : (resolveVariant ctx object children template known c variant).fresh.result =
      .ok (known', ps)) :
    ∃ root, rootAnew ctx object template c variant = .ok root ∧
      ((root.isExcluded = true ∧ known' = known ∧ ps = .empty) ∨
        root.isExcluded = false ∧ ∃ own : Dictionary String Settings,
          (Heir.compileAll variant.settings
            (fun child base => Job.compile ⟨child, object.heading.display, .settings, some c, base,
              bindingsIn ctx object template c⟩ ctx.external)
            (heirs template children)).fresh.result = .ok own ∧
          (resolveProjects ctx object.name c (bindingsIn ctx object template c)
            (variant.settings.insertAll own.entries) known .empty
            root.projectDeclarations).result = .ok (known', ps)) := by
  rw [resolveVariant_eq] at h
  obtain ⟨root, hr, h⟩ := Compile.result_fresh_bind_ok.mp h
  rw [compileRoot, Compile.fresh_compile] at hr
  refine ⟨root, hr, ?_⟩
  split at h
  · next hx =>
    cases h
    exact Or.inl ⟨hx, rfl, rfl⟩
  · next hx =>
    obtain ⟨own, ho, h⟩ := Compile.result_fresh_bind_ok.mp h
    exact Or.inr ⟨Bool.eq_false_iff.mpr hx, own, Compile.fresh_within_ok.mp ho, h⟩

/-- Under every configuration the identities that were met before are named. -/
theorem fresh_resolveVariants_ok : ∀ {vs : List (Configuration × TemplateVariant)}
    {known : Identities} {out : List (Configuration × Dictionary String Project)}, known.Named →
      (resolveVariants ctx object children template known vs).fresh.result = .ok out →
        out.map Prod.fst = vs.map Prod.fst ∧ ∀ v ∈ vs, ∃ known known' ps, Identities.Named known ∧
          (resolveVariant ctx object children template known v.1 v.2).fresh.result =
            .ok (known', ps) ∧ (v.1, ps) ∈ out
  | [], _, _, _, h => by
    cases h
    exact ⟨rfl, by simp⟩
  | (c, variant) :: vs, known, out, hk, h => by
    rw [resolveVariants] at h
    obtain ⟨⟨known', ps⟩, hv, h⟩ := Compile.result_fresh_bind_ok.mp h
    obtain ⟨more, hm, h⟩ := Compile.result_fresh_bind_ok.mp h
    cases h
    have hk' : Identities.Named known' := by
      obtain ⟨root, -, ⟨-, rfl, -⟩ | ⟨-, own, -, hps⟩⟩ := fresh_resolveVariant_ok hv
      · exact hk
      · exact (has_of_resolveProjects hk (by simp [Dictionary.values, Dictionary.empty]) hps).2.2
    obtain ⟨hkeys, hall⟩ := fresh_resolveVariants_ok hk' hm
    refine ⟨by rw [List.map_cons, List.map_cons, hkeys], List.forall_mem_cons.mpr
      ⟨⟨known, known', ps, hk, hv, List.mem_cons_self⟩, fun v hm => ?_⟩⟩
    obtain ⟨known, known', ps, hn, hv, hmem⟩ := hall v hm
    exact ⟨known, known', ps, hn, hv, List.mem_cons_of_mem _ hmem⟩

/-! ### The settings of a name -/

/-- The settings of a name in a module, with the module's settings objects: those to which the object of
that name compiles, if there is one, on the base that it declares or else that the template declares for
its name, and otherwise those of the template. -/
def SettingsOf (ctx : ModuleContext) (object : Object) (children : List Object) (template : Template)
    (c : Configuration) (variant : TemplateVariant) (n : String) (compiled : Settings) : Prop :=
  (∃ child ∈ children, child.name = n ∧
      ∀ s, Heir.CompilesTo (heirs template children) variant.settings
        (childAnew ctx object template c) (heir template child) s ↔ s = compiled) ∨
    (∀ child ∈ children, child.name ≠ n) ∧ variant.settings.get? n = some compiled

/-- The module's own settings objects count before those of the template. -/
theorem settingsOf_of_get? {own : Dictionary String Settings}
    (hd : (children.map Object.name).Nodup)
    (ho : (Heir.compileAll variant.settings
      (fun child base => Job.compile ⟨child, object.heading.display, .settings, some c, base,
        bindingsIn ctx object template c⟩ ctx.external)
      (heirs template children)).fresh.result = .ok own) {n : String} {compiled : Settings}
    (hn : (variant.settings.insertAll own.entries).get? n = some compiled) :
    SettingsOf ctx object children template c variant n compiled := by
  have hnames : (heirs template children).map Heir.name = children.map Object.name := by
    rw [heirs, List.map_map]
    rfl
  rw [← hnames] at hd
  obtain ⟨hall, honly⟩ := Heir.compilesTo_of_compileAll hd ho
  simp only [Compile.fresh_compile] at hall
  rw [Dictionary.get?_insertAll_entries] at hn
  by_cases hm : n ∈ (heirs template children).map Heir.name
  · have hm' := hm
    rw [hnames] at hm'
    obtain ⟨child, hchild, rfl⟩ := List.mem_map.mp hm'
    obtain ⟨s, hget, hs⟩ := hall (heir template child) (List.mem_map_of_mem hchild)
    rw [show own.get? child.name = some s from hget] at hn
    obtain rfl : s = compiled := Option.some.inj hn
    exact Or.inl ⟨child, hchild, rfl, fun s' => ⟨fun h => h.unique hd hs, fun h => h ▸ hs⟩⟩
  · rw [honly n hm, Option.none_or] at hn
    refine Or.inr ⟨fun child hchild he => hm ?_, hn⟩
    rw [hnames]
    exact List.mem_map.mpr ⟨child, hchild, he⟩

/-- Under every configuration in which the module is not left out, its declared projects have their
settings. -/
def DeclaresSettings (ctx : ModuleContext) (object : Object) (template : Template) (m : Module) : Prop :=
  ∃ children, object.settingsObjects = .ok children ∧
    ∀ c variant, template.variants.get? c = some variant →
      ∃ root projects, rootAnew ctx object template c variant = .ok root ∧
        m.variants.get? c = some projects ∧
        (root.isExcluded = false → ∀ entry ∈ root.projectDeclarations, ∃ d compiled expanded,
          Declaration.expand (bindingsIn ctx object template c) entry = .ok d ∧
          SettingsOf ctx object children template c variant d.settings compiled ∧
          compiled.expand ((bindingsIn ctx object template c).bind projectName d.project)
            .complete = .ok expanded ∧
          (expanded.isExcluded = false → ctx.allows c d.project = true →
            ∃ p, projects.get? d.project = some p ∧ p.settings = expanded))

theorem declared_of_fresh_resolve {m : Module}
    (h : (resolve ctx object template).fresh.result = .ok m) :
    DeclaresSettings ctx object template m := by
  rw [resolve] at h
  obtain ⟨children, hch, h⟩ := Compile.result_fresh_bind_ok.mp h
  obtain ⟨variants, hvs, h⟩ := Compile.result_fresh_bind_ok.mp h
  cases h
  obtain ⟨hkeys, hall⟩ := fresh_resolveVariants_ok Identities.named_empty hvs
  have hd := (settingsObjects_ok hch).2
  refine ⟨children, hch, fun c variant hv => ?_⟩
  obtain ⟨known, known', ps, hk, hps, hmem⟩ := hall (c, variant) (Dictionary.mem_of_get? hv)
  obtain ⟨root, hroot, hcase⟩ := fresh_resolveVariant_ok hps
  have hget : (Dictionary.ofList variants).get? c = some ps := by
    refine Dictionary.get?_of_mem ?_
    rwa [Dictionary.entries_ofList (hkeys ▸ template.variants.distinct)]
  refine ⟨root, ps, hroot, hget, fun hx entry he => ?_⟩
  rcases hcase with ⟨hx', -⟩ | ⟨-, own, hown, hres⟩
  · rw [hx] at hx'
    cases hx'
  · obtain ⟨d, compiled, expanded, hdecl, hset, hexp, hp⟩ :=
      declared_of_resolveProjects hk hres entry he
    exact ⟨d, compiled, expanded, hdecl, settingsOf_of_get? hd hown hset, hexp, hp⟩

/-- **A module's settings objects take the place of the template's for this module, and nothing else
changes.** A project whose settings name is that of one of the module's objects has the settings to
which that object compiles, on the base that it declares or else that the template declares for its
name: a base with another name is the module's object of that name, if there is one, and any other base
is one of the template's. A project whose settings name is none of those has the settings that the
template compiled, whatever these build on. -/
theorem shadowing_exact {m : Module} {s t : Session} (ho : object.kind = Solution.moduleKind)
    (hs : ∀ k : SettingsKey, k.scope = object.heading.display → s.cache.get? k = none)
    (h : (resolve ctx object template).runIn s = (.ok m, t)) :
    ∃ children, object.settingsObjects = .ok children ∧
      ∀ c variant, template.variants.get? c = some variant →
        ∃ root projects, rootAnew ctx object template c variant = .ok root ∧
          m.variants.get? c = some projects ∧
          (root.isExcluded = false → ∀ entry ∈ root.projectDeclarations, ∃ d compiled expanded,
            Declaration.expand (bindingsIn ctx object template c) entry = .ok d ∧
            SettingsOf ctx object children template c variant d.settings compiled ∧
            compiled.expand ((bindingsIn ctx object template c).bind projectName d.project)
              .complete = .ok expanded ∧
            (expanded.isExcluded = false → ctx.allows c d.project = true →
              ∃ p, projects.get? d.project = some p ∧ p.settings = expanded)) := by
  have hfresh : (resolve ctx object template).fresh.result = .ok m := by
    rw [← ((asksOnce_resolve ho ctx template).runIn_eq_fresh hs).1, h]
  exact declared_of_fresh_resolve hfresh

/-! ### A module with one of three objects -/

/-- A configuration without constants of its own. -/
def debug : Configuration := .ofConstants "g" "Debug" .nil

/-- An assignment of references to libraries. -/
def libRefsSet (reference : String) : Element :=
  .assignment ⟨.set, ["lib", "refs"], .literal reference, always⟩

/-- A template with settings in a chain of three, the last two of which are those of projects. -/
def library : Object :=
  ⟨⟨Solution.templateKind, "T", none⟩,
    [.assignment ⟨.add, ["projects"], .array [.pair "P" (.literal "Code"),
        .pair "Q" (.literal "Tests")], always⟩,
      .object ⟨settingsKind, "Common", none⟩ [libRefsSet "theirs"],
      .object ⟨settingsKind, "Code", some "Common"⟩ [],
      .object ⟨settingsKind, "Tests", some "Code"⟩ []]⟩

/-- A module that declares the first two anew, the second without saying what it builds on. -/
def core : Object :=
  ⟨⟨Solution.moduleKind, "Core", some "T"⟩,
    [.object ⟨settingsKind, "Code", none⟩ [], .object ⟨settingsKind, "Common", none⟩
      [libRefsSet "own"]]⟩

/-- The context of a solution that admits all projects. -/
def openContext : ModuleContext := ⟨.empty, selectFiles .empty, ".", .empty, .empty⟩

/-- The resolved template. -/
def libraryTemplate : Template :=
  ((Template.resolve library [debug] .empty .empty).fresh.result.toOption).getD
    ⟨"", .empty, .empty⟩

/-- What the module declares anew counts for its own object that is silent about its base, and not for
the third one, which stays the template's. -/
theorem shadowing_exact_library : ∃ m t children variant,
    (resolve openContext core libraryTemplate).runIn .initial = (.ok m, t) ∧
      core.settingsObjects = .ok children ∧ libraryTemplate.variants.get? debug = some variant ∧
      (m.projects debug).map (fun p => (p.name, p.settings.texts PropertyName.libRefs)) =
        [("P", ["own"]), ("Q", ["theirs"])] ∧
      ∀ entry ∈ [("P", "Code"), ("Q", "Tests")], ∃ d compiled expanded,
        Declaration.expand (bindingsIn openContext core libraryTemplate debug) entry = .ok d ∧
        SettingsOf openContext core children libraryTemplate debug variant d.settings compiled ∧
        compiled.expand ((bindingsIn openContext core libraryTemplate debug).bind projectName
          d.project) .complete = .ok expanded := by
  have hrun : ((resolve openContext core libraryTemplate).runIn .initial).1.toOption.any
      (fun m => (m.projects debug).map (fun p => (p.name, p.settings.texts PropertyName.libRefs)) =
        [("P", ["own"]), ("Q", ["theirs"])]) = true := by
    decide +kernel
  have hvariant : (libraryTemplate.variants.get? debug).any (fun variant =>
      (rootAnew openContext core libraryTemplate debug variant).toOption.any fun root =>
        !root.isExcluded && root.projectDeclarations == [("P", "Code"), ("Q", "Tests")]) = true := by
    decide +kernel
  cases hr : (resolve openContext core libraryTemplate).runIn .initial with
  | mk result t =>
    rw [hr] at hrun
    cases result with
    | error e => cases hrun
    | ok m =>
      obtain ⟨children, hch, hall⟩ := shadowing_exact rfl (fun _ _ => rfl) hr
      cases hv : libraryTemplate.variants.get? debug with
      | none =>
        rw [hv] at hvariant
        cases hvariant
      | some variant =>
        obtain ⟨root, projects, hroot, -, hdecl⟩ := hall debug variant hv
        rw [hv, Option.any_some, hroot] at hvariant
        obtain ⟨hx, he⟩ := Bool.and_eq_true_iff.mp hvariant
        have he := eq_of_beq he
        refine ⟨m, t, children, variant, rfl, hch, rfl, of_decide_eq_true hrun, fun entry hm => ?_⟩
        obtain ⟨d, compiled, expanded, hd, hset, hexp, -⟩ :=
          hdecl (by simpa using hx) entry (he ▸ hm)
        exact ⟨d, compiled, expanded, hd, hset, hexp⟩

end Module

end BuildPlan
