import BuildPlan.Proofs.Solution.Stages

/-! # The identity of a project

A module hands the identities that it has met from one configuration to the next, and a project that
is met again has to fit (`Identities.meet_ok`). So all projects of one name in a module have one
identity, and it is the one that the settings of each of them declare, up to the spelling of the source
path. Across modules only the projects under one configuration are compared, by their names. Two
projects of one name have the same identity, then, if their modules or their configurations are the
same (`identity_eq`). -/

namespace BuildPlan

open BuildPlan.Variable

/-! ### Identities that were met -/

theorem Identity.difference_self (i : Identity) : i.difference i = none := by
  simp [difference, Path.same]

theorem Identity.difference_eq_none {i j : Identity} :
    i.difference j = none ↔ i.guid = j.guid ∧ Path.same i.sourcePath j.sourcePath = true := by
  unfold difference
  split
  · next hg => simp [hg]
  · next hg =>
    rw [and_iff_right (not_not.mp hg)]
    split
    · next hp => simpa using hp
    · next hp => simpa using hp

theorem Identity.of_ofSettings {module project : String} {s : Settings} {i : Identity}
    (h : ofSettings module project s = .ok i) :
    i.name = project ∧ i.sourcePath = (s.text? PropertyName.sourcePath).getD module := by
  obtain ⟨guid, -, h⟩ := Fallible.bind_ok.mp h
  cases h
  exact ⟨rfl, rfl⟩

/-- The settings of a project declare its identity, up to the spelling of the source path. -/
def Project.Fits (p : Project) : Prop :=
  ∃ declared, Identity.ofSettings p.module p.name p.settings = .ok declared ∧
    p.identity.difference declared = none

/-- A project that declares no identifier and fits its settings has the one of its names. -/
theorem Project.Fits.guid_eq {p : Project} (h : p.Fits)
    (hnone : p.settings.text? PropertyName.projectGuid = none) :
    p.identity.guid = generatedGuid p.module p.name := by
  obtain ⟨i, hi, hd⟩ := h
  obtain ⟨guid, hg, hi⟩ := Fallible.bind_ok.mp hi
  unfold declaredGuid at hg
  rw [hnone] at hg
  cases hg
  cases hi
  exact (Identity.difference_eq_none.mp hd).1

namespace Identities

/-- Every identity is known under its own name. -/
def Named (known : Identities) : Prop := ∀ n i, known.get? n = some i → i.name = n

/-- What is known stays known. -/
def Grows (known known' : Identities) : Prop :=
  ∀ n i, known.get? n = some i → known'.get? n = some i

theorem Grows.refl (known : Identities) : known.Grows known := fun _ _ h => h

theorem Grows.trans {a b c : Identities} (h : a.Grows b) (h' : b.Grows c) : a.Grows c :=
  fun n i hn => h' n i (h n i hn)

theorem Grows.get?_eq_none {known known' : Identities} (h : known.Grows known') {n : String}
    (hn : known'.get? n = none) : known.get? n = none := by
  cases hk : known.get? n with
  | none => rfl
  | some i =>
    rw [h n i hk] at hn
    cases hn

theorem named_empty : Named .empty := fun _ _ h => by cases h

/-- A project gets an identity that is known from then on and fits the one it declares. -/
theorem meet_ok {known known' : Identities} {current i : Identity} {c : Configuration}
    (hk : known.Named) (h : known.meet current c = .ok (i, known')) :
    i.name = current.name ∧ known'.get? current.name = some i ∧ i.difference current = none ∧
      known.Grows known' ∧ known'.Named := by
  unfold meet at h
  split at h
  · next j hj =>
    unfold Identity.check at h
    split at h
    · cases h
    · next hd =>
      cases h
      exact ⟨hk _ _ hj, hj, hd, .refl _, hk⟩
  · next hn =>
    cases h
    have hget : ∀ n, (known.insert current.name current).get? n =
        if current.name = n then some current else known.get? n :=
      fun n => Dictionary.get?_insert known current.name n current
    refine ⟨rfl, by rw [hget, if_pos rfl], current.difference_self, fun n j hj => ?_,
      fun n j hj => ?_⟩
    · rw [hget, if_neg, hj]
      rintro rfl
      rw [hn] at hj
      cases hj
    · rw [hget] at hj
      split at hj
      · next he =>
        cases hj
        exact he
      · exact hk n j hj

end Identities

/-! ### The projects of a module -/

namespace Module

/-- The project is one of the module under the configuration, has the identity that is known under
its name, and fits. -/
structure Has (known : Identities) (module : String) (c : Configuration) (p : Project) : Prop where
  module_eq : p.module = module
  configuration_eq : p.configuration = c
  known : known.get? p.name = some p.identity
  fits : p.Fits

theorem Has.mono {known known' : Identities} {module : String} {c : Configuration} {p : Project}
    (h : Has known module c p) (hg : known.Grows known') : Has known' module c p :=
  { h with known := hg _ _ h.known }

section
variable {ctx : ModuleContext} {module : String} {c : Configuration} {b : Bindings}
  {settings : Dictionary String Settings} {known known' : Identities}

theorem has_of_resolveProject {entry : String × String} {p : Project} (hk : known.Named)
    (h : (resolveProject ctx module c b settings known entry).result = .ok (some (p, known'))) :
    Has known' module c p ∧ known.Grows known' ∧ known'.Named := by
  obtain ⟨d, _, expanded, current, i, _, -, -, -, -, hcur, hmet, -, rfl⟩ := resolveProject_some.mp h
  obtain ⟨hname, hget, hdiff, hgrows, hnamed⟩ := Identities.meet_ok hk hmet
  have hcn : current.name = d.project := (Identity.of_ofSettings hcur).1
  refine ⟨⟨rfl, rfl, ?_, current, ?_, hdiff⟩, hgrows, hnamed⟩
  · rw [Project.name, hname, hget]
  · rw [Project.name, hname, hcn]
    exact hcur

/-- What one declaration adds is had, and so is what was there before. -/
theorem has_of_resolveProjects : ∀ {entries : List (String × String)} {known : Identities}
    {ps ps' : Dictionary String Project}, known.Named → (∀ p ∈ ps.values, Has known module c p) →
      (resolveProjects ctx module c b settings known ps entries).result = .ok (known', ps') →
        (∀ p ∈ ps'.values, Has known' module c p) ∧ known.Grows known' ∧ known'.Named
  | [], _, _, _, hk, hps, h => by
    cases h
    exact ⟨hps, .refl _, hk⟩
  | entry :: entries, known, ps, ps', hk, hps, h => by
    rcases resolveProjects_cons_ok.mp h with ⟨-, h⟩ | ⟨p, known₁, hp, -, h⟩
    · exact has_of_resolveProjects hk hps h
    · obtain ⟨hhas, hgrows, hnamed⟩ := has_of_resolveProject hk hp
      have hps' : ∀ q ∈ (ps.insert p.name p).values, Has known₁ module c q := by
        intro q hq
        rcases Dictionary.mem_values_insert hq with rfl | hq
        · exact hhas
        · exact (hps q hq).mono hgrows
      obtain ⟨h1, h2, h3⟩ := has_of_resolveProjects hnamed hps' h
      exact ⟨h1, hgrows.trans h2, h3⟩

/-- What holds of every project that a declaration adds, and of those that were there, holds of all. -/
theorem forall_of_resolveProjects {P : String × Project → Prop}
    (hP : ∀ {known known' : Identities} {entry : String × String} {p : Project}, known.Named →
      (resolveProject ctx module c b settings known entry).result = .ok (some (p, known')) →
        P (p.name, p)) : ∀ {entries : List (String × String)} {known : Identities}
    {ps ps' : Dictionary String Project}, known.Named → (∀ e ∈ ps.entries, P e) →
      (resolveProjects ctx module c b settings known ps entries).result = .ok (known', ps') →
        (∀ e ∈ ps'.entries, P e) ∧ known'.Named
  | [], _, _, _, hk, hps, h => by
    cases h
    exact ⟨hps, hk⟩
  | entry :: entries, known, ps, ps', hk, hps, h => by
    rcases resolveProjects_cons_ok.mp h with ⟨-, h⟩ | ⟨p, known₁, hp, -, h⟩
    · exact forall_of_resolveProjects hP hk hps h
    · refine forall_of_resolveProjects hP (has_of_resolveProject hk hp).2.2 (fun e he => ?_) h
      rcases Dictionary.mem_put he with rfl | he
      · exact hP hk hp
      · exact hps e he

theorem has_of_runIn_resolveVariant {object : Object} {children : List Object} {template : Template}
    {variant : TemplateVariant} {ps : Dictionary String Project} {s t : Session} (hk : known.Named)
    (h : (resolveVariant ctx object children template known c variant).runIn s =
      (.ok (known', ps), t)) :
    (∀ p ∈ ps.values, Has known' object.name c p) ∧ known.Grows known' ∧ known'.Named := by
  obtain ⟨root, u, -, ⟨-, rfl, rfl, -⟩ | ⟨-, own, v, -, hps, -⟩⟩ := runIn_resolveVariant_ok.mp h
  · exact ⟨by simp [Dictionary.values, Dictionary.empty], .refl _, hk⟩
  · exact has_of_resolveProjects hk (by simp [Dictionary.values, Dictionary.empty]) hps

/-- Behind all configurations, the identities of all projects are known. -/
theorem exists_has_of_runIn_resolveVariants {object : Object} {children : List Object}
    {template : Template} : ∀ {vs : List (Configuration × TemplateVariant)} {known : Identities}
      {out : List (Configuration × Dictionary String Project)} {s t : Session}, known.Named →
        (resolveVariants ctx object children template known vs).runIn s = (.ok out, t) →
          ∃ last : Identities, known.Grows last ∧
            ∀ e ∈ out, ∀ p ∈ e.2.values, Has last object.name e.1 p
  | [], known, _, _, _, _, h => by
    cases h
    exact ⟨known, .refl _, by simp⟩
  | (c, variant) :: vs, known, out, s, t, hk, h => by
    obtain ⟨known₁, ps, more, u, hv, hmore, rfl⟩ := runIn_resolveVariants_cons_ok.mp h
    obtain ⟨hhas, hgrows, hnamed⟩ := has_of_runIn_resolveVariant hk hv
    obtain ⟨last, hlast, hall⟩ := exists_has_of_runIn_resolveVariants hnamed hmore
    refine ⟨last, hgrows.trans hlast, fun e he => ?_⟩
    rcases List.mem_cons.mp he with rfl | he
    · exact fun p hp => (hhas p hp).mono hlast
    · exact hall e he

end

theorem mem_projects {m : Module} {c : Configuration} {p : Project} :
    p ∈ m.projects c ↔ ∃ v ∈ m.variants.entries, v.1 = c ∧ ∃ e ∈ v.2.entries, e.2 = p := by
  unfold projects
  constructor
  · intro hp
    cases hget : m.variants.get? c with
    | none => simp [hget] at hp
    | some ps =>
      simp only [hget, Option.map_some, Option.getD_some] at hp
      exact ⟨(c, ps), Dictionary.mem_of_get? hget, rfl, List.mem_map.mp hp⟩
  · rintro ⟨⟨c, ps⟩, hv, rfl, e, he, rfl⟩
    rw [Dictionary.get?_of_mem hv]
    exact List.mem_map_of_mem he

/-- The projects of a module have one identity for each name. -/
def Consistent (m : Module) : Prop :=
  ∃ known : Identities, ∀ c, ∀ p ∈ m.projects c, Has known m.name c p

theorem consistent_of_runIn_resolve {ctx : ModuleContext} {object : Object} {template : Template}
    {m : Module} {s t : Session} (h : (resolve ctx object template).runIn s = (.ok m, t)) :
    m.Consistent ∧ m.name = object.name := by
  obtain ⟨children, variants, -, hv, rfl⟩ := runIn_resolve_ok.mp h
  obtain ⟨last, -, hall⟩ := exists_has_of_runIn_resolveVariants Identities.named_empty hv
  refine ⟨⟨last, fun c p hp => ?_⟩, rfl⟩
  obtain ⟨v, hv', rfl, e, he, rfl⟩ := mem_projects.mp hp
  exact hall v (Dictionary.mem_of_mem_entries_ofList hv') e.2 (List.mem_map_of_mem he)

end Module

/-! ### The projects of a solution -/

namespace Solution

theorem nodup_of_firstRepeated : ∀ {ns seen : List String}, firstRepeated seen ns = none →
    ns.Nodup ∧ ∀ n ∈ ns, n ∉ seen
  | [], _, _ => ⟨.nil, by simp⟩
  | n :: ns, seen, h => by
    unfold firstRepeated at h
    split at h
    · cases h
    · next hn =>
      obtain ⟨hd, hs⟩ := nodup_of_firstRepeated h
      have hn' : n ∉ seen := by simpa using hn
      refine ⟨List.nodup_cons.mpr ⟨fun hm => hs n hm List.mem_cons_self, hd⟩, fun m hm => ?_⟩
      rcases List.mem_cons.mp hm with rfl | hm
      · exact hn'
      · exact fun hms => hs m hm (List.mem_cons_of_mem _ hms)

/-- Projects that were checked have distinct names. -/
theorem nodup_of_checkProjects {s : Solution} {whitelists : Dictionary Configuration Whitelist}
    {c : Configuration} (h : checkProjects s whitelists c = .ok ()) :
    ((s.projects c).map (·.name)).Nodup := by
  unfold checkProjects at h
  dsimp only at h
  split at h
  · cases h
  · next hn => exact (nodup_of_firstRepeated hn).1

/-- What every module has that is resolved, all of them have. -/
theorem forall_of_runIn_resolveModules {P : String → Module → Prop} {ctx : ModuleContext}
    {templates : Dictionary String Template}
    (hP : ∀ {o : Object} {template : Template} {m : Module} {s t : Session},
      (Module.resolve ctx o template).runIn s = (.ok m, t) → P o.name m) :
    ∀ {os : List Object} {modules out : Dictionary String Module} {s t : Session},
      (∀ e ∈ modules.entries, P e.1 e.2) →
        (resolveModules ctx templates modules os).runIn s = (.ok out, t) →
          ∀ e ∈ out.entries, P e.1 e.2
  | [], _, _, _, _, hm, h => by
    cases h
    exact hm
  | o :: os, modules, out, s, t, hm, h => by
    obtain ⟨-, _, _, module, _, -, -, hres, h⟩ := runIn_resolveModules_cons_ok.mp h
    refine forall_of_runIn_resolveModules hP (fun e he => ?_) h
    rcases Dictionary.mem_put he with rfl | he
    · exact hP hres
    · exact hm e he

/-- Modules under their names, each of them consistent. -/
def Modules (modules : Dictionary String Module) : Prop :=
  ∀ e ∈ modules.entries, e.2.Consistent ∧ e.2.name = e.1

theorem resolved_modules {o : Options} {fs : FileSystem} {d : Document} {s : Solution}
    (h : ResolvesTo o fs d s) : Modules s.modules ∧
      ∀ c ∈ s.configurations, ((s.projects c).map (·.name)).Nodup := by
  obtain ⟨body, cs, -, -, h⟩ := runIn_resolve_ok.mp (Prod.ext h rfl)
  obtain ⟨resolved, templates, modules, u, v, -, -, -, hm, rfl, hc⟩ := runIn_resolveBody_ok.mp h
  exact ⟨forall_of_runIn_resolveModules (P := fun n m => m.Consistent ∧ m.name = n)
      Module.consistent_of_runIn_resolve (by simp [Dictionary.empty]) hm,
    fun c hmem => nodup_of_checkProjects (hc c hmem)⟩

theorem mem_projects {s : Solution} {c : Configuration} {p : Project} :
    p ∈ s.projects c ↔ ∃ e ∈ s.modules.entries, p ∈ e.2.projects c := by
  unfold projects Dictionary.values
  rw [List.mem_flatMap]
  constructor
  · rintro ⟨m, hm, hp⟩
    obtain ⟨e, he, rfl⟩ := List.mem_map.mp hm
    exact ⟨e, he, hp⟩
  · rintro ⟨e, he, hp⟩
    exact ⟨e.2, List.mem_map_of_mem he, hp⟩

/-- Two projects of one name have the same identity if their modules are the same, and are the same
project if their configurations are, and this identity is the one that the settings of each of them
declare, up to the spelling of the source path. -/
theorem identity_eq {o : Options} {fs : FileSystem} {d : Document} {s : Solution}
    (h : ResolvesTo o fs d s) {c₁ c₂ : Configuration} (hc : c₁ ∈ s.configurations)
    {p₁ p₂ : Project} (h₁ : p₁ ∈ s.projects c₁) (h₂ : p₂ ∈ s.projects c₂)
    (hn : p₁.name = p₂.name) :
    (p₁.module = p₂.module → p₁.identity = p₂.identity) ∧ (c₁ = c₂ → p₁ = p₂) ∧
      p₁.Fits ∧ p₂.Fits := by
  obtain ⟨hmodules, hnodup⟩ := resolved_modules h
  obtain ⟨e₁, he₁, hp₁⟩ := mem_projects.mp h₁
  obtain ⟨e₂, he₂, hp₂⟩ := mem_projects.mp h₂
  obtain ⟨⟨known₁, hknown₁⟩, hname₁⟩ := hmodules e₁ he₁
  obtain ⟨⟨known₂, hknown₂⟩, hname₂⟩ := hmodules e₂ he₂
  have hhas₁ := hknown₁ c₁ p₁ hp₁
  have hhas₂ := hknown₂ c₂ p₂ hp₂
  refine ⟨fun hm => ?_, fun hcc => ?_, hhas₁.fits, hhas₂.fits⟩
  · have he : e₁ = e₂ := by
      refine List.inj_on_of_nodup_map s.modules.distinct he₁ he₂ ?_
      rw [← hname₁, ← hname₂, ← hhas₁.module_eq, ← hhas₂.module_eq, hm]
    subst he
    have hk := (hknown₁ c₂ p₂ hp₂).known
    rw [← hn, hhas₁.known] at hk
    exact Option.some.inj hk
  · subst hcc
    exact List.inj_on_of_nodup_map (hnodup c₁ hc) h₁ h₂ hn

end Solution

end BuildPlan
