import BuildPlan.Proofs.Settings.Prepending
import BuildPlan.Proofs.Solution.Shadowing

/-! # Projects that are left out

A declared project is left out if its settings say so, or if it is not admitted. But its settings are
fully expanded before this is looked at. So a declaration of a project that is left out can be dropped or
not with the same result if its settings can be expanded, and otherwise the module is resolved without it
and not with it (`resolve_ok_iff_dropping`, `leftOut_fails`). -/

namespace BuildPlan

open BuildPlan.Variable

theorem Settings.isExcluded_of_expand {s s' : Settings} {b : Bindings} {e : Expansion}
    (h : s.expand b e = .ok s') : s'.isExcluded = s.isExcluded := by
  obtain ⟨bag, hbag, h⟩ := Fallible.bind_ok.mp h
  cases h
  exact (Bag.expand_ok.mp hbag).2.2

namespace Module

/-! ### Declarations -/

section Declarations
variable {ctx : ModuleContext} {module : String} {c : Configuration} {b : Bindings}
  {settings : Dictionary String Settings} {known : Identities} {entry : String × String}

/-- The names of the declaration expand and its settings are there, and these leave the project out or it
is not admitted. -/
def LeftOut (ctx : ModuleContext) (c : Configuration) (b : Bindings)
    (settings : Dictionary String Settings) (entry : String × String) : Prop :=
  ∃ d compiled, Declaration.expand b entry = .ok d ∧ settings.get? d.settings = some compiled ∧
    (compiled.isExcluded || !ctx.allows c d.project) = true

/-- The settings of the declaration can be fully expanded for its project. -/
def Expands (b : Bindings) (settings : Dictionary String Settings) (entry : String × String) : Prop :=
  ∃ d compiled expanded, Declaration.expand b entry = .ok d ∧
    settings.get? d.settings = some compiled ∧
    compiled.expand (b.bind projectName d.project) .complete = .ok expanded

/-- A declaration that leaves its project out gives nothing, but only if its settings expand. -/
theorem resolveProject_leftOut (h : LeftOut ctx c b settings entry)
    {r : Option (Project × Identities)} :
    (resolveProject ctx module c b settings known entry).result = .ok r ↔
      r = none ∧ Expands b settings entry := by
  obtain ⟨d, compiled, hd, hc, hx⟩ := h
  constructor
  · intro hr
    cases r with
    | none =>
      obtain ⟨d', compiled', expanded, hd', hc', he, -⟩ := resolveProject_none.mp hr
      exact ⟨rfl, d', compiled', expanded, hd', hc', he⟩
    | some r =>
      obtain ⟨d', compiled', expanded, _, _, _, hd', hc', he, hx', -⟩ := resolveProject_some.mp hr
      cases hd.symm.trans hd'
      cases hc.symm.trans hc'
      rw [Settings.isExcluded_of_expand he, hx] at hx'
      cases hx'
  · rintro ⟨rfl, d', compiled', expanded, hd', hc', he⟩
    cases hd.symm.trans hd'
    cases hc.symm.trans hc'
    exact resolveProject_none.mpr ⟨d, compiled, expanded, hd, hc, he,
      (Settings.isExcluded_of_expand he).symm ▸ hx⟩

/-- **Declarations that leave their projects out may be dropped, but for the expansion of their
settings.** -/
theorem resolveProjects_leftOut {drop : String × String → Bool}
    {out : Identities × Dictionary String Project} : ∀ {entries : List (String × String)}
      {known : Identities} {ps : Dictionary String Project},
        (∀ e ∈ entries, drop e = true → LeftOut ctx c b settings e) →
          ((resolveProjects ctx module c b settings known ps entries).result = .ok out ↔
            (resolveProjects ctx module c b settings known ps
              (entries.filter (!drop ·))).result = .ok out ∧
            ∀ e ∈ entries, drop e = true → Expands b settings e)
  | [], _, _, _ => by simp
  | e :: es, known, ps, h => by
    obtain ⟨he, hes⟩ := List.forall_mem_cons.mp h
    rw [resolveProjects_cons_ok, List.forall_mem_cons]
    cases hd : drop e with
    | true =>
      have hout := he hd
      rw [List.filter_cons_of_neg (by simp [hd])]
      simp only [resolveProject_leftOut hout, true_and, reduceCtorEq, false_and, exists_false, or_false,
        resolveProjects_leftOut hes]
      tauto
    | false =>
      rw [List.filter_cons_of_pos (by simp [hd]), resolveProjects_cons_ok]
      simp only [resolveProjects_leftOut hes, Bool.false_eq_true, false_imp_iff, true_and]
      constructor
      · rintro (⟨hr, hrest, hall⟩ | ⟨p, known', hr, hn, hrest, hall⟩)
        · exact ⟨Or.inl ⟨hr, hrest⟩, hall⟩
        · exact ⟨Or.inr ⟨p, known', hr, hn, hrest⟩, hall⟩
      · rintro ⟨⟨hr, hrest⟩ | ⟨p, known', hr, hn, hrest⟩, hall⟩
        · exact Or.inl ⟨hr, hrest, hall⟩
        · exact Or.inr ⟨p, known', hr, hn, hrest, hall⟩

end Declarations

/-! ### Modules without some declarations -/

section Modules
variable {drop : Configuration → Dictionary String Settings → String × String → Bool}
  {ctx : ModuleContext} {object : Object} {children : List Object} {template : Template}
  {known : Identities} {c : Configuration} {variant : TemplateVariant}

/-- Resolves a module for one configuration without the declarations that are dropped there, where these
settings are in effect. -/
def resolveVariantDropping
    (drop : Configuration → Dictionary String Settings → String × String → Bool)
    (ctx : ModuleContext) (object : Object) (children : List Object) (template : Template)
    (known : Identities) (c : Configuration) (variant : TemplateVariant) :
    Compile (Identities × Dictionary String Project) :=
  compileRoot ctx object template c variant >>= fun root =>
    if root.isExcluded then pure (known, .empty)
    else compileOwn ctx object children template c variant >>= fun own =>
      let settings := variant.settings.insertAll own.entries
      Compile.ofLogged (resolveProjects ctx object.name c (bindingsIn ctx object template c) settings
        known .empty (root.projectDeclarations.filter (!drop c settings ·)))

/-- Resolves a module for configurations, one after another, without the dropped declarations. -/
def resolveVariantsDropping
    (drop : Configuration → Dictionary String Settings → String × String → Bool)
    (ctx : ModuleContext) (object : Object) (children : List Object) (template : Template) :
    Identities → List (Configuration × TemplateVariant) →
      Compile (List (Configuration × Dictionary String Project))
  | _, [] => return []
  | known, (c, variant) :: rest => do
    let (known, projects) ←
      resolveVariantDropping drop ctx object children template known c variant
    return (c, projects) ::
      (← resolveVariantsDropping drop ctx object children template known rest)

/-- Resolves a module without the dropped declarations. -/
def resolveDropping (drop : Configuration → Dictionary String Settings → String × String → Bool)
    (ctx : ModuleContext) (object : Object) (template : Template) : Compile Module := do
  let children ← Compile.ofFallible object.settingsObjects
  let variants ← resolveVariantsDropping drop ctx object children template .empty
    template.variants.entries
  return ⟨object.name, template.name, .ofList variants⟩

theorem resolveVariantsDropping_nothing : ∀ (vs : List (Configuration × TemplateVariant))
    (known : Identities),
      resolveVariantsDropping (fun _ _ _ => false) ctx object children template known vs =
        resolveVariants ctx object children template known vs
  | [], _ => rfl
  | (c, variant) :: vs, known => by
    have hvariant : resolveVariantDropping (fun _ _ _ => false) ctx object children template known c
        variant = resolveVariant ctx object children template known c variant := by
      rw [resolveVariant_eq, resolveVariantDropping]
      simp only [Bool.not_false, List.filter_true]
    rw [resolveVariantsDropping, resolveVariants, hvariant]
    simp only [resolveVariantsDropping_nothing vs]

/-- If nothing is dropped, the module is resolved as it is. -/
theorem resolveDropping_nothing :
    resolveDropping (fun _ _ _ => false) ctx object template = resolve ctx object template := by
  unfold resolveDropping resolve
  simp only [resolveVariantsDropping_nothing]

/-- Under the configuration, the settings of all declarations that are dropped can be expanded. -/
def ExpandsDropped (drop : Configuration → Dictionary String Settings → String × String → Bool)
    (ctx : ModuleContext) (object : Object) (children : List Object) (template : Template)
    (c : Configuration) (variant : TemplateVariant) : Prop :=
  ∀ root own, (compileRoot ctx object template c variant).fresh.result = .ok root →
    root.isExcluded = false →
    (compileOwn ctx object children template c variant).fresh.result = .ok own →
    ∀ entry ∈ root.projectDeclarations,
      drop c (variant.settings.insertAll own.entries) entry = true →
      Expands (bindingsIn ctx object template c) (variant.settings.insertAll own.entries) entry

theorem fresh_resolveVariant_dropping {out : Identities × Dictionary String Project}
    (hdrop : ∀ settings entry, drop c settings entry = true →
      LeftOut ctx c (bindingsIn ctx object template c) settings entry) :
    (resolveVariant ctx object children template known c variant).fresh.result = .ok out ↔
      (resolveVariantDropping drop ctx object children template known c variant).fresh.result =
        .ok out ∧ ExpandsDropped drop ctx object children template c variant := by
  rw [resolveVariant_eq, resolveVariantDropping, Compile.result_fresh_bind_ok,
    Compile.result_fresh_bind_ok]
  constructor
  · rintro ⟨root, hroot, h⟩
    split at h
    · next hx =>
      refine ⟨⟨root, hroot, by rw [if_pos hx]; exact h⟩, fun root' _ hroot' hx' => ?_⟩
      cases hroot.symm.trans hroot'
      rw [hx] at hx'
      cases hx'
    · next hx =>
      obtain ⟨own, hown, h⟩ := Compile.result_fresh_bind_ok.mp h
      obtain ⟨hps, hexp⟩ := (resolveProjects_leftOut fun entry _ => hdrop _ entry).mp h
      refine ⟨⟨root, hroot, ?_⟩, fun root' own' hroot' _ hown' => ?_⟩
      · rw [if_neg hx]
        exact Compile.result_fresh_bind_ok.mpr ⟨own, hown, hps⟩
      · cases hroot.symm.trans hroot'
        cases hown.symm.trans hown'
        exact hexp
  · rintro ⟨⟨root, hroot, h⟩, hexp⟩
    refine ⟨root, hroot, ?_⟩
    split at h
    · next hx =>
      rw [if_pos hx]
      exact h
    · next hx =>
      obtain ⟨own, hown, hps⟩ := Compile.result_fresh_bind_ok.mp h
      rw [if_neg hx]
      exact Compile.result_fresh_bind_ok.mpr ⟨own, hown, (resolveProjects_leftOut
        fun entry _ => hdrop _ entry).mpr
          ⟨hps, hexp root own hroot (Bool.eq_false_iff.mpr hx) hown⟩⟩

theorem fresh_resolveVariants_dropping (hdrop : ∀ c settings entry, drop c settings entry = true →
    LeftOut ctx c (bindingsIn ctx object template c) settings entry) :
    ∀ {vs : List (Configuration × TemplateVariant)} {known : Identities}
      {out : List (Configuration × Dictionary String Project)},
        (resolveVariants ctx object children template known vs).fresh.result = .ok out ↔
          (resolveVariantsDropping drop ctx object children template known vs).fresh.result =
            .ok out ∧ ∀ v ∈ vs, ExpandsDropped drop ctx object children template v.1 v.2
  | [], _, _ => by simp [resolveVariants, resolveVariantsDropping]
  | (c, variant) :: vs, known, out => by
    rw [resolveVariants, resolveVariantsDropping, Compile.result_fresh_bind_ok,
      Compile.result_fresh_bind_ok, List.forall_mem_cons]
    constructor
    · rintro ⟨⟨known', ps⟩, hv, h⟩
      obtain ⟨more, hmore, h⟩ := Compile.result_fresh_bind_ok.mp h
      obtain ⟨hv, hexp⟩ := (fresh_resolveVariant_dropping (hdrop c)).mp hv
      obtain ⟨hmore, hall⟩ := (fresh_resolveVariants_dropping hdrop).mp hmore
      exact ⟨⟨_, hv, Compile.result_fresh_bind_ok.mpr ⟨more, hmore, h⟩⟩, hexp, hall⟩
    · rintro ⟨⟨⟨known', ps⟩, hv, h⟩, hexp, hall⟩
      obtain ⟨more, hmore, h⟩ := Compile.result_fresh_bind_ok.mp h
      exact ⟨_, (fresh_resolveVariant_dropping (hdrop c)).mpr ⟨hv, hexp⟩,
        Compile.result_fresh_bind_ok.mpr
          ⟨more, (fresh_resolveVariants_dropping hdrop).mpr ⟨hmore, hall⟩, h⟩⟩

/-- **A project that is left out fails its module exactly if its settings cannot be expanded.** Let
declarations be dropped under some configurations, each of them one whose names expand, whose settings are
there, and whose project is left out by these settings or not admitted. With them the module is resolved
if and only if it is resolved without them and their settings can be expanded, and then to the same
projects under every configuration. -/
theorem resolve_ok_iff_dropping (hdrop : ∀ c settings entry, drop c settings entry = true →
    LeftOut ctx c (bindingsIn ctx object template c) settings entry) {m : Module} :
    (resolve ctx object template).fresh.result = .ok m ↔
      (resolveDropping drop ctx object template).fresh.result = .ok m ∧
        ∀ children, object.settingsObjects = .ok children → ∀ v ∈ template.variants.entries,
          ExpandsDropped drop ctx object children template v.1 v.2 := by
  rw [resolve, resolveDropping, Compile.result_fresh_bind_ok, Compile.result_fresh_bind_ok]
  constructor
  · rintro ⟨children, hch, h⟩
    obtain ⟨variants, hvs, h⟩ := Compile.result_fresh_bind_ok.mp h
    obtain ⟨hvs, hexp⟩ := (fresh_resolveVariants_dropping hdrop).mp hvs
    refine ⟨⟨children, hch, Compile.result_fresh_bind_ok.mpr ⟨variants, hvs, h⟩⟩,
      fun children' hch' => ?_⟩
    have he : object.settingsObjects = .ok children := hch
    cases he.symm.trans hch'
    exact hexp
  · rintro ⟨⟨children, hch, h⟩, hexp⟩
    obtain ⟨variants, hvs, h⟩ := Compile.result_fresh_bind_ok.mp h
    exact ⟨children, hch, Compile.result_fresh_bind_ok.mpr ⟨variants,
      (fresh_resolveVariants_dropping hdrop).mpr ⟨hvs, hexp children hch⟩, h⟩⟩

end Modules

/-! ### A declaration that is dropped -/

/-- A template with two projects, of which the second one is left out by settings with this root
namespace. -/
def excluding (space : String) : Object :=
  ⟨⟨Solution.templateKind, "T", none⟩,
    [.assignment ⟨.add, ["projects"], .array [.pair "P" (.literal "S"), .pair "Q" (.literal "X")],
        always⟩,
      .object ⟨settingsKind, "S", none⟩ [],
      .object ⟨settingsKind, "X", none⟩
        [.assignment ⟨.set, ["root", "namespace"], .literal space, always⟩,
          .invocation ⟨"exclude", none, always⟩]]⟩

/-- The resolved template. -/
def excludingTemplate (space : String) : Template :=
  ((Template.resolve (excluding space) [debug] .empty .empty).fresh.result.toOption).getD
    ⟨"", .empty, .empty⟩

/-- A module that adds nothing to its template. -/
def plainCore : Object := ⟨⟨Solution.moduleKind, "Core", some "T"⟩, []⟩

/-- The second project is dropped where its settings leave it out. -/
def dropsSecond (_ : Configuration) (settings : Dictionary String Settings)
    (entry : String × String) : Bool :=
  entry = ("Q", "X") && (settings.get? "X").any (·.isExcluded)

theorem leftOut_of_dropsSecond (b : Bindings) {c : Configuration}
    {settings : Dictionary String Settings} {entry : String × String}
    (h : dropsSecond c settings entry = true) : LeftOut openContext c b settings entry := by
  obtain ⟨he, hx⟩ := Bool.and_eq_true_iff.mp h
  obtain rfl := of_decide_eq_true he
  cases hc : settings.get? "X" with
  | none =>
    rw [hc] at hx
    cases hx
  | some compiled =>
    rw [hc, Option.any_some] at hx
    exact ⟨⟨"Q", "X"⟩, compiled, rfl, hc, by rw [hx, Bool.true_or]⟩

/-- The names of the projects of a resolved module. -/
def resolvesTo (m : Compile Module) (names : List String) : Bool :=
  m.fresh.result.toOption.any fun m => (m.projects debug).map (·.name) = names

/-- Settings that can be expanded may be dropped with their project. -/
theorem resolve_ok_iff_excluding : ∃ m,
    (resolve openContext plainCore (excludingTemplate "Space")).fresh.result = .ok m ∧
      (resolveDropping dropsSecond openContext plainCore (excludingTemplate "Space")).fresh.result =
        .ok m ∧ (m.projects debug).map (·.name) = ["P"] := by
  have hrun : resolvesTo (resolve openContext plainCore (excludingTemplate "Space")) ["P"] = true := by
    decide +kernel
  unfold resolvesTo at hrun
  cases hr : (resolve openContext plainCore (excludingTemplate "Space")).fresh.result with
  | error e =>
    rw [hr] at hrun
    cases hrun
  | ok m =>
    rw [hr] at hrun
    exact ⟨m, rfl, ((resolve_ok_iff_dropping fun _ _ _ => leftOut_of_dropsSecond _).mp hr).1,
      of_decide_eq_true hrun⟩

/-- **A project that is left out fails its module** if its settings hold a reference that nothing
binds: without its declaration the module has the other project. -/
theorem leftOut_fails :
    (∀ c settings entry, dropsSecond c settings entry = true → LeftOut openContext c
      (bindingsIn openContext plainCore (excludingTemplate "$(NOPE)") c) settings entry) ∧
    resolvesTo (resolveDropping dropsSecond openContext plainCore (excludingTemplate "$(NOPE)"))
      ["P"] = true ∧
    ∀ m, (resolve openContext plainCore (excludingTemplate "$(NOPE)")).fresh.result ≠ .ok m := by
  refine ⟨fun _ _ _ => leftOut_of_dropsSecond _, by decide +kernel, fun m hm => ?_⟩
  have hnone : (resolve openContext plainCore
      (excludingTemplate "$(NOPE)")).fresh.result.toOption.isNone = true := by
    decide +kernel
  rw [hm] at hnone
  cases hnone

end Module

end BuildPlan
