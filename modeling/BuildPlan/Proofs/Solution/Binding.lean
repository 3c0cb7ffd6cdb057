import BuildPlan.Proofs.Solution.Declarations

/-! # Settings names of declarations

A declaration names settings, and it means the object that is declared with that name. The names of objects
are looked up as they are written, and the name in a declaration is expanded before. So a project has the
settings of the object whose name the expansion is, which is the named object only if the expansion
changes nothing, and a module fails for unknown settings if no object has that name
(`bound_as_expanded`, `named_settings_unknown`). -/

namespace BuildPlan

open BuildPlan.Variable

/-! ### Failures for unknown settings -/

namespace Fallible

variable {α β : Type} {P Q : String → String → Prop} {r : Fallible α} {f : α → Fallible β}

/-- If it fails since a project has unknown settings, the names of both are related. -/
def UnknownOnly (P : String → String → Prop) (r : Fallible α) : Prop :=
  ∀ project settings, r = .error (Cause.unknownSettings project settings).failure → P project settings

theorem unknownOnly_ok (a : α) : UnknownOnly P (.ok a : Fallible α) := by
  intro project settings h
  cases h

/-- A cause of another kind. -/
theorem unknownOnly_raise {cause : Cause} (h : ∀ q w, cause ≠ .unknownSettings q w) :
    UnknownOnly P (cause.raise : Fallible α) :=
  fun q w hr => absurd (congrArg Failure.cause (Except.error.inj hr)) (h q w)

/-- A failure for unknown settings has no context. -/
theorem unknownOnly_within (context : String) (r : Fallible α) : UnknownOnly P (r.within context) := by
  intro project settings h
  cases r with
  | ok a => cases h
  | error e =>
    have hcontexts := congrArg Failure.contexts (Except.error.inj h)
    cases hcontexts

theorem UnknownOnly.imp (h : r.UnknownOnly P) (hPQ : ∀ p s, P p s → Q p s) : r.UnknownOnly Q :=
  fun p s hr => hPQ p s (h p s hr)

theorem UnknownOnly.bind (h : r.UnknownOnly P) (hf : ∀ a, r = .ok a → (f a).UnknownOnly P) :
    (r >>= f).UnknownOnly P := by
  cases r with
  | ok a => exact hf a rfl
  | error e => exact fun p s hr => h p s (congrArg Except.error (Except.error.inj hr))

theorem unknownOnly_mapM (h : ∀ a, (f a).UnknownOnly P) : ∀ as : List α, (as.mapM f).UnknownOnly P
  | [] => unknownOnly_ok _
  | a :: as => by
    rw [List.mapM_cons]
    exact (h a).bind fun _ _ => (unknownOnly_mapM h as).bind fun _ _ => unknownOnly_ok _

end Fallible

open Fallible

section Parts
variable {P : String → String → Prop}

theorem Variable.unknownOnly_expand (b : Bindings) (text : String) :
    (Variable.expand b .complete text).UnknownOnly P := by
  refine (unknownOnly_mapM (fun s => ?_) _).bind fun _ _ => unknownOnly_ok _
  unfold evaluate
  split
  · exact unknownOnly_ok _
  · split
    · exact unknownOnly_ok _
    · exact unknownOnly_raise fun _ _ h => by cases h
  · exact unknownOnly_raise fun _ _ h => by cases h

theorem unknownOnly_meet (known : Identities) (current : Identity) (c : Configuration) :
    (known.meet current c).UnknownOnly P := by
  unfold Identities.meet
  split
  · refine UnknownOnly.bind ?_ fun _ _ => unknownOnly_ok _
    unfold Identity.check
    split
    · exact unknownOnly_raise fun _ _ h => by cases h
    · exact unknownOnly_ok _
  · exact unknownOnly_ok _

theorem unknownOnly_settingsObjects (o : Object) : o.settingsObjects.UnknownOnly P := by
  have hfrom : ∀ (os : List Object) (seen : List String),
      (settingsObjectsFrom o.heading seen os).UnknownOnly P := by
    intro os
    induction os with
    | nil => exact fun _ => unknownOnly_ok _
    | cons child os ih =>
      intro seen
      unfold settingsObjectsFrom
      split
      · exact unknownOnly_raise fun _ _ h => by cases h
      · split
        · exact unknownOnly_raise fun _ _ h => by cases h
        · exact (ih _).bind fun _ _ => unknownOnly_ok _
  exact hfrom _ _

theorem Job.unknownOnly_answerAnew (j : Job) (external : NameSet) :
    (j.answerAnew external).result.UnknownOnly P := by
  unfold answerAnew
  split
  · exact unknownOnly_raise fun _ _ h => by cases h
  · exact unknownOnly_within _ _

theorem Compile.result_fresh_within {α : Type} (context : String) (m : Compile α) :
    (m.within context).fresh.result = m.fresh.result.within context := by
  induction m with
  | done r => rfl
  | warn _ _ ih => exact ih
  | ask _ _ _ ih => exact ih _

end Parts

namespace Module

section Stages
variable {ctx : ModuleContext} {module : String} {c : Configuration} {b : Bindings}
  {settings : Dictionary String Settings} {object : Object} {children : List Object}
  {template : Template} {variant : TemplateVariant}

/-- The declaration expands to these names, and there are no settings of its name. -/
def Unbound (b : Bindings) (settings : Dictionary String Settings) (entry : String × String)
    (q w : String) : Prop :=
  Declaration.expand b entry = .ok ⟨q, w⟩ ∧ settings.get? w = none

theorem unknownOnly_resolveProject (known : Identities) (entry : String × String) :
    (resolveProject ctx module c b settings known entry).result.UnknownOnly
      (Unbound b settings entry) := by
  unfold resolveProject
  rw [Logged.result_bind]
  refine UnknownOnly.bind ?_ fun d hd => ?_
  · exact (unknownOnly_expand b _).bind fun _ _ =>
      (unknownOnly_expand b _).bind fun _ _ => unknownOnly_ok _
  · have hd : Declaration.expand b entry = .ok d := hd
    dsimp only
    split
    · next hn =>
      intro q w h
      cases h
      exact ⟨hd, hn⟩
    · rw [Logged.result_bind]
      refine (unknownOnly_within _ _).bind fun expanded _ => ?_
      split
      · exact unknownOnly_ok _
      · simp only [Logged.result_bind]
        refine (unknownOnly_within _ _).bind fun current _ => ?_
        refine (unknownOnly_meet known current c).bind fun met _ => ?_
        exact (unknownOnly_within _ _).bind fun files _ => unknownOnly_ok _

/-- Projects fail for unknown settings only if one of their declarations is unbound. -/
theorem unknownOnly_resolveProjects : ∀ (entries : List (String × String)) (known : Identities)
    (ps : Dictionary String Project),
      (resolveProjects ctx module c b settings known ps entries).result.UnknownOnly
        fun q w => ∃ entry ∈ entries, Unbound b settings entry q w
  | [], _, _ => unknownOnly_ok _
  | entry :: entries, known, ps => by
    rw [resolveProjects, Logged.result_bind]
    refine UnknownOnly.bind ?_ fun r _ => ?_
    · exact (unknownOnly_resolveProject known entry).imp fun q w h =>
        ⟨entry, List.mem_cons_self, h⟩
    · have hrest : ∀ known ps,
          (resolveProjects ctx module c b settings known ps entries).result.UnknownOnly
            fun q w => ∃ e ∈ entry :: entries, Unbound b settings e q w := by
        intro known ps
        refine (unknownOnly_resolveProjects entries known ps).imp ?_
        rintro q w ⟨e, he, h⟩
        exact ⟨e, List.mem_cons_of_mem _ he, h⟩
      cases r with
      | none => exact hrest known ps
      | some r =>
        dsimp only
        split
        · exact unknownOnly_raise fun _ _ h => by cases h
        · exact hrest r.2 _

/-- The settings in effect in a module: those of its template, and in their place its own ones. -/
def InEffect (ctx : ModuleContext) (object : Object) (children : List Object) (template : Template)
    (c : Configuration) (variant : TemplateVariant) (settings : Dictionary String Settings) : Prop :=
  ∃ own : Dictionary String Settings,
    (Heir.compileAll variant.settings
      (fun child base => Job.compile ⟨child, object.heading.display, .settings, some c, base,
        bindingsIn ctx object template c⟩ ctx.external)
      (heirs template children)).fresh.result = .ok own ∧
    settings = variant.settings.insertAll own.entries

/-- Under the configuration, one of the declarations that a module goes through is unbound. -/
def UnboundIn (ctx : ModuleContext) (object : Object) (children : List Object) (template : Template)
    (c : Configuration) (variant : TemplateVariant) (q w : String) : Prop :=
  ∃ root settings, rootAnew ctx object template c variant = .ok root ∧
    InEffect ctx object children template c variant settings ∧
    ∃ entry ∈ root.projectDeclarations, Unbound (bindingsIn ctx object template c) settings entry q w

theorem unknownOnly_resolveVariant (known : Identities) :
    (resolveVariant ctx object children template known c variant).fresh.result.UnknownOnly
      (UnboundIn ctx object children template c variant) := by
  rw [resolveVariant_eq, Compile.fresh_bind, Logged.result_bind, compileRoot, Compile.fresh_compile]
  refine (Job.unknownOnly_answerAnew _ _).bind fun root hroot => ?_
  split
  · exact unknownOnly_ok _
  · rw [Compile.fresh_bind, Logged.result_bind, compileOwn, Compile.result_fresh_within]
    refine (unknownOnly_within _ _).bind fun own hown => ?_
    refine (unknownOnly_resolveProjects _ _ _).imp fun q w h => ?_
    exact ⟨root, _, hroot, ⟨own, Fallible.within_ok.mp hown, rfl⟩, h⟩

theorem unknownOnly_resolveVariants : ∀ (vs : List (Configuration × TemplateVariant))
    (known : Identities),
      (resolveVariants ctx object children template known vs).fresh.result.UnknownOnly
        fun q w => ∃ v ∈ vs, UnboundIn ctx object children template v.1 v.2 q w
  | [], _ => unknownOnly_ok _
  | (c, variant) :: vs, known => by
    rw [resolveVariants, Compile.fresh_bind, Logged.result_bind]
    refine UnknownOnly.bind ?_ fun out _ => ?_
    · exact (unknownOnly_resolveVariant known).imp fun q w h => ⟨_, List.mem_cons_self, h⟩
    · rw [Compile.fresh_bind, Logged.result_bind]
      refine UnknownOnly.bind ?_ fun _ _ => unknownOnly_ok _
      refine (unknownOnly_resolveVariants vs out.1).imp ?_
      rintro q w ⟨v, hv, h⟩
      exact ⟨v, List.mem_cons_of_mem _ hv, h⟩

/-- **A module fails for unknown settings only if under some configuration one of its declarations is
unbound.** -/
theorem unknownOnly_resolve : (resolve ctx object template).fresh.result.UnknownOnly fun q w =>
    ∃ children, object.settingsObjects = .ok children ∧
      ∃ c variant, template.variants.get? c = some variant ∧
        UnboundIn ctx object children template c variant q w := by
  rw [resolve, Compile.fresh_bind, Logged.result_bind]
  refine (unknownOnly_settingsObjects object).bind fun children hch => ?_
  rw [Compile.fresh_bind, Logged.result_bind]
  refine UnknownOnly.bind ?_ fun _ _ => unknownOnly_ok _
  refine (unknownOnly_resolveVariants _ _).imp ?_
  rintro q w ⟨v, hv, h⟩
  exact ⟨children, hch, v.1, v.2, Dictionary.get?_of_mem hv, h⟩

end Stages

end Module

/-! ### The names of settings -/

theorem Heir.CompilesTo.name_eq {hs : List Heir} {inherited : Dictionary String Settings}
    {compile : Object → Option Settings → Fallible Settings} {h : Heir} {s : Settings}
    (hc : ∀ o base s, compile o base = .ok s → s.name = o.name)
    (hs : CompilesTo hs inherited compile h s) : s.name = h.name := by
  cases hs with
  | origin _ h => exact hc _ _ _ h
  | within _ _ _ _ h => exact hc _ _ _ h
  | beyond _ _ _ h => exact hc _ _ _ h

/-- Settings have the name of the object that was compiled. -/
theorem Job.name_of_answerAnew {j : Job} {external : NameSet} {s : Settings}
    (h : (j.answerAnew external).result = .ok s) : s.name = j.object.name := by
  obtain ⟨-, _, _, _, -, -, rfl⟩ := answerAnew_ok.mp h
  rfl

/-- A template has settings under the names of its settings objects, and they have these names. -/
theorem Template.settings_of_fresh_resolve {origin : Object} {cs : List Configuration}
    {external : NameSet} {b : Bindings} {template : Template}
    (h : (resolve origin cs external b).fresh.result = .ok template) :
    template.name = origin.name ∧ ∃ declared, origin.settingsObjects = .ok declared ∧
      ∀ c variant, template.variants.get? c = some variant →
        rootAnew origin external b c = .ok variant.root ∧
          (∀ n ∈ declared.map Object.name, ∃ s, variant.settings.get? n = some s) ∧
          ∀ n s, variant.settings.get? n = some s → s.name = n := by
  obtain ⟨hname, declared, hdeclared, hall⟩ := variants_of_fresh_resolve h
  refine ⟨hname, declared, hdeclared, fun c variant hv => ?_⟩
  obtain ⟨hroot, hsettings⟩ := hall c variant hv
  have hd : ((declared.map fun child => (⟨child, child.base⟩ : Heir)).map Heir.name).Nodup := by
    rw [List.map_map]
    exact (settingsObjects_ok hdeclared).2
  rw [compileSettings, Compile.fresh_within_ok] at hsettings
  obtain ⟨hcompiled, honly⟩ := Heir.compilesTo_of_compileAll hd hsettings
  refine ⟨hroot, fun n hn => ?_, fun n s hs => ?_⟩
  · obtain ⟨child, hchild, rfl⟩ := List.mem_map.mp hn
    obtain ⟨s, hs, -⟩ := hcompiled ⟨child, child.base⟩ (List.mem_map_of_mem hchild)
    exact ⟨s, hs⟩
  · by_cases hn : n ∈ (declared.map fun child => (⟨child, child.base⟩ : Heir)).map Heir.name
    · obtain ⟨h, hh, rfl⟩ := List.mem_map.mp hn
      obtain ⟨s', hs', hcomp⟩ := hcompiled h hh
      cases hs.symm.trans hs'
      simp only [Compile.fresh_compile] at hcomp
      exact hcomp.name_eq fun _ _ _ => Job.name_of_answerAnew
    · rw [honly n hn] at hs
      cases hs

namespace Module

variable {ctx : ModuleContext} {object : Object} {children : List Object} {template : Template}
  {c : Configuration} {variant : TemplateVariant}

/-- There are settings of every name that the template or the module declares. -/
theorem InEffect.get?_eq_none {declared : List Object} {settings : Dictionary String Settings}
    {n : String} (h : InEffect ctx object children template c variant settings)
    (hd : (children.map Object.name).Nodup)
    (hv : ∀ n ∈ declared.map Object.name, ∃ s, variant.settings.get? n = some s)
    (hn : settings.get? n = none) : n ∉ (declared ++ children).map Object.name := by
  obtain ⟨own, hown, rfl⟩ := h
  rw [Dictionary.get?_insertAll_entries, Option.or_eq_none_iff] at hn
  rw [List.map_append, List.mem_append]
  rintro (hm | hm)
  · obtain ⟨s, hs⟩ := hv n hm
    rw [hs] at hn
    cases hn.2
  · obtain ⟨child, hchild, rfl⟩ := List.mem_map.mp hm
    have hnames : (heirs template children).map Heir.name = children.map Object.name := by
      rw [heirs, List.map_map]
      rfl
    obtain ⟨hall, -⟩ := Heir.compilesTo_of_compileAll (hnames ▸ hd) hown
    obtain ⟨s, hs, -⟩ := hall (heir template child) (List.mem_map_of_mem hchild)
    rw [show own.get? child.name = some s from hs] at hn
    cases hn.1

/-- The settings of a name have that name. -/
theorem SettingsOf.name_eq {n : String} {compiled : Settings}
    (h : SettingsOf ctx object children template c variant n compiled)
    (hv : ∀ n s, variant.settings.get? n = some s → s.name = n) : compiled.name = n := by
  rcases h with ⟨child, -, rfl, hall⟩ | ⟨-, hn⟩
  · exact ((hall compiled).mpr rfl).name_eq fun _ _ _ => Job.name_of_answerAnew
  · exact hv n compiled hn

/-! ### Written declarations -/

/-- The declarations in the bodies of a template and its module, merged as they are written, where expanding
them keeps what they mean: they settle, in the template as well, and no two projects become one. -/
structure Written (ctx : ModuleContext) (origin object : Object) (template : Template)
    (c : Configuration) (raw : List (String × String)) : Prop where
  own : ∃ own, writtenDeclarations (ctx.external.union c.constants) [origin.body] = .ok own ∧
    AllSettle (Template.bindingsIn origin ctx.bindings c) own
  merged : writtenDeclarations (ctx.external.union c.constants) [origin.body, object.body] = .ok raw
  settle : AllSettle (bindingsIn ctx object template c) raw
  apart : Dictionary.Apart (deferred (bindingsIn ctx object template c)) (raw.map Prod.fst)

/-- The module goes through the written declarations, expanded as far as possible. -/
theorem Written.projectDeclarations {origin : Object} {raw : List (String × String)} {root : Settings}
    (h : Written ctx origin object template c raw) (hname : template.name = origin.name)
    (hb : ctx.bindings.get? moduleName = none)
    (horigin : Template.rootAnew origin ctx.external ctx.bindings c = .ok variant.root)
    (hroot : rootAnew ctx object template c variant = .ok root) :
    root.projectDeclarations = raw.map (Prod.map (deferred (bindingsIn ctx object template c))
      (deferred (bindingsIn ctx object template c))) := by
  obtain ⟨-, bag, flow, expanded, hw, he, hvariant⟩ := Job.answerAnew_ok.mp horigin
  obtain ⟨-, two, flow', two', hw', he', hbag⟩ := Job.answerAnew_ok.mp hroot
  have hbag' : two.expand (bindingsIn ctx object template c) .deferring = .ok root.bag := by
    rw [hbag]
    exact he'
  rw [Job.start, hvariant] at hw'
  obtain ⟨own, raw', hown, hraw, hstages⟩ :=
    declarations_of_stages (orElse_bindingsIn hname hb c) hw he hw' hbag'
  obtain ⟨own', hown', hsettle⟩ := h.own
  cases hown.symm.trans hown'
  cases hraw.symm.trans h.merged
  exact (hstages hsettle).2 h.apart

/-- The declaration is bound to the settings of the name to which its settings name expands, and so is its
project, unless they leave it out or it is not admitted. These are the settings of the written name just if
that is what it expands to. -/
def BoundAsExpanded (ctx : ModuleContext) (object : Object) (children : List Object)
    (template : Template) (c : Configuration) (variant : TemplateVariant)
    (projects : Dictionary String Project) (e : String × String) : Prop :=
  ∃ d compiled expanded, Declaration.expand (bindingsIn ctx object template c) e = .ok d ∧
    SettingsOf ctx object children template c variant d.settings compiled ∧
    compiled.expand ((bindingsIn ctx object template c).bind projectName d.project) .complete =
      .ok expanded ∧
    (expanded.isExcluded = false → ctx.allows c d.project = true →
      ∃ p, projects.get? d.project = some p ∧ p.settings = expanded) ∧
    (SettingsOf ctx object children template c variant e.2 compiled ↔ d.settings = e.2)

/-- Under every configuration in which the module is not left out, every declaration that is written and
still there is bound to the settings of the name to which its settings name expands. -/
def BindsDeclarations (ctx : ModuleContext) (origin object : Object) (template : Template) (m : Module) :
    Prop :=
  ∃ children, object.settingsObjects = .ok children ∧
    ∀ c variant, template.variants.get? c = some variant → ∃ root projects,
      rootAnew ctx object template c variant = .ok root ∧ m.variants.get? c = some projects ∧
      (root.isExcluded = false → ∀ raw, Written ctx origin object template c raw →
        ∀ e ∈ raw, BoundAsExpanded ctx object children template c variant projects e)

theorem bindsDeclarations_of_fresh {origin object : Object} {cs : List Configuration}
    {template : Template} {m : Module}
    (htemplate : (Template.resolve origin cs ctx.external ctx.bindings).fresh.result = .ok template)
    (hmodule : (resolve ctx object template).fresh.result = .ok m)
    (hb : ctx.bindings.get? moduleName = none) :
    BindsDeclarations ctx origin object template m := by
  obtain ⟨hname, declared, hdeclared, hall⟩ := Template.settings_of_fresh_resolve htemplate
  obtain ⟨children, hch, hbound⟩ := declared_of_fresh_resolve hmodule
  refine ⟨children, hch, fun c variant hv => ?_⟩
  obtain ⟨horiginRoot, -, hnames⟩ := hall c variant hv
  obtain ⟨root, projects, hroot, hget, hentries⟩ := hbound c variant hv
  refine ⟨root, projects, hroot, hget, fun hx raw hraw e he => ?_⟩
  rw [hraw.projectDeclarations hname hb horiginRoot hroot] at hentries
  obtain ⟨d, compiled, expanded, hd, hsettings, hexpand, hproject⟩ :=
    hentries hx _ (List.mem_map_of_mem he)
  rw [Declaration.expand_deferred (hraw.settle e he)] at hd
  refine ⟨d, compiled, expanded, hd, hsettings, hexpand, hproject, fun h => ?_, fun h => h ▸ hsettings⟩
  rw [← hsettings.name_eq hnames, h.name_eq hnames]

/-- **A declaration is bound by the expansion of its settings name to what objects are named as they are
written**, as long as the name of the module is not bound by others. If the module is resolved, every written
declaration that is still there has the settings of the object that has the expansion as its name. If the
module fails for unknown settings, no object of the template or the module has their name, and under some
configuration it is the expansion of the settings name in a written declaration. So the declared object is
the one that is meant exactly if its name does not change in the expansion. -/
theorem bound_as_expanded {origin object : Object} {cs : List Configuration} {template : Template}
    {s t : Session} (horigin : origin.kind = Solution.templateKind)
    (hobject : object.kind = Solution.moduleKind) (hcs : cs.Nodup)
    (hs : ∀ k : SettingsKey, k.scope = origin.heading.display → s.cache.get? k = none)
    (ht : ∀ k : SettingsKey, k.scope = object.heading.display → t.cache.get? k = none)
    (htemplate : ((Template.resolve origin cs ctx.external ctx.bindings).runIn s).1 = .ok template)
    (hb : ctx.bindings.get? moduleName = none) :
    ∃ declared, origin.settingsObjects = .ok declared ∧
      (∀ m, ((resolve ctx object template).runIn t).1 = .ok m →
        ∃ children, object.settingsObjects = .ok children ∧
          ∀ c variant, template.variants.get? c = some variant → ∃ root projects,
            rootAnew ctx object template c variant = .ok root ∧ m.variants.get? c = some projects ∧
            (root.isExcluded = false → ∀ raw, Written ctx origin object template c raw →
              ∀ e ∈ raw, BoundAsExpanded ctx object children template c variant projects e)) ∧
      ∀ q w, ((resolve ctx object template).runIn t).1 =
          .error (Cause.unknownSettings q w).failure →
        ∃ children, object.settingsObjects = .ok children ∧
          w ∉ (declared ++ children).map Object.name ∧
          ∃ c variant, template.variants.get? c = some variant ∧
            ∀ raw, Written ctx origin object template c raw →
              ∃ e ∈ raw, Declaration.expand (bindingsIn ctx object template c) e = .ok ⟨q, w⟩ := by
  rw [((Template.asksOnce_resolve horigin hcs _ _).runIn_eq_fresh hs).1] at htemplate
  simp only [((asksOnce_resolve hobject ctx template).runIn_eq_fresh ht).1]
  obtain ⟨hname, declared, hdeclared, hall⟩ := Template.settings_of_fresh_resolve htemplate
  refine ⟨declared, hdeclared, fun m hmodule => bindsDeclarations_of_fresh htemplate hmodule hb,
    fun q w hmodule => ?_⟩
  obtain ⟨children, hch, c, variant, hv, root, settings, hroot, heffect, entry, he, hentry, hnone⟩ :=
    unknownOnly_resolve q w hmodule
  obtain ⟨horiginRoot, hthere, -⟩ := hall c variant hv
  refine ⟨children, hch, heffect.get?_eq_none (settingsObjects_ok hch).2 hthere hnone, c, variant, hv,
    fun raw hraw => ?_⟩
  rw [hraw.projectDeclarations hname hb horiginRoot hroot] at he
  obtain ⟨e, hm, rfl⟩ := List.mem_map.mp he
  exact ⟨e, hm, (Declaration.expand_deferred (hraw.settle e hm)).mp hentry⟩

/-! ### A name with a reference -/

/-- A template with settings of these names and a project that names some. -/
def naming (declared : List String) (n : String) : Object :=
  ⟨⟨Solution.templateKind, "T", none⟩,
    declaration "P" n :: declared.map fun d => .object ⟨settingsKind, d, none⟩ []⟩

/-- Resolves the template. -/
def resolveNaming (declared : List String) (n : String) : Fallible Template :=
  ((Template.resolve (naming declared n) [debug] openContext.external openContext.bindings).runIn
    .initial).1

/-- The resolved template. -/
def namingTemplate (declared : List String) (n : String) : Template :=
  (resolveNaming declared n).toOption.getD ⟨"", .empty, .empty⟩

/-- Resolves the module. -/
def resolveNamed (declared : List String) (n : String) : Fallible Module :=
  ((resolve openContext bare (namingTemplate declared n)).runIn .initial).1

/-- The bindings of the module. -/
def namedBindings (declared : List String) (n : String) : Bindings :=
  bindingsIn openContext bare (namingTemplate declared n) debug

section Naming
variable {declared : List String} {n : String}

theorem resolveNaming_eq (h : (resolveNaming declared n).isOk = true) :
    resolveNaming declared n = .ok (namingTemplate declared n) := by
  obtain ⟨template, ht⟩ := Fallible.exists_of_isOk h
  rw [namingTemplate, ht]
  rfl

theorem written_naming
    (hown : (writtenDeclarations (openContext.external.union debug.constants)
      [(naming declared n).body]).toOption = some [("P", n)])
    (hraw : (writtenDeclarations (openContext.external.union debug.constants)
      [(naming declared n).body, bare.body]).toOption = some [("P", n)])
    (hsettleTemplate : AllSettle (Template.bindingsIn (naming declared n) openContext.bindings debug)
      [("P", n)])
    (hsettle : AllSettle (namedBindings declared n) [("P", n)]) :
    Written openContext (naming declared n) bare (namingTemplate declared n) debug [("P", n)] where
  own := ⟨_, eq_ok_of_toOption hown, hsettleTemplate⟩
  merged := eq_ok_of_toOption hraw
  settle := hsettle
  apart := fun _ hx _ hy _ => (List.mem_singleton.mp hx).trans (List.mem_singleton.mp hy).symm

end Naming

/-- The name of the module, and a settings object of that name. -/
def twoNames : List String := ["$(MODULE_NAME)", "Core"]

/-- **The project has the settings of another object** than the one that it names, if that has the expansion
as its name. -/
theorem bound_as_expanded_another : ∃ m children variant projects p,
    resolveNamed twoNames "$(MODULE_NAME)" = .ok m ∧ bare.settingsObjects = .ok children ∧
      (namingTemplate twoNames "$(MODULE_NAME)").variants.get? debug = some variant ∧
      m.variants.get? debug = some projects ∧ projects.get? "P" = some p ∧
      p.settings.name = "Core" ∧
      BoundAsExpanded openContext bare children (namingTemplate twoNames "$(MODULE_NAME)") debug
        variant projects ("P", "$(MODULE_NAME)") := by
  have hok : (resolveNaming twoNames "$(MODULE_NAME)").isOk = true := by decide +kernel
  have hproject : (resolveNamed twoNames "$(MODULE_NAME)").toOption.any (fun m =>
      (m.variants.get? debug).any fun projects =>
        (projects.get? "P").any (·.settings.name = "Core")) = true := by
    decide +kernel
  have hvariant : ((namingTemplate twoNames "$(MODULE_NAME)").variants.get? debug).any (fun variant =>
      (rootAnew openContext bare (namingTemplate twoNames "$(MODULE_NAME)") debug
        variant).toOption.any (!·.isExcluded)) = true := by
    decide +kernel
  have hwritten : Written openContext (naming twoNames "$(MODULE_NAME)") bare
      (namingTemplate twoNames "$(MODULE_NAME)") debug [("P", "$(MODULE_NAME)")] :=
    written_naming (by decide +kernel) (by decide +kernel) (by decide +kernel) (by decide +kernel)
  have htemplate : ((Template.resolve (naming twoNames "$(MODULE_NAME)") [debug] openContext.external
      openContext.bindings).runIn .initial).1 = .ok (namingTemplate twoNames "$(MODULE_NAME)") :=
    resolveNaming_eq hok
  have hobject : bare.kind = Solution.moduleKind := rfl
  obtain ⟨m, hm, hproject⟩ := (Option.any_eq_true _ _).mp hproject
  obtain ⟨projects, hprojects, hproject⟩ := (Option.any_eq_true _ _).mp hproject
  obtain ⟨p, hp, hname⟩ := (Option.any_eq_true _ _).mp hproject
  obtain ⟨variant, hv, hroot⟩ := (Option.any_eq_true _ _).mp hvariant
  obtain ⟨root, hr, hx⟩ := (Option.any_eq_true _ _).mp hroot
  obtain ⟨_, -, hbound, -⟩ := bound_as_expanded (t := .initial) rfl hobject
    (List.nodup_singleton debug) (fun _ _ => rfl) (fun _ _ => rfl) htemplate rfl
  obtain ⟨children, hch, hall⟩ := hbound m (eq_ok_of_toOption hm)
  obtain ⟨root', projects', hroot', hprojects', hentries⟩ := hall debug variant hv
  cases hprojects.symm.trans hprojects'
  cases (eq_ok_of_toOption hr).symm.trans hroot'
  exact ⟨m, children, variant, projects, p, eq_ok_of_toOption hm, hch, hv, hprojects, hp,
    of_decide_eq_true hname, hentries (by simpa using hx) _ hwritten _ List.mem_cons_self⟩

/-- **Settings with a reference in their name are unknown to the project that names them.** -/
theorem named_settings_unknown :
    (naming [testsKey] testsKey).settingsObjects.toOption.map (·.map Object.name) = some [testsKey] ∧
      (resolveNaming [testsKey] testsKey).isOk = true ∧
      Written openContext (naming [testsKey] testsKey) bare (namingTemplate [testsKey] testsKey) debug
        [("P", testsKey)] ∧
      Variable.expand (namedBindings [testsKey] testsKey) .complete testsKey = .ok "Core.Tests" ∧
      resolveNamed [testsKey] testsKey =
        .error (Cause.unknownSettings "P" "Core.Tests").failure := by
  have hwritten : Written openContext (naming [testsKey] testsKey) bare
      (namingTemplate [testsKey] testsKey) debug [("P", testsKey)] :=
    written_naming (by decide +kernel) (by decide +kernel) (by decide +kernel) (by decide +kernel)
  exact ⟨by decide +kernel, by decide +kernel, hwritten, by decide +kernel, by decide +kernel⟩

end Module

end BuildPlan
