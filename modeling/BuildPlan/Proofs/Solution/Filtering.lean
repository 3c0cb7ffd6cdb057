import BuildPlan.Proofs.Files.Spelling
import BuildPlan.Proofs.Solution.Identity
import BuildPlan.Proofs.Solution.Keys

/-! # Resolving for some of the configurations and names

Everything that is compiled for a configuration is kept under keys of this configuration. So a stage
that is run for some of the configurations only, in a session that keeps the same under the keys of
these, gives what it gave for all of them. And where fewer names of projects are admitted, the projects
of the other names are missing. Only the identities of projects go from one configuration to the next: a
project may get its identity from another configuration then, and with it another spelling of its source
path (`Module.resolveVariants_transfer`). -/

namespace BuildPlan

open BuildPlan.Variable

/-! ### The keys of configurations -/

/-- The keys of what is not the solution itself. -/
def objectKeys : Set SettingsKey := {k | k.kind ≠ Solution.solutionKind}

/-- The keys of a configuration among these. -/
def keysFor (K : Set SettingsKey) (c : Configuration) : Set SettingsKey :=
  {k ∈ K | k.configuration = some c}

/-- The keys of the configurations that are kept, among these. -/
def keptKeys (K : Set SettingsKey) (keep : Configuration → Bool) : Set SettingsKey :=
  {k ∈ K | ∃ c, k.configuration = some c ∧ keep c = true}

section Keys
variable {K : Set SettingsKey} {keep : Configuration → Bool} {c : Configuration}

theorem keysFor_subset_keptKeys (h : keep c = true) : keysFor K c ⊆ keptKeys K keep :=
  fun _ hk => ⟨hk.1, c, hk.2, h⟩

theorem disjoint_keysFor_keptKeys (h : ¬ keep c = true) :
    Disjoint (keysFor K c) (keptKeys K keep) := by
  refine Set.disjoint_left.mpr ?_
  rintro k ⟨-, hk⟩ ⟨-, c', hk', hc'⟩
  rw [hk] at hk'
  cases hk'
  exact h hc'

theorem Job.asks_compile {j : Job} (h : j.configuration = some c) {external : NameSet}
    (hk : j.key external ∈ K) : (j.compile external).Asks (keysFor K c) :=
  Compile.asks_compile ⟨hk, h⟩

end Keys

namespace Compile

variable {β : Type} {K : Set SettingsKey} {keep : Configuration → Bool}
  {f : Configuration → Compile β}

/-- **What is computed for each configuration is computed for those that are kept alone.** -/
theorem runIn_mapM_filter (hf : ∀ c, (f c).Asks (keysFor K c)) : ∀ {cs : List Configuration}
    {s t s' : Session} {rs : List (Configuration × β)},
      (cs.mapM fun c => do return (c, ← f c)).runIn s = (.ok rs, t) →
        s.Agree (keptKeys K keep) s' →
          ∃ t', ((cs.filter keep).mapM fun c => do return (c, ← f c)).runIn s' =
            (.ok (rs.filter (keep ·.1)), t') ∧ t.Agree (keptKeys K keep) t'
  | [], _, _, s', _, h, hs => by
    cases h
    exact ⟨s', rfl, hs⟩
  | c :: cs, s, t, s', rs, h, hs => by
    obtain ⟨r, rs, u, hr, hrs, rfl⟩ := runIn_mapM_cons_ok.mp h
    obtain ⟨b, v, hb, hr⟩ := runIn_bind_ok.mp hr
    cases hr
    by_cases hc : keep c = true
    · obtain ⟨u', hb', hu⟩ := ((hf c).mono (keysFor_subset_keptKeys hc)).transfer hb hs
      obtain ⟨t', hrs', ht⟩ := runIn_mapM_filter hf hrs hu
      simp only [List.filter_cons, hc, if_true]
      exact ⟨t', runIn_mapM_cons_ok.mpr ⟨_, _, u', runIn_bind_ok.mpr ⟨b, u', hb', rfl⟩, hrs', rfl⟩, ht⟩
    · have hu := (hf c).agree (disjoint_keysFor_keptKeys hc) s
      rw [hb] at hu
      obtain ⟨t', hrs', ht⟩ := runIn_mapM_filter hf hrs (hu.symm.trans hs)
      simp only [List.filter_cons, hc, if_false, Bool.false_eq_true]
      exact ⟨t', hrs', ht⟩

end Compile

/-! ### Templates -/

/-- Settings objects are not the solution itself. -/
theorem Heir.object_kind_ne {children : List Object} (hk : ∀ child ∈ children, child.kind = settingsKind)
    {base : Object → Option String} {h : Heir}
    (hh : h ∈ children.map fun child => ⟨child, base child⟩) : h.object.kind ≠ Solution.solutionKind := by
  obtain ⟨child, hc, rfl⟩ := List.mem_map.mp hh
  rw [hk child hc]
  decide

namespace Template

theorem asks_resolveVariant {object : Object} {children : List Object}
    (ho : object.kind ≠ Solution.solutionKind) (hk : ∀ child ∈ children, child.kind = settingsKind)
    (external : NameSet) (b : Bindings) (c : Configuration) :
    (resolveVariant object children external b c).Asks (keysFor objectKeys c) := by
  rw [resolveVariant_eq]
  refine (Job.asks_compile rfl ho).bind fun root => ?_
  split
  · exact Compile.asks_throw _
  · exact ((Heir.asks_compileAll fun _ hh _ =>
      Job.asks_compile rfl (Heir.object_kind_ne hk hh)).within _).bind fun _ => Compile.asks_pure _

/-- The template for the configurations that are kept. -/
def restrict (keep : Configuration → Bool) (t : Template) : Template :=
  { t with variants := t.variants.restrict keep }

theorem restrict_eq_self {keep : Configuration → Bool} {t : Template}
    (h : ∀ e ∈ t.variants.entries, keep e.1 = true) : t.restrict keep = t := by
  obtain ⟨name, bases, variants⟩ := t
  refine congrArg (Template.mk name bases) (Dictionary.ext_entries ?_)
  exact List.filter_eq_self.mpr h

variable {keep : Configuration → Bool} {object : Object} {external : NameSet} {b : Bindings}
  {cs : List Configuration} {s t s' : Session} {m : Template}

theorem runIn_resolve_filter (ho : object.kind ≠ Solution.solutionKind) (hcs : cs.Nodup)
    (h : (resolve object cs external b).runIn s = (.ok m, t))
    (hs : s.Agree (keptKeys objectKeys keep) s') :
    ∃ t', (resolve object (cs.filter keep) external b).runIn s' = (.ok (m.restrict keep), t') ∧
      t.Agree (keptKeys objectKeys keep) t' := by
  obtain ⟨children, variants, hch, hv, rfl⟩ := runIn_resolve_ok.mp h
  have hkeys : variants.map Prod.fst = cs := Compile.keys_of_runIn_mapM hv
  obtain ⟨t', hv', ht⟩ := Compile.runIn_mapM_filter
    (asks_resolveVariant ho (settingsObjects_ok hch).1 external b) hv hs
  refine ⟨t', runIn_resolve_ok.mpr ⟨children, _, hch, hv', ?_⟩, ht⟩
  unfold restrict
  dsimp only
  rw [Dictionary.restrict_ofList (hkeys ▸ hcs)]

end Template

namespace Solution

theorem asks_resolveSettings (body : Object) (external : NameSet) (b : Bindings)
    (c : Configuration) : (resolveSettings body external b c).Asks (keysFor Set.univ c) := by
  unfold resolveSettings
  exact (Job.asks_compile rfl (Set.mem_univ _)).bind fun _ => (Compile.asks_ofFallible _).bind fun _ =>
    (Compile.asks_ofFallible _).bind fun _ => Compile.asks_pure _

theorem runIn_resolveTemplates_filter {keep : Configuration → Bool} {external : NameSet}
    {b : Bindings} {cs : List Configuration} (hcs : cs.Nodup) : ∀ {os : List Object}
      {templates templates' out : Dictionary String Template} {s t s' : Session},
        (∀ o ∈ os, o.kind ≠ solutionKind) →
        templates.Alike (fun m m' => m' = m.restrict keep) templates' →
          (resolveTemplates cs external b templates os).runIn s = (.ok out, t) →
            s.Agree (keptKeys objectKeys keep) s' → ∃ out' t',
              (resolveTemplates (cs.filter keep) external b templates' os).runIn s' =
                (.ok out', t') ∧ out.Alike (fun m m' => m' = m.restrict keep) out' ∧
                t.Agree (keptKeys objectKeys keep) t'
  | [], _, templates', _, _, _, s', _, ha, h, hs => by
    cases h
    exact ⟨templates', s', rfl, ha, hs⟩
  | o :: os, templates, templates', out, s, t, s', hos, ha, h, hs => by
    obtain ⟨ho, hos⟩ := List.forall_mem_cons.mp hos
    obtain ⟨hc, m, u, hm, h⟩ := runIn_resolveTemplates_cons_ok.mp h
    obtain ⟨u', hm', hu⟩ := Template.runIn_resolve_filter ho hcs hm hs
    obtain ⟨out', t', hout, hrest⟩ := runIn_resolveTemplates_filter hcs hos (ha.insert hc rfl) h hu
    exact ⟨out', t', runIn_resolveTemplates_cons_ok.mpr ⟨ha.contains_eq _ ▸ hc, _, u', hm', hout⟩,
      hrest⟩

end Solution

/-! ### Identities -/

/-- The identities are the same up to the spelling of the source path. -/
structure Identity.Alike (i j : Identity) : Prop where
  name : i.name = j.name
  guid : i.guid = j.guid
  sourcePath : Path.same i.sourcePath j.sourcePath = true

/-- What fits an identity fits one that is alike. -/
theorem Identity.Alike.difference_eq_none {i j k : Identity} (h : i.Alike j)
    (hd : i.difference k = none) : j.difference k = none := by
  obtain ⟨hg, hp⟩ := Identity.difference_eq_none.mp hd
  have hij : Path.components i.sourcePath = Path.components j.sourcePath :=
    of_decide_eq_true h.sourcePath
  refine Identity.difference_eq_none.mpr ⟨h.guid.symm.trans hg, ?_⟩
  unfold Path.same at hp ⊢
  rwa [← hij]

/-- The projects are the same up to the spelling of the source path of their identities. -/
structure Project.Alike (p q : Project) : Prop where
  identity : p.identity.Alike q.identity
  rest : q = { p with identity := q.identity }

theorem Project.names_eq {ps qs : List Project} (h : List.Forall₂ Project.Alike ps qs) :
    qs.map (·.name) = ps.map (·.name) := by
  induction h with
  | nil => rfl
  | cons hpq _ ih => rw [List.map_cons, List.map_cons, ih, name, name, hpq.identity.name]

/-- The source path as the settings of the project spell it. -/
def Project.declaredPath (p : Project) : String :=
  (p.settings.text? PropertyName.sourcePath).getD p.module

namespace ModuleContext

/-- The contexts differ in what finds files and in the folder to which source paths are relative, and in the
projects that they admit: under configurations that are kept, the second one admits those names of the
first one that are admitted here. -/
structure Like (keep : Configuration → Bool) (admits : Configuration → String → Bool)
    (ctx ctx' : ModuleContext) : Prop where
  external : ctx'.external = ctx.external
  bindings : ctx'.bindings = ctx.bindings
  allows : ∀ c n, keep c = true → ctx'.allows c n = (ctx.allows c n && admits c n)

/-- What is selected below the first source path in the first context is selected below the second
one in the second. -/
def Sees (ctx ctx' : ModuleContext) (p q : String) : Prop :=
  ∀ includes excludes files,
    (ctx.matcher includes excludes (Path.join ctx.searchRoot p)).result = .ok files →
      (ctx'.matcher includes excludes (Path.join ctx'.searchRoot q)).result = .ok files

end ModuleContext

namespace Identities

/-- What is known in the second context is known in the first one up to the spelling of the source
path, and the second one sees under its spelling what the first one sees. -/
def Covers (ctx ctx' : ModuleContext) (known known' : Identities) : Prop :=
  ∀ n j, known'.get? n = some j →
    ∃ i, known.get? n = some i ∧ i.Alike j ∧ ctx.Sees ctx' i.sourcePath j.sourcePath

variable {ctx ctx' : ModuleContext} {known known₁ known' : Identities} {current i : Identity}
  {c : Configuration}

theorem Covers.mono (h : Covers ctx ctx' known known') (hg : known.Grows known₁) :
    Covers ctx ctx' known₁ known' := fun n j hj =>
  (h n j hj).imp fun _ hi => ⟨hg n _ hi.1, hi.2⟩

/-- An identity that is met in the first context can be met in the second: as it is known there, or
as it is declared. -/
theorem meet_transfer (hn : known.Named) (hcov : Covers ctx ctx' known known')
    (h : known.meet current c = .ok (i, known₁))
    (hnew : known'.get? current.name = none → ctx.Sees ctx' i.sourcePath current.sourcePath) :
    ∃ j known₁', known'.meet current c = .ok (j, known₁') ∧ i.Alike j ∧
      ctx.Sees ctx' i.sourcePath j.sourcePath ∧ Covers ctx ctx' known₁ known₁' := by
  obtain ⟨hname, hget, hdiff, hgrows, -⟩ := meet_ok hn h
  unfold meet
  split
  · next j hj =>
    obtain ⟨i₀, hi₀, halike, hsees⟩ := hcov _ _ hj
    obtain rfl : i = i₀ := Option.some.inj (hget.symm.trans (hgrows _ _ hi₀))
    refine ⟨j, known', ?_, halike, hsees, hcov.mono hgrows⟩
    unfold Identity.check
    rw [halike.difference_eq_none hdiff]
    rfl
  · next hj =>
    obtain ⟨hguid, hpath⟩ := Identity.difference_eq_none.mp hdiff
    have halike : i.Alike current := ⟨hname, hguid, hpath⟩
    refine ⟨current, _, rfl, halike, hnew hj, fun n j hnj => ?_⟩
    rw [Dictionary.get?_insert] at hnj
    split at hnj
    · next he =>
      cases hnj
      exact ⟨i, he ▸ hget, halike, hnew hj⟩
    · exact hcov.mono hgrows n j hnj

end Identities

/-! ### Modules -/

namespace Module

variable {keep : Configuration → Bool} {admits : Configuration → String → Bool}
  {ctx ctx' : ModuleContext} {c : Configuration}

section Projects
variable {module : String} {b : Bindings} {settings : Dictionary String Settings}

theorem resolveProject_transfer (hc : keep c = true) (hl : ctx.Like keep admits ctx')
    {known known₁ known' : Identities} {entry : String × String} {p : Project} (hn : known.Named)
    (hcov : Identities.Covers ctx ctx' known known')
    (h : (resolveProject ctx module c b settings known entry).result = .ok (some (p, known₁)))
    (hp : admits c p.name = true)
    (hnew : known'.get? p.name = none → ctx.Sees ctx' p.identity.sourcePath p.declaredPath) :
    ∃ q known₁', (resolveProject ctx' module c b settings known' entry).result =
        .ok (some (q, known₁')) ∧ p.Alike q ∧ Identities.Covers ctx ctx' known₁ known₁' := by
  obtain ⟨d, compiled, expanded, current, i, files, hd, hcomp, hexp, hx, hcur, hmet, hf, rfl⟩ :=
    resolveProject_some.mp h
  have hname : i.name = current.name := (Identities.meet_ok hn hmet).1
  obtain ⟨hproject, hpath⟩ := Identity.of_ofSettings hcur
  have hnew : known'.get? current.name = none → ctx.Sees ctx' i.sourcePath current.sourcePath := by
    rw [← hname, hpath]
    exact hnew
  obtain ⟨j, known₁', hmet', halike, hsees, hcov₁⟩ := Identities.meet_transfer hn hcov hmet hnew
  refine ⟨_, known₁', resolveProject_some.mpr ⟨d, compiled, expanded, current, j, files, hd, hcomp,
    hexp, ?_, hcur, hmet', hsees _ _ _ hf, rfl⟩, ⟨halike, rfl⟩, hcov₁⟩
  rw [hl.allows c _ hc, ← hproject, ← hname]
  rw [← hproject, ← hname] at hx
  rw [show admits c i.name = true from hp, Bool.and_true]
  exact hx

/-- A project whose name is not admitted in the second context is not there. -/
theorem resolveProject_notAdmitted (hc : keep c = true) (hl : ctx.Like keep admits ctx')
    {known known₁ known' : Identities} {entry : String × String} {p : Project} (hn : known.Named)
    (h : (resolveProject ctx module c b settings known entry).result = .ok (some (p, known₁)))
    (hp : admits c p.name = false) :
    (resolveProject ctx' module c b settings known' entry).result = .ok none := by
  obtain ⟨d, compiled, expanded, current, i, files, hd, hcomp, hexp, -, hcur, hmet, -, rfl⟩ :=
    resolveProject_some.mp h
  have hname : i.name = d.project :=
    (Identities.meet_ok hn hmet).1.trans (Identity.of_ofSettings hcur).1
  refine resolveProject_none.mpr ⟨d, compiled, expanded, hd, hcomp, hexp, ?_⟩
  rw [hl.allows c _ hc, ← hname, show admits c i.name = false from hp, Bool.and_false]
  exact Bool.or_true _

theorem resolveProject_none_transfer (hc : keep c = true) (hl : ctx.Like keep admits ctx')
    {known known' : Identities} {entry : String × String}
    (h : (resolveProject ctx module c b settings known entry).result = .ok none) :
    (resolveProject ctx' module c b settings known' entry).result = .ok none := by
  obtain ⟨d, compiled, expanded, hd, hcomp, hexp, hx⟩ := resolveProject_none.mp h
  refine resolveProject_none.mpr ⟨d, compiled, expanded, hd, hcomp, hexp, ?_⟩
  rw [hl.allows c _ hc]
  rcases Bool.or_eq_true_iff.mp hx with hx | hx
  · rw [hx, Bool.true_or]
  · have hx : ctx.allows c d.project = false := by simpa using hx
    rw [hx, Bool.false_and]
    exact Bool.or_true _

theorem entries_subset_of_resolveProjects : ∀ {entries : List (String × String)}
    {known known₁ : Identities} {ps out : Dictionary String Project},
      (resolveProjects ctx module c b settings known ps entries).result = .ok (known₁, out) →
        ps.entries ⊆ out.entries
  | [], _, _, _, _, h => by
    cases h
    exact List.Subset.refl _
  | entry :: entries, _, _, _, _, h => by
    rcases resolveProjects_cons_ok.mp h with ⟨-, h⟩ | ⟨p, _, -, hnew, h⟩
    · exact entries_subset_of_resolveProjects h
    · have hsub := entries_subset_of_resolveProjects h
      rw [Dictionary.entries_insert hnew] at hsub
      exact fun e he => hsub (List.mem_append_left _ he)

/-- Projects that are resolved in the first context are resolved in the second as far as their names are
admitted, if the second one sees those that are new there. -/
theorem resolveProjects_transfer (hc : keep c = true) (hl : ctx.Like keep admits ctx') :
    ∀ {entries : List (String × String)} {known known' known₁ : Identities}
      {ps ps' out : Dictionary String Project}, known.Named → known'.Named →
        Identities.Covers ctx ctx' known known' →
        (ps.restrict (admits c)).Alike Project.Alike ps' →
        (resolveProjects ctx module c b settings known ps entries).result = .ok (known₁, out) →
        (∀ p ∈ (out.restrict (admits c)).values, known'.get? p.name = none →
          ctx.Sees ctx' p.identity.sourcePath p.declaredPath) →
          ∃ known₁' out', (resolveProjects ctx' module c b settings known' ps' entries).result =
              .ok (known₁', out') ∧ (out.restrict (admits c)).Alike Project.Alike out' ∧
            Identities.Covers ctx ctx' known₁ known₁'
  | [], _, known', _, _, ps', _, _, _, hcov, ha, h, _ => by
    cases h
    exact ⟨known', ps', rfl, ha, hcov⟩
  | entry :: entries, known, known', known₁, ps, ps', out, hn, hn', hcov, ha, h, hnew => by
    rcases resolveProjects_cons_ok.mp h with ⟨hp, h⟩ | ⟨p, known₂, hp, hfree, h⟩
    · obtain ⟨known₁', out', hout, hrest⟩ := resolveProjects_transfer hc hl hn hn' hcov ha h hnew
      exact ⟨known₁', out',
        resolveProjects_cons_ok.mpr (Or.inl ⟨resolveProject_none_transfer hc hl hp, hout⟩), hrest⟩
    obtain ⟨-, hgrows, hn₂⟩ := has_of_resolveProject hn hp
    have hsub := entries_subset_of_resolveProjects h (Dictionary.mem_entries_insert ps p.name p)
    cases hadmitted : admits c p.name with
    | true =>
      have hmem : p ∈ (out.restrict (admits c)).values :=
        List.mem_map.mpr ⟨(p.name, p), List.mem_filter.mpr ⟨hsub, hadmitted⟩, rfl⟩
      obtain ⟨q, known₂', hq, hpq, hcov₂⟩ :=
        resolveProject_transfer hc hl hn hcov hp hadmitted (hnew p hmem)
      have hname : q.name = p.name := hpq.identity.name.symm
      have hfree' : (ps.restrict (admits c)).contains p.name = false := by
        rw [Dictionary.contains, Dictionary.get?_restrict hadmitted]
        exact hfree
      obtain ⟨-, hgrows', hn₂'⟩ := has_of_resolveProject hn' hq
      have ha' : ((ps.insert p.name p).restrict (admits c)).Alike Project.Alike
          (ps'.insert p.name q) := by
        have hins := ha.insert hfree' hpq
        unfold Dictionary.Alike at hins ⊢
        rwa [Dictionary.entries_restrict_insert hfree, if_pos hadmitted,
          ← Dictionary.entries_insert hfree']
      obtain ⟨known₁', out', hout, hrest⟩ := resolveProjects_transfer hc hl hn₂ hn₂' hcov₂ ha' h
        fun r hr hr' => hnew r hr (hgrows'.get?_eq_none hr')
      refine ⟨known₁', out', resolveProjects_cons_ok.mpr (Or.inr ⟨q, known₂', hq, ?_, ?_⟩), hrest⟩
      · rw [hname, ← ha.contains_eq]
        exact hfree'
      · rw [hname]
        exact hout
    | false =>
      have ha' : ((ps.insert p.name p).restrict (admits c)).Alike Project.Alike ps' := by
        unfold Dictionary.Alike
        rw [Dictionary.entries_restrict_insert hfree, if_neg (by simp [hadmitted]), List.append_nil]
        exact ha
      obtain ⟨known₁', out', hout, hrest⟩ :=
        resolveProjects_transfer hc hl hn₂ hn' (hcov.mono hgrows) ha' h hnew
      exact ⟨known₁', out', resolveProjects_cons_ok.mpr
        (Or.inl ⟨resolveProject_notAdmitted hc hl hn hp hadmitted, hout⟩), hrest⟩

end Projects

section Asks
variable (ctx : ModuleContext) (object : Object) {children : List Object} (template : Template)
  (c : Configuration) (variant : TemplateVariant)

theorem asks_compileRoot (ho : object.kind ≠ Solution.solutionKind) :
    (compileRoot ctx object template c variant).Asks (keysFor objectKeys c) :=
  Job.asks_compile rfl ho

theorem asks_compileOwn (hk : ∀ child ∈ children, child.kind = settingsKind) :
    (compileOwn ctx object children template c variant).Asks (keysFor objectKeys c) :=
  (Heir.asks_compileAll fun _ hh _ =>
    Job.asks_compile rfl (Heir.object_kind_ne hk hh)).within _

theorem asks_resolveVariant (ho : object.kind ≠ Solution.solutionKind)
    (hk : ∀ child ∈ children, child.kind = settingsKind) (known : Identities) :
    (resolveVariant ctx object children template known c variant).Asks (keysFor objectKeys c) := by
  rw [resolveVariant_eq]
  refine (asks_compileRoot ctx object template c variant ho).bind fun root => ?_
  split
  · exact Compile.asks_pure _
  · exact (asks_compileOwn ctx object template c variant hk).bind fun _ => Compile.asks_ofLogged _

end Asks

section Variants
variable {object : Object} {children : List Object} {template : Template}

theorem compileRoot_restrict (hl : ctx.Like keep admits ctx') (variant : TemplateVariant) :
    compileRoot ctx' object (template.restrict keep) c variant =
      compileRoot ctx object template c variant := by
  unfold compileRoot bindingsIn
  rw [hl.external, hl.bindings]
  rfl

theorem compileOwn_restrict (hl : ctx.Like keep admits ctx') (variant : TemplateVariant) :
    compileOwn ctx' object children (template.restrict keep) c variant =
      compileOwn ctx object children template c variant := by
  unfold compileOwn bindingsIn
  rw [hl.external, hl.bindings]
  rfl

section Owner
variable (ho : object.kind ≠ Solution.solutionKind)
  (hk : ∀ child ∈ children, child.kind = settingsKind)
include ho hk

theorem resolveVariant_transfer (hc : keep c = true) (hl : ctx.Like keep admits ctx')
    {known known' known₁ : Identities} {ps : Dictionary String Project} {variant : TemplateVariant}
    {s t s' : Session} (hn : known.Named) (hn' : known'.Named)
    (hcov : Identities.Covers ctx ctx' known known')
    (h : (resolveVariant ctx object children template known c variant).runIn s =
      (.ok (known₁, ps), t))
    (hs : s.Agree (keptKeys objectKeys keep) s')
    (hnew : ∀ p ∈ (ps.restrict (admits c)).values, known'.get? p.name = none →
      ctx.Sees ctx' p.identity.sourcePath p.declaredPath) :
    ∃ known₁' ps' t', (resolveVariant ctx' object children (template.restrict keep) known' c
        variant).runIn s' = (.ok (known₁', ps'), t') ∧
      (ps.restrict (admits c)).Alike Project.Alike ps' ∧
      Identities.Covers ctx ctx' known₁ known₁' ∧ t.Agree (keptKeys objectKeys keep) t' := by
  have hkeys := keysFor_subset_keptKeys (K := objectKeys) hc
  have hroot := (asks_compileRoot ctx object template c variant ho).mono hkeys
  have hown := (asks_compileOwn ctx object template c variant hk).mono hkeys
  have hb : bindingsIn ctx' object (template.restrict keep) c = bindingsIn ctx object template c := by
    unfold bindingsIn
    rw [hl.bindings]
    rfl
  obtain ⟨root, u, hr, h⟩ := runIn_resolveVariant_ok.mp h
  obtain ⟨u', hr', hu⟩ := hroot.transfer hr hs
  rw [← compileRoot_restrict hl] at hr'
  obtain ⟨hx, rfl, rfl, rfl⟩ | ⟨hx, own, v, ho, hps, rfl⟩ := h
  · exact ⟨known', .empty, u', runIn_resolveVariant_ok.mpr ⟨root, u', hr', Or.inl ⟨hx, rfl, rfl, rfl⟩⟩,
      Dictionary.alike_empty, hcov, hu⟩
  · obtain ⟨v', ho', hv⟩ := hown.transfer ho hu
    rw [← compileOwn_restrict hl] at ho'
    obtain ⟨known₁', ps', hps', ha, hcov'⟩ :=
      resolveProjects_transfer hc hl hn hn' hcov Dictionary.alike_empty hps hnew
    rw [← hb] at hps'
    exact ⟨known₁', ps', _, runIn_resolveVariant_ok.mpr
      ⟨root, u', hr', Or.inr ⟨hx, own, v', ho', hps', rfl⟩⟩, ha, hcov', hv.warn _ _⟩

end Owner

theorem keys_of_runIn_resolveVariants : ∀ {vs : List (Configuration × TemplateVariant)}
    {known : Identities} {out : List (Configuration × Dictionary String Project)} {s t : Session},
      (resolveVariants ctx object children template known vs).runIn s = (.ok out, t) →
        out.map Prod.fst = vs.map Prod.fst
  | [], _, _, _, _, h => by
    cases h
    rfl
  | (c, variant) :: vs, _, _, _, _, h => by
    obtain ⟨_, _, more, _, -, hmore, rfl⟩ := runIn_resolveVariants_cons_ok.mp h
    rw [List.map_cons, List.map_cons, keys_of_runIn_resolveVariants hmore]

/-- The projects of some configurations, one after another, whose names have not come before. -/
def newcomers : List String → List (Dictionary String Project) → List Project
  | _, [] => []
  | seen, ps :: rest =>
    ps.values.filter (!seen.contains ·.name) ++ newcomers (seen ++ ps.values.map (·.name)) rest

/-- The names of the projects under a configuration are known from then on. -/
theorem known_of_runIn_resolveVariant {known known₁ : Identities} {variant : TemplateVariant}
    {ps : Dictionary String Project} {seen : List String} {s t : Session} (hn : known.Named)
    (h : (resolveVariant ctx object children template known c variant).runIn s =
      (.ok (known₁, ps), t)) (hseen : ∀ n ∈ seen, known.get? n ≠ none) :
    ∀ n ∈ seen ++ ps.values.map (·.name), known₁.get? n ≠ none := by
  obtain ⟨hhas, hgrows, -⟩ := has_of_runIn_resolveVariant hn h
  intro n hmem hnone
  rcases List.mem_append.mp hmem with hmem | hmem
  · exact hseen n hmem (hgrows.get?_eq_none hnone)
  · obtain ⟨p, hp, rfl⟩ := List.mem_map.mp hmem
    rw [(hhas p hp).known] at hnone
    cases hnone

/-- **A module is resolved for the configurations that are kept as it was for all of them, with the
projects that are admitted**, if its newcomers under these are seen. -/
theorem resolveVariants_transfer (ho : object.kind ≠ Solution.solutionKind)
    (hk : ∀ child ∈ children, child.kind = settingsKind) (hl : ctx.Like keep admits ctx') :
    ∀ {vs : List (Configuration × TemplateVariant)} {known known' : Identities} {seen : List String}
      {out : List (Configuration × Dictionary String Project)} {s t s' : Session},
        known.Named → known'.Named → Identities.Covers ctx ctx' known known' →
        (∀ n ∈ seen, known'.get? n ≠ none) →
        (resolveVariants ctx object children template known vs).runIn s = (.ok out, t) →
        s.Agree (keptKeys objectKeys keep) s' →
        (∀ p ∈ newcomers seen ((out.filter (keep ·.1)).map fun e => e.2.restrict (admits e.1)),
          ctx.Sees ctx' p.identity.sourcePath p.declaredPath) →
          ∃ out' t', (resolveVariants ctx' object children (template.restrict keep) known'
              (vs.filter (keep ·.1))).runIn s' = (.ok out', t') ∧
            List.Forall₂ (fun e e' => e.1 = e'.1 ∧
                (e.2.restrict (admits e.1)).Alike Project.Alike e'.2)
              (out.filter (keep ·.1)) out' ∧
            t.Agree (keptKeys objectKeys keep) t'
  | [], _, _, _, _, _, _, s', _, _, _, _, h, hs, _ => by
    cases h
    exact ⟨[], s', rfl, .nil, hs⟩
  | (c, variant) :: vs, known, known', seen, out, s, t, s', hn, hn', hcov, hseen, h, hs, hnew => by
    obtain ⟨known₁, ps, more, u, hv, hmore, rfl⟩ := runIn_resolveVariants_cons_ok.mp h
    obtain ⟨-, hgrows, hn₁⟩ := has_of_runIn_resolveVariant hn hv
    -- A configuration that is left out adds identities in the first context only, which stay covered.
    by_cases hc : keep c = true
    · simp only [List.filter_cons, hc, if_true, List.map_cons, newcomers] at hnew ⊢
      have hfirst : ∀ p ∈ (ps.restrict (admits c)).values, known'.get? p.name = none →
          ctx.Sees ctx' p.identity.sourcePath p.declaredPath := fun p hp hnone => by
        refine hnew p (List.mem_append_left _ (List.mem_filter.mpr ⟨hp, ?_⟩))
        have hns : p.name ∉ seen := fun hmem => hseen _ hmem hnone
        simpa using hns
      obtain ⟨known₁', ps', u', hv', ha, hcov', hu⟩ :=
        resolveVariant_transfer ho hk hc hl hn hn' hcov hv hs hfirst
      have hn₁' := (has_of_runIn_resolveVariant hn' hv').2.2
      have hseen' := known_of_runIn_resolveVariant hn' hv' hseen
      rw [Project.names_eq ha.values] at hseen'
      obtain ⟨out', t', hout, hall, ht⟩ := resolveVariants_transfer ho hk hl hn₁ hn₁' hcov' hseen'
        hmore hu fun p hp => hnew p (List.mem_append_right _ hp)
      exact ⟨(c, ps') :: out', t', runIn_resolveVariants_cons_ok.mpr
        ⟨known₁', ps', out', u', hv', hout, rfl⟩, .cons ⟨rfl, ha⟩ hall, ht⟩
    · have hu := (asks_resolveVariant ctx object template c variant ho hk known).agree
        (disjoint_keysFor_keptKeys hc) s
      rw [hv] at hu
      simp only [List.filter_cons, hc, if_false, Bool.false_eq_true] at hnew ⊢
      exact resolveVariants_transfer ho hk hl hn₁ hn' (hcov.mono hgrows) hseen hmore
        (hu.symm.trans hs) hnew

end Variants

/-- The projects of the module under the configurations that are kept, as far as their names are
admitted. -/
def selected (keep : Configuration → Bool) (admits : Configuration → String → Bool) (m : Module) :
    Dictionary Configuration (Dictionary String Project) :=
  (m.variants.restrict keep).mapValues fun c ps => ps.restrict (admits c)

/-- The second module is the first one for the configurations that are kept and the names that are
admitted, up to the spelling of source paths. -/
structure SelectsTo (keep : Configuration → Bool) (admits : Configuration → String → Bool)
    (m m' : Module) : Prop where
  name : m'.name = m.name
  template : m'.template = m.template
  variants : (m.selected keep admits).Alike (Dictionary.Alike Project.Alike) m'.variants

theorem resolve_transfer (hl : ctx.Like keep admits ctx') {object : Object} {template : Template}
    (ho : object.kind ≠ Solution.solutionKind) {m : Module} {s t s' : Session}
    (h : (resolve ctx object template).runIn s = (.ok m, t))
    (hs : s.Agree (keptKeys objectKeys keep) s')
    (hnew : ∀ p ∈ newcomers [] (m.selected keep admits).values,
      ctx.Sees ctx' p.identity.sourcePath p.declaredPath) :
    ∃ m' t', (resolve ctx' object (template.restrict keep)).runIn s' = (.ok m', t') ∧
      m.SelectsTo keep admits m' ∧ t.Agree (keptKeys objectKeys keep) t' := by
  obtain ⟨children, out, hch, hv, rfl⟩ := runIn_resolve_ok.mp h
  have hkeys : (out.map Prod.fst).Nodup :=
    keys_of_runIn_resolveVariants hv ▸ template.variants.distinct
  have hrestrict : ((Dictionary.ofList out).restrict keep).entries = out.filter (keep ·.1) := by
    unfold Dictionary.restrict
    dsimp only
    rw [Dictionary.entries_ofList hkeys]
  have hnew' : ∀ p ∈ newcomers [] ((out.filter (keep ·.1)).map fun e => e.2.restrict (admits e.1)),
      ctx.Sees ctx' p.identity.sourcePath p.declaredPath := by
    unfold selected Dictionary.mapValues Dictionary.values at hnew
    rw [List.map_map, hrestrict] at hnew
    exact hnew
  obtain ⟨out', t', hout, hall, ht⟩ := resolveVariants_transfer ho (settingsObjects_ok hch).1 hl
    Identities.named_empty Identities.named_empty (fun _ _ hj => by cases hj) (by simp) hv hs hnew'
  have hkeys' : (out'.map Prod.fst).Nodup :=
    keys_of_runIn_resolveVariants hout ▸ (template.restrict keep).variants.distinct
  refine ⟨_, t', runIn_resolve_ok.mpr ⟨children, out', hch, hout, rfl⟩, ⟨rfl, rfl, ?_⟩, ht⟩
  show List.Forall₂ _ (((Dictionary.ofList out).restrict keep).entries.map _) _
  rw [hrestrict, Dictionary.entries_ofList hkeys', List.forall₂_map_left_iff]
  exact hall

end Module

namespace Solution

theorem entries_subset_of_resolveModules {ctx : ModuleContext}
    {templates : Dictionary String Template} : ∀ {os : List Object}
      {modules out : Dictionary String Module} {s t : Session},
        (resolveModules ctx templates modules os).runIn s = (.ok out, t) →
          modules.entries ⊆ out.entries
  | [], _, _, _, _, h => by
    cases h
    exact List.Subset.refl _
  | o :: os, _, _, _, _, h => by
    obtain ⟨hc, _, _, _, _, -, -, -, h⟩ := runIn_resolveModules_cons_ok.mp h
    have hsub := entries_subset_of_resolveModules h
    rw [Dictionary.entries_insert hc] at hsub
    exact fun e he => hsub (List.mem_append_left _ he)

theorem resolveModules_transfer {keep : Configuration → Bool}
    {admits : Configuration → String → Bool} {ctx ctx' : ModuleContext}
    (hl : ctx.Like keep admits ctx') {templates templates' : Dictionary String Template}
    (ht : templates.Alike (fun m m' => m' = m.restrict keep) templates') : ∀ {os : List Object}
      {modules modules' out : Dictionary String Module} {s t s' : Session},
        (∀ o ∈ os, o.kind ≠ solutionKind) →
        modules.Alike (Module.SelectsTo keep admits) modules' →
        (resolveModules ctx templates modules os).runIn s = (.ok out, t) →
        s.Agree (keptKeys objectKeys keep) s' →
        (∀ m ∈ out.values, ∀ p ∈ Module.newcomers [] (m.selected keep admits).values,
          ctx.Sees ctx' p.identity.sourcePath p.declaredPath) →
          ∃ out' t', (resolveModules ctx' templates' modules' os).runIn s' = (.ok out', t') ∧
            out.Alike (Module.SelectsTo keep admits) out' ∧ t.Agree (keptKeys objectKeys keep) t'
  | [], _, modules', _, _, _, s', _, ha, h, hs, _ => by
    cases h
    exact ⟨modules', s', rfl, ha, hs⟩
  | o :: os, modules, modules', out, s, t, s', hos, ha, h, hs, hnew => by
    obtain ⟨ho, hos⟩ := List.forall_mem_cons.mp hos
    obtain ⟨hc, name, template, m, u, hb, hget, hm, h⟩ := runIn_resolveModules_cons_ok.mp h
    have hmem : m ∈ out.values :=
      Dictionary.mem_values_of_insert (entries_subset_of_resolveModules h)
    obtain ⟨m', u', hm', hmm, hu⟩ := Module.resolve_transfer hl ho hm hs (hnew m hmem)
    have hget' : templates'.get? name = some (template.restrict keep) := by
      have hrel := ht.get? name
      rw [hget] at hrel
      generalize templates'.get? name = r at hrel
      cases hrel with
      | some he => rw [he]
    obtain ⟨out', t', hout, hrest⟩ :=
      resolveModules_transfer hl ht hos (ha.insert hc hmm) h hu hnew
    exact ⟨out', t', runIn_resolveModules_cons_ok.mpr
      ⟨ha.contains_eq _ ▸ hc, name, _, m', u', hb, hget', hm', hout⟩, hrest⟩

end Solution

end BuildPlan
