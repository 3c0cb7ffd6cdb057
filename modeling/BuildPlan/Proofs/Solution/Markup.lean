import BuildPlan.Proofs.Settings.Markup
import BuildPlan.Proofs.Solution.Declarations
import BuildPlan.Proofs.Variable.Splicing

/-! # Markup in a resolved solution

An item of markup in the settings of a project comes from a block of the document, which is a
well-formed fragment: it was expanded as far as possible in the settings of the template and in those of
the module, and completely for the project. If the block is open for values, and the values that it is
offered are calm, then the item is a well-formed fragment as well (`customXml_of_resolvesTo`). A value
that is itself markup may break it (`customXml_broken`). -/

namespace BuildPlan

open BuildPlan.Variable

/-! ### Blocks of objects -/

theorem Element.mem_xmlsOfAll_of_objects {es : List Element} {o : Object} (ho : o ∈ Element.objects es)
    {t : String} (ht : t ∈ Element.xmlsOfAll o.body) : t ∈ Element.xmlsOfAll es := by
  obtain ⟨e, he, hoe⟩ := List.mem_filterMap.mp ho
  cases e with
  | object heading body =>
    cases hoe
    exact mem_xmlsOfAll.mpr ⟨_, he, by rwa [Element.xmls]⟩
  | comment | group | assignment | invocation | block => cases hoe

/-- The blocks of a settings object are blocks of its owner. -/
theorem Object.mem_xmlsOfAll_of_settingsObjects {o child : Object} {children : List Object}
    (h : o.settingsObjects = .ok children) (hc : child ∈ children) {t : String}
    (ht : t ∈ Element.xmlsOfAll child.body) : t ∈ Element.xmlsOfAll o.body := by
  obtain ⟨rfl, -⟩ := settingsObjectsFrom_ok h
  exact Element.mem_xmlsOfAll_of_objects hc ht

/-- The blocks of a solution's body are blocks of the document. -/
theorem Solution.mem_xmls_of_bodyOf {d : Document} {body : Object} (hb : bodyOf d = .ok body)
    {t : String} (ht : t ∈ Element.xmlsOfAll body.body) : t ∈ d.xmls := by
  obtain ⟨e, he, ht⟩ := Element.mem_xmlsOfAll.mp ht
  rcases mem_of_bodyOf hb he with he | ⟨heading, es, ho, he⟩
  · exact Element.mem_xmlsOfAll.mpr ⟨e, he, ht⟩
  · refine Element.mem_xmlsOfAll.mpr ⟨_, ho, ?_⟩
    rw [Element.xmls]
    exact Element.mem_xmlsOfAll.mpr ⟨e, he, ht⟩

/-! ### Settings objects -/

/-- The text comes from one of the texts by deferring passes with some of the bindings. -/
def StemsFrom (texts : List String) (bs : List Bindings) (t : String) : Prop :=
  ∃ written ∈ texts, Deferred bs written t

section Stems
variable {texts : List String} {bs : List Bindings} {b : Bindings}

theorem StemsFrom.cons {t : String} (h : StemsFrom texts bs t) (b : Bindings) :
    StemsFrom texts (b :: bs) t := by
  obtain ⟨written, hw, h⟩ := h
  exact ⟨written, hw, h.mono (List.subset_cons_self b bs)⟩

/-- A settings object stems from texts if its base does and its own blocks are among them. -/
theorem Job.stems_answerAnew {child : Object} {scope : String} {c : Configuration}
    {base : Option Settings} {external : NameSet} {s : Settings} (hb : b ∈ bs)
    (hbase : ∀ s ∈ base, s.Marked (StemsFrom texts bs))
    (hbody : ∀ t ∈ Element.xmlsOfAll child.body, t ∈ texts)
    (h : (Job.answerAnew ⟨child, scope, .settings, some c, base, b⟩ external).result = .ok s) :
    s.Marked (StemsFrom texts bs) := by
  refine Job.marked_answerAnew (c := .settings) rfl hbase (fun t ht => ⟨t, hbody t ht, .start⟩) ?_ h
  rintro t t' ⟨written, hw, ht⟩ he
  exact ⟨written, hw, ht.pass hb he⟩

/-- What every compilation keeps holds of the settings to which an object compiles. -/
theorem Heir.CompilesTo.keeps {hs : List Heir} {inherited : Dictionary String Settings}
    {P : Settings → Prop} {compile : Object → Option Settings → Fallible Settings}
    (hcompile : ∀ h ∈ hs, ∀ base s, (∀ b ∈ base, P b) → compile h.object base = .ok s → P s)
    (hi : ∀ n s, inherited.get? n = some s → P s) {h : Heir} {s : Settings}
    (hc : CompilesTo hs inherited compile h s) : h ∈ hs → P s := by
  induction hc with
  | origin _ hc => exact fun hh => hcompile _ hh _ _ (by simp) hc
  | within hp _ _ _ hc ih =>
    refine fun hh => hcompile _ hh _ _ (fun b hb => ?_) hc
    cases hb
    exact ih hp
  | beyond _ _ hget hc =>
    refine fun hh => hcompile _ hh _ _ (fun b hb => ?_) hc
    cases hb
    exact hi _ _ hget

/-- Settings objects that inherit from each other stem from texts if the inherited settings do and
their blocks are among them. -/
theorem Heir.CompilesTo.stems {hs : List Heir} {inherited : Dictionary String Settings}
    {scope : String} {c : Configuration} {external : NameSet} {h : Heir} {s : Settings} (hb : b ∈ bs)
    (hbody : ∀ h ∈ hs, ∀ t ∈ Element.xmlsOfAll h.object.body, t ∈ texts)
    (hi : ∀ n s, inherited.get? n = some s → s.Marked (StemsFrom texts bs))
    (hc : CompilesTo hs inherited (fun o base =>
      (Job.answerAnew ⟨o, scope, .settings, some c, base, b⟩ external).result) h s) (hh : h ∈ hs) :
    s.Marked (StemsFrom texts bs) :=
  hc.keeps (fun h hh _ _ hbase hs => Job.stems_answerAnew hb hbase (hbody h hh) hs) hi hh

end Stems

/-- What is found among compiled objects is what one of them compiles to. -/
theorem Heir.exists_compilesTo_of_get? {hs : List Heir} {inherited all : Dictionary String Settings}
    {compile : Object → Option Settings → Compile Settings} (hd : (hs.map name).Nodup)
    (h : (compileAll inherited compile hs).fresh.result = .ok all) {n : String} {s : Settings}
    (hs' : all.get? n = some s) :
    ∃ h ∈ hs, CompilesTo hs inherited (fun o base => (compile o base).fresh.result) h s := by
  obtain ⟨hall, honly⟩ := compilesTo_of_compileAll hd h
  have hn : n ∈ hs.map name := by
    by_contra hn
    rw [honly n hn] at hs'
    cases hs'
  obtain ⟨p, hp, rfl⟩ := List.mem_map.mp hn
  obtain ⟨s', hget, hc⟩ := hall p hp
  cases hs'.symm.trans hget
  exact ⟨p, hp, hc⟩

/-! ### Templates and modules -/

/-- The settings of a template stem from its blocks. -/
theorem Template.stems_of_fresh_resolve {object : Object} {cs : List Configuration}
    {external : NameSet} {b : Bindings} {template : Template}
    (h : (resolve object cs external b).fresh.result = .ok template)
    {texts : List String} (hbody : ∀ t ∈ Element.xmlsOfAll object.body, t ∈ texts)
    {c : Configuration} {variant : TemplateVariant} (hv : template.variants.get? c = some variant)
    {n : String} {s : Settings} (hs : variant.settings.get? n = some s) :
    s.Marked (StemsFrom texts [bindingsIn object b c]) := by
  obtain ⟨-, children, hch, hall⟩ := variants_of_fresh_resolve h
  have hnames : (children.map fun child => (⟨child, child.base⟩ : Heir)).map Heir.name =
      children.map Object.name := by
    rw [List.map_map]
    rfl
  obtain ⟨h, hh, hc⟩ := Heir.exists_compilesTo_of_get? (hnames ▸ (settingsObjects_ok hch).2)
    (Compile.fresh_within_ok.mp (hall c variant hv).2) hs
  simp only [Compile.fresh_compile] at hc
  refine hc.stems List.mem_cons_self (fun h hh t ht => hbody t ?_) (by simp) hh
  obtain ⟨child, hchild, rfl⟩ := List.mem_map.mp hh
  exact Object.mem_xmlsOfAll_of_settingsObjects hch hchild ht

namespace Module

variable {ctx : ModuleContext} {object : Object} {template : Template} {c : Configuration}

theorem names_of_fresh_resolve {m : Module}
    (h : (resolve ctx object template).fresh.result = .ok m) :
    m.name = object.name ∧ m.template = template.name := by
  rw [resolve] at h
  obtain ⟨_, -, h⟩ := Compile.result_fresh_bind_ok.mp h
  obtain ⟨_, -, h⟩ := Compile.result_fresh_bind_ok.mp h
  cases h
  exact ⟨rfl, rfl⟩

/-- A declared project has settings that are there, fully expanded for it. -/
theorem expanded_of_resolveProject {module : String} {b : Bindings}
    {settings : Dictionary String Settings} {known known' : Identities} {entry : String × String}
    {p : Project} (hk : known.Named)
    (h : (resolveProject ctx module c b settings known entry).result = .ok (some (p, known'))) :
    ∃ n compiled, settings.get? n = some compiled ∧
      compiled.expand (b.bind projectName p.name) .complete = .ok p.settings := by
  obtain ⟨d, compiled, _, _, i, _, -, hget, he, -, hcur, hmet, -, rfl⟩ := resolveProject_some.mp h
  have hname : i.name = d.project :=
    (Identities.meet_ok hk hmet).1.trans (Identity.of_ofSettings hcur).1
  exact ⟨d.settings, compiled, hget, by rw [Project.name, hname]; exact he⟩

/-- Every project of a module has the settings of a name, fully expanded for it. -/
theorem settingsOf_of_mem_projects {m : Module}
    (h : (resolve ctx object template).fresh.result = .ok m) {p : Project} (hp : p ∈ m.projects c) :
    ∃ children variant n compiled, object.settingsObjects = .ok children ∧
      template.variants.get? c = some variant ∧
      SettingsOf ctx object children template c variant n compiled ∧
      compiled.expand ((bindingsIn ctx object template c).bind projectName p.name) .complete =
        .ok p.settings := by
  rw [resolve] at h
  obtain ⟨children, hch, h⟩ := Compile.result_fresh_bind_ok.mp h
  obtain ⟨variants, hvs, h⟩ := Compile.result_fresh_bind_ok.mp h
  cases h
  have hchildren : object.settingsObjects = .ok children := hch
  obtain ⟨hkeys, hall⟩ := fresh_resolveVariants_ok Identities.named_empty hvs
  have hd : (variants.map Prod.fst).Nodup := hkeys ▸ template.variants.distinct
  obtain ⟨⟨c, ps⟩, hmem, rfl, e, he, rfl⟩ := mem_projects.mp hp
  rw [Dictionary.entries_ofList hd] at hmem
  have hc : c ∈ template.variants.entries.map Prod.fst := hkeys ▸ List.mem_map_of_mem hmem
  obtain ⟨⟨c, variant⟩, hv, rfl⟩ := List.mem_map.mp hc
  obtain ⟨known, known', ps', hk, hps, hmem'⟩ := hall _ hv
  cases List.inj_on_of_nodup_map hd hmem hmem' rfl
  obtain ⟨root, -, ⟨-, -, rfl⟩ | ⟨-, own, hown, hres⟩⟩ := fresh_resolveVariant_ok hps
  · cases he
  · obtain ⟨n, compiled, hget, hexp⟩ := (forall_of_resolveProjects
      (P := fun e => ∃ n compiled, (variant.settings.insertAll own.entries).get? n = some compiled ∧
        compiled.expand ((bindingsIn ctx object template c).bind projectName e.2.name) .complete =
          .ok e.2.settings) expanded_of_resolveProject hk (List.forall_mem_nil _) hres).1 e he
    exact ⟨children, variant, n, compiled, hchildren, Dictionary.get?_of_mem hv,
      settingsOf_of_get? (settingsObjects_ok hchildren).2 hown hget, hexp⟩

/-- The settings of a name in a module stem from texts if those of the template do and the blocks of
the module are among them. -/
theorem SettingsOf.stems {children : List Object} {variant : TemplateVariant} {n : String}
    {compiled : Settings} {texts : List String} {bs : List Bindings}
    (h : SettingsOf ctx object children template c variant n compiled)
    (hch : object.settingsObjects = .ok children)
    (hbody : ∀ t ∈ Element.xmlsOfAll object.body, t ∈ texts)
    (ht : ∀ n s, variant.settings.get? n = some s → s.Marked (StemsFrom texts bs)) :
    compiled.Marked (StemsFrom texts (bindingsIn ctx object template c :: bs)) := by
  have hinherited : ∀ n s, variant.settings.get? n = some s →
      s.Marked (StemsFrom texts (bindingsIn ctx object template c :: bs)) :=
    fun n s hs => (ht n s hs).imp fun _ hx => hx.cons _
  rcases h with ⟨child, hchild, -, hall⟩ | ⟨-, hget⟩
  · refine ((hall compiled).mpr rfl).stems List.mem_cons_self (fun h hh t hx => hbody t ?_) hinherited
      (List.mem_map_of_mem hchild)
    obtain ⟨child', hchild', rfl⟩ := List.mem_map.mp hh
    exact Object.mem_xmlsOfAll_of_settingsObjects hch hchild' hx
  · exact hinherited n compiled hget

end Module

/-! ### The solution -/

namespace Solution

/-- The bindings of a template under a configuration of the solution. -/
def templateBindings (o : Options) (s : Solution) (template : String) (c : Configuration) : Bindings :=
  (c.bind ((Bindings.ofList o.environment).bind solutionName s.name)).bind templateName template

/-- The bindings of a module under a configuration of the solution. -/
def moduleBindings (o : Options) (s : Solution) (m : Module) (c : Configuration) : Bindings :=
  (s.templateBindings o m.template c).bind moduleName m.name

/-- The bindings of a project of a module. -/
def projectBindings (o : Options) (s : Solution) (m : Module) (p : Project) (c : Configuration) :
    Bindings :=
  (s.moduleBindings o m c).bind projectName p.name

variable {o : Options} {fs : FileSystem} {d : Document} {s : Solution}

/-- The markup of a project stems from the blocks of the document, and is fully expanded. -/
theorem marked_of_fresh_resolve (h : (resolve o fs d).fresh.result = .ok s) {m : Module}
    (hm : m ∈ s.modules.values) {c : Configuration} {p : Project} (hp : p ∈ m.projects c) :
    p.settings.Marked fun t => ∃ passed,
      StemsFrom d.xmls [s.moduleBindings o m c, s.templateBindings o m.template c] passed ∧
        expand (s.projectBindings o m p c) .complete passed = .ok t := by
  obtain ⟨body, cs, resolved, hb, -, -, he, hmodules⟩ := resolved_of_fresh_resolve h
  obtain ⟨object, ho, origin, horigin, template, -, -, hfresh, hres⟩ := hmodules m hm
  have hbody : ∀ {object : Object}, object ∈ Element.objects body.body →
      ∀ t ∈ Element.xmlsOfAll object.body, t ∈ d.xmls := fun ho t ht =>
    mem_xmls_of_bodyOf hb (Element.mem_xmlsOfAll_of_objects ho ht)
  obtain ⟨children, variant, n, compiled, hch, hv, hset, hexp⟩ :=
    Module.settingsOf_of_mem_projects hres hp
  have hmarked := hset.stems hch (hbody (List.mem_of_mem_filter ho)) fun _ _ hs =>
    Template.stems_of_fresh_resolve hfresh (hbody (List.mem_of_mem_filter horigin)) hv hs
  -- the names in the bindings are those of the resolved solution
  obtain ⟨hname, htname⟩ := Module.names_of_fresh_resolve hres
  have horiginName := (Template.variants_of_fresh_resolve hfresh).1
  have hs : s.name = body.name := by rw [he]; rfl
  have ht : Template.bindingsIn origin (bindingsIn o body) c = s.templateBindings o m.template c := by
    rw [templateBindings, hs, htname, horiginName]
    rfl
  have hmod : Module.bindingsIn (contextOf o fs body resolved) object template c =
      s.moduleBindings o m c := by
    rw [moduleBindings, templateBindings, hs, htname, hname]
    rfl
  rw [ht, hmod] at hmarked
  rw [hmod] at hexp
  exact hmarked.expand (fun t t' ht he => ⟨t, ht, he⟩) hexp

/-- **The markup of a project comes from blocks that were read as well-formed fragments.** Every item is
such a block of the document, expanded as far as possible with the bindings of the template and of the
module, and completely with those of the project. If the block has references only in text, in character
data and in the values of attributes that declare no namespace, and the names of these references and the
values that the bindings have for them are calm, and no value is empty, then the item is a well-formed
fragment, too. -/
theorem customXml_of_resolvesTo {source : String} (hd : Document.parse source = .ok d)
    (hs : ResolvesTo o fs d s) {m : Module} (hm : m ∈ s.modules.values) {c : Configuration}
    {p : Project} (hp : p ∈ m.projects c) {i : Item} (hi : i ∈ p.settings.items PropertyName.customXml) :
    ∃ written ∈ d.xmls, ∃ passed t, i = .xml t ∧ Xml.isWellFormed written.toList = true ∧
      Deferred [s.moduleBindings o m c, s.templateBindings o m.template c] written passed ∧
      expand (s.projectBindings o m p c) .complete passed = .ok t ∧
      (Xml.isOpen written.toList = true →
        (∀ b ∈ [s.projectBindings o m p c, s.moduleBindings o m c, s.templateBindings o m.template c],
          Harmless b (read written.toList)) →
        Xml.isWellFormed t.toList = true) := by
  have hmarked := marked_of_fresh_resolve (fresh_of_resolvesTo hd hs) hm hp
  obtain ⟨t, rfl, passed, ⟨written, hw, hdeferred⟩, he⟩ := hmarked.customXml hi
  exact ⟨written, hw, passed, t, rfl, isWellFormed_of_parse hd hw, hdeferred, he,
    fun ho hb => hdeferred.isWellFormed he ho hb⟩

/-! ### A block with one reference -/

/-- A template with settings that add a block of markup, and a module that applies it. -/
def withMarkup (block : String) : Document :=
  ⟨[.group ⟨"g", [("Debug", .empty)]⟩,
    .object ⟨templateKind, "T", none⟩
      [.assignment ⟨.add, ["projects"], .pair "P" (.literal "S"), always⟩,
        .object ⟨settingsKind, "S", none⟩
          [.assignment ⟨.add, ["custom", "xml"], .xml block, always⟩]],
    .object ⟨moduleKind, "Core", some "T"⟩ []]⟩

/-- The document as it is written, with a reference in the text of an element. -/
def markupSource : String :=
  "configuration g [ Debug: ]\ntemplate T \x7b add projects: P: S\n settings S \x7b add custom xml: " ++
    "xml \"\"\"<a>$(A)</a>\"\"\" \x7d \x7d\nmodule Core : T \x7b \x7d\n"

theorem parse_markupSource : Document.parse markupSource = .ok (withMarkup "<a>$(A)</a>") := by
  decide +kernel

theorem xmls_withMarkup (block : String) : (withMarkup block).xmls = [block] := rfl

/-- With a plain value the item is a well-formed fragment. -/
theorem customXml_of_resolvesTo_plain : ∃ s m p,
    Document.parse markupSource = .ok (withMarkup "<a>$(A)</a>") ∧
      ResolvesTo (.ofEnvironment [("A", "x")]) default (withMarkup "<a>$(A)</a>") s ∧
      m ∈ s.modules.values ∧ p ∈ m.projects Module.debug ∧
      .xml "<a>x</a>" ∈ p.settings.items PropertyName.customXml ∧
      Xml.isWellFormed "<a>x</a>".toList = true := by
  obtain ⟨s, hs, m, hm, p, hp, hi⟩ := exists_resolvesTo_with (.ofEnvironment [("A", "x")]) default
    (withMarkup "<a>$(A)</a>") (fun s => ∃ m ∈ s.modules.values, ∃ p ∈ m.projects Module.debug,
      .xml "<a>x</a>" ∈ p.settings.items PropertyName.customXml) (by decide +kernel)
  obtain ⟨written, hw, _, _, ht, -, -, -, hwell⟩ :=
    customXml_of_resolvesTo parse_markupSource hs hm hp hi
  cases ht
  rw [xmls_withMarkup, List.mem_singleton] at hw
  subst hw
  have hreferences : references (read "<a>$(A)</a>".toList) = [['A']] := by decide +kernel
  have hharmless : ∀ b : Bindings, b.get? "A" = some "x" →
      Harmless b (read "<a>$(A)</a>".toList) := by
    intro b hb name hn
    rw [hreferences, List.mem_singleton] at hn
    subst hn
    refine ⟨by decide, fun value hv => ?_⟩
    cases hb.symm.trans hv
    decide
  refine ⟨s, m, p, parse_markupSource, hs, hm, hp, hi, hwell (by decide +kernel) ?_⟩
  simp only [List.forall_mem_cons]
  exact ⟨hharmless _ rfl, hharmless _ rfl, hharmless _ rfl, List.forall_mem_nil _⟩

/-- **A value that is markup breaks an item**: the block is a well-formed fragment, and what becomes of
it is none. -/
theorem customXml_broken : ∃ s m p,
    Document.parse markupSource = .ok (withMarkup "<a>$(A)</a>") ∧
      ResolvesTo (.ofEnvironment [("A", "<")]) default (withMarkup "<a>$(A)</a>") s ∧
      m ∈ s.modules.values ∧ p ∈ m.projects Module.debug ∧
      .xml "<a><</a>" ∈ p.settings.items PropertyName.customXml ∧
      Xml.isWellFormed "<a><</a>".toList = false := by
  obtain ⟨s, hs, m, hm, p, hp, hi⟩ := exists_resolvesTo_with (.ofEnvironment [("A", "<")]) default
    (withMarkup "<a>$(A)</a>") (fun s => ∃ m ∈ s.modules.values, ∃ p ∈ m.projects Module.debug,
      .xml "<a><</a>" ∈ p.settings.items PropertyName.customXml) (by decide +kernel)
  exact ⟨s, m, p, parse_markupSource, hs, hm, hp, hi, by decide +kernel⟩

end Solution

end BuildPlan
