import BuildPlan.Proofs.Settings.Fitting
import BuildPlan.Proofs.Settings.Prepending
import BuildPlan.Proofs.Solution.Shadowing

/-! # Declarations of projects

The projects of a module are declared in the body of its template and in its own, each under a key from
which its name comes by expansion. The keys are merged as they are written, expanded as far as possible
behind the body of the template, and again behind the body of the module, and keys that become equal on
the way are one from there on. So the module has the names to which the written keys expand, each of them
once, and every declaration that is written has a project of its own just if no two of the names are
equal (`declarations_kept_iff`). Otherwise declarations are lost without a failure
(`declaration_lost`). -/

namespace BuildPlan

open BuildPlan.Variable

/-! ### Dictionaries of texts -/

theorem Item.source_deferred (b : Bindings) (i : Item) :
    (i.deferred b).source = Variable.deferred b i.source := by
  cases i <;> rfl

/-- The entries of a dictionary of texts are all its entries. -/
theorem Settings.entries_of_texts {s : Settings} {p : String} {d : Dictionary String Item}
    (hv : s.value? p = some (.dictionary d)) (ht : ∀ i ∈ d.values, i.kind = .text) :
    s.entries p = d.entries.map (Prod.map id Item.source) := by
  unfold entries
  rw [hv]
  dsimp only
  rw [← List.filterMap_eq_map]
  refine List.filterMap_congr fun e he => ?_
  obtain ⟨k, i⟩ := e
  cases i with
  | text t => rfl
  | xml | pattern => cases ht _ (List.mem_map_of_mem he)

/-- The property that declares projects. -/
def Definition.projects : Definition := Registry.blank PropertyName.projects .dictionary .text

/-- Its value is a dictionary of texts. -/
theorem Bag.Holds.projects {bag : Bag} (h : bag.Holds .projects) :
    ∃ d, bag.values.get? PropertyName.projects = some (.dictionary d) ∧
      ∀ i ∈ d.values, i.kind = .text := by
  obtain ⟨v, hv, hf⟩ := h
  have hs : v.shape = .dictionary := hf.shape
  cases v with
  | scalar | set => cases hs
  | dictionary d => exact ⟨d, hv, hf.kind⟩

/-- What is expanded fits as before. -/
theorem Bag.Holds.expand {bag bag' : Bag} {d : Definition} {b : Bindings} (h : bag.Holds d)
    (he : bag.expand b .deferring = .ok bag') : bag'.Holds d := by
  obtain ⟨v, hv, hf⟩ := h
  exact ⟨v.deferred b, by rw [(get?_of_expand_deferring he).2.1, hv]; rfl, hf.deferred b⟩

theorem Bag.holds_initial_projects : (Bag.initial .template).Holds .projects :=
  ⟨_, rfl, Definition.fits_initialValue _ nofun⟩

namespace PropertyValue

variable {b₁ b : Bindings} {v u' : PropertyValue} {d : Dictionary String Item}
  {cs : List (Action × PropertyValue)}

/-- The keys of a dictionary come out the same whether its value is expanded before the changes or
not. -/
theorem keys_deferred_mergeAll (hb : b₁.orElse b = b) (hs : ∀ t ∈ v.sources, Settles b₁ t)
    (h : v.mergeAll cs = some (.dictionary d)) (h' : (v.deferred b₁).mergeAll cs = some u') :
    (u'.deferred b).keys = (d.rekey (Variable.deferred b) (Item.deferred b)).keys := by
  rcases mergeAll_cases (shape_deferred b₁ v).symm h h' with ⟨-, rfl⟩ | ⟨-, hcase⟩
  · rfl
  rcases hcase with ⟨-, rfl, rfl⟩ | ⟨s, s', -, -, hu, -⟩ | ⟨e, e', rfl, he', hu, rfl⟩
  · exact keys_deferred_dictionary hb (fun k hk => hs k (List.mem_append_left _ hk)) []
  · cases hu
  · cases he'
    cases hu
    exact keys_deferred_dictionary hb (fun k hk => hs k (List.mem_append_left _ hk)) _

/-- A dictionary whose keys are kept apart in the end could be expanded before the changes. -/
theorem mergeable_of_apart (hs : ∀ t ∈ v.sources, Settles b₁ t)
    (h : v.mergeAll cs = some (.dictionary d)) (ha : Dictionary.Apart (Variable.deferred b) d.keys) :
    Sets cs ∨ Mergeable b₁ b v cs := by
  rcases mergeAll_cases rfl h h with ⟨hset, -⟩ | ⟨-, hcase⟩
  · exact Or.inl hset
  refine Or.inr ⟨hs, Or.inr ?_⟩
  rcases hcase with ⟨rfl, rfl, -⟩ | ⟨s, s', -, -, hu, -⟩ | ⟨e, e', rfl, -, hu, -⟩
  · exact ⟨ha, nofun⟩
  · cases hu
  · cases hu
    refine ⟨ha.mono fun k hk => ?_, ha.mono fun k hk => ?_⟩
    · exact Dictionary.mem_keys_insertAll.mpr (Or.inl hk)
    · exact Dictionary.mem_keys_insertAll.mpr (Or.inr hk)

end PropertyValue

namespace Module

/-! ### Names -/

section Names
variable {b : Bindings} {e : String × String} {d : Declaration} {raw es : List (String × String)}
  {ds : List Declaration}

theorem Declaration.expand_ok : Declaration.expand b e = .ok d ↔
    Variable.expand b .complete e.1 = .ok d.project ∧
      Variable.expand b .complete e.2 = .ok d.settings := by
  unfold Declaration.expand
  rw [Fallible.bind_ok]
  constructor
  · rintro ⟨n, hn, h⟩
    obtain ⟨s, hs, h⟩ := Fallible.bind_ok.mp h
    cases h
    exact ⟨hn, hs⟩
  · rintro ⟨hn, hs⟩
    exact ⟨_, hn, Fallible.bind_ok.mpr ⟨_, hs, rfl⟩⟩

/-- What the declaration means does not change if it is expanded as far as possible. -/
theorem Declaration.expand_deferred (h : Settles b e.1 ∧ Settles b e.2) :
    Declaration.expand b (Prod.map (deferred b) (deferred b) e) = .ok d ↔
      Declaration.expand b e = .ok d := by
  rw [expand_ok, expand_ok, Prod.map_fst, Prod.map_snd, expand_complete_deferred h.1,
    expand_complete_deferred h.2, b.orElse_self]

/-- **Declarations whose keys were merged behind an expansion have the names of the written ones, each of
them once**, and they are the written ones if and only if those names are distinct. -/
theorem names_of_deferred (hs : ∀ e ∈ raw, Settles b e.1 ∧ Settles b e.2)
    (hk : es.map Prod.fst = (OrderedSet.ofList (raw.map fun e => deferred b e.1)).items)
    (ha : Dictionary.Apart (deferred b) (raw.map Prod.fst) →
      es = raw.map (Prod.map (deferred b) (deferred b)))
    (hes : ∀ e ∈ es, ∃ d, Declaration.expand b e = .ok d) :
    ∃ names ds, raw.mapM (fun e => Variable.expand b .complete e.1) = .ok names ∧
      es.mapM (Declaration.expand b) = .ok ds ∧
      ds.map Declaration.project = (OrderedSet.ofList names).items ∧
      (names.Nodup ↔ raw.mapM (Declaration.expand b) = .ok ds) := by
  -- Every written key has a name, since what it became has one.
  have hname : ∀ e ∈ raw, ∃ n, Variable.expand b .complete e.1 = .ok n := by
    intro e he
    have hm : deferred b e.1 ∈ es.map Prod.fst := by
      rw [hk]
      exact OrderedSet.mem_items_ofList.mpr (List.mem_map_of_mem he)
    obtain ⟨e', he', heq⟩ := List.mem_map.mp hm
    obtain ⟨d, hd⟩ := hes e' he'
    have hn := (Declaration.expand_ok.mp hd).1
    rw [heq, expand_complete_deferred (hs e he).1, b.orElse_self] at hn
    exact ⟨_, hn⟩
  have hdeclaration : Nonempty Declaration := ⟨⟨"", ""⟩⟩
  choose! name hexpand using hname
  choose! declared hdeclared using hes
  have hdeferred : ∀ e ∈ raw, deferred b e.1 = verbatim (name e) := fun e he =>
    deferred_of_expand_complete (hexpand e he)
  have hverbatim : ∀ n ∈ raw.map name, Variable.expand b .complete (verbatim n) = .ok n := by
    intro n hn
    obtain ⟨e, he, rfl⟩ := List.mem_map.mp hn
    rw [← hdeferred e he, expand_complete_deferred (hs e he).1, b.orElse_self]
    exact hexpand e he
  have hapart : ∀ n ∈ raw.map name, ∀ m ∈ raw.map name, verbatim n = verbatim m → n = m := by
    intro n hn m hm h
    have hnm := hverbatim n hn
    rw [h, hverbatim m hm] at hnm
    exact (Except.ok.inj hnm).symm
  have hkeys : es.map Prod.fst = (OrderedSet.ofList (raw.map name)).items.map verbatim := by
    rw [hk, ← OrderedSet.items_ofList_map hapart, List.map_map]
    exact congrArg (fun l => (OrderedSet.ofList l).items) (List.map_congr_left hdeferred)
  have hnames : raw.mapM (fun e => Variable.expand b .complete e.1) = .ok (raw.map name) :=
    Fallible.mapM_ok_of_forall hexpand
  have hprojects : (es.map declared).map Declaration.project =
      (OrderedSet.ofList (raw.map name)).items := by
    have h₁ : (es.map Prod.fst).mapM (Variable.expand b .complete) =
        .ok ((es.map declared).map Declaration.project) := by
      rw [Fallible.mapM_ok_forall₂, List.forall₂_map_left_iff, List.map_map,
        List.forall₂_map_right_iff, List.forall₂_same]
      exact fun e he => (Declaration.expand_ok.mp (hdeclared e he)).1
    have h₂ : ((OrderedSet.ofList (raw.map name)).items.map verbatim).mapM
        (Variable.expand b .complete) = .ok (OrderedSet.ofList (raw.map name)).items := by
      rw [Fallible.mapM_ok_forall₂, List.forall₂_map_left_iff, List.forall₂_same]
      exact fun n hn => hverbatim n (OrderedSet.mem_items_ofList.mp hn)
    rw [hkeys, h₂] at h₁
    exact (Except.ok.inj h₁).symm
  refine ⟨raw.map name, es.map declared, hnames, Fallible.mapM_ok_of_forall hdeclared, hprojects,
    fun hn => ?_, fun h => ?_⟩
  · have hes' := ha fun x hx y hy h => by
      obtain ⟨e, he, rfl⟩ := List.mem_map.mp hx
      obtain ⟨e', he', rfl⟩ := List.mem_map.mp hy
      rw [hdeferred e he, hdeferred e' he'] at h
      have := hapart _ (List.mem_map_of_mem he) _ (List.mem_map_of_mem he') h
      rw [List.inj_on_of_nodup_map hn he he' this]
    rw [hes', List.map_map]
    refine Fallible.mapM_ok_of_forall fun e he => (Declaration.expand_deferred (hs e he)).mp ?_
    exact hdeclared _ (hes' ▸ List.mem_map_of_mem he)
  · have hsame : raw.mapM (fun e => Variable.expand b .complete e.1) =
        .ok ((es.map declared).map Declaration.project) := by
      rw [Fallible.mapM_ok_forall₂, List.forall₂_map_right_iff]
      exact (Fallible.mapM_ok_forall₂.mp h).imp fun _ _ h => (Declaration.expand_ok.mp h).1
    rw [hnames, hprojects] at hsame
    exact OrderedSet.nodup_of_items_ofList (Except.ok.inj hsame).symm

end Names

/-! ### Written declarations -/

/-- The bag that bodies give when they are walked one after another, with nothing expanded. -/
def writtenBag (defined : NameSet) : Bag → List (List Element) → Fallible Bag
  | bag, [] => .ok bag
  | bag, body :: bodies => do
    let (bag, _) ← (walkAll .template defined bag body).result
    writtenBag defined bag bodies

/-- The declarations of projects in bodies, merged as they are written. -/
def writtenDeclarations (defined : NameSet) (bodies : List (List Element)) :
    Fallible (List (String × String)) := do
  return Settings.projectDeclarations ⟨default, ← writtenBag defined (.initial .template) bodies⟩

/-- The texts of declarations are read back as they were meant when they have been expanded. -/
def AllSettle (b : Bindings) (es : List (String × String)) : Prop :=
  ∀ e ∈ es, Settles b e.1 ∧ Settles b e.2

instance (b : Bindings) (es : List (String × String)) : Decidable (AllSettle b es) :=
  inferInstanceAs (Decidable (∀ e ∈ es, Settles b e.1 ∧ Settles b e.2))

section Stages
variable {defined : NameSet} {template module : List Element} {b₁ b : Bindings}
  {bag expanded two : Bag} {flow flow' : Flow} {root : Settings}

theorem writtenBag_cons {body : List Element} (bodies : List (List Element))
    (hw : (walkAll .template defined bag body).result = .ok (two, flow)) :
    writtenBag defined bag (body :: bodies) = writtenBag defined two bodies := by
  rw [writtenBag, hw]
  rfl

theorem writtenDeclarations_ok {bodies : List (List Element)}
    (h : writtenBag defined (.initial .template) bodies = .ok bag) :
    writtenDeclarations defined bodies = .ok (Settings.projectDeclarations ⟨default, bag⟩) := by
  rw [writtenDeclarations, h]
  rfl

/-- **Behind both bodies the declarations have the keys of the written ones as they are expanded, each of
them once**, and if no keys become equal, they are the written ones as they are expanded. -/
theorem declarations_of_stages (hb : b₁.orElse b = b)
    (hw : (walkAll .template defined (.initial .template) template).result = .ok (bag, flow))
    (he : bag.expand b₁ .deferring = .ok expanded)
    (hw' : (walkAll .template defined expanded module).result = .ok (two, flow'))
    (ht : two.expand b .deferring = .ok root.bag) :
    ∃ own raw, writtenDeclarations defined [template] = .ok own ∧
      writtenDeclarations defined [template, module] = .ok raw ∧
      (AllSettle b₁ own →
        root.projectDeclarations.map Prod.fst =
            (OrderedSet.ofList (raw.map fun e => deferred b e.1)).items ∧
          (Dictionary.Apart (deferred b) (raw.map Prod.fst) →
            root.projectDeclarations = raw.map (Prod.map (deferred b) (deferred b)))) := by
  obtain ⟨cs, hcs, hchange⟩ := walkAll_ok.mp hw'
  obtain ⟨one, hone, -⟩ := (Bag.expand_sameShapes he).changeAll hchange
  have hboth : (walkAll .template defined bag module).result = .ok (one, flow') :=
    walkAll_ok.mpr ⟨cs, hcs, hone⟩
  -- At every stage the property is a dictionary of texts.
  have hproperty : Registry.template.property PropertyName.projects = .ok .projects := rfl
  have hbag := Bag.Holds.walkAll hproperty Bag.holds_initial_projects hw
  obtain ⟨d₀, hd₀, htexts₀⟩ := hbag.projects
  obtain ⟨d, hd, htexts⟩ := (hbag.walkAll hproperty hboth).projects
  obtain ⟨r, hr, htextsr⟩ := (((hbag.expand he).walkAll hproperty hw').expand ht).projects
  have hown : Settings.projectDeclarations ⟨default, bag⟩ =
      d₀.entries.map (Prod.map id Item.source) := Settings.entries_of_texts hd₀ htexts₀
  have hraw : Settings.projectDeclarations ⟨default, one⟩ =
      d.entries.map (Prod.map id Item.source) := Settings.entries_of_texts hd htexts
  have hroot : root.projectDeclarations = r.entries.map (Prod.map id Item.source) :=
    Settings.entries_of_texts hr htextsr
  refine ⟨_, _, writtenDeclarations_ok (writtenBag_cons [] hw), writtenDeclarations_ok
    ((writtenBag_cons [module] hw).trans (writtenBag_cons [] hboth)), fun hs => ?_⟩
  rw [hown] at hs
  rw [hraw, hroot]
  obtain ⟨u, hu, hget⟩ := get?_of_changeAll hone hd₀
  cases hd.symm.trans hget
  obtain ⟨u', hu', hget'⟩ := get?_of_changeAll hchange
    (v := (PropertyValue.dictionary d₀).deferred b₁)
    (by rw [(Bag.get?_of_expand_deferring he).2.1, hd₀]; rfl)
  have hdeferred : u'.deferred b = .dictionary r := by
    have hmap := (Bag.get?_of_expand_deferring ht).2.1 PropertyName.projects
    rw [hget', hr] at hmap
    exact (Option.some.inj hmap).symm
  have hsettled : ∀ t ∈ (PropertyValue.dictionary d₀).sources, Settles b₁ t := by
    intro t ht
    rcases List.mem_append.mp ht with ht | ht
    · obtain ⟨e, he, rfl⟩ := List.mem_map.mp ht
      exact (hs _ (List.mem_map_of_mem he)).1
    · obtain ⟨i, hi, rfl⟩ := List.mem_map.mp ht
      obtain ⟨e, he, rfl⟩ := List.mem_map.mp hi
      exact (hs _ (List.mem_map_of_mem he)).2
  refine ⟨?_, fun ha => ?_⟩
  · have hkeys := PropertyValue.keys_deferred_mergeAll hb hsettled hu hu'
    rw [hdeferred, Dictionary.keys_rekey, Dictionary.keys, List.map_map] at hkeys
    rw [List.map_map, List.map_map]
    exact hkeys
  · rw [List.map_map] at ha
    have hr' := PropertyValue.deferred_mergeAll hb hu hu'
      (PropertyValue.mergeable_of_apart hsettled hu ha)
    rw [hdeferred] at hr'
    cases hr'
    rw [Dictionary.entries_rekey ha, List.map_map, List.map_map]
    refine List.map_congr_left fun e _ => ?_
    exact Prod.ext rfl (Item.source_deferred b e.2)

end Stages

end Module

/-! ### Templates and their modules -/

/-- Compiles the body of a template, whatever was kept before. -/
def Template.rootAnew (object : Object) (external : NameSet) (b : Bindings) (c : Configuration) :
    Fallible Settings :=
  (Job.answerAnew ⟨object, object.heading.display, .template, some c, none,
    bindingsIn object b c⟩ external).result

/-- A template has under every configuration what its body and its settings objects compile to. -/
theorem Template.variants_of_fresh_resolve {object : Object} {cs : List Configuration}
    {external : NameSet} {b : Bindings} {t : Template}
    (h : (resolve object cs external b).fresh.result = .ok t) :
    t.name = object.name ∧ ∃ children, object.settingsObjects = .ok children ∧
      ∀ c variant, t.variants.get? c = some variant →
        rootAnew object external b c = .ok variant.root ∧
          (compileSettings object children external b c).fresh.result = .ok variant.settings := by
  rw [resolve] at h
  obtain ⟨children, hch, h⟩ := Compile.result_fresh_bind_ok.mp h
  obtain ⟨variants, hvs, h⟩ := Compile.result_fresh_bind_ok.mp h
  cases h
  refine ⟨rfl, children, hch, fun c variant hv => ?_⟩
  rw [Compile.result_fresh_mapM] at hvs
  obtain ⟨c', -, hc'⟩ := (Fallible.mem_mapM hvs).mp
    (Dictionary.mem_of_mem_entries_ofList (Dictionary.mem_of_get? hv))
  obtain ⟨variant', hv', hc'⟩ := Compile.result_fresh_bind_ok.mp hc'
  cases hc'
  rw [resolveVariant_eq] at hv'
  obtain ⟨root, hr, hv'⟩ := Compile.result_fresh_bind_ok.mp hv'
  rw [compileRoot, Compile.fresh_compile] at hr
  split at hv'
  · cases hv'
  · obtain ⟨settings, hs, hv'⟩ := Compile.result_fresh_bind_ok.mp hv'
    cases hv'
    exact ⟨hr, hs⟩

theorem Template.root_of_fresh_resolve {object : Object} {cs : List Configuration}
    {external : NameSet} {b : Bindings} {t : Template}
    (h : (resolve object cs external b).fresh.result = .ok t) :
    t.name = object.name ∧ ∀ c variant, t.variants.get? c = some variant →
      rootAnew object external b c = .ok variant.root := by
  obtain ⟨hname, _, -, hall⟩ := variants_of_fresh_resolve h
  exact ⟨hname, fun c variant hv => (hall c variant hv).1⟩

namespace Module

/-- The declaration has the settings that it names, and a project with these settings, unless they leave
it out or its name is not admitted. -/
def Accounted (ctx : ModuleContext) (object : Object) (children : List Object) (template : Template)
    (c : Configuration) (variant : TemplateVariant) (projects : Dictionary String Project)
    (d : Declaration) : Prop :=
  ∃ compiled expanded, SettingsOf ctx object children template c variant d.settings compiled ∧
    compiled.expand ((bindingsIn ctx object template c).bind projectName d.project) .complete =
      .ok expanded ∧
    (expanded.isExcluded = false → ctx.allows c d.project = true →
      ∃ p, projects.get? d.project = some p ∧ p.settings = expanded)

variable {ctx : ModuleContext}

theorem orElse_bindingsIn {origin object : Object} {template : Template} (hn : template.name = origin.name)
    (hb : ctx.bindings.get? moduleName = none) (c : Configuration) :
    (Template.bindingsIn origin ctx.bindings c).orElse (bindingsIn ctx object template c) =
      bindingsIn ctx object template c := by
  have hnone : (Template.bindingsIn origin ctx.bindings c).get? moduleName = none := by
    rw [Template.bindingsIn, Bindings.get?_bind, if_neg (by decide), Configuration.bind,
      Bindings.get?_bind, if_neg (by decide), Bindings.get?_bind, if_neg (by decide), hb]
  rw [bindingsIn, hn]
  exact Bindings.orElse_bind hnone object.name

/-- Under every configuration in which the module is not left out, every declaration that is written has a
project of its own just if no two of their names are equal in the end. -/
def KeepsDeclarations (ctx : ModuleContext) (origin object : Object) (template : Template) (m : Module) :
    Prop :=
  ∃ children, object.settingsObjects = .ok children ∧
    ∀ c variant, template.variants.get? c = some variant →
      ∃ own raw root projects,
        writtenDeclarations (ctx.external.union c.constants) [origin.body] = .ok own ∧
        writtenDeclarations (ctx.external.union c.constants) [origin.body, object.body] = .ok raw ∧
        rootAnew ctx object template c variant = .ok root ∧ m.variants.get? c = some projects ∧
        (root.isExcluded = false → AllSettle (Template.bindingsIn origin ctx.bindings c) own →
          AllSettle (bindingsIn ctx object template c) raw →
            ∃ names ds,
              raw.mapM (fun e => Variable.expand (bindingsIn ctx object template c) .complete e.1) =
                .ok names ∧
              ds.map Declaration.project = (OrderedSet.ofList names).items ∧
              (∀ d ∈ ds, Accounted ctx object children template c variant projects d) ∧
              (names.Nodup ↔
                raw.mapM (Declaration.expand (bindingsIn ctx object template c)) = .ok ds))

theorem keepsDeclarations_of_fresh {origin object : Object} {cs : List Configuration}
    {template : Template} {m : Module}
    (htemplate : (Template.resolve origin cs ctx.external ctx.bindings).fresh.result = .ok template)
    (hmodule : (resolve ctx object template).fresh.result = .ok m)
    (hb : ctx.bindings.get? moduleName = none) :
    KeepsDeclarations ctx origin object template m := by
  obtain ⟨hname, hroots⟩ := Template.root_of_fresh_resolve htemplate
  obtain ⟨children, hch, hall⟩ := declared_of_fresh_resolve hmodule
  refine ⟨children, hch, fun c variant hv => ?_⟩
  obtain ⟨root, projects, hroot, hget, hdeclared⟩ := hall c variant hv
  obtain ⟨-, bag, flow, expanded, hw, he, hvariant⟩ := Job.answerAnew_ok.mp (hroots c variant hv)
  obtain ⟨-, two, flow', two', hw', he', hbag⟩ := Job.answerAnew_ok.mp hroot
  have hbag' : two.expand (bindingsIn ctx object template c) .deferring = .ok root.bag := by
    rw [hbag]
    exact he'
  rw [Job.start, hvariant] at hw'
  obtain ⟨own, raw, hown, hraw, hstages⟩ :=
    declarations_of_stages (orElse_bindingsIn hname hb c) hw he hw' hbag'
  refine ⟨own, raw, root, projects, hown, hraw, hroot, hget, fun hx hso hsr => ?_⟩
  obtain ⟨hkeys, hapart⟩ := hstages hso
  have hdeclared := hdeclared hx
  obtain ⟨names, ds, hnames, hds, hprojects, hiff⟩ := names_of_deferred hsr hkeys hapart
    fun e he => (hdeclared e he).imp fun d ⟨_, _, hd, _⟩ => hd
  refine ⟨names, ds, hnames, hprojects, fun d hd => ?_, hiff⟩
  obtain ⟨e, he, hed⟩ := (Fallible.mem_mapM hds).mp hd
  obtain ⟨d', compiled, expanded, hd', haccounted⟩ := hdeclared e he
  cases hd'.symm.trans hed
  exact ⟨compiled, expanded, haccounted⟩

/-- **Every declaration has a project of its own if and only if no two of them have names that are equal
in the end**, as long as their texts settle and the name of the module is not bound by others. If a
template and a module of it are resolved, then in every configuration in which the module is not left
out, the keys that are written in the two bodies, with equal ones merged, all have names, the module goes
through declarations with these names, each of them once, and every one of those is accounted for. They
are the written declarations if and only if the names are distinct. -/
theorem declarations_kept_iff {origin object : Object} {cs : List Configuration} {template : Template}
    {m : Module} {s t : Session} (horigin : origin.kind = Solution.templateKind)
    (hobject : object.kind = Solution.moduleKind) (hcs : cs.Nodup)
    (hs : ∀ k : SettingsKey, k.scope = origin.heading.display → s.cache.get? k = none)
    (ht : ∀ k : SettingsKey, k.scope = object.heading.display → t.cache.get? k = none)
    (htemplate : ((Template.resolve origin cs ctx.external ctx.bindings).runIn s).1 = .ok template)
    (hmodule : ((resolve ctx object template).runIn t).1 = .ok m)
    (hb : ctx.bindings.get? moduleName = none) :
    ∃ children, object.settingsObjects = .ok children ∧
      ∀ c variant, template.variants.get? c = some variant →
        ∃ own raw root projects,
          writtenDeclarations (ctx.external.union c.constants) [origin.body] = .ok own ∧
          writtenDeclarations (ctx.external.union c.constants) [origin.body, object.body] = .ok raw ∧
          rootAnew ctx object template c variant = .ok root ∧ m.variants.get? c = some projects ∧
          (root.isExcluded = false → AllSettle (Template.bindingsIn origin ctx.bindings c) own →
            AllSettle (bindingsIn ctx object template c) raw →
              ∃ names ds,
                raw.mapM (fun e => Variable.expand (bindingsIn ctx object template c) .complete e.1) =
                  .ok names ∧
                ds.map Declaration.project = (OrderedSet.ofList names).items ∧
                (∀ d ∈ ds, Accounted ctx object children template c variant projects d) ∧
                (names.Nodup ↔
                  raw.mapM (Declaration.expand (bindingsIn ctx object template c)) = .ok ds)) := by
  rw [((Template.asksOnce_resolve horigin hcs _ _).runIn_eq_fresh hs).1] at htemplate
  rw [((asksOnce_resolve hobject ctx template).runIn_eq_fresh ht).1] at hmodule
  exact keepsDeclarations_of_fresh htemplate hmodule hb

/-! ### Two keys in one template -/

/-- An addition to the declared projects. -/
def declaration (key settings : String) : Element :=
  .assignment ⟨.add, ["projects"], .pair key (.literal settings), always⟩

/-- A template with two settings that declares a project with the name of the module, and another one. -/
def declaring (key : String) : Object :=
  ⟨⟨Solution.templateKind, "T", none⟩, [declaration "$(MODULE_NAME)" "S", declaration key "S2",
    .object ⟨settingsKind, "S", none⟩ [], .object ⟨settingsKind, "S2", none⟩ []]⟩

/-- A module without a body. -/
def bare : Object := ⟨⟨Solution.moduleKind, "Core", some "T"⟩, []⟩

/-- Resolves the template. -/
def resolveDeclaring (key : String) : Fallible Template :=
  ((Template.resolve (declaring key) [debug] openContext.external openContext.bindings).runIn
    .initial).1

/-- The resolved template. -/
def declaringTemplate (key : String) : Template :=
  (resolveDeclaring key).toOption.getD ⟨"", .empty, .empty⟩

/-- Resolves the module. -/
def resolveBare (key : String) : Fallible Module :=
  ((resolve openContext bare (declaringTemplate key)).runIn .initial).1

/-- The bindings of the module. -/
def bareBindings (key : String) : Bindings :=
  bindingsIn openContext bare (declaringTemplate key) debug

/-- The declarations in both bodies as they are written. -/
def declarationsWritten (key : String) : Fallible (List (String × String)) :=
  writtenDeclarations (openContext.external.union debug.constants) [(declaring key).body, bare.body]

/-- A key that is longer than the name of the module. -/
def testsKey : String := "$(MODULE_NAME).Tests"

/-- The template with that key is resolved, and so is the module, in which the declarations have two
names. -/
theorem resolved_testsKey : resolveDeclaring testsKey = .ok (declaringTemplate testsKey) ∧
    (resolveBare testsKey).isOk = true ∧
    ((declarationsWritten testsKey).bind fun raw => raw.mapM fun e =>
      Variable.expand (bareBindings testsKey) .complete e.1).toOption = some ["Core", "Core.Tests"] := by
  refine ⟨?_, by decide +kernel, by decide +kernel⟩
  have hok : (resolveDeclaring testsKey).isOk = true := by decide +kernel
  rw [declaringTemplate]
  cases h : resolveDeclaring testsKey with
  | error e =>
    rw [h] at hok
    cases hok
  | ok template => rfl

/-- Both names are there. -/
theorem declarations_kept_iff_tests : ∃ m raw ds, resolveBare testsKey = .ok m ∧
    declarationsWritten testsKey = .ok raw ∧
    raw.mapM (Declaration.expand (bareBindings testsKey)) = .ok ds ∧
    ds.map Declaration.project = ["Core", "Core.Tests"] := by
  obtain ⟨htemplate, hok, htwo⟩ := resolved_testsKey
  have hvariant : ((declaringTemplate testsKey).variants.get? debug).any (fun variant =>
      (rootAnew openContext bare (declaringTemplate testsKey) debug variant).toOption.any
        (!·.isExcluded)) = true := by
    decide +kernel
  have hsettleTemplate : (writtenDeclarations (openContext.external.union debug.constants)
      [(declaring testsKey).body]).toOption.all (fun own =>
        AllSettle (Template.bindingsIn (declaring testsKey) openContext.bindings debug) own) = true := by
    decide +kernel
  have hsettle : (declarationsWritten testsKey).toOption.all
      (fun raw => AllSettle (bareBindings testsKey) raw) = true := by
    decide +kernel
  cases hmodule : resolveBare testsKey with
  | error e =>
    rw [hmodule] at hok
    cases hok
  | ok m =>
    cases hv : (declaringTemplate testsKey).variants.get? debug with
    | none =>
      rw [hv] at hvariant
      cases hvariant
    | some variant =>
      have hname : openContext.bindings.get? moduleName = none := rfl
      rw [resolveDeclaring] at htemplate
      have hmodule' := hmodule
      rw [resolveBare] at hmodule'
      obtain ⟨children, -, hall⟩ := declarations_kept_iff rfl rfl (List.nodup_singleton debug)
        (fun _ _ => rfl) (fun _ _ => rfl) htemplate hmodule' hname
      obtain ⟨own, raw, root, projects, hown, hraw, hroot, -, hnames⟩ := hall debug variant hv
      rw [hv, Option.any_some, hroot] at hvariant
      have hx : (!root.isExcluded) = true := hvariant
      rw [hown] at hsettleTemplate
      rw [declarationsWritten, hraw] at hsettle htwo
      obtain ⟨names, ds, hn, hds, -, hiff⟩ := hnames (by simpa using hx)
        (of_decide_eq_true hsettleTemplate) (of_decide_eq_true hsettle)
      change (raw.mapM fun e => Variable.expand (bareBindings testsKey) .complete e.1 :
        Fallible (List String)).toOption = _ at htwo
      rw [bareBindings, hn] at htwo
      obtain rfl : names = ["Core", "Core.Tests"] := Option.some.inj htwo
      exact ⟨m, raw, ds, rfl, hraw, hiff.mp (by decide), hds⟩

/-- **Two keys of one template that become equal leave one project**, without a failure. -/
theorem declaration_lost :
    (declarationsWritten "Core").toOption = some [("$(MODULE_NAME)", "S"), ("Core", "S2")] ∧
      (["$(MODULE_NAME)", "Core"].map fun key =>
        (Variable.expand (bareBindings "Core") .complete key).toOption) =
          [some "Core", some "Core"] ∧
      (resolveBare "Core").toOption.map
        (fun m => (m.projects debug).map fun p => (p.name, p.settings.name)) =
          some [("Core", "S2")] := by
  decide +kernel

end Module

end BuildPlan
