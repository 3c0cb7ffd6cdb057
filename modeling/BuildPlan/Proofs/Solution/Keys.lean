import BuildPlan.Proofs.Grammar.Names
import BuildPlan.Proofs.Settings.Keeping
import BuildPlan.Proofs.Solution.Configurations
import BuildPlan.Proofs.Solution.Stages

/-! # The keys of a resolution

A key says which object is compiled, by its kind, its name and its owner, and for which configuration,
but nothing of what the object holds or builds on. In the resolution of a document that was read this
is enough: no two jobs have one key (`asksOnce_resolve`). Within an owner the kinds, names and
configurations differ; owners of one kind have distinct names, and since these are identifiers, the
owners look different. -/

namespace BuildPlan

open BuildPlan.Grammar

/-! ### Settings objects -/

theorem settingsObjectsFrom_ok {parent : Heading} : ∀ {os : List Object} {seen : List String}
    {cs : List Object}, settingsObjectsFrom parent seen os = .ok cs →
      cs = os ∧ (∀ o ∈ cs, o.kind = settingsKind ∧ o.name ∉ seen) ∧ (cs.map Object.name).Nodup
  | [], _, _, h => by
    cases h
    exact ⟨rfl, by simp, .nil⟩
  | o :: os, seen, cs, h => by
    unfold settingsObjectsFrom at h
    split at h
    · cases h
    · next hk =>
      split at h
      · cases h
      · next hn =>
        obtain ⟨rest, hr, h⟩ := Fallible.bind_ok.mp h
        cases h
        obtain ⟨rfl, hall, hd⟩ := settingsObjectsFrom_ok hr
        have hk : o.kind = settingsKind := by simpa using hk
        have hn : o.name ∉ seen := by simpa using hn
        refine ⟨rfl, List.forall_mem_cons.mpr ⟨⟨hk, hn⟩, fun c hc => ⟨(hall c hc).1, fun hs =>
          (hall c hc).2 (List.mem_cons_of_mem _ hs)⟩⟩, List.nodup_cons.mpr ⟨fun hm => ?_, hd⟩⟩
        obtain ⟨c, hc, he⟩ := List.mem_map.mp hm
        exact (hall c hc).2 (by rw [he]; exact List.mem_cons_self)

theorem settingsObjects_ok {o : Object} {cs : List Object} (h : o.settingsObjects = .ok cs) :
    (∀ c ∈ cs, c.kind = settingsKind) ∧ (cs.map Object.name).Nodup := by
  obtain ⟨-, hall, hd⟩ := settingsObjectsFrom_ok h
  exact ⟨fun c hc => (hall c hc).1, hd⟩

/-! ### The keys of an owner -/

/-- The keys of the jobs of an owner for one configuration. -/
def keysOf (scope : String) (c : Configuration) : Set SettingsKey :=
  {k | k.scope = scope ∧ k.configuration = some c}

/-- Among them, those of its settings objects. -/
def settingsKeysOf (scope : String) (c : Configuration) : Set SettingsKey :=
  {k | k ∈ keysOf scope c ∧ k.kind = settingsKind}

theorem disjoint_keysOf {scope : String} {c c' : Configuration} (h : c ≠ c') :
    Disjoint (keysOf scope c) (keysOf scope c') :=
  Set.disjoint_left.mpr fun _ hk hk' => h (Option.some.inj (hk.2.symm.trans hk'.2))

/-- The settings objects of an owner are compiled under keys of their own. -/
theorem asksOnce_settings {scope : String} {c : Configuration} {b : Bindings}
    {external : NameSet} {inherited : Dictionary String Settings} {hs : List Heir}
    (hk : ∀ h ∈ hs, h.object.kind = settingsKind) (hd : (hs.map Heir.name).Nodup)
    (context : String) :
    (Compile.within context (Heir.compileAll inherited
      (fun child base => Job.compile ⟨child, scope, .settings, some c, base, b⟩ external)
      hs)).AsksOnce (settingsKeysOf scope c) := by
  let key : Object → SettingsKey := fun o => ⟨scope, o.kind, o.name, some c, external⟩
  have hkey : ∀ o o', key o = key o' → o.name = o'.name := fun _ _ h => congrArg SettingsKey.name h
  refine ((Heir.asksOnce_compileAll hkey (fun h _ _ => Compile.asksOnce_compile _ _) hd).mono
    ?_).within context
  rintro k ⟨h, hm, rfl⟩
  exact ⟨⟨rfl, rfl⟩, hk h hm⟩

/-- The body of an owner and its settings objects have different kinds. -/
theorem asksOnce_root_settings {α : Type} {scope : String} {c : Configuration} {j : Job}
    {external : NameSet} {f : Settings → Compile α} (hs : j.scope = scope)
    (hc : j.configuration = some c) (hk : j.object.kind ≠ settingsKind)
    (hf : ∀ root, (f root).AsksOnce (settingsKeysOf scope c)) :
    (j.compile external >>= f).AsksOnce (keysOf scope c) := by
  have hd : Disjoint {j.key external} (settingsKeysOf scope c) :=
    Set.disjoint_singleton_left.mpr fun hm => hk hm.2
  refine ((Compile.asksOnce_compile j external).bind hf hd).mono ?_
  rintro k (hk | hk)
  · rw [Set.mem_singleton_iff.mp hk]
    exact ⟨hs, hc⟩
  · exact hk.1

theorem Template.asksOnce_resolveVariant {object : Object} (ho : object.kind = Solution.templateKind)
    {children : List Object} (hk : ∀ child ∈ children, child.kind = settingsKind)
    (hd : (children.map Object.name).Nodup) (external : NameSet) (b : Bindings)
    (c : Configuration) :
    (resolveVariant object children external b c).AsksOnce
      (keysOf object.heading.display c) := by
  rw [resolveVariant_eq]
  refine asksOnce_root_settings rfl rfl (by rw [ho]; decide) fun root => ?_
  split
  · exact Compile.asksOnce_throw _
  · refine (asksOnce_settings ?_ ?_ _).bind_of_done fun _ => Compile.asksOnce_pure _
    · simpa using hk
    · simpa [List.map_map, Function.comp_def, Heir.name] using hd

/-- A template asks for keys of its own. -/
theorem Template.asksOnce_resolve {object : Object} (ho : object.kind = Solution.templateKind)
    {cs : List Configuration} (hcs : cs.Nodup) (external : NameSet) (b : Bindings) :
    (resolve object cs external b).AsksOnce {k | k.scope = object.heading.display} := by
  unfold resolve
  refine Compile.AsksOnce.of_fallible fun children hch => ?_
  obtain ⟨hk, hd⟩ := settingsObjects_ok hch
  refine ((Compile.AsksOnce.mapM (keysOf object.heading.display) (fun c _ => ?_)
    (hcs.imp disjoint_keysOf)).bind_of_done fun _ => Compile.asksOnce_pure _).mono ?_
  · exact (asksOnce_resolveVariant ho hk hd external b c).bind_of_done fun _ =>
      Compile.asksOnce_pure _
  · rintro k ⟨c, -, hk⟩
    exact hk.1

theorem Module.asksOnce_resolveVariant {object : Object} (ho : object.kind = Solution.moduleKind)
    {children : List Object} (hk : ∀ child ∈ children, child.kind = settingsKind)
    (hd : (children.map Object.name).Nodup) (ctx : ModuleContext) (template : Template)
    (known : Identities) (c : Configuration) (variant : TemplateVariant) :
    (resolveVariant ctx object children template known c variant).AsksOnce
      (keysOf object.heading.display c) := by
  rw [resolveVariant_eq]
  refine asksOnce_root_settings rfl rfl (by rw [ho]; decide) fun root => ?_
  split
  · exact Compile.asksOnce_pure _
  · refine (asksOnce_settings ?_ ?_ _).bind_of_done fun _ => Compile.asksOnce_ofLogged _
    · simpa [heirs] using hk
    · simpa [heirs, List.map_map, Function.comp_def, Heir.name] using hd

theorem Module.asksOnce_resolveVariants {object : Object} (ho : object.kind = Solution.moduleKind)
    {children : List Object} (hk : ∀ child ∈ children, child.kind = settingsKind)
    (hd : (children.map Object.name).Nodup) (ctx : ModuleContext) (template : Template) :
    ∀ (vs : List (Configuration × TemplateVariant)) (known : Identities),
      (vs.map Prod.fst).Nodup →
        (resolveVariants ctx object children template known vs).AsksOnce
          {k | ∃ c ∈ vs.map Prod.fst, k ∈ keysOf object.heading.display c}
  | [], _, _ => Compile.asksOnce_pure _
  | (c, variant) :: vs, known, hvs => by
    rw [List.map_cons, List.nodup_cons] at hvs
    have htail := fun known => asksOnce_resolveVariants ho hk hd ctx template vs known hvs.2
    unfold resolveVariants
    refine ((asksOnce_resolveVariant ho hk hd ctx template known c variant).bind (fun r =>
      (htail r.1).bind_of_done fun _ => Compile.asksOnce_pure _)
      (Set.disjoint_right.mpr ?_)).mono ?_
    · rintro k ⟨c', hc', hk⟩
      have hne : c ≠ c' := by
        rintro rfl
        exact hvs.1 hc'
      exact Set.disjoint_right.mp (disjoint_keysOf hne) hk
    · rintro k (hk | ⟨c', hc', hk⟩)
      · exact ⟨c, List.mem_cons_self, hk⟩
      · exact ⟨c', List.mem_cons_of_mem _ hc', hk⟩

/-- A module asks for keys of its own. -/
theorem Module.asksOnce_resolve {object : Object} (ho : object.kind = Solution.moduleKind)
    (ctx : ModuleContext) (template : Template) :
    (resolve ctx object template).AsksOnce {k | k.scope = object.heading.display} := by
  unfold resolve
  refine Compile.AsksOnce.of_fallible fun children hch => ?_
  obtain ⟨hk, hd⟩ := settingsObjects_ok hch
  refine ((asksOnce_resolveVariants ho hk hd ctx template _ _
    template.variants.distinct).bind_of_done fun _ => Compile.asksOnce_pure _).mono ?_
  rintro k ⟨c, -, hk⟩
  exact hk.1

/-! ### The keys of a solution -/

namespace Solution

/-- The objects are named by identifiers. -/
def Identified (os : List Object) : Prop := ∀ o ∈ os, IsIdentifier o.name.toList

theorem identified_objects {es : List Element} (h : AllNamed es) :
    Identified (Element.objects es) := by
  intro o ho
  obtain ⟨e, he, hoe⟩ := List.mem_filterMap.mp ho
  have hn := allNamed_iff.mp h e he
  cases e with
  | object heading body =>
    cases hoe
    exact hn.1
  | comment | group | assignment | invocation | block => cases hoe

/-- The body of a solution holds elements of the document, or of an object in it. -/
theorem mem_of_bodyOf {d : Document} {body : Object} (hb : bodyOf d = .ok body) {e : Element}
    (he : e ∈ body.body) :
    e ∈ d.elements ∨ ∃ heading es, .object heading es ∈ d.elements ∧ e ∈ es := by
  obtain ⟨found, hw, hb⟩ := Fallible.bind_ok.mp hb
  cases found with
  | none =>
    cases hb
    exact Or.inl (List.mem_of_mem_filter he)
  | some o =>
    cases hb
    have ho := ((wrapper?_eq_some hw).resolve_left nofun).1
    exact (List.mem_append.mp he).elim (fun he => Or.inr ⟨_, _, ho, he⟩)
      fun he => Or.inl (List.mem_of_mem_filter he)

/-- The objects in the body of a document that was read are named by identifiers. -/
theorem identified_of_parse {source : String} {d : Document} (h : Document.parse source = .ok d)
    {body : Object} (hb : bodyOf d = .ok body) : Identified (Element.objects body.body) := by
  have hall := allNamed_iff.mp (allNamed_of_parse h)
  refine identified_objects (allNamed_iff.mpr fun e he => ?_)
  rcases mem_of_bodyOf hb he with he | ⟨heading, es, ho, he⟩
  · exact hall e he
  · exact allNamed_iff.mp (hall _ ho).2 e he

/-- The keys of owners of a kind, with identifiers for which the property holds as their names. -/
def ownerKeys (kind : String) (free : String → Prop) : Set SettingsKey :=
  {k | ∃ h : Heading, h.kind = kind ∧ IsIdentifier h.name.toList ∧ free h.name ∧
    k.scope = h.display}

/-- An owner's keys are not those of owners with other names. -/
theorem disjoint_ownerKeys {kind : String} {free : String → Prop} {o : Object}
    (hk : o.kind = kind) (hn : IsIdentifier o.name.toList) (hf : ¬ free o.name) :
    Disjoint {k : SettingsKey | k.scope = o.heading.display} (ownerKeys kind free) := by
  refine Set.disjoint_left.mpr ?_
  rintro k (hko : k.scope = _) ⟨h, hkind, hname, hfree, hs⟩
  have he : o.heading.name = h.name :=
    Heading.name_eq_of_display_eq (hk.trans hkind.symm) hn hname (hko.symm.trans hs)
  exact hf (by rw [Object.name, he]; exact hfree)

/-- An owner whose name is free asks for its own keys, and those behind it for keys of names that
are free then. -/
theorem asksOnce_owner {α β : Type} {kind : String} {o : Object} {taken : Dictionary String α}
    {m : Compile α} {f : α → Compile β} (hk : o.kind = kind) (hn : IsIdentifier o.name.toList)
    (hc : taken.contains o.name = false) (hm : m.AsksOnce {k | k.scope = o.heading.display})
    (hf : ∀ a, (f a).AsksOnce
      (ownerKeys kind fun n => (taken.insert o.name a).contains n = false)) :
    (m >>= f).AsksOnce (ownerKeys kind fun n => taken.contains n = false) := by
  have hfree : ∀ a n, (taken.insert o.name a).contains n = false →
      n ≠ o.name ∧ taken.contains n = false := by
    intro a n h
    rw [Dictionary.contains, Dictionary.get?_insert] at h
    split at h
    · cases h
    · next hne => exact ⟨fun he => hne he.symm, h⟩
  have htail : ∀ a, (f a).AsksOnce
      (ownerKeys kind fun n => n ≠ o.name ∧ taken.contains n = false) := by
    refine fun a => (hf a).mono ?_
    rintro k ⟨h, hkind, hname, hn, hs⟩
    exact ⟨h, hkind, hname, hfree a _ hn, hs⟩
  refine (hm.bind htail (disjoint_ownerKeys hk hn fun h => h.1 rfl)).mono ?_
  rintro k (hko | ⟨h, hkind, hname, hn, hs⟩)
  · exact ⟨o.heading, hk, hn, hc, hko⟩
  · exact ⟨h, hkind, hname, hn.2, hs⟩

theorem asksOnce_resolveTemplates {cs : List Configuration} (hcs : cs.Nodup) (external : NameSet)
    (b : Bindings) : ∀ {os : List Object} (templates : Dictionary String Template),
      (∀ o ∈ os, o.kind = templateKind) → Identified os →
        (resolveTemplates cs external b templates os).AsksOnce
          (ownerKeys templateKind fun n => templates.contains n = false)
  | [], _, _, _ => Compile.asksOnce_pure _
  | o :: os, templates, hk, hn => by
    have hko := hk o List.mem_cons_self
    rw [resolveTemplates]
    split
    · exact Compile.asksOnce_throw _
    · next hc =>
      exact asksOnce_owner hko (hn o List.mem_cons_self) (Bool.eq_false_iff.mpr hc)
        (Template.asksOnce_resolve hko hcs external b) fun _ =>
          asksOnce_resolveTemplates hcs external b _ (fun p hp => hk p (List.mem_cons_of_mem _ hp))
            fun p hp => hn p (List.mem_cons_of_mem _ hp)

theorem asksOnce_resolveModules (ctx : ModuleContext) (templates : Dictionary String Template) :
    ∀ {os : List Object} (modules : Dictionary String Module),
      (∀ o ∈ os, o.kind = moduleKind) → Identified os →
        (resolveModules ctx templates modules os).AsksOnce
          (ownerKeys moduleKind fun n => modules.contains n = false)
  | [], _, _, _ => Compile.asksOnce_pure _
  | o :: os, modules, hk, hn => by
    have hko := hk o List.mem_cons_self
    rw [resolveModules]
    split
    · exact Compile.asksOnce_throw _
    · next hc =>
      split
      · exact Compile.asksOnce_throw _
      · split
        · exact Compile.asksOnce_throw _
        · exact asksOnce_owner hko (hn o List.mem_cons_self) (Bool.eq_false_iff.mpr hc)
            (Module.asksOnce_resolve hko ctx _) fun _ =>
              asksOnce_resolveModules ctx templates _
                (fun p hp => hk p (List.mem_cons_of_mem _ hp))
                fun p hp => hn p (List.mem_cons_of_mem _ hp)

theorem asksOnce_compileSettings (o : Options) (body : Object) {cs : List Configuration}
    (hcs : cs.Nodup) : (compileSettings o body cs).AsksOnce {k | k.scope = solutionKind} := by
  unfold compileSettings
  refine (Compile.AsksOnce.mapM (keysOf solutionKind) (fun c _ => ?_)
    (hcs.imp disjoint_keysOf)).mono ?_
  · refine Compile.AsksOnce.bind_of_done ?_ fun _ => Compile.asksOnce_pure _
    unfold resolveSettings
    refine ((Compile.asksOnce_compile _ _).bind_of_done fun _ =>
      Compile.AsksOnce.of_fallible fun _ _ => Compile.AsksOnce.of_fallible fun _ _ =>
        Compile.asksOnce_pure _).mono ?_
    rintro k hk
    rw [Set.mem_singleton_iff.mp hk]
    exact ⟨rfl, rfl⟩
  · rintro k ⟨c, -, hk⟩
    exact hk.1

/-- An owner begins with its kind. -/
theorem head?_of_mem_ownerKeys {kind : String} {free : String → Prop} {k : SettingsKey}
    (hne : kind.toList ≠ []) (h : k ∈ ownerKeys kind free) :
    k.scope.toList.head? = kind.toList.head? := by
  obtain ⟨h, rfl, -, -, hs⟩ := h
  rw [hs, Heading.display_eq]
  simp only [String.toList_append, List.append_assoc]
  exact List.head?_append_of_ne_nil _ hne

theorem disjoint_ownerKeys_kind {kind kind' : String} {free free' : String → Prop}
    (h : kind.toList ≠ []) (h' : kind'.toList ≠ [])
    (hne : kind.toList.head? ≠ kind'.toList.head?) :
    Disjoint (ownerKeys kind free) (ownerKeys kind' free') :=
  Set.disjoint_left.mpr fun _ hk hk' => hne
    ((head?_of_mem_ownerKeys h hk).symm.trans (head?_of_mem_ownerKeys h' hk'))

theorem disjoint_solution_ownerKeys {kind : String} {free : String → Prop}
    (h : kind.toList ≠ []) (hne : solutionKind.toList.head? ≠ kind.toList.head?) :
    Disjoint {k : SettingsKey | k.scope = solutionKind} (ownerKeys kind free) :=
  Set.disjoint_left.mpr fun _ (hk : _ = _) hk' => hne
    (by rw [← hk]; exact head?_of_mem_ownerKeys h hk')

theorem asksOnce_forM_ofFallible {α : Type} {K : Set SettingsKey} (f : α → Fallible Unit) :
    ∀ as : List α, (as.forM fun a => Compile.ofFallible (f a)).AsksOnce K
  | [] => trivial
  | _ :: as => Compile.AsksOnce.of_fallible fun _ _ => asksOnce_forM_ofFallible f as

/-- The objects of a kind are of this kind, and named by identifiers if all objects are. -/
theorem forall_filter_kind {body : Object} (hn : Identified (Element.objects body.body)) (kind : String) :
    (∀ p ∈ (Element.objects body.body).filter (·.kind = kind), p.kind = kind) ∧
      Identified ((Element.objects body.body).filter (·.kind = kind)) :=
  ⟨fun _ hp => by simpa using (List.mem_filter.mp hp).2, fun p hp => hn p (List.mem_of_mem_filter hp)⟩

theorem asksOnce_templatesIn {body : Object} (hn : Identified (Element.objects body.body))
    {cs : List Configuration} (hcs : cs.Nodup) (external : NameSet) (b : Bindings) :
    (resolveTemplates cs external b .empty (templatesIn body)).AsksOnce
      (ownerKeys templateKind fun n => (Dictionary.empty : Dictionary String Template).contains n = false) :=
  asksOnce_resolveTemplates hcs external b .empty (forall_filter_kind hn _).1 (forall_filter_kind hn _).2

theorem asksOnce_modulesIn {body : Object} (hn : Identified (Element.objects body.body))
    (ctx : ModuleContext) (templates : Dictionary String Template) :
    (resolveModules ctx templates .empty (modulesIn body)).AsksOnce
      (ownerKeys moduleKind fun n => (Dictionary.empty : Dictionary String Module).contains n = false) :=
  asksOnce_resolveModules ctx templates .empty (forall_filter_kind hn _).1 (forall_filter_kind hn _).2

/-- **The resolution of a solution asks for no key twice**, if its objects are named by
identifiers. -/
theorem asksOnce_resolveBody (o : Options) (fs : FileSystem) {body : Object} {cs : List Configuration}
    (hcs : cs.Nodup) (hn : Identified (Element.objects body.body)) :
    (resolveBody o fs body cs).AsksOnce Set.univ := by
  -- The scopes of the solution, of templates and of modules begin with different letters.
  refine ((asksOnce_compileSettings o body hcs).bind (fun resolved => .of_fallible fun _ _ =>
    (asksOnce_templatesIn hn hcs _ _).bind (fun templates =>
      (asksOnce_modulesIn hn _ templates).bind_of_done fun modules =>
        (asksOnce_forM_ofFallible _ cs).bind_of_done fun _ =>
          Compile.asksOnce_pure _)
      (disjoint_ownerKeys_kind (by decide) (by decide) (by decide))) ?_).mono (Set.subset_univ _)
  exact Set.disjoint_union_right.mpr ⟨disjoint_solution_ownerKeys (by decide) (by decide),
    disjoint_solution_ownerKeys (by decide) (by decide)⟩

/-- **In the resolution of a document that was read no two jobs have one key.** -/
theorem asksOnce_resolve {source : String} {d : Document} (h : Document.parse source = .ok d)
    (o : Options) (fs : FileSystem) : (resolve o fs d).AsksOnce Set.univ := by
  rw [resolve_eq]
  exact .of_fallible fun body hb => .of_fallible fun cs hc =>
    asksOnce_resolveBody o fs (nodup_of_declaredConfigurations hc) (identified_of_parse h hb)

end Solution

end BuildPlan
