import BuildPlan.Proofs.Solution.Blocks
import BuildPlan.Proofs.Solution.Environment
import BuildPlan.Proofs.Solution.Stages

/-! # Opened blocks in a resolution

A resolution does not notice that blocks are opened whose conditions hold in all configurations, as
long as nothing is opened that would be collected where it comes to stand
(`runIn_resolve_of_opens`). It does notice a settings object that is opened in a template
(`settings_in_block_lost`). -/

namespace BuildPlan

open BuildPlan.Variable

/-- The condition holds in every one of the configurations. -/
def HoldsIn (external : NameSet) (cs : List Configuration) (condition : String) : Prop :=
  ∀ c ∈ cs, judge condition (external.union c.constants) = .ok true

theorem Object.Opens.name_eq {P : String → Prop} {p : Place} {o o' : Object} (h : o.Opens P p o') :
    o.name = o'.name :=
  congrArg Heading.name h.1

/-- A job does not notice that blocks are opened in its object. -/
theorem Object.Opens.runIn_compile {external : NameSet} {cs : List Configuration}
    {c : Configuration} (hc : c ∈ cs) {p : Place} {o o' : Object}
    (h : o.Opens (HoldsIn external cs) p o') (scope : String) (r : Registry)
    (base : Option Settings) (b : Bindings) :
    (Job.compile ⟨o, scope, r, some c, base, b⟩ external).runIn =
      (Job.compile ⟨o', scope, r, some c, base, b⟩ external).runIn :=
  Job.runIn_compile_congr h.1 (h.2.walkAll_eq fun _ hP => hP c hc) scope base b

/-! ### Inheritance -/

namespace Heir

/-- Heirs of one base, whose objects are related. -/
def Alike (R : Object → Object → Prop) (h h' : Heir) : Prop :=
  h.base = h'.base ∧ R h.object h'.object

section Alike
variable {R : Object → Object → Prop} (hR : ∀ {o o'}, R o o' → o.heading = o'.heading)
include hR

theorem Alike.name_eq {h h' : Heir} (hh : Alike R h h') : h.name = h'.name :=
  congrArg Heading.name (hR hh.2)

theorem names_alike {hs hs' : List Heir} (hh : List.Forall₂ (Alike R) hs hs') :
    hs.map name = hs'.map name := by
  induction hh with
  | nil => rfl
  | cons h _ ih => rw [List.map_cons, List.map_cons, h.name_eq hR, ih]

theorem awaits_alike {names : List String} {h h' : Heir} (hh : Alike R h h') :
    h.awaits names = h'.awaits names := by
  unfold awaits
  rw [hh.1, hh.name_eq hR]

theorem inherits_alike {names : List String} {h h' : Heir} (hh : Alike R h h') :
    h.inherits names = h'.inherits names := by
  unfold inherits
  rw [hh.1, hh.name_eq hR]

theorem round_alike (names : List String) {hs hs' : List Heir}
    (hh : List.Forall₂ (Alike R) hs hs') : ∀ done : List String,
      List.Forall₂ (Alike R) (round names done hs).1 (round names done hs').1 ∧
        List.Forall₂ (Alike R) (round names done hs).2 (round names done hs').2 := by
  induction hh with
  | nil => exact fun _ => ⟨.nil, .nil⟩
  | @cons h h' hs hs' hh _ ih =>
    intro done
    have hr : h.isReady names done = h'.isReady names done := by
      unfold isReady
      rw [awaits_alike hR hh]
    rw [round, round, hr, hh.name_eq hR]
    split
    · exact ⟨.cons hh (ih _).1, (ih _).2⟩
    · exact ⟨(ih _).1, .cons hh (ih _).2⟩

theorem roundsUpTo_alike {names : List String} {bound bound' : List Heir}
    (hb : List.Forall₂ (Alike R) bound bound') : ∀ {hs hs' : List Heir} (done : List String),
      List.Forall₂ (Alike R) hs hs' →
        List.Forall₂ (Alike R) (roundsUpTo names bound done hs).1
          (roundsUpTo names bound' done hs').1 ∧
        List.Forall₂ (Alike R) (roundsUpTo names bound done hs).2
          (roundsUpTo names bound' done hs').2 := by
  -- The induction is on the bound, which has one element for each round.
  induction hb with
  | nil => exact fun _ hh => ⟨.nil, hh⟩
  | cons _ _ ih =>
    intro hs hs' done hh
    obtain ⟨hready, hwaiting⟩ := round_alike hR names hh done
    have hnil : (round names done hs).1 = [] ↔ (round names done hs').1 = [] := by
      rw [← List.length_eq_zero_iff, ← List.length_eq_zero_iff, hready.length_eq]
    rw [roundsUpTo_cons, roundsUpTo_cons, names_alike hR hready, if_congr hnil rfl rfl]
    split
    · exact ⟨.nil, hwaiting⟩
    · obtain ⟨h1, h2⟩ := ih _ hwaiting
      exact ⟨List.rel_append hready h1, h2⟩

theorem unknownBase?_alike (inherited : Dictionary String Settings) {hs hs' : List Heir}
    (hh : List.Forall₂ (Alike R) hs hs') :
    Option.Rel (fun p p' => p.1.object.heading = p'.1.object.heading ∧ p.2 = p'.2)
      (unknownBase? inherited hs) (unknownBase? inherited hs') := by
  unfold unknownBase?
  rw [names_alike hR hh]
  generalize hs'.map name = names
  induction hh with
  | nil => exact .none
  | @cons h h' hs hs' hh _ ih =>
    rw [List.findSome?_cons, List.findSome?_cons, inherits_alike hR hh]
    cases h'.inherits names with
    | none => exact ih
    | some base =>
      by_cases hc : inherited.contains base = true
      · simp only [if_pos hc]
        exact ih
      · simp only [if_neg hc]
        exact .some ⟨hR hh.2, rfl⟩

theorem runIn_compileEach_congr {names : List String} {inherited : Dictionary String Settings}
    {compile compile' : Object → Option Settings → Compile Settings}
    (hc : ∀ o o', R o o' → ∀ base, (compile o base).runIn = (compile' o' base).runIn)
    {order order' : List Heir} (hh : List.Forall₂ (Alike R) order order') :
    ∀ compiled : Dictionary String Settings,
      (compileEach names inherited compile compiled order).runIn =
        (compileEach names inherited compile' compiled order').runIn := by
  induction hh with
  | nil => exact fun _ => rfl
  | @cons h h' _ _ hh _ ih =>
    intro compiled
    have hbase : h.baseSettings names inherited compiled =
        h'.baseSettings names inherited compiled := by
      unfold baseSettings
      rw [awaits_alike hR hh, inherits_alike hR hh]
    rw [compileEach, compileEach, hbase, hh.name_eq hR]
    exact Compile.runIn_bind_congr (hc _ _ hh.2 _) fun _ _ _ _ => ih _

/-- Related objects that are compiled alike one by one are compiled alike together. -/
theorem runIn_compileAll_congr {inherited : Dictionary String Settings}
    {compile compile' : Object → Option Settings → Compile Settings}
    (hc : ∀ o o', R o o' → ∀ base, (compile o base).runIn = (compile' o' base).runIn)
    {hs hs' : List Heir} (hh : List.Forall₂ (Alike R) hs hs') :
    (compileAll inherited compile hs).runIn = (compileAll inherited compile' hs').runIn := by
  have hu := unknownBase?_alike hR inherited hh
  have hnames := names_alike hR hh
  obtain ⟨horder, hstuck⟩ : List.Forall₂ (Alike R) (schedule hs).1 (schedule hs').1 ∧
      List.Forall₂ (Alike R) (schedule hs).2 (schedule hs').2 := by
    unfold schedule
    rw [hnames]
    exact roundsUpTo_alike hR hh [] hh
  unfold compileAll
  generalize unknownBase? inherited hs = u at hu ⊢
  generalize unknownBase? inherited hs' = u' at hu ⊢
  cases hu with
  | some h =>
    dsimp only
    rw [h.1, h.2]
  | none =>
    dsimp only
    have hnil : (schedule hs).2.isEmpty = (schedule hs').2.isEmpty := by
      rw [Bool.eq_iff_iff, List.isEmpty_iff_length_eq_zero, List.isEmpty_iff_length_eq_zero,
        hstuck.length_eq]
    have hlist : ∀ all : Dictionary String Settings,
        hs.filterMap (fun h => (all.get? h.name).map fun s => (h.name, s)) =
          hs'.filterMap fun h => (all.get? h.name).map fun s => (h.name, s) := by
      intro all
      have hmap : ∀ l : List Heir, l.filterMap (fun h => (all.get? h.name).map fun s => (h.name, s)) =
          (l.map name).filterMap fun n => (all.get? n).map fun s => (n, s) := fun l => by
        rw [List.filterMap_map]
        rfl
      rw [hmap, hmap, hnames]
    rw [hnames, hnil, names_alike hR hstuck]
    refine Compile.runIn_bind_congr (runIn_compileEach_congr hR hc horder _) fun all _ _ _ => ?_
    rw [hlist]

end Alike

end Heir

/-! ### Templates and modules -/

theorem both_settingsObjectsFrom {P : String → Prop} {p : Place} (parent : Heading)
    {os os' : List Object} (h : List.Forall₂ (Object.Opens P p) os os') : ∀ seen : List String,
      Fallible.Both (List.Forall₂ (Object.Opens P p)) (settingsObjectsFrom parent seen os)
        (settingsObjectsFrom parent seen os') := by
  induction h with
  | nil => exact fun _ => .ok .nil
  | @cons o o' os os' ho _ ih =>
    intro seen
    rw [settingsObjectsFrom, settingsObjectsFrom, Object.kind, Object.kind, Object.name, Object.name,
      ho.1]
    split
    · exact .error _
    · split
      · exact .error _
      · have hrest := ih (o'.heading.name :: seen)
        generalize settingsObjectsFrom parent (o'.heading.name :: seen) os = r at hrest ⊢
        generalize settingsObjectsFrom parent (o'.heading.name :: seen) os' = r' at hrest ⊢
        cases hrest with
        | ok hr => exact .ok (.cons ho hr)
        | error e => exact .error e

theorem both_settingsObjects {P : String → Prop} {o o' : Object} (h : o.Opens P .owner o') :
    Fallible.Both (List.Forall₂ (Object.Opens P .inner)) o.settingsObjects o'.settingsObjects := by
  unfold Object.settingsObjects
  rw [h.1]
  exact both_settingsObjectsFrom _ (h.2.objects (by decide)) []

section Stages
variable {external : NameSet} {cs : List Configuration} {c : Configuration}

theorem Template.runIn_resolveVariant_congr (hc : c ∈ cs) {o o' : Object}
    (h : o.Opens (HoldsIn external cs) .owner o') {children children' : List Object}
    (hch : List.Forall₂ (Object.Opens (HoldsIn external cs) .inner) children children')
    (b : Bindings) :
    (resolveVariant o children external b c).runIn =
      (resolveVariant o' children' external b c).runIn := by
  have hheirs : List.Forall₂ (Heir.Alike (Object.Opens (HoldsIn external cs) .inner))
      (children.map fun child => ⟨child, child.base⟩)
      (children'.map fun child => ⟨child, child.base⟩) := by
    rw [List.forall₂_map_left_iff, List.forall₂_map_right_iff]
    exact hch.imp fun _ _ ho => ⟨congrArg Heading.base ho.1, ho⟩
  have hb : bindingsIn o b c = bindingsIn o' b c := by
    unfold bindingsIn
    rw [h.name_eq]
  rw [resolveVariant_eq, resolveVariant_eq]
  refine Compile.runIn_bind_congr ?_ fun _ _ _ _ => ?_
  · unfold compileRoot
    rw [hb, h.1]
    exact h.runIn_compile hc _ _ _ _
  · rw [h.name_eq]
    split
    · rfl
    · refine Compile.runIn_bind_congr ?_ fun _ _ _ _ => rfl
      unfold compileSettings
      rw [hb, h.1]
      exact Compile.runIn_within_congr (Heir.runIn_compileAll_congr (fun ho => ho.1)
        (fun _ _ ho _ => ho.runIn_compile hc _ _ _ _) hheirs) _

theorem Template.runIn_resolve_congr {o o' : Object} (h : o.Opens (HoldsIn external cs) .owner o')
    (b : Bindings) : (resolve o cs external b).runIn = (resolve o' cs external b).runIn := by
  have hboth := both_settingsObjects h
  unfold resolve
  generalize o.settingsObjects = r at hboth ⊢
  generalize o'.settingsObjects = r' at hboth ⊢
  cases hboth with
  | error e => simp only [Compile.ofFallible_error_bind]
  | @ok children children' hch =>
    have hbases : children.map (fun child => (child.name, child.base)) =
        children'.map fun child => (child.name, child.base) := by
      clear h
      induction hch with
      | nil => rfl
      | cons ho _ ih =>
        rw [List.map_cons, List.map_cons, ih, Object.name, Object.name, Object.base, Object.base,
          ho.1]
    rw [Compile.ofFallible_ok_bind, Compile.ofFallible_ok_bind, hbases, h.name_eq]
    refine Compile.runIn_bind_congr (Compile.runIn_mapM_congr fun c hc => ?_) fun _ _ _ _ => rfl
    exact Compile.runIn_bind_congr (runIn_resolveVariant_congr hc h hch b) fun _ _ _ _ => rfl

theorem Module.runIn_resolveVariant_congr {ctx : ModuleContext} (hc : c ∈ cs) {o o' : Object}
    (h : o.Opens (HoldsIn ctx.external cs) .owner o') {children children' : List Object}
    (hch : List.Forall₂ (Object.Opens (HoldsIn ctx.external cs) .inner) children children')
    (template : Template) (known : Identities) (variant : TemplateVariant) :
    (resolveVariant ctx o children template known c variant).runIn =
      (resolveVariant ctx o' children' template known c variant).runIn := by
  have hheirs : List.Forall₂ (Heir.Alike (Object.Opens (HoldsIn ctx.external cs) .inner))
      (heirs template children) (heirs template children') := by
    unfold heirs
    rw [List.forall₂_map_left_iff, List.forall₂_map_right_iff]
    refine hch.imp fun child child' ho => ⟨?_, ho⟩
    rw [ho.name_eq, Object.base, Object.base, ho.1]
  have hb : bindingsIn ctx o template c = bindingsIn ctx o' template c := by
    unfold bindingsIn
    rw [h.name_eq]
  rw [resolveVariant_eq, resolveVariant_eq]
  refine Compile.runIn_bind_congr ?_ fun _ _ _ _ => ?_
  · unfold compileRoot
    rw [hb, h.1]
    exact h.runIn_compile hc _ _ _ _
  · split
    · rfl
    · rw [hb, h.name_eq]
      refine Compile.runIn_bind_congr ?_ fun _ _ _ _ => rfl
      unfold compileOwn
      rw [hb, h.1]
      exact Compile.runIn_within_congr (Heir.runIn_compileAll_congr (fun ho => ho.1)
        (fun _ _ ho _ => ho.runIn_compile hc _ _ _ _) hheirs) _

theorem Module.runIn_resolveVariants_congr {ctx : ModuleContext} {o o' : Object}
    (h : o.Opens (HoldsIn ctx.external cs) .owner o') {children children' : List Object}
    (hch : List.Forall₂ (Object.Opens (HoldsIn ctx.external cs) .inner) children children')
    (template : Template) : ∀ (known : Identities) (vs : List (Configuration × TemplateVariant)),
      (∀ e ∈ vs, e.1 ∈ cs) →
        (resolveVariants ctx o children template known vs).runIn =
          (resolveVariants ctx o' children' template known vs).runIn
  | _, [], _ => rfl
  | known, (c, variant) :: vs, hmem => by
    have htail : ∀ known, _ := fun known =>
      runIn_resolveVariants_congr h hch template known vs fun e he => hmem e (by simp [he])
    rw [resolveVariants, resolveVariants]
    exact Compile.runIn_bind_congr
      (runIn_resolveVariant_congr (hmem (c, variant) (by simp)) h hch template known variant)
      fun _ _ _ _ => Compile.runIn_bind_congr (htail _) fun _ _ _ _ => rfl

theorem Module.runIn_resolve_congr {ctx : ModuleContext} {o o' : Object}
    (h : o.Opens (HoldsIn ctx.external cs) .owner o') {template : Template}
    (ht : ∀ e ∈ template.variants.entries, e.1 ∈ cs) :
    (resolve ctx o template).runIn = (resolve ctx o' template).runIn := by
  have hboth := both_settingsObjects h
  unfold resolve
  generalize o.settingsObjects = r at hboth ⊢
  generalize o'.settingsObjects = r' at hboth ⊢
  cases hboth with
  | error e => simp only [Compile.ofFallible_error_bind]
  | ok hch =>
    rw [Compile.ofFallible_ok_bind, Compile.ofFallible_ok_bind, h.name_eq]
    exact Compile.runIn_bind_congr (runIn_resolveVariants_congr h hch template _ _ ht)
      fun _ _ _ _ => rfl

end Stages

/-! ### The solution -/

namespace Solution

section Stages
variable {external : NameSet} {cs : List Configuration}

theorem runIn_resolveTemplates_congr {os os' : List Object}
    (h : List.Forall₂ (Object.Opens (HoldsIn external cs) .owner) os os') (b : Bindings) :
    ∀ templates : Dictionary String Template,
      (resolveTemplates cs external b templates os).runIn =
        (resolveTemplates cs external b templates os').runIn := by
  induction h with
  | nil => exact fun _ => rfl
  | cons ho _ ih =>
    intro templates
    rw [resolveTemplates, resolveTemplates, ho.name_eq]
    split
    · rfl
    · exact Compile.runIn_bind_congr (Template.runIn_resolve_congr ho b) fun _ _ _ _ => ih _

/-- Templates are resolved for the configurations that they are asked for. -/
def ResolvedFor (cs : List Configuration) (templates : Dictionary String Template) : Prop :=
  ∀ n t, templates.get? n = some t → ∀ e ∈ t.variants.entries, e.1 ∈ cs

theorem resolvedFor_of_runIn {b : Bindings} : ∀ {os : List Object}
    {templates out : Dictionary String Template} {s t : Session}, ResolvedFor cs templates →
      (resolveTemplates cs external b templates os).runIn s = (.ok out, t) → ResolvedFor cs out
  | [], _, _, _, _, hr, h => by
    cases h
    exact hr
  | o :: os, templates, out, s, t, hr, h => by
    obtain ⟨-, template, u, ht, h⟩ := runIn_resolveTemplates_cons_ok.mp h
    refine resolvedFor_of_runIn (fun n t' hn => ?_) h
    rw [Dictionary.get?_insert] at hn
    split at hn
    · cases hn
      exact Template.mem_of_runIn_resolve ht
    · exact hr n t' hn

theorem runIn_resolveModules_congr {ctx : ModuleContext} {os os' : List Object}
    (h : List.Forall₂ (Object.Opens (HoldsIn ctx.external cs) .owner) os os')
    {templates : Dictionary String Template} (ht : ResolvedFor cs templates) :
    ∀ modules : Dictionary String Module,
      (resolveModules ctx templates modules os).runIn =
        (resolveModules ctx templates modules os').runIn := by
  induction h with
  | nil => exact fun _ => rfl
  | cons ho _ ih =>
    intro modules
    rw [resolveModules, resolveModules, ho.name_eq, Object.base, Object.base, ho.1]
    split
    · rfl
    · split
      · rfl
      · split
        · rfl
        · next template hn =>
          exact Compile.runIn_bind_congr (Module.runIn_resolve_congr ho (ht _ _ hn))
            fun _ _ _ _ => ih _

end Stages

/-- The configurations for which a document is resolved. There are none if it does not come to
them. -/
def selected (o : Options) (d : Document) : List Configuration :=
  match bodyOf d with
  | .error _ => []
  | .ok body =>
    match declaredConfigurations body o.groups with
    | .error _ => []
    | .ok cs => cs

theorem checkKinds_congr {P : String → Prop} {p : Place} {body body' : Object}
    (hh : body.heading = body'.heading) {os os' : List Object}
    (h : List.Forall₂ (Object.Opens P p) os os') : checkKinds body os = checkKinds body' os' := by
  induction h with
  | nil => rfl
  | @cons o o' os os' ho _ ih =>
    unfold checkKinds at ih ⊢
    rw [List.find?_cons, List.find?_cons, Object.kind, Object.kind, ho.1]
    cases o'.heading.kind != templateKind && o'.heading.kind != moduleKind with
    | false => exact ih
    | true =>
      simp only [Object.name, Object.kind, ho.1, hh]

theorem filter_kind {P : String → Prop} {p : Place} (kind : String) {os os' : List Object}
    (h : List.Forall₂ (Object.Opens P p) os os') :
    List.Forall₂ (Object.Opens P p) (os.filter (·.kind = kind)) (os'.filter (·.kind = kind)) := by
  induction h with
  | nil => exact .nil
  | cons ho _ ih =>
    rw [List.filter_cons, List.filter_cons, Object.kind, Object.kind, ho.1]
    split
    · exact .cons ho ih
    · exact ih

theorem runIn_resolveSettings_congr {external : NameSet} {cs : List Configuration}
    {c : Configuration} (hc : c ∈ cs) {p : Place} {body body' : Object}
    (h : body.Opens (HoldsIn external cs) p body') (b : Bindings) :
    (resolveSettings body external b c).runIn = (resolveSettings body' external b c).runIn := by
  unfold resolveSettings
  rw [h.1]
  exact Compile.runIn_bind_congr (h.runIn_compile hc _ _ _ _) fun _ _ _ _ => rfl

/-- The body of a solution is resolved alike with blocks opened in it. -/
theorem runIn_resolveBody_congr (o : Options) (fs : FileSystem) {cs : List Configuration}
    {body body' : Object} (h : body.Opens (HoldsIn o.constants cs) .solution body') :
    (resolveBody o fs body cs).runIn = (resolveBody o fs body' cs).runIn := by
  have hobjects : List.Forall₂ (Object.Opens (HoldsIn o.constants cs) .owner)
      (Element.objects body.body) (Element.objects body'.body) := h.2.objects (by decide)
  have hb : bindingsIn o body = bindingsIn o body' := by
    unfold bindingsIn
    rw [h.name_eq]
  unfold resolveBody
  refine Compile.runIn_bind_congr ?_ fun resolved _ _ _ => ?_
  · unfold compileSettings
    rw [hb]
    exact Compile.runIn_mapM_congr fun c hc =>
      Compile.runIn_bind_congr (runIn_resolveSettings_congr hc h _) fun _ _ _ _ => rfl
  rw [checkKinds_congr h.1 hobjects]
  refine Compile.runIn_bind_congr rfl fun _ _ _ _ => ?_
  rw [hb]
  refine Compile.runIn_bind_congr
    (runIn_resolveTemplates_congr (filter_kind templateKind hobjects) _ _)
    fun templates _ _ ht => ?_
  have hfor : ResolvedFor cs templates := by
    refine resolvedFor_of_runIn (fun n t hn => ?_) ht
    cases hn
  have hctx : contextOf o fs body resolved = contextOf o fs body' resolved := by
    unfold contextOf
    rw [hb]
  have hsolution : ∀ modules, assemble body cs resolved templates modules =
      assemble body' cs resolved templates modules := fun modules => by
    unfold assemble
    rw [h.name_eq]
  simp only [hctx, hsolution]
  exact Compile.runIn_bind_congr
    (runIn_resolveModules_congr (filter_kind moduleKind hobjects) hfor _) fun _ _ _ _ => rfl

/-- **A resolution does not notice that blocks are opened, at any depth, whose conditions hold in all
selected configurations**, if nothing is opened that would be collected where it comes to stand: in
whatever session, it has the same result, gives the same warnings and keeps the same settings. -/
theorem runIn_resolve_of_opens (o : Options) (fs : FileSystem) {d d' : Document}
    (h : Opens (HoldsIn o.constants (selected o d)) .document d.elements d'.elements) :
    (resolve o fs d').runIn = (resolve o fs d).runIn := by
  have hbody := both_bodyOf h
  unfold selected at hbody
  rw [resolve_eq, resolve_eq]
  generalize bodyOf d = r at hbody ⊢
  generalize bodyOf d' = r' at hbody ⊢
  cases hbody with
  | error e => simp only [Compile.ofFallible_error_bind]
  | @ok body body' hb =>
    have hgroups : declaredConfigurations body' o.groups = declaredConfigurations body o.groups := by
      unfold declaredConfigurations
      rw [hb.2.groups (Or.inr rfl)]
    rw [Compile.ofFallible_ok_bind, Compile.ofFallible_ok_bind, hgroups]
    dsimp only at hb
    generalize declaredConfigurations body o.groups = r at hb ⊢
    cases r with
    | error e => simp only [Compile.ofFallible_error_bind]
    | ok cs =>
      rw [Compile.ofFallible_ok_bind, Compile.ofFallible_ok_bind]
      exact (runIn_resolveBody_congr o fs hb).symm

/-- A solution whose template declares a project with the settings `S`, and holds more elements. -/
def withTemplate (es : List Element) : Document :=
  ⟨[.group ⟨"g", [("Debug", .empty)]⟩,
    .object ⟨templateKind, "T", none⟩
      (.assignment ⟨.add, ["projects"], .pair "P" (.literal "S"), always⟩ :: es),
    .object ⟨moduleKind, "Core", some "T"⟩ []]⟩

/-- An assignment and an object that is not collected there. -/
def settingsBody : List Element :=
  [.assignment ⟨.set, ["source", "path"], .literal "src", always⟩,
    .object ⟨settingsKind, "Inner", none⟩ []]

theorem selected_withTemplate (es : List Element) :
    selected (.ofEnvironment []) (withTemplate es) = [.ofConstants "g" "Debug" []] := rfl

theorem holdsIn_withTemplate (es : List Element) :
    HoldsIn (Options.ofEnvironment []).constants
      (selected (.ofEnvironment []) (withTemplate es)) "Debug" := by
  rw [selected_withTemplate]
  intro c hc
  obtain rfl := List.mem_singleton.mp hc
  rfl

/-- A block in the settings of a template may be opened, with the object in it. -/
theorem runIn_resolve_withTemplate :
    (resolve (.ofEnvironment []) default
        (withTemplate [.object ⟨settingsKind, "S", none⟩ settingsBody])).runIn =
      (resolve (.ofEnvironment []) default
        (withTemplate [.object ⟨settingsKind, "S", none⟩ [.block "Debug" settingsBody]])).runIn :=
  runIn_resolve_of_opens _ _ <| .same _ <| .object
    (.same _ (.object (.here (holdsIn_withTemplate _) trivial (.refl _)) .nil)) (.refl _)

/-- The settings of a project are not found in a block, although its condition holds: opened, the
block gives a solution, and as it stands it gives none. -/
theorem settings_in_block_lost :
    HoldsIn (Options.ofEnvironment []).constants
        (selected (.ofEnvironment [])
          (withTemplate [.block "Debug" [.object ⟨settingsKind, "S", none⟩ []]])) "Debug" ∧
      ((resolve (.ofEnvironment []) default
        (withTemplate [.object ⟨settingsKind, "S", none⟩ []])).runIn .initial).1.isOk = true ∧
      ((resolve (.ofEnvironment []) default (withTemplate
        [.block "Debug" [.object ⟨settingsKind, "S", none⟩ []]])).runIn .initial).1.isOk = false :=
  ⟨holdsIn_withTemplate _, by decide +kernel⟩

end Solution

end BuildPlan
