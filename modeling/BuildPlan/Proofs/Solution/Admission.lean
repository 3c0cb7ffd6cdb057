import BuildPlan.Proofs.Settings.Admitting
import BuildPlan.Proofs.Solution.Cache
import BuildPlan.Proofs.Solution.Opening
import BuildPlan.Proofs.Solution.Selection

/-! # Projects that are admitted

A document in which patterns of names are set behind everything else gives what it gives without them,
with the projects alone whose names one of the patterns matches, up to the spelling of source paths. It
does so unless one of these references a project that is not among them, and otherwise it fails for this
reason (`resolve_admitting`). -/

namespace BuildPlan

open BuildPlan.Variable

/-! ### Documents that admit -/

/-- Sets the patterns of the admitted projects. -/
def admission (vs : List Value) : Element :=
  .assignment ⟨.set, ["include", "projects"], .array vs, always⟩

/-- The object with these patterns set at the end of its body. -/
def Object.admitting (o : Object) (vs : List Value) : Object :=
  { o with body := o.body ++ [admission vs] }

/-- The document with these patterns set behind everything else. -/
def Document.admitting (d : Document) (vs : List Value) : Document :=
  ⟨d.elements ++ [admission vs]⟩

theorem Object.objects_admitting (o : Object) (vs : List Value) :
    Element.objects (o.admitting vs).body = Element.objects o.body := by
  unfold Element.objects admitting
  rw [List.filterMap_append]
  exact List.append_nil _

theorem Object.groups_admitting (o : Object) (vs : List Value) :
    Element.groups (o.admitting vs).body = Element.groups o.body := by
  unfold Element.groups admitting
  rw [List.filterMap_append]
  exact List.append_nil _

namespace Solution

theorem wrapper?_append_admission (vs : List Value) : ∀ (es : List Element) (found : Option Object),
    wrapper? found (es ++ [admission vs]) = wrapper? found es
  | [], _ => rfl
  | e :: es, found => by
    cases e with
    | object heading body =>
      rw [List.cons_append, wrapper?, wrapper?]
      split
      · split
        · rfl
        · split
          · rfl
          · exact wrapper?_append_admission vs es _
      · exact wrapper?_append_admission vs es found
    | comment | group | assignment | invocation | block => exact wrapper?_append_admission vs es found

/-- The patterns stand at the end of the body, whether a solution object holds it or not. -/
theorem bodyOf_admitting {d : Document} {body : Object} (h : bodyOf d = .ok body) (vs : List Value) :
    bodyOf (d.admitting vs) = .ok (body.admitting vs) := by
  obtain ⟨found, hw, h⟩ := Fallible.bind_ok.mp h
  have hothers : (d.elements ++ [admission vs]).filter (!isWrapper ·) =
      d.elements.filter (!isWrapper ·) ++ [admission vs] := List.filter_append ..
  refine Fallible.bind_ok.mpr ⟨found, (wrapper?_append_admission vs _ _).trans hw, ?_⟩
  cases found with
  | none =>
    cases h
    exact congrArg (fun es => Except.ok (Object.mk _ es)) hothers
  | some o =>
    cases h
    refine congrArg (fun es => Except.ok (Object.mk _ es)) ?_
    rw [Document.admitting, hothers, List.append_assoc]

theorem templatesIn_admitting (body : Object) (vs : List Value) :
    templatesIn (body.admitting vs) = templatesIn body :=
  congrArg (List.filter _) (body.objects_admitting vs)

theorem modulesIn_admitting (body : Object) (vs : List Value) :
    modulesIn (body.admitting vs) = modulesIn body :=
  congrArg (List.filter _) (body.objects_admitting vs)

/-- A document with patterns is resolved by its body with them, for the same configurations. -/
theorem resolve_admitting_eq {o : Options} {d : Document} {body : Object} {cs : List Configuration}
    (hb : bodyOf d = .ok body) (hcs : declaredConfigurations body o.groups = .ok cs) (fs : FileSystem)
    (vs : List Value) :
    resolve o fs (d.admitting vs) = resolveBody o fs (body.admitting vs) cs := by
  have hcs' : declaredConfigurations (body.admitting vs) o.groups = .ok cs := by
    rw [← hcs, declaredConfigurations, body.groups_admitting]
    rfl
  rw [resolve_eq, bodyOf_admitting hb, Compile.ofFallible_ok_bind, hcs', Compile.ofFallible_ok_bind]

end Solution

/-! ### Whitelists -/

theorem Whitelist.allows_of_patterns {w : Whitelist} {ms : List CompiledPattern} (hne : ms ≠ [])
    (h : ∀ m, m ∈ w.patterns ↔ m ∈ ms) :
    w.isActive = true ∧ ∀ n, w.allows n = ms.any (·.isMatch n) := by
  obtain ⟨m, hm⟩ := List.exists_mem_of_ne_nil ms hne
  have hactive : w.isActive = true := by
    have hmem := (h m).mpr hm
    unfold isActive
    cases hw : w.patterns with
    | nil =>
      rw [hw] at hmem
      cases hmem
    | cons => rfl
  refine ⟨hactive, fun n => ?_⟩
  rw [allows, hactive, Bool.not_true, Bool.false_or, Bool.eq_iff_iff, List.any_eq_true, List.any_eq_true]
  simp only [h]

/-- Without patterns every name is admitted. -/
theorem Whitelist.allows_of_ofPatterns_nil {w : Whitelist} (h : ofPatterns [] = .ok w) (n : String) :
    w.allows n = true := by
  cases h
  rfl

namespace Solution

/-! ### Properties of the solution -/

section Settings
variable {o : Options} {body : Object} {external : NameSet} {b : Bindings} {c : Configuration}
  {vs : List Value} {ms : List CompiledPattern} {r : Settings × Whitelist}

/-- The second one admits what these patterns match, and has the other properties of the first one. -/
structure WithPatterns (ms : List CompiledPattern) (r r' : Settings × Whitelist) : Prop where
  values : ∀ n, n ≠ PropertyName.includeProjects → r'.1.value? n = r.1.value? n
  active : r'.2.isActive = true
  allows : ∀ n, r'.2.allows n = ms.any (·.isMatch n)

theorem fresh_resolveSettings_ok :
    (resolveSettings body external b c).fresh.result = .ok r ↔ ∃ compiled,
      (Job.answerAnew ⟨body, solutionKind, .solution, some c, none, c.bind b⟩ external).result =
        .ok compiled ∧
      compiled.expand (c.bind b) .complete = .ok r.1 ∧
      Whitelist.ofPatterns (r.1.patterns PropertyName.includeProjects) = .ok r.2 := by
  unfold resolveSettings
  rw [Compile.result_fresh_bind_ok]
  simp only [Compile.fresh_compile]
  refine exists_congr fun compiled => and_congr_right fun _ => ?_
  constructor
  · intro h
    obtain ⟨expanded, he, h⟩ := Compile.result_fresh_bind_ok.mp h
    obtain ⟨w, hw, h⟩ := Compile.result_fresh_bind_ok.mp h
    cases h
    exact ⟨Fallible.within_ok.mp he, hw⟩
  · rintro ⟨he, hw⟩
    exact Compile.result_fresh_bind_ok.mpr ⟨r.1, Fallible.within_ok.mpr he,
      Compile.result_fresh_bind_ok.mpr ⟨r.2, hw, rfl⟩⟩

/-- The walk comes to the patterns, which replace those that were there. -/
theorem walk_admitting {defined : NameSet} {bag : Bag} {flow : Flow} {v : PropertyValue}
    (h : (walkAll .solution defined (.initial .solution) body.body).result = .ok (bag, flow))
    (hv : Definition.includeProjects.read (.array vs) = .ok v) :
    (walkAll .solution defined (.initial .solution) (body.admitting vs).body).result =
      .ok ({ bag with values := bag.values.insert PropertyName.includeProjects v }, .goOn) := by
  obtain ⟨cs, hcs, -⟩ := walkAll_ok.mp h
  obtain rfl := goOn_of_changesAll (by decide) hcs
  refine walkAll_append_ok h (walkAll_ok.mpr ⟨[.merge .includeProjects .set v], ?_, rfl⟩)
  refine changesAll_cons_ok.mpr (Or.inr ⟨[.merge .includeProjects .set v], [], ?_, rfl, rfl⟩)
  have hjudge : judge always defined = .ok true := rfl
  have hproperty : Registry.solution.property (String.intercalate " " ["include", "projects"]) =
      .ok .includeProjects := rfl
  rw [admission, Element.changes]
  exact Fallible.bind_ok.mpr ⟨true, hjudge, Fallible.bind_ok.mpr ⟨_, hproperty,
    Fallible.bind_ok.mpr ⟨v, hv, rfl⟩⟩⟩

/-- **Where the properties of a solution are there, they are with patterns that are set behind them.** -/
theorem fresh_resolveSettings_admitting (hvs : vs ≠ [])
    (h : (resolveSettings body external b c).fresh.result = .ok r)
    (hms : vs.mapM (Value.matcher (c.bind b)) = .ok ms) :
    ∃ r', (resolveSettings (body.admitting vs) external b c).fresh.result = .ok r' ∧
      WithPatterns ms r r' := by
  obtain ⟨_, hc, he, -⟩ := fresh_resolveSettings_ok.mp h
  obtain ⟨hbase, bag, flow, bag₁, hwalk, hbag₁, rfl⟩ := Job.answerAnew_ok.mp hc
  obtain ⟨bag₂, hbag₂, hr⟩ := Fallible.bind_ok.mp he
  obtain ⟨v, v₁, items, w, hv, hv₁, hitems, hw, hmem⟩ := whitelist_of_matchers hms
  have hr : (⟨_, bag₂⟩ : Settings) = r.1 := Except.ok.inj hr
  have hkey : Job.key ⟨body, solutionKind, .solution, some c, none, c.bind b⟩ external = r.1.key :=
    congrArg Settings.key hr
  let settings : Settings := ⟨r.1.key,
    { bag₂ with values := bag₂.values.insert PropertyName.includeProjects (.set items) }⟩
  have hvalue : ∀ n, settings.value? n =
      if PropertyName.includeProjects = n then some (.set items) else bag₂.values.get? n :=
    fun n => Dictionary.get?_insert _ _ n _
  have hpatterns : settings.patterns PropertyName.includeProjects =
      items.items.filterMap Item.pattern? := by
    rw [Settings.patterns, Settings.items, hvalue, if_pos rfl]
  have hms : ms ≠ [] := by
    rintro rfl
    exact hvs (List.length_eq_zero_iff.mp (Fallible.mapM_ok_forall₂.mp hms).length_eq)
  obtain ⟨hactive, hallows⟩ := Whitelist.allows_of_patterns hms hmem
  refine ⟨(settings, w), fresh_resolveSettings_ok.mpr ⟨_, Job.answerAnew_ok.mpr ⟨hbase, _, _, _,
    walk_admitting hwalk hv, Bag.expand_insert hbag₁ hv₁, rfl⟩, ?_, hpatterns ▸ hw⟩, fun n hn => ?_,
    hactive, hallows⟩
  · exact Fallible.bind_ok.mpr ⟨_, Bag.expand_insert hbag₂ hitems,
      congrArg (fun k => Except.ok (Settings.mk k settings.bag)) hkey⟩
  · rw [hvalue, if_neg (Ne.symm hn), ← hr]
    rfl

/-- Under all configurations, the properties are compiled with the patterns behind them. -/
theorem runIn_compileSettings_admitting {cs : List Configuration} (hcs : cs.Nodup) (hvs : vs ≠ [])
    {resolved : List (Configuration × Settings × Whitelist)} {u : Session}
    (h : (compileSettings o body cs).runIn .initial = (.ok resolved, u))
    {patterns : Configuration → List CompiledPattern}
    (hms : ∀ c ∈ cs, vs.mapM (Value.matcher (c.bind (bindingsIn o body))) = .ok (patterns c)) :
    ∃ r r' : Configuration → Settings × Whitelist, ∃ u', resolved = cs.map (fun c => (c, r c)) ∧
      (compileSettings o (body.admitting vs) cs).runIn .initial =
        (.ok (cs.map fun c => (c, r' c)), u') ∧
      ∀ c ∈ cs, Whitelist.ofPatterns ((r c).1.patterns PropertyName.includeProjects) = .ok (r c).2 ∧
        WithPatterns (patterns c) (r c) (r' c) := by
  have hfresh := ((asksOnce_compileSettings o body hcs).runIn_eq_fresh (s := .initial) fun _ _ => rfl).1
  have hfresh' := ((asksOnce_compileSettings o (body.admitting vs) hcs).runIn_eq_fresh (s := .initial)
    fun _ _ => rfl).1
  rw [h, compileSettings, Compile.result_fresh_mapM] at hfresh
  rw [compileSettings, Compile.result_fresh_mapM] at hfresh'
  have hall : ∀ c ∈ cs, ∃ r r',
      (resolveSettings body o.constants (bindingsIn o body) c).fresh.result = .ok r ∧
      (resolveSettings (body.admitting vs) o.constants (bindingsIn o body) c).fresh.result = .ok r' ∧
      WithPatterns (patterns c) r r' := by
    intro c hc
    obtain ⟨e, he⟩ := Fallible.exists_of_mapM_ok hfresh.symm hc
    obtain ⟨r, hr, -⟩ := Compile.result_fresh_bind_ok.mp he
    obtain ⟨r', hr', hw⟩ := fresh_resolveSettings_admitting hvs hr (hms c hc)
    exact ⟨r, r', hr, hr', hw⟩
  have hnonempty : Nonempty (Settings × Whitelist) := ⟨(default, ⟨[]⟩)⟩
  choose! r r' hr hr' hw using hall
  have hmap : ∀ {body : Object} {r : Configuration → Settings × Whitelist},
      (∀ c ∈ cs, (resolveSettings body o.constants (bindingsIn o body) c).fresh.result = .ok (r c)) →
      (cs.mapM fun c => (do
        return (c, ← resolveSettings body o.constants (bindingsIn o body) c) :
          Compile _).fresh.result) = .ok (cs.map fun c => (c, r c)) := fun hr =>
    Fallible.mapM_ok_of_forall fun c hc => Compile.result_fresh_bind_ok.mpr ⟨_, hr c hc, rfl⟩
  refine ⟨r, r', _, Except.ok.inj (hfresh.trans (hmap hr)), Prod.ext (hfresh'.trans (hmap hr')) rfl,
    fun c hc => ⟨?_, hw c hc⟩⟩
  obtain ⟨-, -, -, hpatterns⟩ := fresh_resolveSettings_ok.mp (hr c hc)
  exact hpatterns

end Settings

/-! ### Admitted names -/

/-- Holds of the names that one of the patterns for the configuration matches. -/
def admitsName (patterns : Configuration → List CompiledPattern) (c : Configuration) (name : String) :
    Bool :=
  (patterns c).any (·.isMatch name)

/-- The solution leaves the patterns of admitted projects empty under all its configurations. -/
def AdmitsAll (s : Solution) : Prop :=
  ∀ settings ∈ s.settings.values, settings.items PropertyName.includeProjects = []

instance (s : Solution) : Decidable s.AdmitsAll :=
  inferInstanceAs (Decidable (∀ settings ∈ s.settings.values, _))

section Contexts
variable {o : Options} {fs : FileSystem} {body : Object} {cs : List Configuration} {c : Configuration}
  {vs : List Value}

theorem get?_whitelists (hcs : cs.Nodup) (r : Configuration → Settings × Whitelist) (hc : c ∈ cs) :
    (contextOf o fs body (cs.map fun c => (c, r c))).whitelists.get? c = some (r c).2 := by
  unfold contextOf
  rw [List.map_map]
  exact Dictionary.get?_ofList_map hcs (fun c => (r c).2) hc

theorem get?_settings (hcs : cs.Nodup) (r : Configuration → Settings × Whitelist)
    (templates : Dictionary String Template) (modules : Dictionary String Module) (hc : c ∈ cs) :
    (assemble body cs (cs.map fun c => (c, r c)) templates modules).settings.get? c =
      some (r c).1 := by
  unfold assemble
  rw [List.map_map]
  exact Dictionary.get?_ofList_map hcs (fun c => (r c).1) hc

/-- The properties of a solution are compiled under keys of their own. -/
theorem asks_compileSettings (hb : body.kind = solutionKind) :
    (compileSettings o body cs).Asks {k | k.kind = solutionKind} := by
  refine Compile.asks_mapM (fun c => ?_) cs
  unfold resolveSettings
  exact ((Compile.asks_compile hb).bind fun _ => (Compile.asks_ofFallible _).bind fun _ =>
    (Compile.asks_ofFallible _).bind fun _ => Compile.asks_pure _).bind fun _ => Compile.asks_pure _

/-- What is kept for the properties does not concern any other object. -/
theorem agree_of_runIn_compileSettings (hb : body.kind = solutionKind)
    {resolved : List (Configuration × Settings × Whitelist)} {s u : Session}
    (h : (compileSettings o body cs).runIn s = (.ok resolved, u)) : s.Agree objectKeys u := by
  have hasks : (compileSettings o body cs).Asks {k | k.kind = solutionKind} := asks_compileSettings hb
  have hagree := hasks.agree
    (Set.disjoint_left.mpr fun k (hk : k.kind = _) (hne : k.kind ≠ _) => hne hk) s
  rwa [h] at hagree

end Contexts

end Solution

namespace Module

/-! ### Projects under their names -/

section Names
variable {ctx : ModuleContext} {module : String} {c : Configuration} {b : Bindings}
  {settings : Dictionary String Settings}

/-- The projects stand under their names. -/
def Named (ps : Dictionary String Project) : Prop := ∀ e ∈ ps.entries, e.2.name = e.1

theorem named_empty : Named .empty := List.forall_mem_nil _

theorem named_of_resolveProjects : ∀ {entries : List (String × String)} {known known' : Identities}
    {ps ps' : Dictionary String Project}, Named ps →
      (resolveProjects ctx module c b settings known ps entries).result = .ok (known', ps') → Named ps'
  | [], _, _, _, _, hps, h => by
    cases h
    exact hps
  | entry :: entries, known, known', ps, ps', hps, h => by
    rcases resolveProjects_cons_ok.mp h with ⟨-, h⟩ | ⟨p, known₁, -, -, h⟩
    · exact named_of_resolveProjects hps h
    · refine named_of_resolveProjects (fun e he => ?_) h
      rcases Dictionary.mem_put he with rfl | he
      · rfl
      · exact hps e he

theorem named_of_runIn_resolveVariants {object : Object} {children : List Object}
    {template : Template} : ∀ {vs : List (Configuration × TemplateVariant)} {known : Identities}
      {out : List (Configuration × Dictionary String Project)} {s t : Session},
        (resolveVariants ctx object children template known vs).runIn s = (.ok out, t) →
          ∀ e ∈ out, Named e.2
  | [], _, _, _, _, h => by
    cases h
    simp
  | (c, variant) :: vs, _, _, _, _, h => by
    obtain ⟨known₁, ps, more, u, hv, hmore, rfl⟩ := runIn_resolveVariants_cons_ok.mp h
    refine List.forall_mem_cons.mpr ⟨?_, named_of_runIn_resolveVariants hmore⟩
    obtain ⟨root, u, -, ⟨-, -, rfl, -⟩ | ⟨-, own, v, -, hps, -⟩⟩ := runIn_resolveVariant_ok.mp hv
    · exact named_empty
    · exact named_of_resolveProjects named_empty hps

theorem named_of_runIn_resolve {object : Object} {template : Template} {m : Module} {s t : Session}
    (h : (resolve ctx object template).runIn s = (.ok m, t)) :
    ∀ e ∈ m.variants.entries, Named e.2 := by
  obtain ⟨children, variants, -, hv, rfl⟩ := runIn_resolve_ok.mp h
  exact fun e he => named_of_runIn_resolveVariants hv e (Dictionary.mem_of_mem_entries_ofList he)

end Names

section Selected
variable {keep : Configuration → Bool} {admits : Configuration → String → Bool} {m m' : Module}
  {c : Configuration}

theorem Named.values_restrict {ps : Dictionary String Project} (h : Named ps) (admits : String → Bool) :
    (ps.restrict admits).values = ps.values.filter (admits ·.name) := by
  unfold Dictionary.values Dictionary.restrict
  rw [List.filter_map]
  exact congrArg _ (List.filter_congr fun e he => by rw [Function.comp_apply, h e he])

/-- Under a configuration that is kept, the projects of the second module are the admitted ones of the
first one. -/
theorem SelectsTo.projects (h : m.SelectsTo keep admits m')
    (hn : ∀ e ∈ m.variants.entries, Named e.2) (hc : keep c = true) :
    List.Forall₂ Project.Alike ((m.projects c).filter (admits c ·.name)) (m'.projects c) := by
  have hget := h.variants.get? c
  rw [selected, Dictionary.get?_mapValues, Dictionary.get?_restrict hc] at hget
  unfold Module.projects
  generalize m'.variants.get? c = r' at hget
  cases hps : m.variants.get? c with
  | none =>
    rw [hps] at hget
    cases hget
    exact .nil
  | some ps =>
    rw [hps] at hget
    cases hget with
    | some ha =>
      have hvalues := ha.values
      rwa [(hn _ (Dictionary.mem_of_get? hps)).values_restrict] at hvalues

/-- The projects of a module that are admitted under these configurations, and whose names come for the
first time there. -/
def firstAdmitted (m : Module) (cs : List Configuration) (admits : Configuration → String → Bool) :
    List Project :=
  newcomers [] (m.selected (cs.contains ·) admits).values

theorem mem_of_mem_firstAdmitted {cs : List Configuration} {p : Project}
    (h : p ∈ m.firstAdmitted cs admits) : ∃ c, p ∈ m.projects c := by
  obtain ⟨ps, hps, hp⟩ := mem_newcomers h
  obtain ⟨_, hselected, rfl⟩ := List.mem_map.mp hps
  obtain ⟨⟨c, ps⟩, hkept, rfl⟩ := List.mem_map.mp hselected
  obtain ⟨e, he, rfl⟩ := List.mem_map.mp hp
  refine ⟨c, ?_⟩
  unfold projects
  rw [Dictionary.get?_of_mem (List.mem_of_mem_filter hkept)]
  exact List.mem_map_of_mem (List.mem_of_mem_filter he)

end Selected

end Module

namespace Solution

/-! ### References -/

theorem firstRepeated_eq_none : ∀ {ns seen : List String}, ns.Nodup → (∀ n ∈ ns, n ∉ seen) →
    firstRepeated seen ns = none
  | [], _, _, _ => rfl
  | n :: ns, seen, hd, hs => by
    obtain ⟨hn, hd⟩ := List.nodup_cons.mp hd
    obtain ⟨hnew, hs⟩ := List.forall_mem_cons.mp hs
    have hrest : ∀ m ∈ ns, m ∉ n :: seen := fun m hm hmem => by
      rcases List.mem_cons.mp hmem with rfl | hmem
      · exact hn hm
      · exact hs m hm hmem
    rw [firstRepeated, if_neg (by simpa using hnew), firstRepeated_eq_none hd hrest]

theorem danglingReference?_eq_none {names : List String} {ps : List Project}
    (h : danglingReference? names ps = none) {p : Project} (hp : p ∈ ps) {reference : String}
    (hr : reference ∈ p.projectRefs) : reference ∈ names := by
  have hnone := Option.map_eq_none_iff.mp (List.findSome?_eq_none_iff.mp h p hp)
  simpa using List.find?_eq_none.mp hnone reference hr

theorem exists_of_danglingReference? {names : List String} {ps : List Project}
    {found : String × String} (h : danglingReference? names ps = some found) :
    ∃ p ∈ ps, found.1 = p.name ∧ found.2 ∈ p.projectRefs ∧ found.2 ∉ names := by
  obtain ⟨p, hp, hfound⟩ := List.exists_of_findSome?_eq_some h
  obtain ⟨reference, hr, rfl⟩ := Option.map_eq_some_iff.mp hfound
  exact ⟨p, hp, rfl, List.mem_of_find?_eq_some hr, by simpa using List.find?_some hr⟩

section Dangles
variable {s t : Solution} {admits : Configuration → String → Bool} {c : Configuration}

/-- The projects under a configuration whose names are admitted. -/
def admitted (s : Solution) (admits : Configuration → String → Bool) (c : Configuration) :
    List Project :=
  (s.projects c).filter (admits c ·.name)

/-- The project is admitted and references a name that no admitted project has. -/
structure Dangles (s : Solution) (admits : Configuration → String → Bool) (c : Configuration)
    (p : Project) (reference : String) : Prop where
  admitted : p ∈ s.admitted admits c
  references : reference ∈ p.projectRefs
  missing : reference ∉ (s.admitted admits c).map (·.name)

/-- Where the admitted projects alone are there, the check fails if and only if one of them references
another project. -/
theorem checkProjects_admitted {ws : Dictionary Configuration Whitelist}
    (h : List.Forall₂ Project.Alike (s.admitted admits c) (t.projects c))
    (hn : ((s.projects c).map (·.name)).Nodup) (hw : (ws.get? c).any (·.isActive) = true) :
    (checkProjects t ws c = .ok () ∧ ∀ p reference, ¬ s.Dangles admits c p reference) ∨
      ∃ p reference, s.Dangles admits c p reference ∧
        checkProjects t ws c = .error ⟨[c.display], .invalidProjectReference p.name reference⟩ := by
  have hdistinct : ((s.admitted admits c).map (·.name)).Nodup := hn.sublist (List.filter_sublist.map _)
  unfold checkProjects
  dsimp only
  rw [Project.names_eq h, firstRepeated_eq_none hdistinct (by simp), hw,
    ← danglingReference?_congr _ h]
  cases hr : danglingReference? ((s.admitted admits c).map (·.name)) (s.admitted admits c) with
  | none =>
    exact Or.inl ⟨rfl, fun p reference hd =>
      hd.missing (danglingReference?_eq_none hr hd.admitted hd.references)⟩
  | some found =>
    obtain ⟨p, hp, hname, hreference, hmissing⟩ := exists_of_danglingReference? hr
    refine Or.inr ⟨p, found.2, ⟨hp, hreference, hmissing⟩, ?_⟩
    rw [← hname]
    rfl

end Dangles

/-- Checks that do not all succeed end with the failure of one of them. -/
theorem exists_error_of_forM {α : Type} {f : α → Fallible Unit} : ∀ {as : List α} (s : Session),
    (∃ a ∈ as, f a ≠ .ok ()) → ∃ a ∈ as, ∃ e, f a = .error e ∧
      (as.forM fun a => Compile.ofFallible (f a)).runIn s = (.error e, s)
  | [], _, h => by
    obtain ⟨a, ha, -⟩ := h
    cases ha
  | a :: as, s, h => by
    have hcons : ((a :: as).forM fun a => Compile.ofFallible (f a)).runIn s =
        (Compile.ofFallible (f a) >>= fun _ => as.forM fun a => Compile.ofFallible (f a)).runIn s := rfl
    rw [hcons, Compile.runIn_bind, Compile.runIn_ofFallible]
    cases hf : f a with
    | error e => exact ⟨a, List.mem_cons_self, e, hf, rfl⟩
    | ok =>
      obtain ⟨a', ha', hne⟩ := h
      rcases List.mem_cons.mp ha' with rfl | ha'
      · exact absurd hf hne
      · obtain ⟨b, hb, e, he, hrun⟩ := exists_error_of_forM s ⟨a', ha', hne⟩
        exact ⟨b, List.mem_cons_of_mem _ hb, e, he, hrun⟩

/-- **Where the admitted projects alone are there, the checks fail if and only if one of them references
another project under some configuration.** -/
theorem runIn_checks_admitted {s t : Solution} {admits : Configuration → String → Bool}
    {ws : Dictionary Configuration Whitelist} {cs : List Configuration} (w : Session)
    (h : ∀ c ∈ cs, List.Forall₂ Project.Alike (s.admitted admits c) (t.projects c))
    (hn : ∀ c ∈ cs, ((s.projects c).map (·.name)).Nodup)
    (hw : ∀ c ∈ cs, (ws.get? c).any (·.isActive) = true) :
    (((do cs.forM fun c => Compile.ofFallible (checkProjects t ws c)
          return t : Compile Solution).runIn w).1 = .ok t ∧
        ∀ c ∈ cs, ∀ p reference, ¬ s.Dangles admits c p reference) ∨
      ∃ c ∈ cs, ∃ p reference, s.Dangles admits c p reference ∧
        ((do cs.forM fun c => Compile.ofFallible (checkProjects t ws c)
             return t : Compile Solution).runIn w).1 =
          .error ⟨[c.display], .invalidProjectReference p.name reference⟩ := by
  have hcases := fun c hc => checkProjects_admitted (h c hc) (hn c hc) (hw c hc)
  rw [Compile.runIn_bind]
  by_cases hfail : ∃ c ∈ cs, checkProjects t ws c ≠ .ok ()
  · obtain ⟨c, hc, e, he, hrun⟩ := exists_error_of_forM w hfail
    rcases hcases c hc with ⟨hok, -⟩ | ⟨p, reference, hd, herror⟩
    · cases hok.symm.trans he
    · cases herror.symm.trans he
      exact Or.inr ⟨c, hc, p, reference, hd, by rw [hrun]⟩
  · have hok : ∀ c ∈ cs, checkProjects t ws c = .ok () := fun c hc =>
      not_not.mp fun hne => hfail ⟨c, hc, hne⟩
    have hrun : (cs.forM fun c => Compile.ofFallible (checkProjects t ws c)).runIn w = (.ok (), w) :=
      runIn_forM_ofFallible_ok.mpr ⟨hok, rfl⟩
    refine Or.inl ⟨by rw [hrun]; rfl, fun c hc p reference hd => ?_⟩
    rcases hcases c hc with ⟨-, hnot⟩ | ⟨_, _, -, herror⟩
    · exact hnot p reference hd
    · cases herror.symm.trans (hok c hc)

/-! ### Solutions -/

/-- The second solution is the first one with the admitted projects alone, up to the spelling of source
paths. -/
structure AdmitsTo (admits : Configuration → String → Bool) (s t : Solution) : Prop where
  name : t.name = s.name
  configurations : t.configurations = s.configurations
  values : ∀ c ∈ s.configurations, ∀ n, n ≠ PropertyName.includeProjects →
    (t.settings.get? c).bind (·.value? n) = (s.settings.get? c).bind (·.value? n)
  templates : t.templates = s.templates
  projects : ∀ c ∈ s.configurations,
    List.Forall₂ Project.Alike (s.admitted admits c) (t.projects c)

theorem projects_alike {keep : Configuration → Bool} {admits : Configuration → String → Bool}
    {s t : Solution} (h : s.modules.Alike (Module.SelectsTo keep admits) t.modules)
    (hn : ∀ e ∈ s.modules.entries, ∀ e' ∈ e.2.variants.entries, Module.Named e'.2)
    {c : Configuration} (hc : keep c = true) :
    List.Forall₂ Project.Alike (s.admitted admits c) (t.projects c) := by
  have hn' : ∀ m ∈ s.modules.values, ∀ e ∈ m.variants.entries, Module.Named e.2 := by
    intro m hm
    obtain ⟨e, he, rfl⟩ := List.mem_map.mp hm
    exact hn e he
  have hall := (List.forall₂_and_left _ _).mpr ⟨hn', h.values⟩
  unfold admitted projects
  rw [List.filter_flatMap]
  exact List.rel_flatMap hall fun m m' ⟨hm, hs⟩ => hs.projects hm hc

variable {o : Options} {fs : FileSystem} {d : Document} {body : Object} {s : Solution} {vs : List Value}
  {patterns : Configuration → List CompiledPattern}

section Stages
variable {cs : List Configuration} {r r' : Configuration → Settings × Whitelist}

/-- Where the first whitelists are empty, the second ones admit what the patterns match. -/
theorem like_admitting (hcs : cs.Nodup)
    (hempty : ∀ c ∈ cs, (r c).1.items PropertyName.includeProjects = [])
    (hall : ∀ c ∈ cs,
      Whitelist.ofPatterns ((r c).1.patterns PropertyName.includeProjects) = .ok (r c).2 ∧
        WithPatterns (patterns c) (r c) (r' c)) :
    (contextOf o fs body (cs.map fun c => (c, r c))).Like (cs.contains ·) (admitsName patterns)
      (contextOf o fs (body.admitting vs) (cs.map fun c => (c, r' c))) := by
  refine ⟨rfl, rfl, fun c n hc => ?_⟩
  have hc : c ∈ cs := List.contains_iff_mem.mp hc
  obtain ⟨hw, hwith⟩ := hall c hc
  rw [Settings.patterns, hempty c hc] at hw
  unfold ModuleContext.allows
  rw [get?_whitelists hcs r hc, get?_whitelists hcs r' hc, Option.all_some, Option.all_some,
    Whitelist.allows_of_ofPatterns_nil hw, Bool.true_and]
  exact hwith.allows n

/-- The templates do not notice the patterns. -/
theorem runIn_resolveTemplates_admitting (vs : List Value) (hcs : cs.Nodup)
    {templates : Dictionary String Template} {u v u' : Session} (hu : u.Agree objectKeys u')
    (h : (resolveTemplates cs o.constants (bindingsIn o body) .empty (templatesIn body)).runIn u =
      (.ok templates, v)) :
    ∃ v', (resolveTemplates cs o.constants (bindingsIn o (body.admitting vs)) .empty
        (templatesIn (body.admitting vs))).runIn u' = (.ok templates, v') ∧
      v.Agree (keptKeys objectKeys (cs.contains ·)) v' ∧
      templates.Alike (fun m m' => m' = m.restrict (cs.contains ·)) templates := by
  have hkeep : cs.filter (cs.contains ·) = cs :=
    List.filter_eq_self.mpr fun c hc => List.contains_iff_mem.mpr hc
  have hself : ∀ e ∈ templates.entries, e.2.restrict (cs.contains ·) = e.2 := fun e he =>
    Template.restrict_eq_self fun e' he' => List.contains_iff_mem.mpr
      (resolvedFor_of_runIn (fun _ _ hn => by cases hn) h e.1 e.2 (Dictionary.get?_of_mem he) e' he')
  obtain ⟨templates', v', hrun, halike, hv⟩ := runIn_resolveTemplates_filter hcs
    (fun o ho => kind_ne_of_mem (Or.inl ho)) Dictionary.alike_empty h
    (hu.mono (L := keptKeys objectKeys (cs.contains ·)) fun k hk => hk.1)
  rw [hkeep] at hrun
  have hsame : List.Forall₂ Eq templates.entries templates'.entries :=
    ((List.forall₂_and_left _ _).mpr ⟨hself, halike⟩).imp fun _ _ ⟨hs, hk, hm⟩ =>
      Prod.ext hk (hm.trans hs).symm
  obtain rfl : templates = templates' :=
    Dictionary.ext_entries (List.forall₂_eq_eq_eq ▸ hsame)
  exact ⟨v', by rw [templatesIn_admitting]; exact hrun, hv, halike⟩

theorem configurations_of_runIn_resolveBody {y z : Session}
    (h : (resolveBody o fs body cs).runIn y = (.ok s, z)) : s.configurations = cs := by
  obtain ⟨_, _, _, _, _, -, -, -, -, rfl, -⟩ := runIn_resolveBody_ok.mp h
  rfl

/-- Behind the stages there are the checks. -/
theorem runIn_resolveBody_checks {resolved : List (Configuration × Settings × Whitelist)}
    {templates : Dictionary String Template} {modules : Dictionary String Module}
    {s u v w : Session} (hr : (compileSettings o body cs).runIn s = (.ok resolved, u))
    (hk : checkKinds body (Element.objects body.body) = .ok ())
    (ht : (resolveTemplates cs o.constants (bindingsIn o body) .empty (templatesIn body)).runIn u =
      (.ok templates, v))
    (hm : (resolveModules (contextOf o fs body resolved) templates .empty (modulesIn body)).runIn v =
      (.ok modules, w)) :
    (resolveBody o fs body cs).runIn s = (do
      cs.forM fun c => Compile.ofFallible (checkProjects
        (assemble body cs resolved templates modules) (contextOf o fs body resolved).whitelists c)
      return assemble body cs resolved templates modules : Compile Solution).runIn w := by
  unfold resolveBody
  simp only [Compile.runIn_bind, hr, Compile.runIn_ofFallible, hk, ht, hm]

/-- **Stage by stage, a body is resolved with the patterns to the admitted projects**, which are then
checked. -/
theorem runIn_resolveBody_admitting (hcs : cs.Nodup) (hkind : body.kind = solutionKind) {z : Session}
    (h : (resolveBody o fs body cs).runIn .initial = (.ok s, z)) (hempty : s.AdmitsAll) (hvs : vs ≠ [])
    (hms : ∀ c ∈ cs, vs.mapM (Value.matcher (c.bind (bindingsIn o body))) = .ok (patterns c))
    (hfinds : ∀ m ∈ s.modules.values, ∀ p ∈ m.firstAdmitted cs (admitsName patterns),
      (o.matcher fs).FindsAlike (Path.join (o.searchRoot.getD ".") p.identity.sourcePath)
        (Path.join (o.searchRoot.getD ".") p.declaredPath)) :
    ∃ t ws w, s.AdmitsTo (admitsName patterns) t ∧
      (∀ c ∈ cs, (ws.get? c).any Whitelist.isActive = true) ∧
      (resolveBody o fs (body.admitting vs) cs).runIn .initial =
        (do cs.forM fun c => Compile.ofFallible (checkProjects t ws c)
            return t : Compile Solution).runIn w := by
  obtain ⟨resolved, templates, modules, u, v, hr, hk, ht, hm, rfl, -⟩ := runIn_resolveBody_ok.mp h
  obtain ⟨r, r', u', rfl, hr', hall⟩ := runIn_compileSettings_admitting hcs hvs hr hms
  have hitems : ∀ c ∈ cs, (r c).1.items PropertyName.includeProjects = [] := fun c hc =>
    hempty _ (List.mem_map.mpr
      ⟨_, Dictionary.mem_of_get? (get?_settings hcs r templates modules hc), rfl⟩)
  have hkind' : (body.admitting vs).kind = solutionKind := hkind
  obtain ⟨v', ht', hv, halike⟩ := runIn_resolveTemplates_admitting vs hcs
    ((agree_of_runIn_compileSettings hkind hr).symm.trans
      (agree_of_runIn_compileSettings hkind' hr')) ht
  have hlike : (contextOf o fs body (cs.map fun c => (c, r c))).Like (cs.contains ·)
      (admitsName patterns) (contextOf o fs (body.admitting vs) (cs.map fun c => (c, r' c))) :=
    like_admitting hcs hitems hall
  obtain ⟨modules', w, hm', hselects, -⟩ := resolveModules_transfer hlike halike
    (fun o ho => kind_ne_of_mem (Or.inr ho)) Dictionary.alike_empty hm hv hfinds
  have hnamed := forall_of_runIn_resolveModules
    (P := fun _ m => ∀ e ∈ m.variants.entries, Module.Named e.2) Module.named_of_runIn_resolve
    (by simp [Dictionary.empty]) hm
  refine ⟨assemble (body.admitting vs) cs (cs.map fun c => (c, r' c)) templates modules', _, w,
    ⟨rfl, rfl, fun c hc n hn => ?_, rfl, fun c hc => ?_⟩, fun c hc => ?_, runIn_resolveBody_checks
      hr' (body.objects_admitting vs ▸ hk) ht' (modulesIn_admitting body vs ▸ hm')⟩
  · rw [get?_settings hcs r templates modules hc, get?_settings hcs r' templates modules' hc]
    exact (hall c hc).2.values n hn
  · exact projects_alike hselects hnamed (List.contains_iff_mem.mpr hc)
  · rw [get?_whitelists hcs r' hc, Option.any_some]
    exact (hall c hc).2.active

end Stages

theorem fits_of_mem_firstAdmitted (h : ResolvesTo o fs d s) {cs : List Configuration}
    {admits : Configuration → String → Bool} {m : Module} (hm : m ∈ s.modules.values) {p : Project}
    (hp : p ∈ m.firstAdmitted cs admits) : p.Fits := by
  obtain ⟨e, he, rfl⟩ := List.mem_map.mp hm
  obtain ⟨c, hc⟩ := Module.mem_of_mem_firstAdmitted hp
  obtain ⟨known, hknown⟩ := ((resolved_modules h).1 e he).1
  exact (hknown c p hc).fits

/-- **Patterns of names only filter, but for the spelling of source paths**: where a document is resolved
and leaves them empty, it is resolved with patterns that are set behind everything else to what it gives
without them, with the projects alone whose names one of the patterns matches, unless one of these
references a name that none of them has, and fails for this reason otherwise. A project takes the spelling
of its source path from the first configuration under which it is there. Under this spelling there must be
found what is found under the one that was taken without the patterns. For files that are selected by a
walk this is so if the folder can be read under both (`Project.Fits.findsAlike`). -/
theorem resolve_admitting (h : ResolvesTo o fs d s) (hb : bodyOf d = .ok body) (hempty : s.AdmitsAll)
    (hvs : vs ≠ [])
    (hms : ∀ c ∈ s.configurations,
      vs.mapM (Value.matcher (c.bind (bindingsIn o body))) = .ok (patterns c))
    (hfinds : ∀ m ∈ s.modules.values, ∀ p ∈ m.firstAdmitted s.configurations (admitsName patterns),
      (o.matcher fs).FindsAlike (Path.join (o.searchRoot.getD ".") p.identity.sourcePath)
        (Path.join (o.searchRoot.getD ".") p.declaredPath)) :
    ((∃ t, ResolvesTo o fs (d.admitting vs) t ∧ s.AdmitsTo (admitsName patterns) t) ∧
        ∀ c ∈ s.configurations, ∀ p reference, ¬ s.Dangles (admitsName patterns) c p reference) ∨
      ∃ c ∈ s.configurations, ∃ p reference, s.Dangles (admitsName patterns) c p reference ∧
        ((resolve o fs (d.admitting vs)).runIn .initial).1 =
          .error ⟨[c.display], .invalidProjectReference p.name reference⟩ := by
  obtain ⟨body', cs, hb', hcs, hrun⟩ := runIn_resolve_ok.mp (Prod.ext h rfl)
  cases hb.symm.trans hb'
  obtain rfl := configurations_of_runIn_resolveBody hrun
  obtain ⟨t, ws, w, hst, hactive, hrun'⟩ := runIn_resolveBody_admitting
    (nodup_of_declaredConfigurations hcs) (heading_of_bodyOf hb).1 hrun hempty hvs hms hfinds
  rw [← resolve_admitting_eq hb hcs] at hrun'
  rcases runIn_checks_admitted w hst.projects (resolved_modules h).2 hactive with
    ⟨hok, hnot⟩ | ⟨c, hc, p, reference, hd, herror⟩
  · exact Or.inl ⟨⟨t, (congrArg Prod.fst hrun').trans hok, hst⟩, hnot⟩
  · exact Or.inr ⟨c, hc, p, reference, hd, (congrArg Prod.fst hrun').trans herror⟩

/-! ### Names that are admitted -/

/-- A module with two projects, of which the second one references the first. -/
def twoProjects : Document :=
  ⟨[.group ⟨"g", [("Debug", .empty)]⟩,
    .object ⟨templateKind, "T", none⟩
      [.assignment ⟨.add, ["projects"],
          .array [.pair "P" (.literal "S"), .pair "Q" (.literal "R")], always⟩,
        .object ⟨settingsKind, "S", none⟩ [],
        .object ⟨settingsKind, "R", none⟩
          [.assignment ⟨.add, ["project", "refs"], .literal "P", always⟩]],
    .object ⟨moduleKind, "Core", some "T"⟩ []]⟩

/-- The patterns that match one name. -/
def oneName (name : List Char) (_ : Configuration) : List CompiledPattern :=
  [⟨.literal name, false⟩]

/-- The first project can be there alone. -/
theorem resolve_admitting_twoProjects : ∃ s t, ResolvesTo (.ofEnvironment []) default twoProjects s ∧
    ResolvesTo (.ofEnvironment []) default (twoProjects.admitting [.literal "P"]) t ∧
    s.AdmitsTo (admitsName (oneName ['P'])) t := by
  obtain ⟨s, hs, hempty, hread, hrefs⟩ := exists_resolvesTo_with (.ofEnvironment []) default twoProjects
    (fun s => s.AdmitsAll ∧
      (∀ m ∈ s.modules.values, ∀ p ∈ m.firstAdmitted s.configurations (admitsName (oneName ['P'])),
        FileSystem.ReadsAlike default (Path.join "." p.identity.sourcePath)
          (Path.join "." p.declaredPath)) ∧
      ∀ c ∈ s.configurations, ∀ p ∈ s.admitted (admitsName (oneName ['P'])) c, p.projectRefs = [])
    (by decide +kernel)
  have hmatcher : ∀ b : Bindings, Value.matcher b (.literal "P") = .ok ⟨.literal ['P'], false⟩ :=
    fun b => by cbv
  rcases resolve_admitting hs rfl hempty (List.cons_ne_nil _ [])
    (fun _ _ => Fallible.mapM_ok_forall₂.mpr (.cons (hmatcher _) .nil))
    (fun m hm p hp => (fits_of_mem_firstAdmitted hs hm hp).findsAlike (hread m hm p hp)) with
    ⟨⟨t, ht, hst⟩, -⟩ | ⟨c, hc, p, reference, hd, -⟩
  · exact ⟨s, t, hs, ht, hst⟩
  · have hreference := hd.references
    rw [hrefs c hc p hd.admitted] at hreference
    cases hreference

theorem AdmitsTo.mem_includeFiles {admits : Configuration → String → Bool} {s t : Solution}
    (h : s.AdmitsTo admits t) {c : Configuration} (hc : c ∈ s.configurations) {q : Project}
    (hq : q ∈ t.projects c) : ∃ p ∈ s.projects c, q.includeFiles = p.includeFiles := by
  have hall : ∀ {ps qs : List Project}, List.Forall₂ Project.Alike ps qs → q ∈ qs →
      ∃ p ∈ ps, q.includeFiles = p.includeFiles := by
    intro ps qs hpq hq
    induction hpq with
    | nil => cases hq
    | cons hpq _ ih =>
      rcases List.mem_cons.mp hq with rfl | hq
      · exact ⟨_, List.mem_cons_self, by rw [hpq.rest]⟩
      · obtain ⟨p, hp, he⟩ := ih hq
        exact ⟨p, List.mem_cons_of_mem _ hp, he⟩
  obtain ⟨p, hp, he⟩ := hall (h.projects c hc) hq
  exact ⟨p, List.mem_of_mem_filter hp, he⟩

/-- Names up to a letter that depends on the configuration. -/
def upToConfiguration : Value := .glob "[A-$(CONFIGURATION)]" false

/-- The file is found for both configurations, by the source path as the first one of them spells it. It
is not found where the project is admitted under the second one alone, since the path is too long as this
one spells it. -/
theorem admitted_spelling_lost : ∃ body s t, bodyOf (twoSpellings "Core" dotted) = .ok body ∧
    ResolvesTo (behindDots 2034) oneFile (twoSpellings "Core" dotted) s ∧ s.AdmitsAll ∧
    (∀ c ∈ s.configurations, ∃ ms, [upToConfiguration].mapM
      (Value.matcher (c.bind (bindingsIn (behindDots 2034) body))) = .ok ms) ∧
    ResolvesTo (behindDots 2034) oneFile
      ((twoSpellings "Core" dotted).admitting [upToConfiguration]) t ∧
    includedFiles s = [[["a.txt"]], [["a.txt"]]] ∧ includedFiles t = [[], [[]]] ∧
    ∀ admits, ¬ s.AdmitsTo admits t := by
  let body : Object :=
    ⟨⟨solutionKind, defaultName, none⟩, (twoSpellings "Core" dotted).elements.filter (!isWrapper ·)⟩
  obtain ⟨s₀, s, hs₀, hs, hns, hfiles⟩ := exists_behindDots (n := 2034) (by omega)
  obtain ⟨s₁, hs₁, hempty, hmatchers⟩ := exists_resolvesTo_with (.ofEnvironment []) oneFile
    (twoSpellings "Core" dotted) (fun s => s.AdmitsAll ∧ ∀ c ∈ s.configurations,
      ([upToConfiguration].mapM (Value.matcher (c.bind (bindingsIn (.ofEnvironment []) body))) :
        Fallible _).toOption.isSome = true)
    (by decide +kernel)
  cases hs₀.symm.trans hs₁
  obtain ⟨t₀, ht₀, hlost, hfirst⟩ := exists_resolvesTo_with (.ofEnvironment []) .empty
    ((twoSpellings "Core" dotted).admitting [upToConfiguration]) (fun t =>
      includedFiles t = [[], [[]]] ∧ ∀ m ∈ t.modules.values, ∀ p ∈ m.firstProjects fun _ => true,
        FileSystem.empty.isFolder (Path.join "." p.identity.sourcePath) = false ∧ p.declaredPath = dotted)
    (by decide +kernel)
  obtain ⟨t, ht, hnt⟩ := exists_narrowsTo_behindDots (n := 2034) [] (by omega) ht₀
    (fun _ hc => by rwa [List.filter_true]) hfirst
  have hfiles' : includedFiles t = [[], [[]]] := by
    rw [hnt.includedFiles_eq, List.filter_true, ← hlost]
    rfl
  refine ⟨body, s, t, rfl, hs, ?_, fun c hc => ?_, ht, hfiles, hfiles', fun admits h => ?_⟩
  · unfold AdmitsAll
    rwa [hns.settings, Dictionary.restrict_true]
  · rw [hns.configurations, List.filter_true] at hc
    have hsome := hmatchers c hc
    cases hms : [upToConfiguration].mapM
      (Value.matcher (c.bind (bindingsIn (.ofEnvironment []) body))) with
    | ok ms => exact ⟨ms, hms⟩
    | error e =>
      rw [hms] at hsome
      cases hsome
  · -- A project without files would be one of the first solution.
    have hmem : [[]] ∈ includedFiles t := by
      rw [hfiles']
      decide
    obtain ⟨c, hc, he⟩ := List.mem_map.mp hmem
    obtain ⟨q, hq, hnone⟩ := List.mem_map.mp (he ▸ List.mem_singleton.mpr rfl)
    have hcs : c ∈ s.configurations := h.configurations ▸ hc
    obtain ⟨p, hp, hsame⟩ := h.mem_includeFiles hcs hq
    have hmem : (s.projects c).map (·.includeFiles) ∈ includedFiles s := List.mem_map_of_mem hcs
    have hp : p.includeFiles ∈ (s.projects c).map (·.includeFiles) := List.mem_map_of_mem hp
    have hall : (s.projects c).map (·.includeFiles) = [["a.txt"]] := by simpa [hfiles] using hmem
    rw [hall, ← hsame, hnone] at hp
    simp at hp

end Solution

end BuildPlan
