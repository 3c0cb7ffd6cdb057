import BuildPlan.Proofs.Solution.Blocks
import BuildPlan.Proofs.Solution.Keys

/-! # The cache in a resolution

No two jobs in the resolution of a document that was read have one key, so nothing is ever answered
from the cache, and the resolution gives what it would if every job were compiled anew. Then a template
is resolved by its object alone, and a module by its object and its template: in another document, with
the templates in another order and with other modules in any order, they are resolved to the same
(`resolve_unkept`). -/

namespace BuildPlan

/-! ### Jobs that are answered alike -/

/-- Holds of the elements that are objects. -/
def Element.isObject : Element → Bool
  | .object _ _ => true
  | _ => false

/-- The walk passes over objects. -/
theorem walkAll_filter {r : Registry} {defined : NameSet} : ∀ (es : List Element) (bag : Bag),
    walkAll r defined bag es = walkAll r defined bag (es.filter (!·.isObject))
  | [], _ => rfl
  | e :: es, bag => by
    have hcons : ∀ e : Element, walkAll r defined bag (e :: es) =
        walkAll r defined bag (e :: es.filter (!·.isObject)) := fun e => by
      rw [walkAll_cons, walkAll_cons]
      refine bind_congr fun a => ?_
      obtain ⟨bag, flow⟩ := a
      cases flow with
      | stop => rfl
      | goOn => exact walkAll_filter es bag
    cases e with
    | object heading body =>
      rw [hcons, walkAll_cons, List.filter_cons_of_neg (by simp [Element.isObject]), Element.walk]
      exact Logged.succeed_andThen _ _
    | comment | group | assignment | invocation | block => exact hcons _

theorem groups_filter (es : List Element) :
    Element.groups es = Element.groups (es.filter (!·.isObject)) := by
  induction es with
  | nil => rfl
  | cons e es ih =>
    cases e with
    | group g => exact congrArg (g :: ·) ih
    | comment | object | assignment | invocation | block => exact ih

theorem Job.answerAnew_congr {o o' : Object} (hh : o.heading = o'.heading) (external : NameSet)
    {c : Configuration} {r : Registry}
    (hw : ∀ bag, walkAll r (external.union c.constants) bag o.body =
      walkAll r (external.union c.constants) bag o'.body)
    (scope : String) (base : Option Settings) (b : Bindings) :
    Job.answerAnew ⟨o, scope, r, some c, base, b⟩ external =
      Job.answerAnew ⟨o', scope, r, some c, base, b⟩ external := by
  have hrun := Job.run_congr hh hw scope base b
  obtain ⟨heading, body⟩ := o
  obtain ⟨heading', body'⟩ := o'
  obtain rfl : heading = heading' := hh
  unfold answerAnew
  rw [hrun]
  rfl

namespace Compile

variable {α β : Type}

theorem result_fresh_bind_ok {m : Compile α} {f : α → Compile β} {b : β} :
    (m >>= f).fresh.result = .ok b ↔
      ∃ a, m.fresh.result = .ok a ∧ (f a).fresh.result = .ok b := by
  rw [fresh_bind, Logged.result_bind_ok]

theorem fresh_compile (j : Job) (external : NameSet) :
    (j.compile external).fresh = j.answerAnew external := by
  show (⟨(j.answerAnew external).warnings ++ [], (j.answerAnew external).result⟩ : Logged Settings) =
    _
  rw [List.append_nil]

theorem result_fresh_mapM (f : α → Compile β) : ∀ as : List α,
    (as.mapM f).fresh.result = as.mapM fun a => (f a).fresh.result
  | [] => rfl
  | a :: as => by
    simp only [List.mapM_cons, fresh_bind, Logged.result_bind, result_fresh_mapM f as]
    rfl

theorem fresh_mapM_congr {f g : α → Compile β} : ∀ {as : List α},
    (∀ a ∈ as, (f a).fresh = (g a).fresh) → (as.mapM f).fresh = (as.mapM g).fresh
  | [], _ => rfl
  | a :: as, h => by
    have htail : (as.mapM f).fresh = (as.mapM g).fresh :=
      fresh_mapM_congr fun b hb => h b (List.mem_cons_of_mem _ hb)
    simp only [List.mapM_cons, fresh_bind, h a List.mem_cons_self, htail]

end Compile

namespace Solution

/-! ### Templates and modules one by one -/

/-- Each template is resolved on its own. -/
theorem fresh_resolveTemplates_ok {cs : List Configuration} {external : NameSet} {b : Bindings} :
    ∀ {os : List Object} {templates out : Dictionary String Template},
      (resolveTemplates cs external b templates os).fresh.result = .ok out →
        (∀ n t, templates.get? n = some t → out.get? n = some t) ∧
          (∀ o ∈ os, ∃ t, (Template.resolve o cs external b).fresh.result = .ok t ∧
            out.get? o.name = some t) ∧
          ∀ n t, out.get? n = some t → templates.get? n = some t ∨ ∃ o ∈ os, o.name = n
  | [], _, _, h => by
    cases h
    exact ⟨fun _ _ h => h, by simp, fun _ _ h => Or.inl h⟩
  | o :: os, templates, out, h => by
    rw [resolveTemplates] at h
    split at h
    · cases h
    · next hc =>
      obtain ⟨t, ht, h⟩ := Compile.result_fresh_bind_ok.mp h
      obtain ⟨hkeep, hall, honly⟩ := fresh_resolveTemplates_ok h
      refine ⟨fun n t' hn => hkeep n t' ?_, ?_, fun n t' hn => ?_⟩
      · rw [Dictionary.get?_insert, if_neg, hn]
        rintro rfl
        exact hc (by rw [Dictionary.contains, hn]; rfl)
      · refine List.forall_mem_cons.mpr ⟨⟨t, ht, hkeep _ _ ?_⟩, hall⟩
        rw [Dictionary.get?_insert, if_pos rfl]
      · rcases honly n t' hn with hn | ⟨p, hp, he⟩
        · rw [Dictionary.get?_insert] at hn
          split at hn
          · next he => exact Or.inr ⟨o, List.mem_cons_self, he⟩
          · exact Or.inl hn
        · exact Or.inr ⟨p, List.mem_cons_of_mem _ hp, he⟩

/-- Each module is resolved on its own, with its template. -/
theorem fresh_resolveModules_ok {ctx : ModuleContext} {templates : Dictionary String Template} :
    ∀ {os : List Object} {modules out : Dictionary String Module},
      (resolveModules ctx templates modules os).fresh.result = .ok out →
        (∀ n m, modules.get? n = some m → out.get? n = some m) ∧
          ∀ o ∈ os, ∃ name t m, o.base = some name ∧ templates.get? name = some t ∧
            (Module.resolve ctx o t).fresh.result = .ok m ∧ out.get? o.name = some m
  | [], _, _, h => by
    cases h
    exact ⟨fun _ _ h => h, by simp⟩
  | o :: os, modules, out, h => by
    rw [resolveModules] at h
    split at h
    · cases h
    · next hc =>
      split at h
      · cases h
      · next name hb =>
        split at h
        · cases h
        · next t ht =>
          obtain ⟨m, hm, h⟩ := Compile.result_fresh_bind_ok.mp h
          obtain ⟨hkeep, hall⟩ := fresh_resolveModules_ok h
          refine ⟨fun n m' hn => hkeep n m' ?_, ?_⟩
          · rw [Dictionary.get?_insert, if_neg, hn]
            rintro rfl
            exact hc (by rw [Dictionary.contains, hn]; rfl)
          · refine List.forall_mem_cons.mpr ⟨⟨name, t, m, hb, ht, hm, hkeep _ _ ?_⟩, hall⟩
            rw [Dictionary.get?_insert, if_pos rfl]

/-- What a solution is made of, if every job is compiled anew. -/
theorem fresh_resolveBody_ok {o : Options} {fs : FileSystem} {body : Object} {cs : List Configuration}
    {s : Solution} (h : (resolveBody o fs body cs).fresh.result = .ok s) :
    ∃ resolved, (compileSettings o body cs).fresh.result = .ok resolved ∧
      (resolveTemplates cs o.constants (bindingsIn o body) .empty (templatesIn body)).fresh.result =
        .ok s.templates ∧
      (resolveModules (contextOf o fs body resolved) s.templates .empty
        (modulesIn body)).fresh.result = .ok s.modules ∧
      s = assemble body cs resolved s.templates s.modules := by
  unfold resolveBody at h
  obtain ⟨resolved, hr, h⟩ := Compile.result_fresh_bind_ok.mp h
  obtain ⟨_, -, h⟩ := Compile.result_fresh_bind_ok.mp h
  obtain ⟨templates, ht, h⟩ := Compile.result_fresh_bind_ok.mp h
  obtain ⟨modules, hm, h⟩ := Compile.result_fresh_bind_ok.mp h
  obtain ⟨_, -, h⟩ := Compile.result_fresh_bind_ok.mp h
  cases h
  exact ⟨resolved, hr, ht, hm, rfl⟩

/-- What is found among resolved modules was resolved, with one of the templates. -/
theorem exists_fresh_of_resolveModules {ctx : ModuleContext}
    {templates : Dictionary String Template} : ∀ {os : List Object}
      {modules out : Dictionary String Module},
      (resolveModules ctx templates modules os).fresh.result = .ok out →
        ∀ m ∈ out.values, m ∈ modules.values ∨ ∃ o ∈ os, ∃ name t, o.base = some name ∧
          templates.get? name = some t ∧ (Module.resolve ctx o t).fresh.result = .ok m
  | [], _, _, h => by
    cases h
    exact fun _ hm => Or.inl hm
  | o :: os, modules, out, h => by
    rw [resolveModules] at h
    split at h
    · cases h
    · split at h
      · cases h
      · next name hb =>
        split at h
        · cases h
        · next t ht =>
          obtain ⟨m, hm, h⟩ := Compile.result_fresh_bind_ok.mp h
          intro m' hm'
          rcases exists_fresh_of_resolveModules h m' hm' with hold | ⟨o', ho', hres⟩
          · rcases Dictionary.mem_values_insert hold with rfl | hold
            · exact Or.inr ⟨o, List.mem_cons_self, name, t, hb, ht, hm⟩
            · exact Or.inl hold
          · exact Or.inr ⟨o', List.mem_cons_of_mem _ ho', hres⟩

/-- What a solution is made of, and how each of its modules was resolved with its template, if every job is
compiled anew. -/
theorem resolved_of_fresh_resolve {o : Options} {fs : FileSystem} {d : Document} {s : Solution}
    (h : (resolve o fs d).fresh.result = .ok s) :
    ∃ body cs resolved, bodyOf d = .ok body ∧ declaredConfigurations body o.groups = .ok cs ∧
      (compileSettings o body cs).fresh.result = .ok resolved ∧
      s = assemble body cs resolved s.templates s.modules ∧
      ∀ m ∈ s.modules.values, ∃ object ∈ modulesIn body, ∃ origin ∈ templatesIn body, ∃ template,
        object.base = some origin.name ∧ s.templates.get? origin.name = some template ∧
        (Template.resolve origin cs o.constants (bindingsIn o body)).fresh.result = .ok template ∧
        (Module.resolve (contextOf o fs body resolved) object template).fresh.result = .ok m := by
  rw [resolve_eq] at h
  obtain ⟨body, hb, h⟩ := Compile.result_fresh_bind_ok.mp h
  obtain ⟨cs, hcs, h⟩ := Compile.result_fresh_bind_ok.mp h
  obtain ⟨resolved, hresolved, htemplates, hmodules, he⟩ := fresh_resolveBody_ok h
  refine ⟨body, cs, resolved, hb, hcs, hresolved, he, fun m hm => ?_⟩
  obtain ⟨object, ho, n, template, hbase, htemplate, hres⟩ :=
    (exists_fresh_of_resolveModules hmodules m hm).resolve_left List.not_mem_nil
  obtain ⟨-, hall, honly⟩ := fresh_resolveTemplates_ok htemplates
  obtain ⟨origin, horigin, rfl⟩ := (honly n template htemplate).resolve_left (by simp)
  obtain ⟨template', hfresh, hget⟩ := hall origin horigin
  cases htemplate.symm.trans hget
  exact ⟨object, ho, origin, horigin, template, hbase, htemplate, hfresh, hres⟩

/-! ### Bodies that are rearranged -/

/-- The bodies differ in where their objects stand, in the order of the templates, and in the
modules. -/
structure Rearranged (body body' : Object) : Prop where
  heading : body.heading = body'.heading
  rest : body.body.filter (!·.isObject) = body'.body.filter (!·.isObject)
  templates : (templatesIn body).Perm (templatesIn body')

section Rearranged
variable {o : Options} {fs : FileSystem} {body body' : Object} (h : Rearranged body body')
include h

theorem Rearranged.declaredConfigurations_eq (wanted : List String) :
    declaredConfigurations body wanted = declaredConfigurations body' wanted := by
  unfold declaredConfigurations
  rw [groups_filter body.body, groups_filter body'.body, h.rest]

theorem Rearranged.bindingsIn_eq : bindingsIn o body = bindingsIn o body' := by
  unfold bindingsIn Object.name
  rw [h.heading]

theorem Rearranged.fresh_compileSettings (cs : List Configuration) :
    (compileSettings o body cs).fresh = (compileSettings o body' cs).fresh := by
  unfold compileSettings
  rw [h.bindingsIn_eq]
  refine Compile.fresh_mapM_congr fun c _ => ?_
  unfold resolveSettings
  have hanswer := Job.answerAnew_congr (r := .solution) h.heading o.constants (c := c)
    (fun bag => by rw [walkAll_filter body.body, walkAll_filter body'.body, h.rest]) solutionKind none
  simp only [Compile.fresh_bind, Compile.fresh_compile, hanswer, h.heading]

/-- **Templates, and modules that both bodies declare, are resolved to the same.** -/
theorem Rearranged.resolved_eq {cs : List Configuration} {s s' : Solution}
    (hs : (resolveBody o fs body cs).fresh.result = .ok s)
    (hs' : (resolveBody o fs body' cs).fresh.result = .ok s') :
    s.configurations = s'.configurations ∧ s.settings = s'.settings ∧
      (∀ n, s.templates.get? n = s'.templates.get? n) ∧
      ∀ m ∈ modulesIn body, m ∈ modulesIn body' →
        ∃ v, s.modules.get? m.name = some v ∧ s'.modules.get? m.name = some v := by
  obtain ⟨resolved, hr, ht, hm, he⟩ := fresh_resolveBody_ok hs
  obtain ⟨resolved', hr', ht', hm', he'⟩ := fresh_resolveBody_ok hs'
  obtain rfl : resolved = resolved' := by
    rw [h.fresh_compileSettings, hr'] at hr
    exact (Except.ok.inj hr).symm
  obtain ⟨-, hall, honly⟩ := fresh_resolveTemplates_ok ht
  obtain ⟨-, hall', honly'⟩ := fresh_resolveTemplates_ok ht'
  have htemplate : ∀ p ∈ templatesIn body, s.templates.get? p.name = s'.templates.get? p.name := by
    intro p hp
    obtain ⟨t, hpt, hget⟩ := hall p hp
    obtain ⟨t', hpt', hget'⟩ := hall' p (h.templates.mem_iff.mp hp)
    rw [h.bindingsIn_eq, hpt'] at hpt
    rw [hget, hget', Except.ok.inj hpt]
  have htemplates : ∀ n, s.templates.get? n = s'.templates.get? n := by
    intro n
    cases hn : s.templates.get? n with
    | some t =>
      obtain ⟨p, hp, rfl⟩ := (honly n t hn).resolve_left (by simp)
      rw [← htemplate p hp, hn]
    | none =>
      cases hn' : s'.templates.get? n with
      | none => rfl
      | some t =>
        obtain ⟨p, hp, rfl⟩ := (honly' n t hn').resolve_left (by simp)
        rw [htemplate p (h.templates.mem_iff.mpr hp), hn'] at hn
        cases hn
  refine ⟨by rw [he, he']; rfl, by rw [he, he']; rfl, htemplates, fun m hmem hmem' => ?_⟩
  obtain ⟨name, t, v, hb, hget, hv, hmv⟩ := (fresh_resolveModules_ok hm).2 m hmem
  obtain ⟨name', t', v', hb', hget', hv', hmv'⟩ := (fresh_resolveModules_ok hm').2 m hmem'
  obtain rfl : name = name' := Option.some.inj (hb.symm.trans hb')
  rw [← htemplates name, hget] at hget'
  obtain rfl := Option.some.inj hget'
  have hctx : contextOf o fs body resolved = contextOf o fs body' resolved := by
    unfold contextOf
    rw [h.bindingsIn_eq]
  rw [hctx, hv'] at hv
  exact ⟨v, hmv, by rw [hmv', Except.ok.inj hv]⟩

end Rearranged

/-! ### Resolutions with and without the cache -/

theorem fresh_of_resolvesTo {source : String} {d : Document} (hd : Document.parse source = .ok d)
    {o : Options} {fs : FileSystem} {s : Solution} (h : ResolvesTo o fs d s) :
    (resolve o fs d).fresh.result = .ok s := by
  rw [← ((asksOnce_resolve hd o fs).runIn_eq_fresh (s := .initial) fun _ _ => rfl).1]
  exact h

/-- **What is kept does not show in the resolution of a document that was read**: the keys that come
to the cache are distinct, and the result and the warnings are those of a resolution that compiles
every job anew. And in two such documents whose bodies differ in the order of the templates and in the
modules only, the templates, and the modules that both declare, are resolved to the same. -/
theorem resolve_unkept {source : String} {d : Document} (hd : Document.parse source = .ok d)
    (o : Options) (fs : FileSystem) :
    ((resolve o fs d).keysIn .initial).Nodup ∧
      ((resolve o fs d).runIn .initial).1 = (resolve o fs d).fresh.result ∧
      ((resolve o fs d).runIn .initial).2.warnings = (resolve o fs d).fresh.warnings ∧
      ∀ {source' d' body body' s s'}, Document.parse source' = .ok d' → bodyOf d = .ok body →
        bodyOf d' = .ok body' → Rearranged body body' → ResolvesTo o fs d s →
        ResolvesTo o fs d' s' →
          s.configurations = s'.configurations ∧ s.settings = s'.settings ∧
            (∀ n, s.templates.get? n = s'.templates.get? n) ∧
            ∀ m ∈ modulesIn body, m ∈ modulesIn body' →
              ∃ v, s.modules.get? m.name = some v ∧ s'.modules.get? m.name = some v := by
  obtain ⟨hresult, hwarnings, hkeys, -⟩ :=
    (asksOnce_resolve hd o fs).runIn_eq_fresh (s := .initial) fun _ _ => rfl
  refine ⟨hkeys, hresult, hwarnings, fun hd' hb hb' hr hs hs' => ?_⟩
  have hs := fresh_of_resolvesTo hd hs
  have hs' := fresh_of_resolvesTo hd' hs'
  rw [resolve_eq, hb, Compile.ofFallible_ok_bind] at hs
  rw [resolve_eq, hb', Compile.ofFallible_ok_bind, ← hr.declaredConfigurations_eq] at hs'
  obtain ⟨cs, hcs, hs⟩ := Compile.result_fresh_bind_ok.mp hs
  rw [show declaredConfigurations _ o.groups = .ok cs from hcs, Compile.ofFallible_ok_bind] at hs'
  exact hr.resolved_eq hs hs'

/-- A template with one project. -/
def oneProject : Element :=
  .object ⟨templateKind, "T", none⟩
    [.assignment ⟨.add, ["projects"], .pair "P" (.literal "S"), always⟩,
      .object ⟨settingsKind, "S", none⟩ []]

/-- A template that is left out. -/
def leftOut : Element :=
  .object ⟨templateKind, "U", none⟩ [.invocation ⟨"exclude", none, always⟩]

/-- A document with both templates, and a module for the first. -/
def inOrder : String :=
  "configuration g [ a: ]\ntemplate T \x7b add projects: P: S\n settings S \x7b \x7d \x7d\n" ++
    "template U \x7b exclude \x7d\nmodule A : T \x7b \x7d\n"

/-- The same with the templates the other way round, and with another module. -/
def outOfOrder : String :=
  "module B : U \x7b \x7d\nmodule A : T \x7b \x7d\nconfiguration g [ a: ]\ntemplate U \x7b exclude \x7d\n" ++
    "template T \x7b add projects: P: S\n settings S \x7b \x7d \x7d\n"

theorem parse_inOrder : Document.parse inOrder =
    .ok ⟨[.group ⟨"g", [("a", .empty)]⟩, oneProject, leftOut,
      .object ⟨moduleKind, "A", some "T"⟩ []]⟩ := by
  decide +kernel

theorem parse_outOfOrder : Document.parse outOfOrder =
    .ok ⟨[.object ⟨moduleKind, "B", some "U"⟩ [], .object ⟨moduleKind, "A", some "T"⟩ [],
      .group ⟨"g", [("a", .empty)]⟩, leftOut, oneProject]⟩ := by
  decide +kernel

/-- The template that is used and the module that both documents declare are the same in both. -/
theorem resolve_unkept_inOrder : ∃ d d' s s' v, Document.parse inOrder = .ok d ∧
    Document.parse outOfOrder = .ok d' ∧ ResolvesTo (.ofEnvironment []) default d s ∧
    ResolvesTo (.ofEnvironment []) default d' s' ∧ s.templates.get? "T" = s'.templates.get? "T" ∧
    s.modules.get? "A" = some v ∧ s'.modules.get? "A" = some v := by
  obtain ⟨s, hs, -⟩ := exists_resolvesTo_with (.ofEnvironment []) default
    ⟨[.group ⟨"g", [("a", .empty)]⟩, oneProject, leftOut,
      .object ⟨moduleKind, "A", some "T"⟩ []]⟩ (fun _ => True) (by decide +kernel)
  obtain ⟨s', hs', -⟩ := exists_resolvesTo_with (.ofEnvironment []) default
    ⟨[.object ⟨moduleKind, "B", some "U"⟩ [], .object ⟨moduleKind, "A", some "T"⟩ [],
      .group ⟨"g", [("a", .empty)]⟩, leftOut, oneProject]⟩ (fun _ => True) (by decide +kernel)
  have h := (resolve_unkept parse_inOrder (.ofEnvironment []) default).2.2.2 parse_outOfOrder rfl rfl
    ⟨rfl, rfl, .swap _ _ []⟩ hs hs'
  obtain ⟨v, hv, hv'⟩ := h.2.2.2 ⟨⟨moduleKind, "A", some "T"⟩, []⟩ (List.mem_singleton.mpr rfl)
    (List.mem_cons_of_mem _ (List.mem_singleton.mpr rfl))
  exact ⟨_, _, s, s', v, parse_inOrder, parse_outOfOrder, hs, hs', h.2.2.1 "T", hv, hv'⟩

end Solution

end BuildPlan
