import BuildPlan.Proofs.Solution.Admission
import BuildPlan.Proofs.Solution.Shadowing

/-! # Checking identities across configurations

A module compares the identity of a project with the one that is known under its name since it met it for
another configuration. Which one is known depends on the order of the configurations, and on where the
project is left out or not admitted. The comparison is an equivalence, though
(`Identity.difference_trans`), and so the order does not count.

* `resolveProjects_meets`: projects that are resolved by themselves meet what is known. They settle, which
  keeps what is known and adds new names only, or one of them differs from what is known under its name.
* `resolveVariants_compares`: configurations, for each of which the module is resolved by itself, are
  compared. All projects fit what is known in the end, or two of one name differ.
* `identities_checked_exactly`: where nothing else fails, the module fails if and only if two
  configurations disagree about a project, in whatever order they come, and where it does not fail all
  projects of one name have one identity. -/

namespace BuildPlan

open BuildPlan.Variable

/-! ### Comparing identities -/

namespace Identity

variable {i j k : Identity}

theorem difference_symm (h : i.difference j = none) : j.difference i = none := by
  obtain ⟨hg, hp⟩ := difference_eq_none.mp h
  have hp : Path.components i.sourcePath = Path.components j.sourcePath := of_decide_eq_true hp
  exact difference_eq_none.mpr ⟨hg.symm, decide_eq_true hp.symm⟩

theorem difference_trans (h : i.difference j = none) (h' : j.difference k = none) :
    i.difference k = none := by
  obtain ⟨hg, hp⟩ := difference_eq_none.mp h
  obtain ⟨hg', hp'⟩ := difference_eq_none.mp h'
  have hp : Path.components i.sourcePath = Path.components j.sourcePath := of_decide_eq_true hp
  have hp' : Path.components j.sourcePath = Path.components k.sourcePath := of_decide_eq_true hp'
  exact difference_eq_none.mpr ⟨hg.trans hg', decide_eq_true (hp.trans hp')⟩

theorem difference_ne_none :
    i.difference j ≠ none ↔ i.guid ≠ j.guid ∨ Path.same i.sourcePath j.sourcePath = false := by
  rw [ne_eq, difference_eq_none, not_and_or, Bool.not_eq_true]

end Identity

namespace Identities

section Meet
variable {known : Identities} {current i : Identity} {c : Configuration}

theorem meet_of_none (h : known.get? current.name = none) :
    known.meet current c = .ok (current, known.insert current.name current) := by
  unfold meet
  rw [h]

theorem meet_of_fits (h : known.get? current.name = some i) (hd : i.difference current = none) :
    known.meet current c = .ok (i, known) := by
  unfold meet Identity.check
  rw [h]
  dsimp only
  rw [hd]
  rfl

theorem meet_of_difference {f : IdentityField} (h : known.get? current.name = some i)
    (hd : i.difference current = some f) :
    known.meet current c = .error (Cause.inconsistentIdentity i.name f c.display).failure := by
  unfold meet Identity.check
  rw [h]
  dsimp only
  rw [hd]
  rfl

end Meet

/-- New projects under their names have met what is known: it is kept, they fit, and nothing else has
become known. -/
structure Settles (known known' : Identities) (new : String → Project → Prop) : Prop where
  grows : known.Grows known'
  named : known'.Named
  source : ∀ n i, known'.get? n = some i → known.get? n = some i ∨ ∃ q, new n q ∧ q.identity = i
  fits : ∀ n q, new n q → ∃ i, known'.get? n = some i ∧ i.difference q.identity = none

/-- How it ends when new projects meet what is known: they settle, or one of them differs from what is
known under its name. -/
inductive Meets (known : Identities) (c : Configuration) (new : String → Project → Prop) :
    Fallible (Identities × Dictionary String Project) → Prop
  | settles {known' : Identities} {ps : Dictionary String Project} (h : known.Settles known' new) :
      Meets known c new (.ok (known', ps))
  | clashes {n : String} {q : Project} {i : Identity} {f : IdentityField} (hq : new n q)
      (hi : known.get? n = some i) (hd : i.difference q.identity = some f) :
      Meets known c new (.error (Cause.inconsistentIdentity n f c.display).failure)

section
variable {known known₁ known₂ : Identities} {c : Configuration} {new new' : String → Project → Prop}
  {r : Fallible (Identities × Dictionary String Project)}

theorem Settles.refl (hn : known.Named) (hnew : ∀ n q, ¬ new n q) : known.Settles known new :=
  ⟨.refl known, hn, fun _ _ hi => Or.inl hi, fun n q hq => absurd hq (hnew n q)⟩

theorem Settles.trans (h : known.Settles known₁ new) (h' : known₁.Settles known₂ new') :
    known.Settles known₂ fun n q => new n q ∨ new' n q where
  grows := h.grows.trans h'.grows
  named := h'.named
  source n i hi := by
    rcases h'.source n i hi with hi | ⟨q, hq, he⟩
    · exact (h.source n i hi).imp_right fun ⟨q, hq, he⟩ => ⟨q, Or.inl hq, he⟩
    · exact Or.inr ⟨q, Or.inr hq, he⟩
  fits n q hq := by
    rcases hq with hq | hq
    · exact (h.fits n q hq).imp fun i hi => ⟨h'.grows n i hi.1, hi.2⟩
    · exact h'.fits n q hq

/-- What meets what is known behind settled projects of other names meets it with them. -/
theorem Settles.after (h : known.Settles known₁ new) (hdisj : ∀ n q q', new n q → ¬ new' n q')
    (h' : Meets known₁ c new' r) : Meets known c (fun n q => new n q ∨ new' n q) r := by
  cases h' with
  | settles h' => exact .settles (h.trans h')
  | clashes hq hi hd =>
    rcases h.source _ _ hi with hi | ⟨q', hq', -⟩
    · exact .clashes (Or.inr hq) hi hd
    · exact absurd hq (hdisj _ _ _ hq')

theorem Meets.congr (h : Meets known c new r) (hnew : ∀ n q, new n q ↔ new' n q) :
    Meets known c new' r := by
  obtain rfl : new = new' := funext fun n => funext fun q => propext (hnew n q)
  exact h

end

end Identities

/-! ### Projects -/

namespace Module

section Projects
variable {ctx : ModuleContext} {module : String} {c : Configuration} {b : Bindings}
  {settings : Dictionary String Settings} {entry : String × String} {q : Project}

/-- A declaration declares a project with the identity of its settings, and the files below its own
source path. -/
def Declares (ctx : ModuleContext) (module : String) (c : Configuration) (b : Bindings)
    (settings : Dictionary String Settings) (entry : String × String) (q : Project) : Prop :=
  ∃ d compiled expanded current files, Declaration.expand b entry = .ok d ∧
    settings.get? d.settings = some compiled ∧
    compiled.expand (b.bind projectName d.project) .complete = .ok expanded ∧
    (expanded.isExcluded || !ctx.allows c d.project) = false ∧
    Identity.ofSettings module d.project expanded = .ok current ∧
    (ctx.matcher (expanded.patterns PropertyName.includeFiles)
      (expanded.patterns PropertyName.excludeFiles)
      (Path.join ctx.searchRoot current.sourcePath)).result = .ok files ∧
    q = ⟨current, module, c, expanded, files, expanded.texts PropertyName.libRefs,
      expanded.texts PropertyName.projectRefs⟩

/-- The files of a project below another source path. -/
def FilesBelow (ctx : ModuleContext) (q : Project) (path : String) (files : List String) : Prop :=
  (ctx.matcher (q.settings.patterns PropertyName.includeFiles)
    (q.settings.patterns PropertyName.excludeFiles) (Path.join ctx.searchRoot path)).result = .ok files

theorem declares_of_resolveProject {known known' : Identities} (hk : known.Named)
    (hnone : known.get? q.name = none)
    (h : (resolveProject ctx module c b settings known entry).result = .ok (some (q, known'))) :
    Declares ctx module c b settings entry q ∧ known' = known.insert q.name q.identity := by
  obtain ⟨d, compiled, expanded, current, identity, files, hd, hcomp, hexp, hx, hcur, hmet, hf, rfl⟩ :=
    resolveProject_some.mp h
  have hname : identity.name = current.name := (Identities.meet_ok hk hmet).1
  have hnone : known.get? current.name = none := hname ▸ hnone
  rw [Identities.meet_of_none hnone] at hmet
  cases hmet
  exact ⟨⟨d, compiled, expanded, current, files, hd, hcomp, hexp, hx, hcur, hf, rfl⟩, rfl⟩

section Declares
variable (h : Declares ctx module c b settings entry q) {known : Identities} {i : Identity}
include h

theorem Declares.resolve_new (hnone : known.get? q.name = none) :
    (resolveProject ctx module c b settings known entry).result =
      .ok (some (q, known.insert q.name q.identity)) := by
  obtain ⟨d, compiled, expanded, current, files, hd, hcomp, hexp, hx, hcur, hf, rfl⟩ := h
  exact resolveProject_some.mpr ⟨d, compiled, expanded, current, current, files, hd, hcomp, hexp, hx,
    hcur, Identities.meet_of_none hnone, hf, rfl⟩

theorem Declares.resolve_fits {files : List String} (hi : known.get? q.name = some i)
    (hd : i.difference q.identity = none) (hf : FilesBelow ctx q i.sourcePath files) :
    (resolveProject ctx module c b settings known entry).result =
      .ok (some ({ q with identity := i, includeFiles := files }, known)) := by
  obtain ⟨d, compiled, expanded, current, _, hd', hcomp, hexp, hx, hcur, -, rfl⟩ := h
  exact resolveProject_some.mpr ⟨d, compiled, expanded, current, i, files, hd', hcomp, hexp, hx, hcur,
    Identities.meet_of_fits hi hd, hf, rfl⟩

theorem Declares.resolve_differs {f : IdentityField} (hi : known.get? q.name = some i)
    (hd : i.difference q.identity = some f) :
    (resolveProject ctx module c b settings known entry).result =
      .error (Cause.inconsistentIdentity i.name f c.display).failure := by
  obtain ⟨d, compiled, expanded, current, _, hd', hcomp, hexp, hx, hcur, -, rfl⟩ := h
  unfold resolveProject
  rw [Logged.result_bind_of_ok hd']
  dsimp only
  rw [hcomp]
  dsimp only
  rw [Logged.result_bind_of_ok (Fallible.within_ok.mpr hexp), if_neg (by simp [hx]),
    Logged.result_bind_of_ok (Fallible.within_ok.mpr hcur)]
  exact Logged.result_bind_of_error (Identities.meet_of_difference hi hd)

end Declares

/-- The projects that were not there before. -/
def newIn (ps qs : Dictionary String Project) (n : String) (q : Project) : Prop :=
  ps.contains n = false ∧ qs.get? n = some q

/-- One more project is new where it is inserted before, and not behind it. -/
theorem newIn_insert {ps qs : Dictionary String Project} {n : String}
    (hfree : ps.contains n = false) (hq : qs.get? n = some q) (m : String) (p : Project) :
    newIn ps qs m p ↔ (m = n ∧ p = q) ∨ newIn (ps.insert n q) qs m p := by
  unfold newIn
  rw [Dictionary.contains_insert]
  by_cases he : m = n
  · subst he
    simp [hfree, hq, eq_comm]
  · simp [he, Ne.symm he]

/-- Where it is inserted before, a project is not new. -/
theorem not_newIn_insert {ps qs : Dictionary String Project} {n m : String} {p p' : Project}
    (h : m = n ∧ p = q) : ¬ newIn (ps.insert n q) qs m p' := by
  rintro ⟨hc, -⟩
  simp [Dictionary.contains_insert, h.1] at hc

variable {known : Identities}

/-- A project settles as what it is known as. -/
theorem settles_of_fits {i : Identity} (hn : known.Named) (hi : known.get? q.name = some i)
    (hd : i.difference q.identity = none) :
    known.Settles known fun n p => n = q.name ∧ p = q where
  grows := .refl known
  named := hn
  source _ _ hi := Or.inl hi
  fits := by
    rintro _ _ ⟨rfl, rfl⟩
    exact ⟨i, hi, hd⟩

/-- A project of an unknown name settles with its own identity. -/
theorem settles_of_none (hn : known.Named) (hnone : known.get? q.name = none) :
    known.Settles (known.insert q.name q.identity) fun n p => n = q.name ∧ p = q := by
  obtain ⟨-, hget, hd, hgrows, hnamed⟩ :=
    Identities.meet_ok hn (Identities.meet_of_none (c := default) hnone)
  refine ⟨hgrows, hnamed, fun n i hi => ?_, ?_⟩
  · rw [Dictionary.get?_insert] at hi
    split at hi
    · next he => exact Or.inr ⟨q, ⟨he.symm, rfl⟩, Option.some.inj hi⟩
    · exact Or.inl hi
  · rintro _ _ ⟨rfl, rfl⟩
    exact ⟨_, hget, hd⟩

/-- A declared project settles, or it differs from what is known under its name. -/
theorem Declares.settles_or_differs (h : Declares ctx module c b settings entry q) (hn : known.Named)
    (hfiles : ∀ i, known.get? q.name = some i → i.difference q.identity = none →
      ∃ files, FilesBelow ctx q i.sourcePath files) :
    (∃ p known', (resolveProject ctx module c b settings known entry).result = .ok (some (p, known')) ∧
        p.name = q.name ∧ known.Settles known' fun n p => n = q.name ∧ p = q) ∨
      ∃ i f, known.get? q.name = some i ∧ i.difference q.identity = some f ∧
        (resolveProject ctx module c b settings known entry).result =
          .error (Cause.inconsistentIdentity q.name f c.display).failure := by
  cases hi : known.get? q.name with
  | none => exact Or.inl ⟨q, _, h.resolve_new hi, rfl, settles_of_none hn hi⟩
  | some i =>
    cases hd : i.difference q.identity with
    | none =>
      obtain ⟨files, hf⟩ := hfiles i hi hd
      exact Or.inl ⟨_, known, h.resolve_fits hi hd hf, hn _ _ hi, settles_of_fits hn hi hd⟩
    | some f =>
      have herror := h.resolve_differs hi hd
      rw [hn _ _ hi] at herror
      exact Or.inr ⟨i, f, rfl, hd, herror⟩

/-- **Projects that are resolved by themselves meet what is known.** The induction is on the declarations:
those behind one that settles are resolved by themselves behind it as well, and so meet what is known
then. -/
theorem resolveProjects_meets : ∀ {entries : List (String × String)} {alone alone' known : Identities}
    {ps ps' qs : Dictionary String Project}, alone.Named → known.Named →
      (∀ n, ps'.contains n = ps.contains n) → (∀ n, ps.contains n = false → alone.get? n = none) →
      (resolveProjects ctx module c b settings alone ps entries).result = .ok (alone', qs) →
      (∀ n q i, newIn ps qs n q → known.get? n = some i → i.difference q.identity = none →
        ∃ files, FilesBelow ctx q i.sourcePath files) →
        Identities.Meets known c (newIn ps qs)
          (resolveProjects ctx module c b settings known ps' entries).result
  | [], _, _, known, ps, ps', qs, _, hn, _, _, h, _ => by
    cases h
    refine .settles (.refl hn fun n q hq => ?_)
    have hsome : ps.contains n = true := by
      rw [Dictionary.contains, hq.2]
      rfl
    rw [hq.1] at hsome
    cases hsome
  | entry :: entries, alone, alone', known, ps, ps', qs, ha, hn, hps, hnone, h, hfiles => by
    rcases resolveProjects_cons_ok.mp h with ⟨hout, h⟩ | ⟨q, alone₁, hq, hfree, h⟩
    · have hout' : (resolveProject ctx module c b settings known entry).result = .ok none :=
        resolveProject_none.mpr (resolveProject_none.mp hout)
      rw [resolveProjects, Logged.result_bind_of_ok hout']
      exact resolveProjects_meets ha hn hps hnone h hfiles
    · have hqs : qs.get? q.name = some q := Dictionary.get?_of_mem
        (entries_subset_of_resolveProjects h (Dictionary.mem_entries_insert ps q.name q))
      have hnew := newIn_insert hfree hqs
      obtain ⟨hdecl, rfl⟩ := declares_of_resolveProject ha (hnone _ hfree) hq
      rw [resolveProjects]
      rcases hdecl.settles_or_differs hn fun i => hfiles _ q i ⟨hfree, hqs⟩ with
        ⟨p, known₁, hp, hname, hsettles⟩ | ⟨i, f, hi, hd, herror⟩
      · have ha₁ : Identities.Named (alone.insert q.name q.identity) :=
          (has_of_resolveProject ha hq).2.2
        have hps₁ : ∀ n, (ps'.insert p.name p).contains n = (ps.insert q.name q).contains n := by
          intro n
          rw [hname, Dictionary.contains_insert, Dictionary.contains_insert, hps]
        have hnone₁ : ∀ n, (ps.insert q.name q).contains n = false →
            Dictionary.get? (alone.insert q.name q.identity) n = none := by
          intro n hn
          rw [Dictionary.contains_insert, Bool.or_eq_false_iff] at hn
          rw [Dictionary.get?_insert, if_neg (of_decide_eq_false hn.1), hnone n hn.2]
        rw [Logged.result_bind_of_ok hp]
        dsimp only
        rw [if_neg (by simp [hname, hps, hfree])]
        refine (hsettles.after (fun _ _ _ h => not_newIn_insert h)
          (resolveProjects_meets ha₁ hsettles.named hps₁ hnone₁ h ?_)).congr fun n p => (hnew n p).symm
        intro n p' i hp' hi hd
        rcases hsettles.source n i hi with hi | ⟨_, hq', -⟩
        · exact hfiles n p' i ((hnew n p').mpr (Or.inr hp')) hi hd
        · exact absurd hp' (not_newIn_insert hq')
      · rw [Logged.result_bind_of_error herror]
        exact .clashes ⟨hfree, hqs⟩ hi hd

end Projects

/-! ### Configurations -/

section Variants
variable {ctx : ModuleContext} {object : Object} {children : List Object} {template : Template}
  {s s' t : Session}

/-- What is kept for the other configurations stays as it is. -/
theorem agree_of_runIn_resolveVariant {known : Identities} {c c' : Configuration}
    {variant : TemplateVariant} {r : Fallible (Identities × Dictionary String Project)}
    (h : (resolveVariant ctx object children template known c variant).runIn s = (r, t))
    (hc : c ≠ c') : s.Agree (keysFor Set.univ c') t := by
  have hasks : (resolveVariant ctx object children template known c variant).Asks
      (keysFor Set.univ c) := by
    rw [resolveVariant_eq]
    refine (Job.asks_compile rfl (Set.mem_univ _)).bind fun root => ?_
    split
    · exact Compile.asks_pure _
    · exact ((Heir.asks_compileAll fun _ _ _ => Job.asks_compile rfl (Set.mem_univ _)).within _).bind
        fun _ => Compile.asks_ofLogged _
  have hdisj : Disjoint (keysFor Set.univ c) (keysFor Set.univ c') := by
    refine Set.disjoint_left.mpr ?_
    rintro k ⟨-, hk⟩ ⟨-, hk'⟩
    exact hc (Option.some.inj (hk.symm.trans hk'))
  have hagree := hasks.agree hdisj s
  rwa [h] at hagree

/-- A configuration for which a module is resolved by itself meets what is known. -/
theorem resolveVariant_meets {known alone : Identities} {c : Configuration} {variant : TemplateVariant}
    {qs : Dictionary String Project} (hn : known.Named)
    (h : (resolveVariant ctx object children template .empty c variant).runIn s =
      (.ok (alone, qs), t)) (hs : s.Agree (keysFor Set.univ c) s')
    (hfiles : ∀ n q i, qs.get? n = some q → known.get? n = some i → i.difference q.identity = none →
      ∃ files, FilesBelow ctx q i.sourcePath files) :
    Identities.Meets known c (fun n q => qs.get? n = some q)
      ((resolveVariant ctx object children template known c variant).runIn s').1 := by
  obtain ⟨root, u, hroot, h⟩ := runIn_resolveVariant_ok.mp h
  have hasks : (compileRoot ctx object template c variant).Asks (keysFor Set.univ c) :=
    Job.asks_compile rfl (Set.mem_univ _)
  obtain ⟨u', hroot', hu⟩ := hasks.transfer hroot hs
  rw [resolveVariant_eq, Compile.runIn_bind, hroot']
  dsimp only
  rcases h with ⟨hx, rfl, rfl, -⟩ | ⟨hx, own, v, hown, hps, -⟩
  · rw [if_pos hx]
    exact .settles (.refl hn fun _ _ => nofun)
  · have hasks : (compileOwn ctx object children template c variant).Asks (keysFor Set.univ c) :=
      (Heir.asks_compileAll fun _ _ _ => Job.asks_compile rfl (Set.mem_univ _)).within _
    obtain ⟨v', hown', -⟩ := hasks.transfer hown hu
    have hnew : ∀ n q, newIn .empty qs n q ↔ qs.get? n = some q := fun n q => and_iff_right rfl
    rw [if_neg (by simp [hx]), Compile.runIn_bind, hown']
    exact (resolveProjects_meets Identities.named_empty hn (fun _ => rfl) (fun _ _ => rfl) hps
      fun n q i hq => hfiles n q i ((hnew n q).mp hq)).congr hnew

/-- How it ends when configurations are compared, which have these projects under these names: all of
them fit what is known in the end, or two projects of one name differ. -/
inductive Compares (P : Configuration → String → Project → Prop) (known : Identities)
    (cs : List Configuration) :
    Fallible (List (Configuration × Dictionary String Project)) → Prop
  | agree {out : List (Configuration × Dictionary String Project)} (last : Identities)
      (hgrows : known.Grows last)
      (hfits : ∀ c ∈ cs, ∀ n q, P c n q → ∃ i, last.get? n = some i ∧ i.difference q.identity = none) :
      Compares P known cs (.ok out)
  | differ {c c' : Configuration} {n : String} {p q : Project} {f : IdentityField} (hc : c ≠ c')
      (hp : P c n p) (hq : P c' n q) (hd : p.identity.difference q.identity = some f) :
      Compares P known cs (.error (Cause.inconsistentIdentity n f c'.display).failure)

/-- **Configurations for which a module is resolved by themselves are compared**: `P` says which
projects each of them has. -/
theorem resolveVariants_compares {P : Configuration → String → Project → Prop}
    (hfiles : ∀ {c c' n p q}, P c n p → P c' n q → p.identity.difference q.identity = none →
      ∃ files, FilesBelow ctx q p.identity.sourcePath files) :
    ∀ {vs : List (Configuration × TemplateVariant)} {known : Identities} {s' : Session},
      (vs.map Prod.fst).Nodup → known.Named → (∀ e ∈ vs, s.Agree (keysFor Set.univ e.1) s') →
      (∀ e ∈ vs, ∃ alone qs t, (resolveVariant ctx object children template .empty e.1 e.2).runIn s =
        (.ok (alone, qs), t) ∧ ∀ n q, qs.get? n = some q ↔ P e.1 n q) →
      (∀ n i, known.get? n = some i → ∃ c p, c ∉ vs.map Prod.fst ∧ P c n p ∧ p.identity = i) →
        Compares P known (vs.map Prod.fst)
          ((resolveVariants ctx object children template known vs).runIn s').1
  | [], known, s', _, _, _, _, _ => .agree known (.refl known) (List.forall_mem_nil _)
  | (c, variant) :: vs, known, s', hd, hn, hs, halone, hsource => by
    obtain ⟨hc, hd⟩ := List.nodup_cons.mp hd
    obtain ⟨hsc, hs⟩ := List.forall_mem_cons.mp hs
    obtain ⟨⟨alone, qs, t, hv, hP⟩, halone⟩ := List.forall_mem_cons.mp halone
    have hmeets := resolveVariant_meets hn hv hsc fun n q i hq hi hd => by
      obtain ⟨c', p, -, hp, rfl⟩ := hsource n i hi
      exact hfiles hp ((hP n q).mp hq) hd
    cases hrun : (resolveVariant ctx object children template known c variant).runIn s' with
    | mk r t' =>
      rw [hrun] at hmeets
      rw [resolveVariants, Compile.runIn_bind, hrun]
      cases hmeets with
      | clashes hq hi hd =>
        obtain ⟨c', p, hc', hp, rfl⟩ := hsource _ _ hi
        have hne : c' ≠ c := by
          rintro rfl
          exact hc' List.mem_cons_self
        exact .differ hne hp ((hP _ _).mp hq) hd
      | @settles known₁ ps hsettles =>
        have hs₁ : ∀ e ∈ vs, s.Agree (keysFor Set.univ e.1) t' := by
          intro e he
          have hne : c ≠ e.1 := fun h => hc (List.mem_map.mpr ⟨e, he, h.symm⟩)
          exact (hs e he).trans (agree_of_runIn_resolveVariant hrun hne)
        have hsource₁ : ∀ n i, known₁.get? n = some i →
            ∃ c p, c ∉ vs.map Prod.fst ∧ P c n p ∧ p.identity = i := by
          intro n i hi
          rcases hsettles.source n i hi with hi | ⟨q, hq, rfl⟩
          · obtain ⟨c', p, hc', hp⟩ := hsource n i hi
            exact ⟨c', p, fun hm => hc' (List.mem_cons_of_mem _ hm), hp⟩
          · exact ⟨c, q, hc, (hP n q).mp hq, rfl⟩
        have hrest := resolveVariants_compares (P := P) hfiles hd hsettles.named hs₁ halone hsource₁
        dsimp only
        rw [Compile.runIn_bind]
        cases hrun₁ : (resolveVariants ctx object children template known₁ vs).runIn t' with
        | mk r₁ t₁ =>
          rw [hrun₁] at hrest
          cases hrest with
          | differ hne hp hq hd => exact .differ hne hp hq hd
          | agree last hgrows hfits =>
            refine .agree last (hsettles.grows.trans hgrows) fun c' hc' n q hq => ?_
            rcases List.mem_cons.mp hc' with rfl | hc'
            · obtain ⟨i, hi, hd⟩ := hsettles.fits n q ((hP n q).mpr hq)
              exact ⟨i, hgrows n i hi, hd⟩
            · exact hfits c' hc' n q hq

end Variants

/-! ### Modules -/

section Alone
variable (ctx : ModuleContext) (object : Object) (template : Template) (s : Session)

/-- A module is resolved in a session. -/
def ResolvesIn (m : Module) : Prop := ((resolve ctx object template).runIn s).1 = .ok m

/-- A module fails in a session since the identity of a project is not the one that is known. -/
def FailsToCompare : Prop :=
  ∃ project field configuration, ((resolve ctx object template).runIn s).1 =
    .error (Cause.inconsistentIdentity project field configuration).failure

/-- What a module is resolved to for one configuration alone. -/
def ResolvesAlone (c : Configuration) (m : Module) : Prop :=
  ResolvesIn ctx object (template.restrict fun x => decide (x = c)) s m

/-- The project is there if the module is resolved for this configuration alone. -/
def Materialises (c : Configuration) (p : Project) : Prop :=
  ∃ m, ResolvesAlone ctx object template s c m ∧ p ∈ m.projects c

/-- Nothing but the comparison of identities fails: the module is resolved for every configuration
alone, and the files of a project are found as any configuration spells its source path. -/
structure OnlyCompares : Prop where
  alone : ∀ c, ∃ m, ResolvesAlone ctx object template s c m
  files : ∀ {c c' p q}, Materialises ctx object template s c p →
    Materialises ctx object template s c' q → p.name = q.name →
      p.identity.difference q.identity = none → ∃ files, FilesBelow ctx q p.identity.sourcePath files

/-- Two configurations disagree about a project: the settings of the one declare another identifier than
those of the other, or a source path with other components. -/
def Disagrees : Prop :=
  ∃ c c' p q i j, c ≠ c' ∧ Materialises ctx object template s c p ∧
    Materialises ctx object template s c' q ∧ p.name = q.name ∧
    Identity.ofSettings object.name p.name p.settings = .ok i ∧
    Identity.ofSettings object.name q.name q.settings = .ok j ∧
    (i.guid ≠ j.guid ∨ Path.same i.sourcePath j.sourcePath = false)

end Alone

section
variable {ctx : ModuleContext} {object : Object} {template : Template} {s : Session}
  {c : Configuration} {p : Project} {m : Module}

/-- What is there for one configuration are the projects of this configuration. -/
theorem ResolvesAlone.exists_variant {children : List Object} {variant : TemplateVariant}
    (h : ResolvesAlone ctx object template s c m) (hch : object.settingsObjects = .ok children)
    (hc : (c, variant) ∈ template.variants.entries) :
    ∃ alone qs t, (resolveVariant ctx object children template .empty c variant).runIn s =
        (.ok (alone, qs), t) ∧
      ∀ n q, qs.get? n = some q ↔ Materialises ctx object template s c q ∧ q.name = n := by
  obtain ⟨children', variants, hch', hv, hm⟩ := runIn_resolve_ok.mp (Prod.ext h rfl)
  obtain rfl : children' = children := Except.ok.inj (hch'.symm.trans hch)
  have hone : (template.restrict fun x => decide (x = c)).variants.entries = [(c, variant)] :=
    Dictionary.entries_restrict_eq hc
  rw [hone] at hv
  obtain ⟨alone, qs, more, u, hq, hmore, rfl⟩ := runIn_resolveVariants_cons_ok.mp hv
  cases hmore
  have hprojects : m.projects c = qs.values := by
    have hget : (Dictionary.ofList [(c, qs)]).get? c = some qs :=
      (Dictionary.get?_insert .empty c c qs).trans (if_pos rfl)
    rw [hm, projects, hget]
    rfl
  have hnamed : Named qs := named_of_runIn_resolveVariants hv (c, qs) List.mem_cons_self
  refine ⟨alone, qs, _, hq, fun n q => ⟨fun hget => ?_, ?_⟩⟩
  · have hmem := Dictionary.mem_of_get? hget
    exact ⟨⟨m, h, hprojects ▸ List.mem_map_of_mem hmem⟩, hnamed _ hmem⟩
  · rintro ⟨⟨m', h', hmem⟩, rfl⟩
    obtain rfl : m' = m := Except.ok.inj (h'.symm.trans h)
    rw [hprojects] at hmem
    obtain ⟨e, he, rfl⟩ := List.mem_map.mp hmem
    rw [hnamed e he]
    exact Dictionary.get?_of_mem he

theorem Materialises.mem_keys (h : Materialises ctx object template s c p) :
    ∃ variant, (c, variant) ∈ template.variants.entries := by
  obtain ⟨m, h, hp⟩ := h
  obtain ⟨children, variants, -, hv, rfl⟩ := runIn_resolve_ok.mp (Prod.ext h rfl)
  obtain ⟨v, hmem, rfl, -⟩ := mem_projects.mp hp
  have hkey : v.1 ∈ variants.map Prod.fst :=
    List.mem_map_of_mem (Dictionary.mem_of_mem_entries_ofList hmem)
  rw [keys_of_runIn_resolveVariants hv] at hkey
  obtain ⟨e, he, heq⟩ := List.mem_map.mp hkey
  exact ⟨e.2, heq ▸ (List.mem_filter.mp he).1⟩

/-- A project that is there for one configuration has the identity that its settings declare. -/
theorem Materialises.exists_declared (h : Materialises ctx object template s c p) :
    ∃ i, Identity.ofSettings object.name p.name p.settings = .ok i ∧
      p.identity.difference i = none := by
  obtain ⟨m, h, hp⟩ := h
  obtain ⟨⟨known, hknown⟩, hname⟩ := consistent_of_runIn_resolve (Prod.ext h rfl)
  have hhas := hknown c p hp
  obtain ⟨i, hi, hd⟩ := hhas.fits
  rw [hhas.module_eq, hname] at hi
  exact ⟨i, hi, hd⟩

/-- Two projects differ if the identities that their settings declare do. -/
theorem difference_eq_none_iff_declared {c' : Configuration} {q : Project} {i j : Identity}
    (hp : Materialises ctx object template s c p) (hq : Materialises ctx object template s c' q)
    (hi : Identity.ofSettings object.name p.name p.settings = .ok i)
    (hj : Identity.ofSettings object.name q.name q.settings = .ok j) :
    p.identity.difference q.identity = none ↔ i.difference j = none := by
  obtain ⟨i', hi', hpi⟩ := hp.exists_declared
  obtain ⟨j', hj', hqj⟩ := hq.exists_declared
  obtain rfl : i = i' := Except.ok.inj (hi.symm.trans hi')
  obtain rfl : j = j' := Except.ok.inj (hj.symm.trans hj')
  constructor
  · intro hpq
    exact Identity.difference_trans (Identity.difference_symm hpi) (Identity.difference_trans hpq hqj)
  · intro hij
    exact Identity.difference_trans hpi (Identity.difference_trans hij (Identity.difference_symm hqj))

/-- **If only the comparison of identities can fail, a module fails exactly if two configurations
disagree.** -/
theorem resolve_compares (h : OnlyCompares ctx object template s) :
    ((∃ m, ResolvesIn ctx object template s m) ∧ ¬ Disagrees ctx object template s) ∨
      FailsToCompare ctx object template s ∧ Disagrees ctx object template s := by
  obtain ⟨_, hm⟩ := h.alone default
  obtain ⟨children, _, hch, -, -⟩ := runIn_resolve_ok.mp (Prod.ext hm rfl)
  have hcompares := resolveVariants_compares
    (P := fun c n q => Materialises ctx object template s c q ∧ q.name = n)
    (fun hp hq hd => h.files hp.1 hq.1 (hp.2.trans hq.2.symm) hd) template.variants.distinct
    Identities.named_empty (fun _ _ => .refl _ s)
    (fun e he => by
      obtain ⟨m, hm⟩ := h.alone e.1
      exact hm.exists_variant hch he) (fun _ _ => nofun)
  have hresolve : resolve ctx object template =
      resolveVariants ctx object children template .empty template.variants.entries >>= fun variants =>
        pure ⟨object.name, template.name, .ofList variants⟩ := by
    unfold resolve
    rw [hch]
    rfl
  unfold ResolvesIn FailsToCompare
  rw [hresolve, Compile.runIn_bind]
  cases hrun : (resolveVariants ctx object children template .empty template.variants.entries).runIn s with
  | mk r t =>
    rw [hrun] at hcompares
    cases hcompares with
    | agree last hgrows hfits =>
      refine Or.inl ⟨⟨_, rfl⟩, ?_⟩
      rintro ⟨c, c', p, q, i, j, -, hp, hq, hname, hi, hj, hdiff⟩
      have hknown : ∀ {c p}, Materialises ctx object template s c p →
          ∃ k, last.get? p.name = some k ∧ k.difference p.identity = none := by
        intro c p hp
        obtain ⟨variant, hc⟩ := hp.mem_keys
        exact hfits c (List.mem_map.mpr ⟨_, hc, rfl⟩) p.name p ⟨hp, rfl⟩
      obtain ⟨k, hk, hkp⟩ := hknown hp
      obtain ⟨k', hk', hkq⟩ := hknown hq
      obtain rfl : k = k' := Option.some.inj (hk.symm.trans (hname ▸ hk'))
      have hpq := Identity.difference_trans (Identity.difference_symm hkp) hkq
      exact Identity.difference_ne_none.mpr hdiff
        ((difference_eq_none_iff_declared hp hq hi hj).mp hpq)
    | @differ c c' n p q f hne hp hq hd =>
      obtain ⟨i, hi, -⟩ := hp.1.exists_declared
      obtain ⟨j, hj, -⟩ := hq.1.exists_declared
      have hij : i.difference j ≠ none := by
        rw [ne_eq, ← difference_eq_none_iff_declared hp.1 hq.1 hi hj, hd]
        nofun
      exact Or.inr ⟨⟨n, f, c'.display, rfl⟩, c, c', p, q, i, j, hne, hp.1, hq.1,
        hp.2.trans hq.2.symm, hi, hj, Identity.difference_ne_none.mp hij⟩

theorem FailsToCompare.not_resolvesIn (h : FailsToCompare ctx object template s) :
    ¬ ResolvesIn ctx object template s m := by
  obtain ⟨n, f, c, h⟩ := h
  intro hm
  cases h.symm.trans hm

theorem failsToCompare_iff (h : OnlyCompares ctx object template s) :
    FailsToCompare ctx object template s ↔ Disagrees ctx object template s := by
  rcases resolve_compares h with ⟨⟨m, hm⟩, hd⟩ | ⟨hf, hd⟩
  · exact iff_of_false (fun hf => hf.not_resolvesIn hm) hd
  · exact iff_of_true hf hd

theorem exists_resolvesIn_iff (h : OnlyCompares ctx object template s) :
    (∃ m, ResolvesIn ctx object template s m) ↔ ¬ Disagrees ctx object template s := by
  rcases resolve_compares h with ⟨hm, hd⟩ | ⟨hf, hd⟩
  · exact iff_of_true hm hd
  · exact iff_of_false (fun ⟨m, hm⟩ => hf.not_resolvesIn hm) (not_not.mpr hd)

end

/-! ### The order of the configurations -/

/-- The same template with its configurations in another order. -/
structure Reorders (template template' : Template) : Prop where
  name : template'.name = template.name
  bases : template'.bases = template.bases
  variants : template.variants.entries.Perm template'.variants.entries

section Reorders
variable {ctx : ModuleContext} {object : Object} {template template' : Template} {s : Session}

theorem Reorders.restrict_eq (h : Reorders template template') (c : Configuration) :
    (template.restrict fun x => decide (x = c)) = template'.restrict fun x => decide (x = c) := by
  unfold Template.restrict
  rw [h.name, h.bases, Dictionary.restrict_eq_of_perm h.variants c]

/-- For one configuration alone there is no order. -/
theorem Reorders.resolvesAlone (h : Reorders template template') :
    ResolvesAlone ctx object template s = ResolvesAlone ctx object template' s := by
  funext c
  unfold ResolvesAlone
  rw [h.restrict_eq c]

theorem Reorders.materialises (h : Reorders template template') :
    Materialises ctx object template s = Materialises ctx object template' s := by
  unfold Materialises
  rw [h.resolvesAlone]

theorem Reorders.onlyCompares (h : Reorders template template')
    (ho : OnlyCompares ctx object template s) : OnlyCompares ctx object template' s where
  alone := by
    rw [← h.resolvesAlone]
    exact ho.alone
  files := by
    rw [← h.materialises]
    exact ho.files

theorem Reorders.disagrees_iff (h : Reorders template template') :
    Disagrees ctx object template' s ↔ Disagrees ctx object template s := by
  unfold Disagrees
  rw [h.materialises]

end Reorders

/-! ### One identity -/

section
variable {ctx : ModuleContext} {object : Object} {template : Template} {s : Session} {m : Module}

theorem identity_eq_of_resolvesIn (h : ResolvesIn ctx object template s m) {c c' : Configuration}
    {p q : Project} (hp : p ∈ m.projects c) (hq : q ∈ m.projects c') (hname : p.name = q.name) :
    p.identity = q.identity := by
  obtain ⟨⟨known, hknown⟩, -⟩ := consistent_of_runIn_resolve (Prod.ext h rfl)
  have hk := (hknown c p hp).known
  rw [hname, (hknown c' q hq).known] at hk
  exact (Option.some.inj hk).symm

/-- A project that declares no identifier has the one of its names. -/
theorem guid_of_resolvesIn (h : ResolvesIn ctx object template s m) {c : Configuration} {p : Project}
    (hp : p ∈ m.projects c) (hnone : p.settings.text? PropertyName.projectGuid = none) :
    p.identity.guid = generatedGuid object.name p.name := by
  obtain ⟨⟨known, hknown⟩, hname⟩ := consistent_of_runIn_resolve (Prod.ext h rfl)
  have hhas := hknown c p hp
  rw [hhas.fits.guid_eq hnone, hhas.module_eq, hname]

end

/-- **The identities of the projects of a module are checked exactly.** Where nothing else fails, a module
fails to compare them if and only if two configurations disagree about a project, and is resolved
otherwise, in whatever order its configurations come. Where it is resolved, all projects of one name have
one identity, and without a declared identifier this is the one of the names of the module and the
project. -/
theorem identities_checked_exactly (ctx : ModuleContext) (object : Object) (template : Template)
    (s : Session) :
    (OnlyCompares ctx object template s →
      (FailsToCompare ctx object template s ↔ Disagrees ctx object template s) ∧
      ((∃ m, ResolvesIn ctx object template s m) ↔ ¬ Disagrees ctx object template s) ∧
      ∀ template', Reorders template template' →
        (FailsToCompare ctx object template' s ↔ FailsToCompare ctx object template s) ∧
        ((∃ m, ResolvesIn ctx object template' s m) ↔ ∃ m, ResolvesIn ctx object template s m)) ∧
    ∀ m, ResolvesIn ctx object template s m → ∀ c c' p q, p ∈ m.projects c → q ∈ m.projects c' →
      p.name = q.name → p.identity = q.identity ∧
        (p.settings.text? PropertyName.projectGuid = none → p.identity.guid =
          Uuid.ofName Uuid.objectNamespace (object.name ++ "/" ++ p.name).toUTF8.toList) := by
  refine ⟨fun h => ⟨failsToCompare_iff h, exists_resolvesIn_iff h, fun template' hr => ?_⟩,
    fun m hm c c' p q hp hq hname =>
      ⟨identity_eq_of_resolvesIn hm hp hq hname, guid_of_resolvesIn hm hp⟩⟩
  have h' : OnlyCompares ctx object template' s := hr.onlyCompares h
  rw [failsToCompare_iff h, failsToCompare_iff h', exists_resolvesIn_iff h, exists_resolvesIn_iff h',
    hr.disagrees_iff]
  exact ⟨Iff.rfl, Iff.rfl⟩

/-! ### Two spellings of an identity -/

section
variable {ctx : ModuleContext} {object : Object} {template : Template} {s : Session} {c : Configuration}

theorem exists_resolvesAlone_with (P : Module → Prop) [DecidablePred P]
    (h : ((resolve ctx object (template.restrict fun x => decide (x = c))).runIn s).1.toOption.any
      (P ·) = true) : ∃ m, ResolvesAlone ctx object template s c m ∧ P m := by
  unfold ResolvesAlone ResolvesIn
  cases hr : ((resolve ctx object (template.restrict fun x => decide (x = c))).runIn s).1 with
  | error e =>
    rw [hr] at h
    cases h
  | ok m =>
    rw [hr] at h
    exact ⟨m, rfl, of_decide_eq_true h⟩

/-- For a configuration that is none of the template, there is nothing to resolve. -/
theorem exists_resolvesAlone_of_forall_ne {children : List Object}
    (hch : object.settingsObjects = .ok children)
    (hc : ∀ v ∈ template.variants.entries, v.1 ≠ c) : ∃ m, ResolvesAlone ctx object template s c m := by
  have hnone : (template.restrict fun x => decide (x = c)).variants.entries = [] :=
    List.filter_eq_nil_iff.mpr fun v hv he => hc v hv (of_decide_eq_true he)
  have hrun : (resolveVariants ctx object children (template.restrict fun x => decide (x = c)) .empty
      (template.restrict fun x => decide (x = c)).variants.entries).runIn s = (.ok [], s) := by
    rw [hnone]
    rfl
  exact ⟨_, congrArg Prod.fst (runIn_resolve_ok.mpr ⟨children, [], hch, hrun, rfl⟩)⟩

/-- Without patterns that include files, nothing but the comparison fails if the module is resolved for
each of its configurations alone, and nothing is found without them. -/
theorem OnlyCompares.of_noPatterns (hmatcher : ∀ excludes folder,
    (ctx.matcher [] excludes folder).result = .ok []) {children : List Object}
    (hch : object.settingsObjects = .ok children)
    (h : ∀ v ∈ template.variants.entries, ∃ m, ResolvesAlone ctx object template s v.1 m ∧
      ∀ p ∈ m.projects v.1, p.settings.patterns PropertyName.includeFiles = []) :
    OnlyCompares ctx object template s where
  alone c := by
    by_cases hc : ∃ v ∈ template.variants.entries, v.1 = c
    · obtain ⟨v, hv, rfl⟩ := hc
      exact (h v hv).imp fun _ hm => hm.1
    · exact exists_resolvesAlone_of_forall_ne hch fun v hv he => hc ⟨v, hv, he⟩
  files := by
    intro c c' p q _ hq _ _
    obtain ⟨variant, hc⟩ := hq.mem_keys
    obtain ⟨m, hm, hnone⟩ := h _ hc
    obtain ⟨m', hm', hmem⟩ := hq
    obtain rfl : m = m' := Except.ok.inj (hm.symm.trans hm')
    refine ⟨[], ?_⟩
    unfold FilesBelow
    rw [hnone q hmem]
    exact hmatcher _ _

end

/-- For the configuration alone, the module has one project, which includes no files, and this is the
identity that its settings declare. -/
def DeclaresAlone (ctx : ModuleContext) (object : Object) (template : Template) (c : Configuration)
    (i : Identity) : Prop :=
  ∃ m p, ResolvesAlone ctx object template .initial c m ∧ m.projects c = [p] ∧
    p.name = i.name ∧ Identity.ofSettings object.name p.name p.settings = .ok i ∧
    p.settings.patterns PropertyName.includeFiles = []

section
variable {ctx : ModuleContext} {object : Object} {template : Template} {c c' : Configuration}
  {i j : Identity}

theorem declaresAlone_of
    (h : ((resolve ctx object (template.restrict fun x => decide (x = c))).runIn
      .initial).1.toOption.any (fun m => (m.projects c).map (fun p => (p.name,
        (Identity.ofSettings object.name p.name p.settings).toOption,
        p.settings.patterns PropertyName.includeFiles)) = [(i.name, some i, [])]) = true) :
    DeclaresAlone ctx object template c i := by
  obtain ⟨m, hm, h⟩ := exists_resolvesAlone_with _ h
  obtain ⟨p, _, hp, he, hnil⟩ := List.map_eq_cons_iff.mp h
  obtain rfl := List.map_eq_nil_iff.mp hnil
  obtain ⟨hname, hi, hfiles⟩ := by simpa only [Prod.mk.injEq] using he
  refine ⟨m, p, hm, hp, hname, ?_, hfiles⟩
  cases hr : Identity.ofSettings object.name p.name p.settings with
  | error e =>
    rw [hr] at hi
    cases hi
  | ok i' =>
    rw [hr] at hi
    exact congrArg Except.ok (Option.some.inj hi)

theorem onlyCompares_of_declaresAlone {children : List Object} (hmatcher : ∀ excludes folder,
      (ctx.matcher [] excludes folder).result = .ok []) (hch : object.settingsObjects = .ok children)
    (hkeys : template.variants.entries.map Prod.fst = [c, c'])
    (hi : DeclaresAlone ctx object template c i) (hj : DeclaresAlone ctx object template c' j) :
    OnlyCompares ctx object template .initial := by
  refine .of_noPatterns hmatcher hch fun v hv => ?_
  have hc : v.1 ∈ [c, c'] := hkeys ▸ List.mem_map_of_mem hv
  have hone : ∃ k, DeclaresAlone ctx object template v.1 k := by
    rcases List.mem_pair.mp hc with he | he
    · exact ⟨i, he ▸ hi⟩
    · exact ⟨j, he ▸ hj⟩
  obtain ⟨k, m, p, hm, hp, -, -, hfiles⟩ := hone
  exact ⟨m, hm, by simpa [hp] using hfiles⟩

theorem disagrees_of_declaresAlone (hc : c ≠ c') (hi : DeclaresAlone ctx object template c i)
    (hj : DeclaresAlone ctx object template c' j) (hname : i.name = j.name) (hguid : i.guid ≠ j.guid) :
    Disagrees ctx object template .initial := by
  obtain ⟨m, p, hm, hp, hpi, hpd, -⟩ := hi
  obtain ⟨n, q, hn, hq, hqj, hqd, -⟩ := hj
  exact ⟨c, c', p, q, i, j, hc, ⟨m, hm, by simp [hp]⟩, ⟨n, hn, by simp [hq]⟩,
    hpi.trans (hname.trans hqj.symm), hpd, hqd, Or.inl hguid⟩

end

/-- Another configuration of the group. -/
def release : Configuration := .ofConstants "g" "Release" .nil

/-- A template with one project, for two configurations. -/
def single : Object :=
  ⟨⟨Solution.templateKind, "T", none⟩, [.assignment ⟨.add, ["projects"], .pair "P" (.literal "S"), always⟩,
    .object ⟨settingsKind, "S", none⟩ []]⟩

/-- The resolved template. -/
def singleTemplate : Template :=
  ((Template.resolve single [debug, release] .empty .empty).fresh.result.toOption).getD
    ⟨"", .empty, .empty⟩

/-- Sets the identifier and the source path of a project where a condition holds. -/
def identitySet (guid path condition : String) : List Element :=
  [.assignment ⟨.set, ["project", "guid"], .literal guid, condition⟩,
    .assignment ⟨.set, ["source", "path"], .literal path, condition⟩]

/-- A module that declares an identity, and anew under the second configuration. -/
def spelling (guid path : String) : Object :=
  ⟨⟨Solution.moduleKind, "Core", some "T"⟩, [.object ⟨settingsKind, "S", none⟩
    (identitySet "8f2b6c1e-3d4a-4b5c-9e8f-1a2b3c4d5e6f" "Core/Src" always ++
      identitySet guid path "Release")]⟩

/-- The identity that the module declares. -/
def spelled : Identity := ⟨"P", ⟨0x8f2b6c1e3d4a4b5c9e8f1a2b3c4d5e6f⟩, "Core/Src"⟩

/-- The same identifier in braces and capital letters. -/
def braced : String := "\x7b8F2B6C1E-3D4A-4B5C-9E8F-1A2B3C4D5E6F\x7d"

/-- Another identifier. -/
def other : String := "00000000-3d4a-4b5c-9e8f-1a2b3c4d5e6f"

/-- The spelling of the identifier does not count, nor do the separators of the source path. With another
identifier the module fails. -/
theorem identities_checked_exactly_spelling :
    (OnlyCompares openContext (spelling braced "Core/.//Src/") singleTemplate .initial ∧
      ¬ Disagrees openContext (spelling braced "Core/.//Src/") singleTemplate .initial ∧
      ∃ m p q, ResolvesIn openContext (spelling braced "Core/.//Src/") singleTemplate .initial m ∧
        p ∈ m.projects debug ∧ q ∈ m.projects release ∧ p.identity = q.identity) ∧
    OnlyCompares openContext (spelling other "Core/Src") singleTemplate .initial ∧
      FailsToCompare openContext (spelling other "Core/Src") singleTemplate .initial := by
  have hdebug : ∀ o ∈ [spelling braced "Core/.//Src/", spelling other "Core/Src"],
      DeclaresAlone openContext o singleTemplate debug spelled := by
    rintro o ho
    rcases List.mem_pair.mp ho with rfl | rfl <;> exact declaresAlone_of (by decide +kernel)
  have hbraced : DeclaresAlone openContext (spelling braced "Core/.//Src/") singleTemplate release
      { spelled with sourcePath := "Core/.//Src/" } := declaresAlone_of (by decide +kernel)
  have hother : DeclaresAlone openContext (spelling other "Core/Src") singleTemplate release
      { spelled with guid := ⟨0x000000003d4a4b5c9e8f1a2b3c4d5e6f⟩ } := declaresAlone_of (by decide +kernel)
  have hkeys : singleTemplate.variants.entries.map Prod.fst = [debug, release] := by decide +kernel
  have hmatcher : ∀ excludes folder, (openContext.matcher [] excludes folder).result = .ok [] :=
    fun excludes folder => congrArg Logged.result (selectFiles_nil .empty excludes folder)
  have hsame := onlyCompares_of_declaresAlone hmatcher rfl hkeys (hdebug _ (by simp)) hbraced
  have hdiffer := onlyCompares_of_declaresAlone hmatcher rfl hkeys (hdebug _ (by simp)) hother
  have hd := disagrees_of_declaresAlone (by decide) (hdebug _ (by simp)) hother rfl (by decide)
  obtain ⟨hcompares, hone⟩ :=
    identities_checked_exactly openContext (spelling braced "Core/.//Src/") singleTemplate .initial
  have hrun : ((resolve openContext (spelling braced "Core/.//Src/") singleTemplate).runIn
      .initial).1.toOption.any (fun m => (m.projects debug).map (·.name) = ["P"] ∧
        (m.projects release).map (·.name) = ["P"]) = true := by
    decide +kernel
  refine ⟨⟨hsame, ?_⟩, hdiffer,
    ((identities_checked_exactly openContext _ singleTemplate .initial).1 hdiffer).1.mpr hd⟩
  cases hr : ((resolve openContext (spelling braced "Core/.//Src/") singleTemplate).runIn .initial).1 with
  | error e =>
    rw [hr] at hrun
    cases hrun
  | ok m =>
    rw [hr] at hrun
    obtain ⟨hp, hq⟩ := of_decide_eq_true hrun
    obtain ⟨p, _, hp', hpn, -⟩ := List.map_eq_cons_iff.mp hp
    obtain ⟨q, _, hq', hqn, -⟩ := List.map_eq_cons_iff.mp hq
    have hp : p ∈ m.projects debug := by simp [hp']
    have hq : q ∈ m.projects release := by simp [hq']
    exact ⟨(hcompares hsame).2.1.mp ⟨m, hr⟩, m, p, q, hr, hp, hq,
      (hone m hr debug release p q hp hq (hpn.trans hqn.symm)).1⟩

end Module

end BuildPlan
