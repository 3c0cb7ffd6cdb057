import BuildPlan.Proofs.Solution.Configurations
import BuildPlan.Proofs.Solution.Filtering

/-! # Some of the configurations of a solution

A document that is resolved for some configuration groups only gives what it gives for all of them,
without the other configurations, up to the spelling of source paths (`resolve_filter`). -/

namespace BuildPlan

/-! ### Projects -/

/-- The second module is the first one for the configurations that are kept, up to the spelling of
source paths. -/
structure Module.NarrowsTo (keep : Configuration → Bool) (m m' : Module) : Prop where
  name : m'.name = m.name
  template : m'.template = m.template
  variants : (m.variants.restrict keep).Alike (Dictionary.Alike Project.Alike) m'.variants

/-- Where all names are admitted, nothing is missing under the configurations that are kept. -/
theorem Module.selected_all (keep : Configuration → Bool) (m : Module) :
    m.selected keep (fun _ _ => true) = m.variants.restrict keep := by
  refine Dictionary.ext_entries ?_
  simp [selected, Dictionary.mapValues]

theorem Module.SelectsTo.narrowsTo {keep : Configuration → Bool} {m m' : Module}
    (h : m.SelectsTo keep (fun _ _ => true) m') : m.NarrowsTo keep m' :=
  ⟨h.name, h.template, m.selected_all keep ▸ h.variants⟩

theorem Module.NarrowsTo.projects {keep : Configuration → Bool} {m m' : Module}
    (h : m.NarrowsTo keep m') {c : Configuration} (hc : keep c = true) :
    List.Forall₂ Project.Alike (m.projects c) (m'.projects c) := by
  have hget := h.variants.get? c
  rw [Dictionary.get?_restrict hc] at hget
  unfold Module.projects
  generalize m.variants.get? c = r, m'.variants.get? c = r' at hget
  cases hget with
  | none => exact .nil
  | some ha => exact ha.values

theorem Module.mem_newcomers {p : Project} : ∀ {pss : List (Dictionary String Project)}
    {seen : List String}, p ∈ newcomers seen pss → ∃ ps ∈ pss, p ∈ ps.values
  | [], _, h => by cases h
  | ps :: pss, seen, h => by
    rcases List.mem_append.mp h with h | h
    · exact ⟨ps, List.mem_cons_self, List.mem_of_mem_filter h⟩
    · obtain ⟨qs, hqs, hp⟩ := mem_newcomers h
      exact ⟨qs, List.mem_cons_of_mem _ hqs, hp⟩

/-- The projects of a module whose names come for the first time under the configurations that are
kept. -/
def Module.firstProjects (m : Module) (keep : Configuration → Bool) : List Project :=
  newcomers [] (m.variants.restrict keep).values

theorem Module.mem_of_mem_firstProjects {m : Module} {keep : Configuration → Bool} {p : Project}
    (h : p ∈ m.firstProjects keep) : ∃ c, p ∈ m.projects c := by
  obtain ⟨ps, hps, hp⟩ := mem_newcomers h
  obtain ⟨⟨c, ps⟩, he, rfl⟩ := List.mem_map.mp hps
  refine ⟨c, ?_⟩
  unfold projects
  rw [Dictionary.get?_of_mem (List.mem_of_mem_filter he)]
  exact hp

/-- The settings of a project spell its source path with the components that its identity has. -/
theorem Project.Fits.same_declaredPath {p : Project} (h : p.Fits) :
    Path.same p.identity.sourcePath p.declaredPath = true := by
  obtain ⟨declared, hd, hdiff⟩ := h
  have hpath := (Identity.difference_eq_none.mp hdiff).2
  rwa [(Identity.of_ofSettings hd).2] at hpath

/-- Below both spellings of its source path the same files are selected for a project, if the folder can
be read under both. -/
theorem Project.Fits.findsAlike {fs : FileSystem} {p : Project} (h : p.Fits) {root : String}
    (hread : fs.ReadsAlike (Path.join root p.identity.sourcePath) (Path.join root p.declaredPath)) :
    (selectFiles fs).FindsAlike (Path.join root p.identity.sourcePath)
      (Path.join root p.declaredPath) :=
  hread.findsAlike ((Path.sameNames_of_same h.same_declaredPath).behind root)

namespace Solution

/-! ### Checking -/

theorem danglingReference?_congr (names : List String) {ps qs : List Project}
    (h : List.Forall₂ Project.Alike ps qs) :
    danglingReference? names ps = danglingReference? names qs := by
  unfold danglingReference?
  induction h with
  | nil => rfl
  | @cons p q _ _ hpq _ ih =>
    have hname : p.name = q.name := hpq.identity.name
    have hrefs : p.projectRefs = q.projectRefs := by rw [hpq.rest]
    rw [List.findSome?_cons, List.findSome?_cons, hname, hrefs, ih]

theorem checkProjects_congr {s t : Solution} {ws ws' : Dictionary Configuration Whitelist}
    {c : Configuration} (h : List.Forall₂ Project.Alike (s.projects c) (t.projects c))
    (hw : ws.get? c = ws'.get? c) : checkProjects s ws c = checkProjects t ws' c := by
  unfold checkProjects
  dsimp only
  rw [Project.names_eq h, hw, danglingReference?_congr _ h]

/-! ### Solutions -/

/-- The second solution is the first one without the configurations that are not kept, up to the
spelling of source paths. -/
structure NarrowsTo (keep : Configuration → Bool) (s t : Solution) : Prop where
  name : t.name = s.name
  configurations : t.configurations = s.configurations.filter keep
  settings : t.settings = s.settings.restrict keep
  templates : s.templates.Alike (fun m m' => m' = m.restrict keep) t.templates
  modules : s.modules.Alike (Module.NarrowsTo keep) t.modules

theorem NarrowsTo.projects {keep : Configuration → Bool} {s t : Solution} (h : s.NarrowsTo keep t)
    {c : Configuration} (hc : keep c = true) :
    List.Forall₂ Project.Alike (s.projects c) (t.projects c) :=
  List.rel_flatMap h.modules.values fun _ _ hm => hm.projects hc

/-- The templates and modules of a body are not solutions. -/
theorem kind_ne_of_mem {body o : Object} (h : o ∈ templatesIn body ∨ o ∈ modulesIn body) :
    o.kind ≠ solutionKind := by
  have hkind : o.kind = templateKind ∨ o.kind = moduleKind :=
    h.imp (fun h => by simpa using (List.mem_filter.mp h).2) fun h => by
      simpa using (List.mem_filter.mp h).2
  rcases hkind with h | h <;> rw [h] <;> decide

/-- What was found for each configuration, for those that are kept. -/
theorem ofList_map_filter {α β : Type} {keep : Configuration → Bool} {f : α → β}
    {rs : List (Configuration × α)} (h : (rs.map Prod.fst).Nodup) :
    Dictionary.ofList ((rs.filter (keep ·.1)).map fun (c, a) => (c, f a)) =
      (Dictionary.ofList (rs.map fun (c, a) => (c, f a))).restrict keep := by
  have hkeys : ((rs.map fun (c, a) => (c, f a)).map Prod.fst).Nodup := by
    rwa [List.map_map]
  rw [Dictionary.restrict_ofList hkeys, List.filter_map]
  rfl

variable {o : Options} {fs fs' : FileSystem} {d : Document} {body : Object} {s : Solution}
  {keep : Configuration → Bool} {groups : List String}

/-- A solution in one file system is there in another one for the configurations that are kept, if what is
found for the first projects of their names there is found here, too. -/
theorem resolvesTo_transfer (groups : List String) (root : Option String) (h : ResolvesTo o fs d s)
    (hcs : ∀ {body}, bodyOf d = .ok body →
      declaredConfigurations body o.groups = .ok s.configurations →
        declaredConfigurations body groups = .ok (s.configurations.filter keep))
    (hsees : ∀ m ∈ s.modules.values, ∀ p ∈ m.firstProjects keep, ∀ includes excludes files,
      (o.matcher fs includes excludes
        (Path.join (o.searchRoot.getD ".") p.identity.sourcePath)).result = .ok files →
      (o.matcher fs' includes excludes (Path.join (root.getD ".") p.declaredPath)).result =
        .ok files) :
    ∃ t, ResolvesTo { o with groups := groups, searchRoot := root } fs' d t ∧ s.NarrowsTo keep t := by
  obtain ⟨body, cs, hb, hc, h⟩ := runIn_resolve_ok.mp (Prod.ext h rfl)
  obtain ⟨resolved, templates, modules, u, v, hr, hk, ht, hm, rfl, hcheck⟩ :=
    runIn_resolveBody_ok.mp h
  have hnodup := nodup_of_declaredConfigurations hc
  have hkeys : resolved.map Prod.fst = cs := Compile.keys_of_runIn_mapM hr
  obtain ⟨u', hr', hu⟩ := Compile.runIn_mapM_filter (asks_resolveSettings body _ _) hr
    (.refl (keptKeys Set.univ keep) .initial)
  have hobjects : keptKeys objectKeys keep ⊆ keptKeys Set.univ keep :=
    fun _ hk => ⟨Set.mem_univ _, hk.2⟩
  obtain ⟨templates', v', ht', hta, hv⟩ := runIn_resolveTemplates_filter hnodup
    (fun o ho => kind_ne_of_mem (Or.inl ho)) Dictionary.alike_empty ht (hu.mono hobjects)
  have hwhitelists : (contextOf { o with groups := groups, searchRoot := root } fs' body
      (resolved.filter (keep ·.1))).whitelists = (contextOf o fs body resolved).whitelists.restrict
        keep := ofList_map_filter (f := Prod.snd) (hkeys ▸ hnodup)
  have hl : (contextOf o fs body resolved).Like keep (fun _ _ => true)
      (contextOf { o with groups := groups, searchRoot := root } fs' body
        (resolved.filter (keep ·.1))) := by
    refine ⟨rfl, rfl, fun c n hkc => ?_⟩
    unfold ModuleContext.allows
    rw [hwhitelists, Dictionary.get?_restrict hkc, Bool.and_true]
  obtain ⟨modules', t', hm', hma, -⟩ := resolveModules_transfer hl hta
    (fun o ho => kind_ne_of_mem (Or.inr ho)) Dictionary.alike_empty hm hv fun m hm p hp => by
      rw [m.selected_all] at hp
      exact hsees m hm p hp
  have hnarrows : NarrowsTo keep (assemble body cs resolved templates modules)
      (assemble body (cs.filter keep) (resolved.filter (keep ·.1)) templates' modules') :=
    ⟨rfl, rfl, ofList_map_filter (f := Prod.fst) (hkeys ▸ hnodup), hta,
      hma.imp fun _ _ h => h.narrowsTo⟩
  refine ⟨_, ?_, hnarrows⟩
  have hrun := runIn_resolveBody_ok (o := { o with groups := groups, searchRoot := root }).mpr
    ⟨_, templates', modules', u', v', hr', hk, ht', hm', rfl, fun c hmem => ?_⟩
  · exact congrArg Prod.fst
      (runIn_resolve_ok.mpr ⟨body, cs.filter keep, hb, hcs hb hc, hrun⟩)
  obtain ⟨hmem, hkc⟩ := List.mem_filter.mp hmem
  rw [← checkProjects_congr (hnarrows.projects hkc)]
  · exact hcheck c hmem
  · rw [hwhitelists, Dictionary.get?_restrict hkc]

theorem fits_of_mem_firstProjects (h : ResolvesTo o fs d s) {m : Module} (hm : m ∈ s.modules.values)
    {p : Project} (hp : p ∈ m.firstProjects keep) : p.Fits := by
  obtain ⟨e, he, rfl⟩ := List.mem_map.mp hm
  obtain ⟨c, hc⟩ := Module.mem_of_mem_firstProjects hp
  obtain ⟨known, hknown⟩ := ((resolved_modules h).1 e he).1
  exact (hknown c p hc).fits

/-- **Configurations do not influence each other, but for the spelling of source paths**: resolved for
some groups, a document gives what it gives for all of them, without the other configurations. A project
takes the spelling of its source path from the first configuration under which it is there. Under this
spelling there must be found what is found under the one that was taken for all groups. For files that are
selected by a walk this is so if the folder can be read under both (`Project.Fits.findsAlike`). -/
theorem resolve_filter (h : ResolvesTo o fs d s) (ho : o.groups = []) (hb : bodyOf d = .ok body)
    (hdeclared : ∀ w ∈ groups, w ∈ (Element.groups body.body).map (·.name))
    (hsome : ∃ c ∈ s.configurations, c.group ∈ groups)
    (hfinds : ∀ m ∈ s.modules.values, ∀ p ∈ m.firstProjects (groups.contains ·.group),
      (o.matcher fs).FindsAlike (Path.join (o.searchRoot.getD ".") p.identity.sourcePath)
        (Path.join (o.searchRoot.getD ".") p.declaredPath)) :
    ∃ t, ResolvesTo { o with groups := groups } fs d t ∧
      s.NarrowsTo (groups.contains ·.group) t := by
  refine resolvesTo_transfer groups o.searchRoot h (fun hb' hc => ?_) hfinds
  rw [hb] at hb'
  cases hb'
  rw [ho] at hc
  exact declaredConfigurations_wanted hc hdeclared hsome

/-! ### Two spellings -/

/-- A module with one project, whose source path is spelled in two ways. -/
def twoSpellings (first second : String) : Document :=
  ⟨[.group ⟨"g", [("Debug", .empty)]⟩, .group ⟨"h", [("Release", .empty)]⟩,
    .object ⟨templateKind, "T", none⟩
      [.assignment ⟨.add, ["projects"], .pair "P" (.literal "S"), always⟩,
        .object ⟨settingsKind, "S", none⟩
          [.assignment ⟨.set, ["include", "files"], .glob "*.txt" false, always⟩,
            .assignment ⟨.set, ["source", "path"], .literal first, "Debug"⟩,
            .assignment ⟨.set, ["source", "path"], .literal second, "Release"⟩]],
    .object ⟨moduleKind, "Core", some "T"⟩ []]⟩

theorem groups_twoSpellings {first second : String} {body : Object}
    (h : bodyOf (twoSpellings first second) = .ok body) :
    (Element.groups body.body).map (·.name) = ["g", "h"] := by
  cases h
  rfl

/-- A file in a folder. -/
def oneFile : FileSystem :=
  ⟨.folder .full [("Core", .folder .full [("a.txt", .file true [])])], [], by decide +kernel, rfl⟩

/-- The files of all projects, configuration by configuration. -/
def includedFiles (s : Solution) : List (List (List String)) :=
  s.configurations.map fun c => (s.projects c).map (·.includeFiles)

/-- Under a short spelling that the other configuration has, the file is found as well. -/
theorem resolve_filter_twoSpellings : ∃ s t,
    ResolvesTo (.ofEnvironment []) oneFile (twoSpellings "Core" "Core/.") s ∧
      ResolvesTo { Options.ofEnvironment [] with groups := ["h"] } oneFile
        (twoSpellings "Core" "Core/.") t ∧
      s.NarrowsTo (["h"].contains ·.group) t := by
  obtain ⟨s, hs, hsome, hread⟩ := exists_resolvesTo_with (.ofEnvironment []) oneFile
    (twoSpellings "Core" "Core/.") (fun s => (∃ c ∈ s.configurations, c.group ∈ ["h"]) ∧
      ∀ m ∈ s.modules.values, ∀ p ∈ m.firstProjects (["h"].contains ·.group),
        oneFile.ReadsAlike (Path.join "." p.identity.sourcePath) (Path.join "." p.declaredPath))
    (by decide +kernel)
  obtain ⟨t, ht, hst⟩ := resolve_filter hs rfl rfl (by decide) hsome fun m hm p hp =>
    (fits_of_mem_firstProjects hs hm hp).findsAlike (hread m hm p hp)
  exact ⟨s, t, hs, ht, hst⟩

theorem NarrowsTo.includedFiles_eq {s t : Solution} (h : s.NarrowsTo keep t) :
    includedFiles t =
      (s.configurations.filter keep).map fun c => (s.projects c).map (·.includeFiles) := by
  unfold includedFiles
  rw [h.configurations]
  refine List.map_congr_left fun c hc => ?_
  have hprojects := h.projects (List.mem_filter.mp hc).2
  generalize s.projects c = ps, t.projects c = qs at hprojects
  induction hprojects with
  | nil => rfl
  | cons hpq _ ih =>
    rw [List.map_cons, List.map_cons, ih, hpq.rest]

/-- The source path with dots behind it. -/
def dotted : String := "Core/./././././././././././././././././././."

/-- The options for a folder that is reached through so many dots. -/
def behindDots (n : Nat) : Options :=
  { Options.ofEnvironment [] with searchRoot := some (Path.dots n) }

section Dots
variable {n : Nat}

/-- The folder is found behind the dots, and the file in it. -/
theorem readsAlike_core (hn : 2 * n + 6 ≤ 4095) :
    oneFile.ReadsAlike (Path.join "." "Core") (Path.join (Path.dots n) "Core") := by
  have hsize : ¬ Path.maxBytes < 2 * n + 2 + "Core".utf8ByteSize := by
    rw [show "Core".utf8ByteSize = 4 from rfl, Path.maxBytes]
    omega
  have hlocate : oneFile.locate (Path.join (Path.dots n) "Core") = some ["Core"] := by
    rw [FileSystem.locate_dots n (by decide) (by decide), if_neg hsize]
    decide +kernel
  have hfolder : oneFile.isFolder (Path.join (Path.dots n) "Core") = true := by
    unfold FileSystem.isFolder
    rw [hlocate]
    rfl
  refine ⟨?_, fun _ => ?_⟩
  · rw [hfolder]
    decide +kernel
  · unfold FileSystem.files
    rw [hlocate]
    rfl

/-- With dots on both sides the path is too long. -/
theorem isFolder_dotted (hn : 4095 < 2 * n + 46) :
    oneFile.isFolder (Path.join (Path.dots n) dotted) = false := by
  have hsize : Path.maxBytes < 2 * n + 2 + dotted.utf8ByteSize := by
    rw [show dotted.utf8ByteSize = 44 by decide +kernel, Path.maxBytes]
    omega
  unfold FileSystem.isFolder
  rw [FileSystem.locate_dots n (by decide +kernel) (by decide +kernel), if_pos hsize]
  rfl

/-- Behind the dots, the solution is there that is there without them. -/
theorem exists_behindDots (hn : 2 * n + 6 ≤ 4095) :
    ∃ s₀ s, ResolvesTo (.ofEnvironment []) oneFile (twoSpellings "Core" dotted) s₀ ∧
      ResolvesTo (behindDots n) oneFile (twoSpellings "Core" dotted) s ∧
      s₀.NarrowsTo (fun _ => true) s ∧ includedFiles s = [[["a.txt"]], [["a.txt"]]] := by
  obtain ⟨s₀, hs₀, hfiles, hfirst⟩ := exists_resolvesTo_with (.ofEnvironment []) oneFile
    (twoSpellings "Core" dotted) (fun s => includedFiles s = [[["a.txt"]], [["a.txt"]]] ∧
      ∀ m ∈ s.modules.values, ∀ p ∈ m.firstProjects fun _ => true,
        p.identity.sourcePath = "Core" ∧ p.declaredPath = "Core")
    (by decide +kernel)
  obtain ⟨s, hs, hns⟩ : ∃ s, ResolvesTo (behindDots n) oneFile (twoSpellings "Core" dotted) s ∧
      s₀.NarrowsTo (fun _ => true) s := by
    refine resolvesTo_transfer (o := .ofEnvironment []) [] (some (Path.dots n)) hs₀
      (fun _ hc => by rwa [List.filter_true]) fun m hm p hp includes excludes files hf => ?_
    rw [(hfirst m hm p hp).1] at hf
    rw [(hfirst m hm p hp).2]
    have hnames : Path.SameNames (Path.join (Path.dots 0) "Core") (Path.join (Path.dots n) "Core") :=
      (Path.sameNames_join_dots 0 (by decide)).symm.trans (Path.sameNames_join_dots n (by decide))
    exact (readsAlike_core hn).findsAlike hnames _ _ _ hf
  refine ⟨s₀, s, hs₀, hs, hns, ?_⟩
  rw [hns.includedFiles_eq, List.filter_true, ← hfiles]
  rfl

/-- Behind the dots, the solution is there that is there without the folder, if the projects whose names
come first spell their source paths with dots. -/
theorem exists_narrowsTo_behindDots (groups : List String) (hn : 4095 < 2 * n + 46) {d : Document}
    {t₀ : Solution} (h : ResolvesTo (.ofEnvironment []) .empty d t₀)
    (hcs : ∀ {body}, bodyOf d = .ok body → declaredConfigurations body [] = .ok t₀.configurations →
      declaredConfigurations body groups = .ok (t₀.configurations.filter keep))
    (hfirst : ∀ m ∈ t₀.modules.values, ∀ p ∈ m.firstProjects keep,
      FileSystem.empty.isFolder (Path.join "." p.identity.sourcePath) = false ∧ p.declaredPath = dotted) :
    ∃ t, ResolvesTo { behindDots n with groups := groups } oneFile d t ∧ t₀.NarrowsTo keep t := by
  refine resolvesTo_transfer (o := .ofEnvironment []) groups (some (Path.dots n)) h hcs
    fun m hm p hp includes excludes files hf => ?_
  obtain ⟨hmissing, hdotted⟩ := hfirst m hm p hp
  rw [hdotted]
  exact (congrArg Logged.result
    (selectFiles_of_missing hmissing (isFolder_dotted hn))).symm.trans hf

/-- For the second configuration alone, the solution is there that is there without the folder. -/
theorem exists_behindDots_second (hn : 4095 < 2 * n + 46) :
    ∃ t, ResolvesTo { behindDots n with groups := ["h"] } oneFile (twoSpellings "Core" dotted) t ∧
      includedFiles t = [[[]]] := by
  obtain ⟨t₀, ht₀, hsome, hempty, hfirst⟩ := exists_resolvesTo_with (.ofEnvironment []) .empty
    (twoSpellings "Core" dotted) (fun s => (∃ c ∈ s.configurations, c.group ∈ ["h"]) ∧
      ((s.configurations.filter (["h"].contains ·.group)).map fun c =>
        (s.projects c).map (·.includeFiles)) = [[[]]] ∧
      ∀ m ∈ s.modules.values, ∀ p ∈ m.firstProjects (["h"].contains ·.group),
        FileSystem.empty.isFolder (Path.join "." p.identity.sourcePath) = false ∧ p.declaredPath = dotted)
    (by decide +kernel)
  obtain ⟨t, ht, hnt⟩ := exists_narrowsTo_behindDots ["h"] hn ht₀ (fun hb hc =>
    declaredConfigurations_wanted hc (by rw [groups_twoSpellings hb]; decide) hsome) hfirst
  exact ⟨t, ht, by rw [hnt.includedFiles_eq, hempty]⟩

end Dots

/-- The file is found for both configurations, by the source path as the first one of them spells it.
It is not found for the second one alone, since the path is too long as this one spells it. -/
theorem other_spelling_lost : ∃ s t,
    ResolvesTo (behindDots 2034) oneFile (twoSpellings "Core" dotted) s ∧
      ResolvesTo { behindDots 2034 with groups := ["h"] } oneFile (twoSpellings "Core" dotted) t ∧
      includedFiles s = [[["a.txt"]], [["a.txt"]]] ∧ includedFiles t = [[[]]] ∧
      ¬ s.NarrowsTo (["h"].contains ·.group) t := by
  -- Each of the dots takes two bytes: the long spelling is over the limit, and the short one is not.
  obtain ⟨_, s, -, hs, -, hfiles⟩ := exists_behindDots (n := 2034) (by omega)
  obtain ⟨t, ht, hempty⟩ := exists_behindDots_second (n := 2034) (by omega)
  refine ⟨s, t, hs, ht, hfiles, hempty, fun h => ?_⟩
  have hmem : [[]] ∈ includedFiles t := by
    rw [hempty]
    exact List.mem_singleton.mpr rfl
  rw [h.includedFiles_eq] at hmem
  obtain ⟨c, hc, he⟩ := List.mem_map.mp hmem
  have hmem : [[]] ∈ includedFiles s := he ▸ List.mem_map_of_mem (List.mem_of_mem_filter hc)
  rw [hfiles] at hmem
  simp at hmem

end Solution

end BuildPlan
