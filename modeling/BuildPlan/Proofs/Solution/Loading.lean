import BuildPlan.Proofs.Files.Dotted
import BuildPlan.Proofs.Solution.Selection
import BuildPlan.Proofs.Solution.Wrapping
import Mathlib.Data.List.TakeWhile

/-! # Loading a document from a file

A document that is read from a file is resolved as its text is, except for the folder to which source
paths are relative: the folder of the file, or a dot. For a file that is named without a folder the
first one is the empty path, and a source path behind it is the path as it stands, without a dot. So
both ways give the same solution if files are found alike with the dot and without it, which a walk does
for every source path but the empty one (`Solution.fromFile_iff_parse`). The empty path is the folder in
which one works behind a dot, and nowhere without it, and its files are lost on the way through the file
(`Solution.emptySource_lost`). -/

namespace BuildPlan

open BuildPlan.Variable

/-- What is found for a project below the first folder is found for it below the second. -/
def Project.FoundBelow (matcher : PatternMatcher) (first second : String) (p : Project) : Prop :=
  ∀ files, (matcher (p.settings.patterns PropertyName.includeFiles)
      (p.settings.patterns PropertyName.excludeFiles)
      (Path.join first p.identity.sourcePath)).result = .ok files →
    matcher (p.settings.patterns PropertyName.includeFiles)
        (p.settings.patterns PropertyName.excludeFiles) (Path.join second p.identity.sourcePath) =
      matcher (p.settings.patterns PropertyName.includeFiles)
        (p.settings.patterns PropertyName.excludeFiles) (Path.join first p.identity.sourcePath)

/-- The context with source paths relative to another folder. -/
def ModuleContext.below (ctx : ModuleContext) (root : String) : ModuleContext :=
  { ctx with searchRoot := root }

/-! ### Modules below another folder -/

namespace Module

variable {ctx : ModuleContext} {root : String}

section Projects
variable {module : String} {c : Configuration} {b : Bindings} {settings : Dictionary String Settings}

theorem resolveProject_below {known : Identities} {entry : String × String}
    {r : Option (Project × Identities)}
    (h : (resolveProject ctx module c b settings known entry).result = .ok r)
    (hr : ∀ p known', r = some (p, known') → p.FoundBelow ctx.matcher ctx.searchRoot root) :
    resolveProject (ctx.below root) module c b settings known entry =
      resolveProject ctx module c b settings known entry := by
  unfold resolveProject at h ⊢
  obtain ⟨d, hd, h⟩ := Logged.result_bind_ok.mp h
  refine Logged.bind_congr_ok fun d' hd' => ?_
  obtain rfl : d = d' := Except.ok.inj (hd.symm.trans hd')
  dsimp only at h ⊢
  split at h
  · cases h
  · next compiled hc =>
    obtain ⟨expanded, he, h⟩ := Logged.result_bind_ok.mp h
    refine Logged.bind_congr_ok fun expanded' he' => ?_
    obtain rfl : expanded = expanded' := Except.ok.inj (he.symm.trans he')
    split at h
    · next hx =>
      rw [if_pos hx]
      exact if_pos hx
    · next hx =>
      rw [if_neg hx]
      refine (if_neg hx).trans ?_
      obtain ⟨current, hcur, h⟩ := Logged.result_bind_ok.mp h
      refine Logged.bind_congr_ok fun current' hcur' => ?_
      obtain rfl : current = current' := Except.ok.inj (hcur.symm.trans hcur')
      obtain ⟨⟨identity, known₁⟩, hmet, h⟩ := Logged.result_bind_ok.mp h
      refine Logged.bind_congr_ok fun met hmet' => ?_
      obtain rfl : (identity, known₁) = met := Except.ok.inj (hmet.symm.trans hmet')
      obtain ⟨files, hf, h⟩ := Logged.result_bind_ok.mp h
      cases h
      have hfound := hr _ _ rfl files (Fallible.within_ok.mp hf)
      dsimp only at hfound ⊢
      rw [show (ctx.below root).matcher = ctx.matcher from rfl,
        show (ctx.below root).searchRoot = root from rfl, hfound]

theorem resolveProjects_below : ∀ {entries : List (String × String)} {known known' : Identities}
    {ps out : Dictionary String Project},
      (resolveProjects ctx module c b settings known ps entries).result = .ok (known', out) →
        (∀ p ∈ out.values, p.FoundBelow ctx.matcher ctx.searchRoot root) →
          resolveProjects (ctx.below root) module c b settings known ps entries =
            resolveProjects ctx module c b settings known ps entries
  | [], _, _, _, _, _, _ => rfl
  | entry :: entries, known, known', ps, out, h, hout => by
    rw [resolveProjects, resolveProjects]
    rcases resolveProjects_cons_ok.mp h with ⟨hnone, h⟩ | ⟨p, known₁, hp, hfree, h⟩
    · rw [resolveProject_below hnone fun _ _ hr => by cases hr]
      refine Logged.bind_congr_ok fun r hr => ?_
      obtain rfl : none = r := Except.ok.inj (hnone.symm.trans hr)
      exact resolveProjects_below h hout
    · have hmem : p ∈ out.values :=
        Dictionary.mem_values_of_insert (entries_subset_of_resolveProjects h)
      rw [resolveProject_below hp fun q _ hq => by
        cases hq
        exact hout p hmem]
      refine Logged.bind_congr_ok fun r hr => ?_
      obtain rfl : some (p, known₁) = r := Except.ok.inj (hp.symm.trans hr)
      dsimp only
      rw [if_neg (by simp [hfree]), if_neg (by simp [hfree])]
      exact resolveProjects_below h hout

end Projects

section Variants
variable {object : Object} {children : List Object} {template : Template} {s t : Session}

theorem resolveVariant_below {known known' : Identities} {c : Configuration}
    {variant : TemplateVariant} {ps : Dictionary String Project}
    (h : (resolveVariant ctx object children template known c variant).runIn s =
      (.ok (known', ps), t))
    (hps : ∀ p ∈ ps.values, p.FoundBelow ctx.matcher ctx.searchRoot root) :
    (resolveVariant (ctx.below root) object children template known c variant).runIn s =
      (.ok (known', ps), t) := by
  obtain ⟨body, u, hbody, h⟩ := runIn_resolveVariant_ok.mp h
  refine runIn_resolveVariant_ok.mpr ⟨body, u, hbody, ?_⟩
  rcases h with h | ⟨hx, own, v, hown, hprojects, ht⟩
  · exact Or.inl h
  · refine Or.inr ⟨hx, own, v, hown, ?_⟩
    rw [show bindingsIn (ctx.below root) object template c = bindingsIn ctx object template c from rfl,
      resolveProjects_below hprojects hps]
    exact ⟨hprojects, ht⟩

theorem resolveVariants_below : ∀ {vs : List (Configuration × TemplateVariant)} {known : Identities}
    {out : List (Configuration × Dictionary String Project)} {s t : Session},
      (resolveVariants ctx object children template known vs).runIn s = (.ok out, t) →
        (∀ e ∈ out, ∀ p ∈ e.2.values, p.FoundBelow ctx.matcher ctx.searchRoot root) →
          (resolveVariants (ctx.below root) object children template known vs).runIn s = (.ok out, t)
  | [], _, _, _, _, h, _ => h
  | (c, variant) :: vs, known, out, s, t, h, hout => by
    obtain ⟨known', ps, more, u, hv, hmore, rfl⟩ := runIn_resolveVariants_cons_ok.mp h
    obtain ⟨hps, hout⟩ := List.forall_mem_cons.mp hout
    exact runIn_resolveVariants_cons_ok.mpr ⟨known', ps, more, u, resolveVariant_below hv hps,
      resolveVariants_below hmore hout, rfl⟩

theorem resolve_below {m : Module} (h : (resolve ctx object template).runIn s = (.ok m, t))
    (hm : ∀ c, ∀ p ∈ m.projects c, p.FoundBelow ctx.matcher ctx.searchRoot root) :
    (resolve (ctx.below root) object template).runIn s = (.ok m, t) := by
  obtain ⟨children, variants, hch, hv, rfl⟩ := runIn_resolve_ok.mp h
  have hkeys : (variants.map Prod.fst).Nodup :=
    keys_of_runIn_resolveVariants hv ▸ template.variants.distinct
  refine runIn_resolve_ok.mpr ⟨children, variants, hch, resolveVariants_below hv ?_, rfl⟩
  intro e he p hp
  obtain ⟨entry, hentry, rfl⟩ := List.mem_map.mp hp
  refine hm e.1 _ (mem_projects.mpr ⟨e, ?_, rfl, entry, hentry, rfl⟩)
  rwa [Dictionary.entries_ofList hkeys]

end Variants

end Module

namespace Solution

variable {o : Options} {fs : FileSystem} {s t : Session} {solution : Solution}

theorem resolveModules_below {ctx : ModuleContext} {root : String}
    {templates : Dictionary String Template} : ∀ {os : List Object}
      {modules out : Dictionary String Module} {s t : Session},
        (resolveModules ctx templates modules os).runIn s = (.ok out, t) →
          (∀ m ∈ out.values, ∀ c, ∀ p ∈ m.projects c, p.FoundBelow ctx.matcher ctx.searchRoot root) →
            (resolveModules (ctx.below root) templates modules os).runIn s = (.ok out, t)
  | [], _, _, _, _, h, _ => h
  | o :: os, modules, out, s, t, h, hout => by
    obtain ⟨hc, name, template, m, u, hb, hget, hm, h⟩ := runIn_resolveModules_cons_ok.mp h
    have hmem : m ∈ out.values :=
      Dictionary.mem_values_of_insert (entries_subset_of_resolveModules h)
    exact runIn_resolveModules_cons_ok.mpr ⟨hc, name, template, m, u, hb, hget,
      Module.resolve_below hm (hout m hmem), resolveModules_below h hout⟩

/-- **A solution whose projects find the same below another folder is resolved there, too.** -/
theorem resolve_below {d : Document} {root : Option String}
    (h : (resolve o fs d).runIn s = (.ok solution, t))
    (hfound : ∀ c, ∀ p ∈ solution.projects c,
      p.FoundBelow (o.matcher fs) (o.searchRoot.getD ".") (root.getD ".")) :
    (resolve { o with searchRoot := root } fs d).runIn s = (.ok solution, t) := by
  obtain ⟨body, cs, hb, hcs, h⟩ := runIn_resolve_ok.mp h
  obtain ⟨resolved, templates, modules, u, v, hs, hk, ht, hm, rfl, hchecks⟩ :=
    runIn_resolveBody_ok.mp h
  refine runIn_resolve_ok.mpr ⟨body, cs, hb, hcs, runIn_resolveBody_ok.mpr
    ⟨resolved, templates, modules, u, v, hs, hk, ht, ?_, rfl, hchecks⟩⟩
  refine resolveModules_below hm fun m hmem c p hp => hfound c p ?_
  obtain ⟨e, he, rfl⟩ := List.mem_map.mp hmem
  exact mem_projects.mpr ⟨e, he, hp⟩

end Solution

/-! ### A file without a folder -/

theorem Compile.runIn_ofFallible_bind_ok {α β : Type} {r : Fallible α} {f : α → Compile β} {b : β}
    {s t : Session} : (ofFallible r >>= f).runIn s = (.ok b, t) ↔
      ∃ a, r = .ok a ∧ (f a).runIn s = (.ok b, t) := by
  simp only [runIn_bind_ok, runIn_ofFallible_ok]
  constructor
  · rintro ⟨a, _, ⟨ha, rfl⟩, h⟩
    exact ⟨a, ha, h⟩
  · rintro ⟨a, ha, h⟩
    exact ⟨a, s, ⟨ha, rfl⟩, h⟩

namespace Path

theorem stripEnd_of_slash_notMem {s : List Char} (h : '/' ∉ s) : stripEnd s = s := by
  unfold stripEnd
  split
  · simp at h
  · simp at h
  · simp at h
  · rfl

/-- The folder of a file that is named without one is the empty path. -/
theorem parent?_of_slash_notMem {file : String} (hne : file ≠ "") (h : '/' ∉ file.toList) :
    parent? file = some "" := by
  have hrev : '/' ∉ file.toList.reverse := fun hm => h (List.mem_reverse.mp hm)
  have hslash : file.toList.reverse ≠ ['/'] := fun he => hrev (he ▸ List.mem_singleton.mpr rfl)
  have hdrop : file.toList.reverse.dropWhile (· != '/') = [] :=
    List.dropWhile_eq_nil_iff.mpr fun c hc => bne_iff_ne.mpr fun he => hrev (he ▸ hc)
  unfold parent?
  rw [stripEnd_of_slash_notMem hrev]
  simp [hne, hslash, hdrop]

theorem join_empty (path : String) : join "" path = path := by
  simp [join]

end Path

/-- The project includes no files, or its source path is not empty and there is room for a dot in front
of the paths below it. -/
def Project.ReadsBehindDot (fs : FileSystem) (p : Project) : Prop :=
  p.settings.patterns PropertyName.includeFiles = [] ∨
    p.identity.sourcePath ≠ "" ∧ fs.RoomForDot p.identity.sourcePath

/-- Below a dot and below the empty path the same is found for the project. -/
def Project.FoundAlike (matcher : PatternMatcher) (p : Project) : Prop :=
  p.FoundBelow matcher "" "." ∧ p.FoundBelow matcher "." ""

/-- Files that can be read behind the dot are selected alike. -/
theorem Project.ReadsBehindDot.foundAlike {fs : FileSystem} {p : Project} (h : p.ReadsBehindDot fs) :
    p.FoundAlike (selectFiles fs) := by
  unfold FoundAlike FoundBelow
  rw [Path.join_empty]
  rcases h with h | ⟨hne, hroom⟩
  · simp only [h, selectFiles_nil, implies_true, and_self]
  · have hfolder := hroom.isFolder_eq hne
    have hfiles := hroom.files_eq hne
    exact ⟨fun _ => selectFiles_congr hfolder hfiles,
      fun _ => selectFiles_congr hfolder.symm hfiles.symm⟩

namespace Solution

section
variable {o : Options} {fs : FileSystem} {file source : String} {s t : Session} {solution : Solution}
  (ho : o.searchRoot = none) (hfile : '/' ∉ file.toList) (hread : fs.readText file = some source)
include ho hfile hread

/-- In a file without a folder, a document is resolved with source paths relative to the empty path. -/
theorem runIn_fromFile_ok : (fromFile o fs file).runIn s = (.ok solution, t) ↔
    ∃ d, readDocument source = .ok d ∧
      (resolve { o with searchRoot := some "" } fs d).runIn s = (.ok solution, t) := by
  have hne : file ≠ "" := by
    rintro rfl
    cases hread
  unfold fromFile
  rw [hread, ho, Path.parent?_of_slash_notMem hne hfile]
  dsimp only [Option.none_or]
  simp only [Compile.runIn_ofFallible_bind_ok, Fallible.within_ok]

/-- **A document in a file that is named without a folder is resolved as its text is**, to the same
solution with the same warnings: one way gives a solution if the other one does, if what finds files finds
them alike with a dot in front of the source paths and without it. Files that are selected by a walk are
found alike if the projects that include files have source paths that are not empty, and there is room for
a dot in front of the paths below them. -/
theorem fromFile_iff_parse :
    ((∀ c, ∀ p ∈ solution.projects c, p.FoundAlike (o.matcher fs)) →
      ((fromFile o fs file).runIn s = (.ok solution, t) ↔
        (parse o fs source).runIn s = (.ok solution, t))) ∧
    (o.matcher = selectFiles → (∀ c, ∀ p ∈ solution.projects c, p.ReadsBehindDot fs) →
      ((fromFile o fs file).runIn s = (.ok solution, t) ↔
        (parse o fs source).runIn s = (.ok solution, t))) := by
  have hiff : (∀ c, ∀ p ∈ solution.projects c, p.FoundAlike (o.matcher fs)) →
      ((fromFile o fs file).runIn s = (.ok solution, t) ↔
        (parse o fs source).runIn s = (.ok solution, t)) := by
    intro halike
    rw [runIn_fromFile_ok ho hfile hread, parse, Compile.runIn_ofFallible_bind_ok]
    obtain ⟨environment, constants, groups, root, matcher⟩ := o
    obtain rfl : root = none := ho
    refine exists_congr fun d => and_congr_right fun _ => ⟨fun h => ?_, fun h => ?_⟩
    · exact resolve_below h fun c p hp => (halike c p hp).1
    · exact resolve_below h fun c p hp => (halike c p hp).2
  refine ⟨hiff, fun hwalk hdot => hiff fun c p hp => ?_⟩
  rw [hwalk]
  exact (hdot c p hp).foundAlike

end

/-- A document with one project, which includes text files where the document is. -/
def dotSource : String :=
  "configuration g [ Debug: ]\ntemplate T \x7b add projects: P: S\n settings S \x7b\n" ++
    "set source path: \".\"\n set include files: glob \"*.txt\" \x7d \x7d\nmodule Core : T \x7b \x7d\n"

/-- The same with an empty source path. -/
def emptySource : String :=
  "configuration g [ Debug: ]\ntemplate T \x7b add projects: P: S\n settings S \x7b\n" ++
    "set source path: \"\"\n set include files: glob \"*.txt\" \x7d \x7d\nmodule Core : T \x7b \x7d\n"

/-- What is read in these documents. -/
def withOneSource (path : String) : Document :=
  ⟨[.group ⟨"g", [("Debug", .empty)]⟩,
    .object ⟨templateKind, "T", none⟩
      [.assignment ⟨.add, ["projects"], .pair "P" (.literal "S"), always⟩,
        .object ⟨settingsKind, "S", none⟩
          [.assignment ⟨.set, ["source", "path"], .literal path, always⟩,
            .assignment ⟨.set, ["include", "files"], .glob "*.txt" false, always⟩]],
    .object ⟨moduleKind, "Core", some "T"⟩ []]⟩

/-- A document in a file, with a text file beside it. -/
def beside (source : String) : FileSystem :=
  ⟨.folder .full [("f.solution", .file true source.toUTF8.data.toList), ("a.txt", .file true [])], [],
    rfl, rfl⟩

theorem ResolvesTo.exists_runIn {o : Options} {fs : FileSystem} {d : Document} {solution : Solution}
    (h : ResolvesTo o fs d solution) : ∃ t, (resolve o fs d).runIn .initial = (.ok solution, t) :=
  ⟨_, Prod.ext h rfl⟩

instance (fs : FileSystem) (p : Project) : Decidable (p.ReadsBehindDot fs) :=
  inferInstanceAs (Decidable (_ ∨ _))

/-- The file beside the document is found, from the file and from its text, if the source path is a
dot. -/
theorem fromFile_iff_parse_dot : ∃ solution t,
    (fromFile (.ofEnvironment []) (beside dotSource) "f.solution").runIn .initial =
        (.ok solution, t) ∧
      (parse (.ofEnvironment []) (beside dotSource) dotSource).runIn .initial =
        (.ok solution, t) ∧
      includedFiles solution = [[["a.txt"]]] := by
  have hread : Document.parse dotSource = .ok (withOneSource ".") := by decide +kernel
  obtain ⟨solution, hs, hfiles, hdot⟩ := exists_resolvesTo_with (.ofEnvironment [])
    (beside dotSource) (withOneSource ".")
    (fun s => includedFiles s = [[["a.txt"]]] ∧ ∀ e ∈ s.modules.entries, ∀ v ∈ e.2.variants.entries,
      ∀ p ∈ v.2.entries, p.2.ReadsBehindDot (beside dotSource)) (by decide +kernel)
  obtain ⟨t, ht⟩ := hs.exists_runIn
  have hparse : (parse (.ofEnvironment []) (beside dotSource) dotSource).runIn .initial =
      (.ok solution, t) := by
    rw [parse_eq_resolve hread]
    exact ht
  refine ⟨solution, t, ?_, hparse, hfiles⟩
  refine ((fromFile_iff_parse rfl (by decide) (by decide +kernel)).2 rfl fun c p hp => ?_).mpr hparse
  obtain ⟨e, he, hp⟩ := mem_projects.mp hp
  obtain ⟨v, hv, -, q, hq, rfl⟩ := Module.mem_projects.mp hp
  exact hdot e he v hv q hq

/-- If the source path is empty, the file beside the document is found from the text of the document and
not from its file. -/
theorem emptySource_lost : (beside emptySource).readText "f.solution" = some emptySource ∧
    ∃ fromPath fromText,
      ((fromFile (.ofEnvironment []) (beside emptySource) "f.solution").runIn .initial).1 =
          .ok fromPath ∧
        ((parse (.ofEnvironment []) (beside emptySource) emptySource).runIn .initial).1 =
          .ok fromText ∧
        includedFiles fromPath = [[[]]] ∧ includedFiles fromText = [[["a.txt"]]] := by
  have hread : Document.parse emptySource = .ok (withOneSource "") := by decide +kernel
  have hfile : (beside emptySource).readText "f.solution" = some emptySource := by
    decide +kernel
  obtain ⟨fromPath, hpath, hnone⟩ := exists_resolvesTo_with
    { Options.ofEnvironment [] with searchRoot := some "" } (beside emptySource) (withOneSource "")
    (includedFiles · = [[[]]]) (by decide +kernel)
  obtain ⟨fromText, htext, hfound⟩ := exists_resolvesTo_with (.ofEnvironment [])
    (beside emptySource) (withOneSource "") (includedFiles · = [[["a.txt"]]]) (by decide +kernel)
  refine ⟨hfile, fromPath, fromText, ?_, ?_, hnone, hfound⟩
  · have hd : readDocument emptySource = .ok (withOneSource "") := by
      unfold readDocument
      rw [hread]
    obtain ⟨t, ht⟩ := hpath.exists_runIn
    rw [(runIn_fromFile_ok rfl (by decide) hfile).mpr ⟨_, hd, ht⟩]
  · rw [parse_eq_resolve hread]
    exact htext

end Solution

end BuildPlan
