import BuildPlan.Proofs.Files.Names
import BuildPlan.Proofs.Files.Reaching

/-! # The selected files

Whether a file is selected depends on the path to it and on which patterns there are, not on their order.
So what is selected below a folder are the files that the walk reaches and whose paths the patterns
choose, all of them and each once, or it is an error if the folder or something that the walk reaches
cannot be read (`selectFiles_exact`). -/

namespace BuildPlan

/-! ### Patterns -/

/-- The pattern selects a path: it is met by what the text of the pattern means, or it is not and the
pattern is negated. -/
def Pattern.Selects (p : Pattern) (path : String) : Prop :=
  ∃ m, p.matcher? = some m ∧ (m.hits (normalizePath path.toList) = true ↔ p.negated = false)

/-- Some pattern includes the path, and none excludes it. -/
def Chosen (includes excludes : List Pattern) (path : String) : Prop :=
  (∃ p ∈ includes, p.Selects path) ∧ ∀ p ∈ excludes, ¬ p.Selects path

namespace Pattern

variable {p : Pattern} {c : CompiledPattern} {ps : List Pattern} {cs : List CompiledPattern}

theorem selects_iff {m : Matcher} (h : p.matcher? = some m) {path : String} :
    p.Selects path ↔ (m.hits (normalizePath path.toList) = true ↔ p.negated = false) := by
  constructor
  · rintro ⟨m', hm', hhits⟩
    cases h.symm.trans hm'
    exact hhits
  · exact fun hhits => ⟨m, h, hhits⟩

instance (p : Pattern) (path : String) : Decidable (p.Selects path) :=
  match h : p.matcher? with
  | none => isFalse fun ⟨_, hm, _⟩ => Option.some_ne_none _ (hm.symm.trans h)
  | some _ => decidable_of_iff _ (selects_iff h).symm

theorem isMatch_iff (h : p.compile = .ok c) (path : String) :
    c.isMatch path = true ↔ p.Selects path := by
  unfold compile at h
  split at h
  · next m hm =>
    cases h
    rw [selects_iff hm]
    unfold CompiledPattern.isMatch
    cases p.negated <;> simp
  · cases h

theorem any_isMatch_iff : ∀ {ps : List Pattern} {cs : List CompiledPattern},
    compileAll ps = .ok cs → ∀ path, cs.any (·.isMatch path) = true ↔ ∃ p ∈ ps, p.Selects path
  | [], cs, h, path => by
    cases h
    simp
  | p :: ps, cs, h, path => by
    unfold compileAll at h
    rw [List.mapM_cons] at h
    obtain ⟨c, hc, h⟩ := Fallible.bind_ok.mp h
    obtain ⟨more, hmore, h⟩ := Fallible.bind_ok.mp h
    cases h
    rw [List.any_cons, Bool.or_eq_true, isMatch_iff hc, any_isMatch_iff hmore]
    simp

theorem exists_compileAll : ∀ {ps : List Pattern}, (∀ p ∈ ps, p.compile.isOk = true) →
    ∃ cs, compileAll ps = .ok cs
  | [], _ => ⟨[], rfl⟩
  | p :: ps, h => by
    obtain ⟨hp, hps⟩ := List.forall_mem_cons.mp h
    obtain ⟨c, hc⟩ := Fallible.exists_of_isOk hp
    obtain ⟨cs, hcs⟩ := exists_compileAll hps
    unfold compileAll at hcs ⊢
    rw [List.mapM_cons, hc, hcs]
    exact ⟨c :: cs, rfl⟩

end Pattern

instance (includes excludes : List Pattern) (path : String) :
    Decidable (Chosen includes excludes path) :=
  inferInstanceAs (Decidable (_ ∧ _))

section Chosen
variable {includes excludes includes' excludes' : List Pattern} {path : String}

theorem isSelected_iff {included excluded : List CompiledPattern}
    (hi : Pattern.compileAll includes = .ok included) (hx : Pattern.compileAll excludes = .ok excluded)
    (way : List String) :
    isSelected included excluded way = true ↔ Chosen includes excludes (joinNames way) := by
  unfold isSelected Chosen
  dsimp only
  rw [Bool.and_eq_true, Bool.not_eq_true', ← Bool.not_eq_true, Pattern.any_isMatch_iff hi,
    Pattern.any_isMatch_iff hx]
  simp only [not_exists, not_and]

theorem chosen_congr (hi : ∀ p, p ∈ includes' ↔ p ∈ includes) (hx : ∀ p, p ∈ excludes' ↔ p ∈ excludes) :
    Chosen includes' excludes' path ↔ Chosen includes excludes path := by
  unfold Chosen
  simp only [hi, hx]

/-- More patterns that include and fewer that exclude choose more. -/
theorem Chosen.mono (hi : includes ⊆ includes') (hx : excludes' ⊆ excludes)
    (h : Chosen includes excludes path) : Chosen includes' excludes' path := by
  obtain ⟨⟨p, hp, hselects⟩, hnot⟩ := h
  exact ⟨⟨p, hi hp, hselects⟩, fun q hq => hnot q (hx hq)⟩

end Chosen

/-! ### Files -/

section Select
variable {fs : FileSystem} {includes excludes : List Pattern} {folder : String}

/-- A set of paths: each is there once, and they are in order. -/
structure IsPathSet (files : List String) : Prop where
  nodup : files.Nodup
  ordered : files.Pairwise fun f g => Path.le (Path.parts f) (Path.parts g) = true

/-- Different ways of names make a set of paths, once they are in order. -/
theorem isPathSet_mergeSort {ways : List (List String)} (hnodup : ways.Nodup)
    (hnames : ∀ w ∈ ways, w ≠ [] ∧ ∀ n ∈ w, '/' ∉ n.toList) :
    IsPathSet ((ways.mergeSort Path.le).map joinNames) := by
  have hparts : ∀ w ∈ ways.mergeSort Path.le, Path.parts (joinNames w) = w := fun w hw => by
    obtain ⟨hne, hslash⟩ := hnames w (List.mem_mergeSort.mp hw)
    exact Path.parts_joinNames hne hslash
  have hordered : (ways.mergeSort Path.le).Pairwise fun v w => Path.le v w = true :=
    @List.pairwise_mergeSort _ Path.le (fun _ _ _ => Path.le_trans) Path.le_total ways
  constructor
  · refine List.Nodup.map_on (fun v hv w hw h => ?_) ((List.mergeSort_perm ways _).nodup_iff.mpr hnodup)
    rw [← hparts v hv, ← hparts w hw, h]
  · refine List.pairwise_map.mpr (hordered.imp_of_mem fun hv hw h => ?_)
    rwa [hparts _ hv, hparts _ hw]

/-- The patterns can be read, and there is one that includes files. -/
structure Usable (includes excludes : List Pattern) : Prop where
  includes_ne : includes ≠ []
  compile : ∀ p ∈ includes ++ excludes, p.compile.isOk = true

theorem Usable.congr {includes' excludes' : List Pattern} (h : Usable includes excludes)
    (hi : ∀ p, p ∈ includes' ↔ p ∈ includes) (hx : ∀ p, p ∈ excludes' ↔ p ∈ excludes) :
    Usable includes' excludes' := by
  obtain ⟨p, hp⟩ := List.exists_mem_of_ne_nil _ h.includes_ne
  refine ⟨List.ne_nil_of_mem ((hi p).mpr hp), fun q hq => h.compile q ?_⟩
  rw [List.mem_append] at hq ⊢
  rwa [hi, hx] at hq

/-- Where a folder is, usable patterns select among the files that the walk finds. -/
theorem selectFiles_eq (hfolder : fs.isFolder folder = true) (h : Usable includes excludes) :
    ∃ included excluded, Pattern.compileAll includes = .ok included ∧
      Pattern.compileAll excludes = .ok excluded ∧
      selectFiles fs includes excludes folder =
        match fs.files folder with
        | none => ⟨[], .error ((Cause.unreadable folder).failure.within ("walking " ++ folder))⟩
        | some ways =>
          ⟨[], .ok (((ways.filter (isSelected included excluded)).mergeSort Path.le).map joinNames)⟩ := by
  have hcompile := List.forall_mem_append.mp h.compile
  obtain ⟨included, hi⟩ := Pattern.exists_compileAll hcompile.1
  obtain ⟨excluded, hx⟩ := Pattern.exists_compileAll hcompile.2
  refine ⟨included, excluded, hi, hx, ?_⟩
  unfold selectFiles
  rw [if_neg (by simpa using h.includes_ne), hi, hx, hfolder]
  cases fs.files folder <;> rfl

/-- What is selected among the files that were found are those that the patterns choose. -/
theorem selectFiles_of_files {ways : List (List String)} (hfolder : fs.isFolder folder = true)
    (h : Usable includes excludes) (hways : fs.files folder = some ways) :
    ∃ files, selectFiles fs includes excludes folder = ⟨[], .ok files⟩ ∧ IsPathSet files ∧
      ∀ f, f ∈ files ↔ ∃ w ∈ ways, f = joinNames w ∧ Chosen includes excludes f := by
  obtain ⟨included, excluded, hi, hx, heq⟩ := selectFiles_eq hfolder h
  rw [hways] at heq
  refine ⟨_, heq, isPathSet_mergeSort ?_ fun w hw => ?_, fun f => ?_⟩
  · exact (FileSystem.finds_of_files hways).2.1.filter _
  · obtain ⟨p, e, hreaches, -, rfl⟩ :=
      ((FileSystem.finds_of_files hways).2.2 w).mp (List.mem_of_mem_filter hw)
    refine ⟨List.append_ne_nil_of_right_ne_nil _ (List.cons_ne_nil _ _), fun n hn hslash => ?_⟩
    have hname := hreaches.isName_wayTo n hn
    simp [Node.isName, hslash] at hname
  · simp only [List.mem_map, List.mem_mergeSort, List.mem_filter, isSelected_iff hi hx]
    constructor
    · rintro ⟨w, ⟨hw, hchosen⟩, rfl⟩
      exact ⟨w, hw, rfl, hchosen⟩
    · rintro ⟨w, hw, rfl, hchosen⟩
      exact ⟨w, ⟨hw, hchosen⟩, rfl⟩

theorem selectFiles_of_not_files (hfolder : fs.isFolder folder = true) (h : Usable includes excludes)
    (hways : fs.files folder = none) :
    selectFiles fs includes excludes folder =
      ⟨[], .error ((Cause.unreadable folder).failure.within ("walking " ++ folder))⟩ := by
  obtain ⟨_, _, -, -, heq⟩ := selectFiles_eq hfolder h
  rwa [hways] at heq

/-- Patterns in another order or number select the same. -/
theorem selectFiles_congr_mem {includes' excludes' : List Pattern}
    (hfolder : fs.isFolder folder = true) (h : Usable includes excludes)
    (hi : ∀ p, p ∈ includes' ↔ p ∈ includes) (hx : ∀ p, p ∈ excludes' ↔ p ∈ excludes) :
    selectFiles fs includes' excludes' folder = selectFiles fs includes excludes folder := by
  obtain ⟨included, excluded, hincluded, hexcluded, heq⟩ := selectFiles_eq hfolder h
  obtain ⟨included', excluded', hincluded', hexcluded', heq'⟩ :=
    selectFiles_eq hfolder (h.congr hi hx)
  have hselected : isSelected included' excluded' = isSelected included excluded := by
    funext way
    rw [Bool.eq_iff_iff, isSelected_iff hincluded hexcluded, isSelected_iff hincluded' hexcluded',
      chosen_congr hi hx]
  rw [heq, heq', hselected]

/-- More patterns that include and fewer that exclude select more, where anything can be selected. -/
theorem selectFiles_mono {includes' excludes' : List Pattern} (hfolder : fs.isFolder folder = true)
    (h : Usable includes excludes) (h' : Usable includes' excludes') (hi : includes ⊆ includes')
    (hx : excludes' ⊆ excludes) :
    (∃ files files', selectFiles fs includes excludes folder = ⟨[], .ok files⟩ ∧
      selectFiles fs includes' excludes' folder = ⟨[], .ok files'⟩ ∧ files ⊆ files') ∨
    ∃ e, selectFiles fs includes excludes folder = ⟨[], .error e⟩ ∧
      selectFiles fs includes' excludes' folder = ⟨[], .error e⟩ := by
  cases hways : fs.files folder with
  | none =>
    exact Or.inr ⟨_, selectFiles_of_not_files hfolder h hways,
      selectFiles_of_not_files hfolder h' hways⟩
  | some ways =>
    obtain ⟨files, heq, -, hfiles⟩ := selectFiles_of_files hfolder h hways
    obtain ⟨files', heq', -, hfiles'⟩ := selectFiles_of_files hfolder h' hways
    refine Or.inl ⟨files, files', heq, heq', fun f hf => ?_⟩
    obtain ⟨w, hw, hname, hchosen⟩ := (hfiles f).mp hf
    exact (hfiles' f).mpr ⟨w, hw, hname, hchosen.mono hi hx⟩

/-- **The selected files are exact, or it is an error.** Let patterns be usable, and let a folder be
there. If it can be listed and all that a walk below it reaches can be read, the selected files are the
files that are reached and whose paths, from the folder on, the patterns choose, each of them once and in
order. If something cannot be read, it is an error. Patterns in another order, or the same ones more than
once, select the same. And if there are more patterns that include, or fewer that exclude, no file is
selected less. -/
theorem selectFiles_exact (hfolder : fs.isFolder folder = true) (h : Usable includes excludes) :
    (fs.AllReadable folder →
      ∃ files, selectFiles fs includes excludes folder = ⟨[], .ok files⟩ ∧ IsPathSet files ∧
        ∀ f, f ∈ files ↔ ∃ p e, fs.Reaches folder p e ∧ fs.IsFile p e ∧
          f = joinNames (p.wayTo e.1) ∧ Chosen includes excludes f) ∧
    (¬ fs.AllReadable folder →
      selectFiles fs includes excludes folder =
        ⟨[], .error ((Cause.unreadable folder).failure.within ("walking " ++ folder))⟩) ∧
    (∀ includes' excludes', (∀ p, p ∈ includes' ↔ p ∈ includes) →
      (∀ p, p ∈ excludes' ↔ p ∈ excludes) →
        selectFiles fs includes' excludes' folder = selectFiles fs includes excludes folder) ∧
    ∀ includes' excludes', Usable includes' excludes' → includes ⊆ includes' →
      excludes' ⊆ excludes →
        (∃ files files', selectFiles fs includes excludes folder = ⟨[], .ok files⟩ ∧
          selectFiles fs includes' excludes' folder = ⟨[], .ok files'⟩ ∧ files ⊆ files') ∨
        ∃ e, selectFiles fs includes excludes folder = ⟨[], .error e⟩ ∧
          selectFiles fs includes' excludes' folder = ⟨[], .error e⟩ := by
  refine ⟨fun hreadable => ?_, fun hnot => ?_, fun includes' excludes' => selectFiles_congr_mem hfolder h,
    fun includes' excludes' h' => selectFiles_mono hfolder h h'⟩
  · obtain ⟨ways, hways⟩ := FileSystem.exists_files_of_readable hreadable
    obtain ⟨files, heq, hset, hfiles⟩ := selectFiles_of_files hfolder h hways
    refine ⟨files, heq, hset, fun f => ?_⟩
    rw [hfiles]
    constructor
    · rintro ⟨w, hw, hname, hchosen⟩
      obtain ⟨p, e, hreaches, hfile, rfl⟩ := ((FileSystem.finds_of_files hways).2.2 w).mp hw
      exact ⟨p, e, hreaches, hfile, hname, hchosen⟩
    · rintro ⟨p, e, hreaches, hfile, hname, hchosen⟩
      exact ⟨p.wayTo e.1, ((FileSystem.finds_of_files hways).2.2 _).mpr ⟨p, e, hreaches, hfile, rfl⟩,
        hname, hchosen⟩
  · refine selectFiles_of_not_files hfolder h (Option.eq_none_iff_forall_ne_some.mpr fun ways hways => ?_)
    exact hnot (FileSystem.finds_of_files hways).1

end Select

/-- Sources, some of which are generated, and some behind links: an absolute one, and one that goes up
above the top. Beside them there are a folder with a link to itself, and one that cannot be listed. -/
def linked : FileSystem :=
  ⟨.folder .full
    [("home", .folder .full
      [("src", .folder .full
        [("a.cs", .file false []), ("gen", .folder .full [("b.cs", .file true [])]),
          ("other", .link "/lib"), ("more", .link "../../../../lib")])]),
      ("lib", .folder .full [("c.cs", .file true []), ("c.h", .file true [])]),
      ("looped", .folder .full [("a.cs", .file true []), ("loop", .link ".")]),
      ("closed", .folder ⟨false, true⟩ [("a.cs", .file true [])])],
    ["home"], by decide +kernel, by decide +kernel⟩

/-- Sources, but not generated ones. -/
def sources : List Pattern × List Pattern := ([⟨.glob, "*.cs", false⟩], [⟨.glob, "gen/*", false⟩])

theorem selectFiles_exact_linked :
    (∃ files, selectFiles linked sources.1 sources.2 "/home/src" = ⟨[], .ok files⟩ ∧ IsPathSet files ∧
      ∀ f, f ∈ files ↔ ∃ p e, linked.Reaches "/home/src" p e ∧ linked.IsFile p e ∧
        f = joinNames (p.wayTo e.1) ∧ Chosen sources.1 sources.2 f) ∧
    linked.files "/home/src" = some [["a.cs"], ["gen", "b.cs"], ["other", "c.cs"], ["other", "c.h"],
      ["more", "c.cs"], ["more", "c.h"]] ∧
    Chosen sources.1 sources.2 "other/c.cs" ∧ ¬ Chosen sources.1 sources.2 "gen/b.cs" ∧
    ∀ folder ∈ ["../looped", "/closed"], selectFiles linked sources.1 sources.2 folder =
      ⟨[], .error ((Cause.unreadable folder).failure.within ("walking " ++ folder))⟩ := by
  have husable : Usable sources.1 sources.2 := ⟨by decide, by decide +kernel⟩
  have hways : linked.files "/home/src" = some [["a.cs"], ["gen", "b.cs"], ["other", "c.cs"],
      ["other", "c.h"], ["more", "c.cs"], ["more", "c.h"]] := by decide +kernel
  refine ⟨(selectFiles_exact (by decide +kernel) husable).1 (FileSystem.finds_of_files hways).1, hways,
    by decide +kernel, by decide +kernel, fun folder hfolder => ?_⟩
  have hthere : ∀ folder ∈ ["../looped", "/closed"],
      linked.isFolder folder = true ∧ linked.files folder = none := by decide +kernel
  refine (selectFiles_exact (hthere folder hfolder).1 husable).2.1 fun hreadable => ?_
  obtain ⟨ways, hfound⟩ := FileSystem.exists_files_of_readable hreadable
  cases (hthere folder hfolder).2.symm.trans hfound

end BuildPlan
