import BuildPlan.Proofs.Files.Spelling
import Mathlib.Data.List.Basic

/-! # A dot in front of a path

With a dot in front of it, a path that is not absolute leads to the same place, and the walks below find
the same files. The longer path is the one that may be too long: what can be reached behind the dot can be
reached without it (`files_of_dotted`), and the other way round as far as there is room for the dot
(`FileSystem.RoomForDot`). Only the empty path is different, since it leads nowhere, and behind a dot to
the folder in which one works. -/

namespace BuildPlan

namespace Path

/-- The second path is the first one, or the first one with a dot in front of it. -/
inductive Dotted : String → String → Prop
  | same (p : String) : Dotted p p
  | dot {p : String} (hne : p ≠ "") (hrel : isAbsolute p = false) : Dotted p ("./" ++ p)

section
variable {p q : String}

theorem join_of_isAbsolute {name : String} (h : isAbsolute name = true) (directory : String) :
    join directory name = name := by
  unfold join
  simp [h]

/-- A path may stand behind a dot, and an absolute one stays what it is. -/
theorem dotted_join_dot (hne : p ≠ "") : Dotted p (join "." p) := by
  cases hrel : isAbsolute p with
  | true =>
    rw [join_of_isAbsolute hrel]
    exact .same p
  | false =>
    rw [show join "." p = "./" ++ p from join_dots 0 hrel]
    exact .dot hne hrel

theorem join_of_ne {directory name : String} (hd : directory ≠ "")
    (hname : isAbsolute name = false) :
    join directory name =
      if directory.toList.getLast? = some '/' then directory ++ name else directory ++ "/" ++ name := by
  have hd : directory.isEmpty = false := Bool.eq_false_iff.mpr fun h => hd (String.isEmpty_iff.mp h)
  unfold join
  simp [hname, hd]

/-- A dot stays in front of the path when a name is put behind it. -/
theorem Dotted.join (h : Dotted p q) (name : String) : Dotted (join p name) (join q name) := by
  cases h with
  | same => exact .same _
  | dot hne hrel =>
    cases habs : isAbsolute name with
    | true =>
      rw [join_of_isAbsolute habs, join_of_isAbsolute habs]
      exact .same name
    | false =>
      obtain ⟨c, s, hp⟩ := List.exists_cons_of_ne_nil fun he => hne (String.toList_eq_nil_iff.mp he)
      have hlast : ("./" ++ p).toList.getLast? = p.toList.getLast? := by
        rw [String.toList_append, hp, List.getLast?_append_of_ne_nil _ (List.cons_ne_nil c s)]
      have hrest : ∀ t, Dotted (p ++ t) ("./" ++ (p ++ t)) := fun t => by
        have hlist : (p ++ t).toList = c :: (s ++ t.toList) := by
          rw [String.toList_append, hp]
          rfl
        refine .dot (fun he => ?_) ?_
        · rw [he] at hlist
          cases hlist
        · unfold isAbsolute at hrel ⊢
          rw [hlist]
          rwa [hp] at hrel
      rw [join_of_ne hne habs, join_of_ne (by simp) habs, hlast]
      split
      · rw [String.append_assoc]
        exact hrest _
      · rw [String.append_assoc, String.append_assoc, String.append_assoc]
        exact hrest _

end

end Path

namespace FileSystem

variable {fs : FileSystem} {p q : String}

/-! ### Following paths -/

/-- Without the dot a path leads where it leads behind the dot. -/
theorem locate_of_dotted (h : Path.Dotted p q) {l : Location} (hq : fs.locate q = some l) :
    fs.locate p = some l := by
  cases h with
  | same => exact hq
  | dot hne hrel =>
    rw [show "./" ++ p = Path.join (Path.dots 0) p from (Path.join_dots 0 hrel).symm,
      locate_dots 0 hne hrel] at hq
    split at hq
    · cases hq
    · next hroom =>
      have hempty : p.isEmpty = false := Bool.eq_false_iff.mpr fun h => hne (String.isEmpty_iff.mp h)
      have hlong : Path.isTooLong p = false := decide_eq_false (by omega)
      have horigin : origin p fs.working = fs.working := if_neg (Bool.eq_false_iff.mp hrel)
      unfold locate
      rw [hempty, hlong, horigin]
      exact hq

theorem isSome_locate_of_dotted (h : Path.Dotted p q) (hq : (fs.locate q).isSome) :
    (fs.locate p).isSome := by
  obtain ⟨l, hl⟩ := Option.isSome_iff_exists.mp hq
  rw [locate_of_dotted h hl]
  rfl

theorem isFolder_of_dotted (h : Path.Dotted p q) (hq : fs.isFolder q = true) :
    fs.isFolder p = true := by
  unfold isFolder at hq ⊢
  cases hl : fs.locate q with
  | none =>
    rw [hl] at hq
    cases hq
  | some l =>
    rw [hl] at hq
    rwa [locate_of_dotted h hl]

/-! ### Walking -/

/-- Behind links, walks find without the dot what they find behind it. -/
def Follow.Undots (follow : Follow) : Prop :=
  ∀ inside loc p q way ws, Path.Dotted p q → follow inside loc q way = some ws →
    follow inside loc p way = some ws

section Walk
variable {follow : Follow}

mutual

theorem filesAt_of_dotted (hf : follow.Undots) : ∀ {node : Node} {inside : List Location}
    {loc : Location} {p q : String} {way : List String} {ws : List (List String)},
      Path.Dotted p q → filesAt fs follow inside loc q way node = some ws →
        filesAt fs follow inside loc p way node = some ws
  | .file _ _, _, _, _, _, _, _, _, h => h
  | .folder access entries, _, _, p, q, _, _, hpq, h => by
    unfold filesAt at h ⊢
    split at h
    · next hopen =>
      obtain ⟨hlocate, hlist⟩ := Bool.and_eq_true_iff.mp hopen
      rw [if_pos (Bool.and_eq_true_iff.mpr ⟨isSome_locate_of_dotted hpq hlocate, hlist⟩)]
      exact filesIn_of_dotted hf hpq h
    · cases h
  | .link _, _, _, p, q, _, _, hpq, h => by
    unfold filesAt at h ⊢
    split at h
    · cases h
    · next target hq =>
      rw [locate_of_dotted hpq hq]
      dsimp only
      split at h
      · exact h
      · split at h
        · cases h
        · next hin =>
          rw [if_neg hin]
          exact hf _ _ _ _ _ _ hpq h
      · cases h

theorem filesIn_of_dotted (hf : follow.Undots) : ∀ {entries : List (String × Node)}
    {inside : List Location} {folder : Location} {p q : String} {way : List String}
    {ws : List (List String)}, Path.Dotted p q →
      filesIn fs follow inside folder q way entries = some ws →
        filesIn fs follow inside folder p way entries = some ws
  | [], _, _, _, _, _, _, _, h => h
  | (name, node) :: rest, _, _, p, q, _, _, hpq, h => by
    unfold filesIn at h ⊢
    obtain ⟨here, hhere, h⟩ := Option.bind_eq_some_iff.mp h
    obtain ⟨more, hmore, h⟩ := Option.bind_eq_some_iff.mp h
    exact Option.bind_eq_some_iff.mpr ⟨here, filesAt_of_dotted hf (hpq.join name) hhere,
      Option.bind_eq_some_iff.mpr ⟨more, filesIn_of_dotted hf hpq hmore, h⟩⟩

end

theorem undots_filesUpTo (fs : FileSystem) : ∀ n : Nat, Follow.Undots (filesUpTo fs n)
  | 0 => fun _ _ _ _ _ _ _ h => by cases h
  | n + 1 => fun _ _ _ _ _ _ hpq h => by
    unfold filesUpTo at h ⊢
    split at h
    · split at h
      · next hlist =>
        rw [if_pos hlist]
        exact filesIn_of_dotted (undots_filesUpTo fs n) hpq h
      · cases h
    · cases h

/-- **A walk finds without the dot what it finds behind it.** -/
theorem files_of_dotted {ws : List (List String)} (h : Path.Dotted p q) (hq : fs.files q = some ws) :
    fs.files p = some ws := by
  obtain ⟨l, hl, hq⟩ := Option.bind_eq_some_iff.mp hq
  exact Option.bind_eq_some_iff.mpr
    ⟨l, locate_of_dotted h hl, undots_filesUpTo fs _ _ _ _ _ _ _ h hq⟩

end Walk

/-! ### Selecting -/

/-- What can be read below a path can be read behind a dot: the longer paths are not too long. -/
structure RoomForDot (fs : FileSystem) (p : String) : Prop where
  folder : fs.isFolder p = true → fs.isFolder (Path.join "." p) = true
  walk : (fs.files p).isSome → (fs.files (Path.join "." p)).isSome

instance (fs : FileSystem) (p : String) : Decidable (fs.RoomForDot p) :=
  decidable_of_iff ((fs.isFolder p = true → fs.isFolder (Path.join "." p) = true) ∧
      ((fs.files p).isSome → (fs.files (Path.join "." p)).isSome))
    ⟨fun h => ⟨h.1, h.2⟩, fun h => ⟨h.folder, h.walk⟩⟩

variable (hne : p ≠ "") (hroom : fs.RoomForDot p)
include hne hroom

theorem RoomForDot.isFolder_eq : fs.isFolder (Path.join "." p) = fs.isFolder p :=
  Bool.eq_iff_iff.mpr ⟨isFolder_of_dotted (Path.dotted_join_dot hne), hroom.folder⟩

theorem RoomForDot.files_eq : fs.files (Path.join "." p) = fs.files p := by
  cases hq : fs.files (Path.join "." p) with
  | some ws => rw [files_of_dotted (Path.dotted_join_dot hne) hq]
  | none =>
    cases hp : fs.files p with
    | none => rfl
    | some ws =>
      have hsome := hroom.walk (by rw [hp]; rfl)
      rw [hq] at hsome
      cases hsome

end FileSystem

/-- Below folders in which the same is read, the same is selected. Only failures tell them apart. -/
theorem selectFiles_congr {fs : FileSystem} {includes excludes : List Pattern} {p q : String}
    {files : List String} (hfolder : fs.isFolder q = fs.isFolder p)
    (hfiles : fs.files q = fs.files p)
    (h : (selectFiles fs includes excludes p).result = .ok files) :
    selectFiles fs includes excludes q = selectFiles fs includes excludes p := by
  by_cases he : includes.isEmpty = true
  · rw [selectFiles, selectFiles, if_pos he, if_pos he]
  · rw [selectFiles, if_neg he] at h
    rw [selectFiles, selectFiles, if_neg he, if_neg he]
    obtain ⟨included, hi, h⟩ := Logged.result_bind_ok.mp h
    obtain ⟨excluded, hx, h⟩ := Logged.result_bind_ok.mp h
    refine Logged.bind_congr_ok fun included' hi' => Logged.bind_congr_ok fun excluded' hx' => ?_
    obtain rfl : included = included' := Except.ok.inj (hi.symm.trans hi')
    obtain rfl : excluded = excluded' := Except.ok.inj (hx.symm.trans hx')
    rw [hfolder, hfiles]
    split at h
    · next hmissing => rw [if_pos hmissing, if_pos hmissing]
    · next hthere =>
      rw [if_neg hthere, if_neg hthere]
      split at h
      · cases h
      · next ways hways => rfl

end BuildPlan
