import BuildPlan.Proofs.Files.Names

/-! # Spellings of a path

Doubled and closing separators and dots do not show where a path leads: paths with the same names
otherwise lead to the same place where both can be followed (`locate_eq_of_sameNames`), and the walks
below them find the same files where both come through (`files_eq_of_sameNames`). But a longer spelling
may be too long to be followed, and a dot behind a folder needs the folder to be entered, so that a
folder is found under one spelling and not under another. -/

namespace BuildPlan

namespace Path

/-! ### The names that are followed -/

/-- The names that are followed: neither empty ones nor dots. -/
def trim (names : List String) : List String := names.filter fun n => !(n = "" || n = ".")

theorem trim_append (names more : List String) : trim (names ++ more) = trim names ++ trim more :=
  List.filter_append names more

/-- The names through which a path leads. -/
def plain (path : String) : List String := trim (parts path)

theorem plain_append {d e : String} (s : List Char) (hd : d.toList = s ++ '/' :: e.toList) :
    plain d = plain (String.ofList s) ++ plain e := by
  unfold plain parts
  rw [hd, splitOn_append, List.map_append, trim_append, String.toList_ofList]

/-- Behind a directory a path leads through the names of both, unless it is absolute. -/
theorem plain_join (directory path : String) :
    plain (join directory path) =
      if isAbsolute path then plain path else plain directory ++ plain path := by
  unfold join
  by_cases habs : isAbsolute path = true
  · simp [habs]
  rw [if_neg habs]
  by_cases hempty : directory = ""
  · subst hempty
    simp [plain, trim, parts, splitOn]
  have hne : directory.isEmpty = false := by simpa using hempty
  simp only [habs, hne, Bool.or_false, Bool.false_eq_true, if_false]
  split
  · next hlast =>
    obtain ⟨s, hs⟩ := List.getLast?_eq_some_iff.mp hlast
    have hd : plain directory = plain (String.ofList s) :=
      (plain_append s (e := "") (by rw [hs]; rfl)).trans (List.append_nil _)
    rw [plain_append s (e := path) (by rw [String.toList_append, hs, List.append_assoc]; rfl), hd]
  · rw [plain_append directory.toList (e := path)
      (by rw [String.toList_append, String.toList_append, List.append_assoc]; rfl),
      String.ofList_toList]

theorem plain_eq_filter (path : String) :
    plain path = (components path).names.filter (· != ".") := by
  have hplain : plain path = ((parts path).filter (!·.isEmpty)).filter (· != ".") := by
    unfold plain trim
    rw [List.filter_filter]
    refine List.filter_congr fun n _ => ?_
    have hn : n.isEmpty = decide (n = "") := by
      rw [Bool.eq_iff_iff]
      simp
    rw [hn, Bool.not_or, Bool.and_comm]
    rfl
  unfold components
  rw [hplain]
  generalize (parts path).filter (!·.isEmpty) = names
  dsimp only
  split
  · split <;> simp [List.filter_filter]
  · simp [List.filter_filter]

/-- A path behind a directory is absolute if it is so itself, or the directory is. -/
theorem isAbsolute_join (directory path : String) :
    isAbsolute (join directory path) = (isAbsolute path || isAbsolute directory) := by
  unfold join
  by_cases habs : isAbsolute path = true
  · simp [habs]
  by_cases hempty : directory = ""
  · subst hempty
    simp [isAbsolute]
  obtain ⟨c, s, hd⟩ := List.exists_cons_of_ne_nil fun h => hempty (String.toList_eq_nil_iff.mp h)
  have hhead : ∀ t, isAbsolute (directory ++ t) = isAbsolute directory := fun t => by
    unfold isAbsolute
    rw [String.toList_append, hd]
    rfl
  have hne : directory.isEmpty = false := by simpa using hempty
  simp only [habs, hne, Bool.or_false, Bool.false_or, Bool.false_eq_true, if_false]
  split
  · exact hhead path
  · rw [String.append_assoc]
    exact hhead _

/-- The paths lead through the same names, from the root both or neither. -/
structure SameNames (p q : String) : Prop where
  plain : plain p = plain q
  absolute : isAbsolute p = isAbsolute q

section SameNames
variable {p q : String}

theorem SameNames.symm (h : SameNames p q) : SameNames q p := ⟨h.plain.symm, h.absolute.symm⟩

theorem SameNames.trans {r : String} (h : SameNames p q) (h' : SameNames q r) : SameNames p r :=
  ⟨h.plain.trans h'.plain, h.absolute.trans h'.absolute⟩

/-- Paths with the same components lead through the same names. -/
theorem sameNames_of_same (h : same p q = true) : SameNames p q := by
  have hc : components p = components q := of_decide_eq_true h
  exact ⟨by rw [plain_eq_filter, plain_eq_filter, hc], congrArg Components.absolute hc⟩

theorem SameNames.join (h : SameNames p q) (name : String) :
    SameNames (join p name) (join q name) := by
  constructor
  · rw [plain_join, plain_join, h.plain]
  · rw [isAbsolute_join, isAbsolute_join, h.absolute]

theorem SameNames.behind (h : SameNames p q) (directory : String) :
    SameNames (Path.join directory p) (Path.join directory q) := by
  constructor
  · rw [plain_join, plain_join, h.plain, h.absolute]
  · rw [isAbsolute_join, isAbsolute_join, h.absolute]

end SameNames

end Path

namespace FileSystem

/-! ### Following names -/

/-- Names lead from a location to another: up, into folders and files, and through links. -/
inductive Leads (fs : FileSystem) : Location → List String → Location → Prop
  | stay (loc : Location) : Leads fs loc [] loc
  | up {loc l : Location} {names : List String} :
      Leads fs loc.dropLast names l → Leads fs loc (".." :: names) l
  | into {loc l : Location} {names : List String} {access : Access} {entries : List (String × Node)}
      {name : String} {node : Node} : name ≠ ".." → fs.at? loc = some (.folder access entries) →
      Node.child? name entries = some node → (∀ target, node ≠ .link target) →
      Leads fs (loc ++ [name]) names l → Leads fs loc (name :: names) l
  | link {loc l : Location} {names : List String} {access : Access} {entries : List (String × Node)}
      {name target : String} : name ≠ ".." → fs.at? loc = some (.folder access entries) →
      Node.child? name entries = some (.link target) →
      Leads fs (origin target loc) (Path.plain target ++ names) l → Leads fs loc (name :: names) l

section Leads
variable {fs : FileSystem} {loc l l' : Location} {names : List String}

/-- Names lead to one place. -/
theorem Leads.unique (h : Leads fs loc names l) (h' : Leads fs loc names l') : l = l' := by
  induction h with
  | stay =>
    cases h'
    rfl
  | up _ ih =>
    cases h' with
    | up h' => exact ih h'
    | into hn => exact absurd rfl hn
    | link hn => exact absurd rfl hn
  | into hn hat hchild hnode _ ih =>
    cases h' with
    | up => exact absurd rfl hn
    | into _ hat' hchild' _ h' => exact ih h'
    | link _ hat' hchild' _ =>
      rw [hat] at hat'
      cases hat'
      rw [hchild] at hchild'
      exact absurd (Option.some.inj hchild') (hnode _)
  | link hn hat hchild _ ih =>
    cases h' with
    | up => exact absurd rfl hn
    | into _ hat' hchild' hnode' _ =>
      rw [hat] at hat'
      cases hat'
      rw [hchild] at hchild'
      exact absurd (Option.some.inj hchild').symm (hnode' _)
    | link _ hat' hchild' h' =>
      rw [hat] at hat'
      cases hat'
      rw [hchild] at hchild'
      cases hchild'
      exact ih h'

/-- Where a step leads, the names lead that are neither empty nor dots. -/
theorem leads_of_resolveStep {follow : Location → List String → Option Location}
    (hf : ∀ {loc names l}, follow loc names = some l → Leads fs loc (Path.trim names) l) :
    ∀ {names : List String} {loc : Location}, resolveStep fs follow loc names = some l →
      Leads fs loc (Path.trim names) l
  | [], loc, h => by
    cases h
    exact .stay _
  | name :: names, loc, h => by
    have hskip : name = "" ∨ name = "." → Path.trim (name :: names) = Path.trim names := fun hn =>
      List.filter_cons_of_neg (by rcases hn with rfl | rfl <;> decide)
    unfold resolveStep at h
    split at h
    · next access entries hat =>
      split at h
      · next hempty =>
        rw [hskip (Or.inl hempty)]
        exact leads_of_resolveStep hf h
      · next hempty =>
        split at h
        · cases h
        · split at h
          · next hdot =>
            rw [hskip (Or.inr hdot)]
            exact leads_of_resolveStep hf h
          · next hdot =>
            have ht : Path.trim (name :: names) = name :: Path.trim names :=
              List.filter_cons_of_pos (by simp [hempty, hdot])
            rw [ht]
            split at h
            · next hup =>
              subst hup
              exact .up (leads_of_resolveStep hf h)
            · next hup =>
              split at h
              · cases h
              · next target hchild =>
                have hl := hf h
                rw [Path.trim_append] at hl
                exact .link hup hat hchild hl
              · next node hnode hchild =>
                exact .into hup hat hchild (fun target he => hnode target (by rw [he]))
                  (leads_of_resolveStep hf h)
    · cases h

theorem leads_of_resolveUpTo : ∀ {n : Nat} {loc : Location} {names : List String} {l : Location},
    resolveUpTo fs n loc names = some l → Leads fs loc (Path.trim names) l
  | 0, _, _, _, h => by cases h
  | _ + 1, _, _, _, h => leads_of_resolveStep leads_of_resolveUpTo h

theorem leads_of_locate {p : String} (h : fs.locate p = some l) :
    Leads fs (origin p fs.working) (Path.plain p) l := by
  unfold locate at h
  split at h
  · cases h
  · exact leads_of_resolveUpTo h

/-- **Paths through the same names lead to the same place, if both lead anywhere.** -/
theorem locate_eq_of_sameNames {p q : String} (h : Path.SameNames p q)
    (hp : fs.locate p = some l) (hq : fs.locate q = some l') : l = l' := by
  have hl := leads_of_locate hp
  have horigin : origin p fs.working = origin q fs.working := by
    unfold origin
    rw [h.absolute]
  rw [horigin, h.plain] at hl
  exact hl.unique (leads_of_locate hq)

end Leads

/-! ### Walking -/

/-- Behind links, walks that come through find the same files under both spellings. -/
def Follow.SeesNames (follow : Follow) : Prop :=
  ∀ inside loc p q way ws ws', Path.SameNames p q → follow inside loc p way = some ws →
    follow inside loc q way = some ws' → ws = ws'

section Walk
variable {fs : FileSystem} {follow : Follow}

mutual

theorem filesAt_eq_of_sameNames (hf : follow.SeesNames) : ∀ {node : Node} {inside : List Location}
    {loc : Location} {p q : String} {way : List String} {ws ws' : List (List String)},
      Path.SameNames p q → filesAt fs follow inside loc p way node = some ws →
        filesAt fs follow inside loc q way node = some ws' → ws = ws'
  | .file _ _, _, _, _, _, _, _, _, _, h, h' => by
    cases h
    cases h'
    rfl
  | .folder _ entries, _, _, _, _, _, _, _, hpq, h, h' => by
    unfold filesAt at h h'
    split at h
    · split at h'
      · exact filesIn_eq_of_sameNames hf hpq h h'
      · cases h'
    · cases h
  | .link _, _, _, p, q, _, _, _, hpq, h, h' => by
    unfold filesAt at h h'
    split at h
    · cases h
    · next target hp =>
      split at h'
      · cases h'
      · next target' hq =>
        obtain rfl : target = target' := locate_eq_of_sameNames hpq hp hq
        split at h
        · next hat =>
          rw [hat] at h'
          cases h
          cases h'
          rfl
        · next hat =>
          rw [hat] at h'
          dsimp only at h'
          split at h
          · cases h
          · next hin =>
            rw [if_neg hin] at h'
            exact hf _ _ _ _ _ _ _ hpq h h'
        · cases h

theorem filesIn_eq_of_sameNames (hf : follow.SeesNames) : ∀ {entries : List (String × Node)}
    {inside : List Location} {folder : Location} {p q : String} {way : List String}
    {ws ws' : List (List String)}, Path.SameNames p q →
      filesIn fs follow inside folder p way entries = some ws →
        filesIn fs follow inside folder q way entries = some ws' → ws = ws'
  | [], _, _, _, _, _, _, _, _, h, h' => by
    cases h
    cases h'
    rfl
  | (name, node) :: rest, _, _, p, q, _, _, _, hpq, h, h' => by
    unfold filesIn at h h'
    obtain ⟨here, hhere, h⟩ := Option.bind_eq_some_iff.mp h
    obtain ⟨more, hmore, h⟩ := Option.bind_eq_some_iff.mp h
    obtain ⟨here', hhere', h'⟩ := Option.bind_eq_some_iff.mp h'
    obtain ⟨more', hmore', h'⟩ := Option.bind_eq_some_iff.mp h'
    cases h
    cases h'
    rw [filesAt_eq_of_sameNames hf (hpq.join name) hhere hhere',
      filesIn_eq_of_sameNames hf hpq hmore hmore']

end

theorem seesNames_filesUpTo (fs : FileSystem) : ∀ n : Nat, Follow.SeesNames (filesUpTo fs n)
  | 0 => fun _ _ _ _ _ _ _ _ h _ => by cases h
  | n + 1 => fun _ _ _ _ _ _ _ hpq h h' => by
    unfold filesUpTo at h h'
    split at h
    · next hat =>
      rw [hat] at h'
      dsimp only at h'
      split at h
      · next hlist =>
        rw [if_pos hlist] at h'
        exact filesIn_eq_of_sameNames (seesNames_filesUpTo fs n) hpq h h'
      · cases h
    · cases h

/-- **Walks below paths through the same names find the same files, if both come through.** -/
theorem files_eq_of_sameNames {p q : String} {ws ws' : List (List String)}
    (h : Path.SameNames p q) (hp : fs.files p = some ws) (hq : fs.files q = some ws') :
    ws = ws' := by
  obtain ⟨l, hl, hp⟩ := Option.bind_eq_some_iff.mp hp
  obtain ⟨l', hl', hq⟩ := Option.bind_eq_some_iff.mp hq
  obtain rfl : l = l' := locate_eq_of_sameNames h hl hl'
  exact seesNames_filesUpTo fs _ _ _ _ _ _ _ _ h hp hq

end Walk

/-! ### Selecting -/

/-- What can be done with a path can be done with another one: they lead to a folder both or neither,
and if the walk below the first comes through, so does the one below the second. -/
structure ReadsAlike (fs : FileSystem) (p q : String) : Prop where
  folder : fs.isFolder p = fs.isFolder q
  walk : (fs.files p).isSome → (fs.files q).isSome

instance (fs : FileSystem) (p q : String) : Decidable (fs.ReadsAlike p q) :=
  decidable_of_iff (fs.isFolder p = fs.isFolder q ∧ ((fs.files p).isSome → (fs.files q).isSome))
    ⟨fun h => ⟨h.1, h.2⟩, fun h => ⟨h.folder, h.walk⟩⟩

end FileSystem

/-- What is found below the first path is found below the second one, too. -/
def PatternMatcher.FindsAlike (matcher : PatternMatcher) (p q : String) : Prop :=
  ∀ includes excludes files, (matcher includes excludes p).result = .ok files →
    (matcher includes excludes q).result = .ok files

/-- **The same files are selected under both spellings of a path**, if they can be read alike. -/
theorem FileSystem.ReadsAlike.findsAlike {fs : FileSystem} {p q : String} (hread : fs.ReadsAlike p q)
    (hpq : Path.SameNames p q) : (selectFiles fs).FindsAlike p q := by
  intro includes excludes files h
  unfold selectFiles at h ⊢
  split at h
  · next he => rwa [if_pos he]
  · next he =>
    rw [if_neg he]
    obtain ⟨included, hi, h⟩ := Logged.result_bind_ok.mp h
    obtain ⟨excluded, hx, h⟩ := Logged.result_bind_ok.mp h
    refine Logged.result_bind_ok.mpr ⟨included, hi, Logged.result_bind_ok.mpr ⟨excluded, hx, ?_⟩⟩
    rw [← hread.folder]
    split at h
    · next hfolder => rwa [if_pos hfolder]
    · next hfolder =>
      rw [if_neg hfolder]
      split at h
      · cases h
      · next ws hp =>
        obtain ⟨ws', hq⟩ := Option.isSome_iff_exists.mp (hread.walk (by rw [hp]; rfl))
        rwa [hq, ← FileSystem.files_eq_of_sameNames hpq hp hq]

/-- Nothing is selected where no folder is. -/
theorem selectFiles_of_missing {fs fs' : FileSystem} {includes excludes : List Pattern} {p q : String}
    (hp : fs.isFolder p = false) (hq : fs'.isFolder q = false) :
    selectFiles fs includes excludes p = selectFiles fs' includes excludes q := by
  unfold selectFiles
  rw [hp, hq]
  rfl

/-! ### Dots in front of a path -/

namespace Path

/-- A dot, and so many more behind slashes. -/
def dots : Nat → String
  | 0 => "."
  | n + 1 => dots n ++ "/."

theorem exists_toList_dots : ∀ n, ∃ s, (dots n).toList = '.' :: s
  | 0 => ⟨[], rfl⟩
  | n + 1 => by
    obtain ⟨s, hs⟩ := exists_toList_dots n
    exact ⟨s ++ ['/', '.'], by rw [dots, String.toList_append, hs]; rfl⟩

theorem utf8ByteSize_dots : ∀ n, (dots n).utf8ByteSize = 2 * n + 1
  | 0 => rfl
  | n + 1 => by
    rw [dots, String.utf8ByteSize_append, utf8ByteSize_dots n, show "/.".utf8ByteSize = 2 from rfl]
    omega

theorem mem_parts_dots : ∀ n, ∀ m ∈ parts (dots n), m = "" ∨ m = "."
  | 0 => by decide
  | n + 1 => by
    have hdots : dots (n + 1) = dots n ++ "/" ++ "." := by
      rw [dots, String.append_assoc]
      rfl
    rw [hdots, parts_append]
    intro m hm
    rcases List.mem_append.mp hm with hm | hm
    · exact mem_parts_dots n m hm
    · exact Or.inr (by simpa [parts, splitOn] using hm)

/-- Dots in front of a path add no names. -/
theorem sameNames_join_dots (n : Nat) {p : String} (hrel : isAbsolute p = false) :
    SameNames p (join (dots n) p) := by
  have hdots : plain (dots n) = [] := by
    refine List.filter_eq_nil_iff.mpr fun m hm => ?_
    rcases mem_parts_dots n m hm with rfl | rfl <;> decide
  obtain ⟨s, hs⟩ := exists_toList_dots n
  constructor
  · rw [plain_join, hdots, hrel]
    rfl
  · rw [isAbsolute_join, hrel, isAbsolute, hs]
    rfl

theorem join_dots (n : Nat) {p : String} (hp : isAbsolute p = false) :
    join (dots n) p = dots n ++ "/" ++ p := by
  have hlast : (dots n).toList.getLast? = some '.' := by
    cases n with
    | zero => rfl
    | succ n =>
      rw [dots, String.toList_append, show "/.".toList = ['/'] ++ ['.'] from rfl, ← List.append_assoc,
        List.getLast?_concat]
  obtain ⟨s, hs⟩ := exists_toList_dots n
  have hne : (dots n).isEmpty = false := by
    rw [Bool.eq_false_iff]
    intro he
    rw [String.isEmpty_iff.mp he] at hs
    cases hs
  unfold join
  simp [hp, hne, hlast]

/-- The first name of a path that is neither empty nor absolute is not empty. -/
theorem exists_parts_eq_cons {p : String} (hne : p ≠ "") (hrel : isAbsolute p = false) :
    ∃ name names, parts p = name :: names ∧ name ≠ "" := by
  obtain ⟨c, s, hp⟩ := List.exists_cons_of_ne_nil fun h => hne (String.toList_eq_nil_iff.mp h)
  have hc : c ≠ '/' := by
    rintro rfl
    unfold isAbsolute at hrel
    rw [hp] at hrel
    cases hrel
  unfold parts
  rw [hp, splitOn, if_neg hc]
  obtain ⟨part, parts, hs⟩ := List.exists_cons_of_ne_nil (splitOn_ne_nil '/' s)
  rw [hs]
  exact ⟨_, _, rfl, by simp⟩

end Path

namespace FileSystem

variable {fs : FileSystem}

/-- In a folder that may be entered, empty names and dots lead nowhere else. -/
theorem resolveStep_skip {follow : Location → List String → Option Location} {loc : Location}
    {access : Access} {entries : List (String × Node)}
    (hat : fs.at? loc = some (.folder access entries)) (henter : access.enter = true)
    (more : List String) : ∀ {names : List String}, (∀ n ∈ names, n = "" ∨ n = ".") →
      resolveStep fs follow loc (names ++ more) = resolveStep fs follow loc more
  | [], _ => rfl
  | name :: names, h => by
    obtain ⟨hname, hnames⟩ := List.forall_mem_cons.mp h
    rw [List.cons_append, resolveStep, hat]
    dsimp only
    rw [henter]
    rcases hname with rfl | rfl
    · exact (if_pos rfl).trans (resolveStep_skip hat henter more hnames)
    · exact resolveStep_skip hat henter more hnames

/-- From a folder that may not be entered, no name leads on. -/
theorem resolveStep_closed {follow : Location → List String → Option Location} {loc : Location}
    {access : Access} {entries : List (String × Node)} {name : String} (names : List String)
    (hat : fs.at? loc = some (.folder access entries)) (henter : access.enter = false)
    (hname : name ≠ "") : resolveStep fs follow loc (name :: names) = none := by
  rw [resolveStep, hat]
  dsimp only
  rw [if_neg hname, henter]
  rfl

/-- There is a folder in which one works. -/
theorem exists_at?_working (fs : FileSystem) :
    ∃ access entries, fs.at? fs.working = some (.folder access entries) := by
  have hstanding := fs.standing
  unfold at?
  cases hat : fs.top.at? fs.working with
  | none =>
    rw [hat] at hstanding
    cases hstanding
  | some node =>
    rw [hat] at hstanding
    cases node with
    | folder access entries => exact ⟨access, entries, rfl⟩
    | file _ _ | link _ => cases hstanding

/-- Dots in front of a path lead nowhere else, unless there are too many. -/
theorem locate_dots (n : Nat) {p : String} (hne : p ≠ "") (hrel : Path.isAbsolute p = false) :
    fs.locate (Path.join (Path.dots n) p) =
      if Path.maxBytes < 2 * n + 2 + p.utf8ByteSize then none
      else fs.resolve fs.working (Path.parts p) := by
  obtain ⟨access, entries, hat⟩ := fs.exists_at?_working
  obtain ⟨s, hs⟩ := Path.exists_toList_dots n
  have hlist : (Path.dots n ++ "/" ++ p).toList = '.' :: (s ++ '/' :: p.toList) := by
    rw [String.toList_append, String.toList_append, hs]
    simp
  have hempty : (Path.dots n ++ "/" ++ p).isEmpty = false := by
    rw [Bool.eq_false_iff]
    intro he
    rw [String.isEmpty_iff.mp he] at hlist
    cases hlist
  have horigin : origin (Path.dots n ++ "/" ++ p) fs.working = fs.working := by
    unfold origin Path.isAbsolute
    rw [hlist]
    rfl
  have hsize : (Path.dots n ++ "/" ++ p).utf8ByteSize = 2 * n + 2 + p.utf8ByteSize := by
    rw [String.utf8ByteSize_append, String.utf8ByteSize_append, Path.utf8ByteSize_dots,
      show "/".utf8ByteSize = 1 from rfl]
  have hresolve : fs.resolve fs.working (Path.parts (Path.dots n ++ "/" ++ p)) =
      fs.resolve fs.working (Path.parts p) := by
    rw [Path.parts_append]
    cases henter : access.enter with
    | true => exact resolveStep_skip hat henter _ (Path.mem_parts_dots n)
    | false =>
      -- neither the dots nor the first name of the path lead on
      obtain ⟨dot, dots, hdots, hdot⟩ : ∃ dot dots, Path.parts (Path.dots n) = dot :: dots ∧ dot ≠ "" :=
        Path.exists_parts_eq_cons (by rintro h; rw [h] at hs; cases hs)
          (by unfold Path.isAbsolute; rw [hs]; rfl)
      obtain ⟨name, names, hparts, hname⟩ := Path.exists_parts_eq_cons hne hrel
      rw [hdots, hparts]
      exact (resolveStep_closed _ hat henter hdot).trans (resolveStep_closed _ hat henter hname).symm
  unfold locate Path.isTooLong
  rw [Path.join_dots n hrel, hempty, horigin, hsize, hresolve]
  simp

end FileSystem

end BuildPlan
