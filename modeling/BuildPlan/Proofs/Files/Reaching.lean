import BuildPlan.Files.Walk
import Mathlib.Data.List.Basic
import Mathlib.Data.List.Nodup
import Mathlib.Order.Basic

/-! # What a walk reaches

What lies below a folder is told without a walk: a walk stands in folders, and from one it comes to
another by an entry that is a folder or a link to one (`Below`). A walk that comes through has listed
folders and reached readable entries only, and it has found the files among all entries below, each once
and under the names on the way to it (`finds_of_files`). And it comes through if the folder and all entries
below can be read (`exists_files_of_readable`): every link that is followed leads to a folder in which the
walk does not stand yet, so there are always folders left for the links to come. -/

namespace BuildPlan

/-! ### Well-formed trees -/

namespace Node

theorem isFormed_folder_iff {access : Access} {entries : List (String × Node)} :
    (folder access entries).isFormed = true ↔
      (entries.map Prod.fst).Nodup ∧ areFormed entries = true := by
  rw [isFormed, Bool.and_eq_true, decide_eq_true_iff]

theorem areFormed_iff : ∀ {entries : List (String × Node)},
    areFormed entries = true ↔ ∀ e ∈ entries, isName e.1 = true ∧ e.2.isFormed = true
  | [] => by simp [areFormed]
  | (name, node) :: rest => by
    rw [areFormed, Bool.and_eq_true, Bool.and_eq_true, areFormed_iff, List.forall_mem_cons]

theorem mem_of_child? {name : String} {node : Node} : ∀ {entries : List (String × Node)},
    child? name entries = some node → (name, node) ∈ entries
  | [], h => by cases h
  | (n, other) :: rest, h => by
    unfold child? at h
    split at h
    · next hn =>
      cases h
      cases hn
      exact List.mem_cons_self
    · exact List.mem_cons_of_mem _ (mem_of_child? h)

/-- What lies in a well-formed tree is well-formed. -/
theorem isFormed_of_at? : ∀ {loc : Location} {node found : Node}, node.isFormed = true →
    node.at? loc = some found → found.isFormed = true
  | [], node, found, hformed, h => by
    unfold at? at h
    cases h
    exact hformed
  | name :: names, .folder access entries, found, hformed, h => by
    unfold at? at h
    obtain ⟨node, hchild, h⟩ := Option.bind_eq_some_iff.mp h
    have hentries := areFormed_iff.mp (isFormed_folder_iff.mp hformed).2
    exact isFormed_of_at? (hentries _ (mem_of_child? hchild)).2 h
  | _ :: _, .file _ _, _, _, h => by cases h
  | _ :: _, .link _, _, _, h => by cases h

end Node

namespace FileSystem

/-- Where a walk stands: in the folder at a location with these entries, to which a path leads, under
the names on the way, and inside of folders of which this is the last. -/
structure Stand where
  inside : List Location
  loc : Location
  path : String
  way : List String
  entries : List (String × Node)

namespace Stand

/-- The path to an entry. -/
def pathTo (p : Stand) (name : String) : String := Path.join p.path name

/-- The names on the way to an entry. -/
def wayTo (p : Stand) (name : String) : List String := p.way ++ [name]

/-- In the folder that was entered under a name. -/
def enter (p : Stand) (name : String) (loc : Location) (entries : List (String × Node)) : Stand :=
  ⟨loc :: p.inside, loc, p.pathTo name, p.wayTo name, entries⟩

/-- In the folder at which a walk begins. -/
def start (path : String) (loc : Location) (entries : List (String × Node)) : Stand :=
  ⟨[loc], loc, path, [], entries⟩

end Stand

/-- By an entry that is a folder or a link to one, the walk comes from one stand to another. -/
inductive Enters (fs : FileSystem) (p : Stand) (e : String × Node) : Stand → Prop
  | folder {access : Access} {entries : List (String × Node)} (he : e.2 = .folder access entries) :
      Enters fs p e (p.enter e.1 (p.loc ++ [e.1]) entries)
  | link {target : String} {loc : Location} {access : Access} {entries : List (String × Node)}
      (he : e.2 = .link target) (hloc : fs.locate (p.pathTo e.1) = some loc)
      (hat : fs.at? loc = some (.folder access entries)) :
      Enters fs p e (p.enter e.1 loc entries)

/-- Below some entries of a folder there is an entry of another one, or it is one of them. -/
inductive Below (fs : FileSystem) : Stand → List (String × Node) → Stand → String × Node → Prop
  | here {p : Stand} {es : List (String × Node)} {e : String × Node} (he : e ∈ es) : Below fs p es p e
  | beyond {p q r : Stand} {es : List (String × Node)} {e x : String × Node} (he : e ∈ es)
      (henters : Enters fs p e q) (hbelow : Below fs q q.entries r x) : Below fs p es r x

/-- The entry can be read: a folder if the path to it can be followed and it can be listed, and a link if
it leads to a file, or to a folder that can be listed and in which the walk does not stand. -/
def Readable (fs : FileSystem) (p : Stand) (e : String × Node) : Prop :=
  match e.2 with
  | .file _ _ => True
  | .folder access _ => (fs.locate (p.pathTo e.1)).isSome ∧ access.list = true
  | .link _ => ∃ loc, fs.locate (p.pathTo e.1) = some loc ∧
      ((∃ readable content, fs.at? loc = some (.file readable content)) ∨
        (∃ access entries, fs.at? loc = some (.folder access entries) ∧ access.list = true) ∧
          loc ∉ p.inside)

/-- The entry is a file or a link to one. -/
def IsFile (fs : FileSystem) (p : Stand) (e : String × Node) : Prop :=
  match e.2 with
  | .file _ _ => True
  | .folder _ _ => False
  | .link _ => ∃ loc readable content, fs.locate (p.pathTo e.1) = some loc ∧
      fs.at? loc = some (.file readable content)

/-- Below the folder to which a path leads there is this entry, on a stand of the walk. -/
def Reaches (fs : FileSystem) (path : String) (p : Stand) (e : String × Node) : Prop :=
  ∃ loc access entries, fs.locate path = some loc ∧ fs.at? loc = some (.folder access entries) ∧
    Below fs (.start path loc entries) entries p e

/-- The folder to which a path leads can be listed, and all below it can be read. -/
structure AllReadable (fs : FileSystem) (path : String) : Prop where
  root : ∃ loc access entries, fs.locate path = some loc ∧
    fs.at? loc = some (.folder access entries) ∧ access.list = true
  below : ∀ p e, Reaches fs path p e → Readable fs p e

/-- All below the entries can be read, and the files there are exactly those under the given ways. -/
structure Finds (fs : FileSystem) (p : Stand) (es : List (String × Node)) (ways : List (List String)) :
    Prop where
  readable : ∀ q x, Below fs p es q x → Readable fs q x
  mem_iff : ∀ w, w ∈ ways ↔ ∃ q x, Below fs p es q x ∧ IsFile fs q x ∧ w = q.wayTo x.1
  nodup : ways.Nodup

variable {fs : FileSystem} {p q : Stand} {e : String × Node} {es : List (String × Node)}

/-! ### One entry -/

theorem Below.mono {more : List (String × Node)} {x : String × Node} (h : Below fs p es q x)
    (hsub : es ⊆ more) : Below fs p more q x := by
  cases h with
  | here he => exact .here (hsub he)
  | beyond he henters hbelow => exact .beyond (hsub he) henters hbelow

theorem below_cons {x : String × Node} :
    Below fs p (e :: es) q x ↔ Below fs p [e] q x ∨ Below fs p es q x := by
  constructor
  · intro h
    cases h with
    | here he =>
      rcases List.mem_cons.mp he with rfl | he
      · exact Or.inl (.here List.mem_cons_self)
      · exact Or.inr (.here he)
    | beyond he henters hbelow =>
      rcases List.mem_cons.mp he with rfl | he
      · exact Or.inl (.beyond List.mem_cons_self henters hbelow)
      · exact Or.inr (.beyond he henters hbelow)
  · rintro (h | h)
    · exact h.mono (List.cons_subset_cons e (List.nil_subset es))
    · exact h.mono (List.subset_cons_self e es)

/-- Below one entry there is itself, and what lies in the folder to which it leads. -/
theorem below_single {x : String × Node} :
    Below fs p [e] q x ↔
      (q = p ∧ x = e) ∨ ∃ r, Enters fs p e r ∧ Below fs r r.entries q x := by
  constructor
  · intro h
    cases h with
    | here he => exact Or.inl ⟨rfl, List.mem_singleton.mp he⟩
    | beyond he henters hbelow =>
      obtain rfl := List.mem_singleton.mp he
      exact Or.inr ⟨_, henters, hbelow⟩
  · rintro (⟨rfl, rfl⟩ | ⟨r, henters, hbelow⟩)
    · exact .here List.mem_cons_self
    · exact .beyond List.mem_cons_self henters hbelow

theorem Enters.unique {r : Stand} (h : Enters fs p e q) (h' : Enters fs p e r) : q = r := by
  cases h with
  | folder he =>
    cases h' with
    | folder he' =>
      cases he.symm.trans he'
      rfl
    | link he' => cases he.symm.trans he'
  | link he hloc hat =>
    cases h' with
    | folder he' => cases he.symm.trans he'
    | link he' hloc' hat' =>
      cases hloc.symm.trans hloc'
      cases hat.symm.trans hat'
      rfl

/-- An entry that leads into a folder is not a file. -/
theorem Enters.not_isFile (h : Enters fs p e q) : ¬ IsFile fs p e := by
  unfold IsFile
  cases h with
  | folder he =>
    rw [he]
    exact id
  | link he hloc hat =>
    rw [he]
    rintro ⟨loc, _, _, hloc', hat'⟩
    cases hloc.symm.trans hloc'
    cases hat.symm.trans hat'

/-- What lies below entries of a folder lies behind the name of one of them. -/
theorem Below.isPrefix_wayTo {x : String × Node} (h : Below fs p es q x) :
    ∃ e ∈ es, p.wayTo e.1 <+: q.wayTo x.1 := by
  induction h with
  | here he => exact ⟨_, he, List.prefix_rfl⟩
  | @beyond p q r es e x he henters _ ih =>
    obtain ⟨y, -, hprefix⟩ := ih
    refine ⟨e, he, List.IsPrefix.trans ?_ hprefix⟩
    have hway : q.way = p.wayTo e.1 := by cases henters <;> rfl
    unfold Stand.wayTo
    rw [hway]
    exact List.prefix_append _ _

theorem finds_nil : Finds fs p [] [] := by
  refine ⟨fun q x h => ?_, fun w => ⟨fun h => absurd h List.not_mem_nil, ?_⟩, List.nodup_nil⟩
  · cases h with
    | here he | beyond he => cases he
  · rintro ⟨q, x, h, -⟩
    cases h with
    | here he | beyond he => cases he

/-- Ways behind different names are different. -/
theorem Finds.disjoint {here more : List (List String)} (h : Finds fs p [e] here)
    (h' : Finds fs p es more) (hname : e.1 ∉ es.map Prod.fst) : List.Disjoint here more := by
  intro w hw hw'
  obtain ⟨q, x, hb, -, rfl⟩ := (h.mem_iff w).mp hw
  obtain ⟨q', x', hb', -, hway⟩ := (h'.mem_iff _).mp hw'
  obtain ⟨e', he', hprefix⟩ := hb.isPrefix_wayTo
  obtain ⟨y, hy, hprefix'⟩ := hb'.isPrefix_wayTo
  obtain rfl := List.mem_singleton.mp he'
  rw [← hway] at hprefix'
  have hlength : (p.wayTo e'.1).length = (p.wayTo y.1).length := by
    unfold Stand.wayTo
    rw [List.length_append, List.length_append]
    rfl
  have hsame : p.wayTo e'.1 = p.wayTo y.1 :=
    (List.prefix_of_prefix_length_le hprefix hprefix' (Nat.le_of_eq hlength)).eq_of_length hlength
  have hlast : e'.1 = y.1 := List.singleton_injective (List.append_cancel_left hsame)
  exact hname (hlast ▸ List.mem_map_of_mem hy)

theorem Finds.cons {here more : List (List String)} (h : Finds fs p [e] here)
    (h' : Finds fs p es more) (hname : e.1 ∉ es.map Prod.fst) : Finds fs p (e :: es) (here ++ more) := by
  refine ⟨fun q x hb => ?_, fun w => ?_,
    List.nodup_append.mpr ⟨h.nodup, h'.nodup, List.disjoint_iff_ne.mp (h.disjoint h' hname)⟩⟩
  · rcases below_cons.mp hb with hb | hb
    · exact h.readable q x hb
    · exact h'.readable q x hb
  · rw [List.mem_append, h.mem_iff, h'.mem_iff, ← exists_or]
    refine exists_congr fun q => ?_
    rw [← exists_or]
    exact exists_congr fun x => or_and_right.symm.trans (and_congr_left' below_cons.symm)

/-- A file is found under its own name. -/
theorem finds_file (hread : Readable fs p e) (hfile : IsFile fs p e) :
    Finds fs p [e] [p.wayTo e.1] := by
  have honly : ∀ {q x}, Below fs p [e] q x → q = p ∧ x = e := by
    intro q x hb
    rcases below_single.mp hb with hb | ⟨r, henters, -⟩
    · exact hb
    · exact absurd hfile henters.not_isFile
  refine ⟨fun q x hb => ?_, fun w => ?_, List.nodup_singleton _⟩
  · obtain ⟨rfl, rfl⟩ := honly hb
    exact hread
  · rw [List.mem_singleton]
    constructor
    · rintro rfl
      exact ⟨p, e, .here List.mem_cons_self, hfile, rfl⟩
    · rintro ⟨q, x, hb, -, rfl⟩
      obtain ⟨rfl, rfl⟩ := honly hb
      rfl

/-- What is found in the folder to which an entry leads is what is found below the entry. -/
theorem Finds.enter {ways : List (List String)} (hread : Readable fs p e) (henters : Enters fs p e q)
    (h : Finds fs q q.entries ways) : Finds fs p [e] ways := by
  refine ⟨fun r x hb => ?_, fun w => ?_, h.nodup⟩
  · rcases below_single.mp hb with ⟨rfl, rfl⟩ | ⟨q', henters', hb⟩
    · exact hread
    · obtain rfl := henters.unique henters'
      exact h.readable r x hb
  · rw [h.mem_iff]
    constructor
    · rintro ⟨r, x, hb, hfile, hw⟩
      exact ⟨r, x, .beyond List.mem_cons_self henters hb, hfile, hw⟩
    · rintro ⟨r, x, hb, hfile, hw⟩
      rcases below_single.mp hb with ⟨rfl, rfl⟩ | ⟨q', henters', hb⟩
      · exact absurd hfile henters.not_isFile
      · obtain rfl := henters.unique henters'
        exact ⟨r, x, hb, hfile, hw⟩

/-! ### A walk that comes through -/

/-- Walks behind links, when they come through, have found what lies there. -/
def Follow.Finding (fs : FileSystem) (follow : Follow) : Prop :=
  ∀ {p : Stand} {name : String} {loc : Location} {access : Access} {entries : List (String × Node)}
    {ways : List (List String)}, fs.at? loc = some (.folder access entries) →
    follow p.inside loc (p.pathTo name) (p.wayTo name) = some ways →
      access.list = true ∧ Finds fs (p.enter name loc entries) entries ways

section Finding
variable {follow : Follow}

mutual

theorem finds_of_filesAt (hf : follow.Finding fs) {p : Stand} {name : String} :
    ∀ {node : Node} {ways : List (List String)}, node.isFormed = true →
      filesAt fs follow p.inside (p.loc ++ [name]) (p.pathTo name) (p.wayTo name) node = some ways →
        Finds fs p [(name, node)] ways
  | .file _ _, ways, _, h => by
    unfold filesAt at h
    cases h
    exact finds_file (e := (name, .file _ _)) trivial trivial
  | .folder access entries, ways, hformed, h => by
    obtain ⟨hdistinct, hformed⟩ := Node.isFormed_folder_iff.mp hformed
    unfold filesAt at h
    split at h
    · next hopen =>
      refine Finds.enter (e := (name, .folder access entries)) (Bool.and_eq_true_iff.mp hopen)
        (.folder rfl) ?_
      exact finds_of_filesIn hf (p := p.enter name (p.loc ++ [name]) entries) hdistinct hformed h
    · cases h
  | .link target, ways, _, h => by
    unfold filesAt at h
    split at h
    · cases h
    · next loc hloc =>
      split at h
      · next hat =>
        cases h
        exact finds_file (e := (name, .link target)) ⟨loc, hloc, Or.inl ⟨_, _, hat⟩⟩
          ⟨loc, _, _, hloc, hat⟩
      · next access entries hat =>
        split at h
        · cases h
        · next hinside =>
          obtain ⟨hlist, hfinds⟩ := hf hat h
          exact Finds.enter (e := (name, .link target))
            ⟨loc, hloc, Or.inr ⟨⟨access, entries, hat, hlist⟩, hinside⟩⟩ (.link rfl hloc hat) hfinds
      · cases h

theorem finds_of_filesIn (hf : follow.Finding fs) {p : Stand} :
    ∀ {es : List (String × Node)} {ways : List (List String)}, (es.map Prod.fst).Nodup →
      Node.areFormed es = true →
      filesIn fs follow p.inside p.loc p.path p.way es = some ways → Finds fs p es ways
  | [], ways, _, _, h => by
    unfold filesIn at h
    cases h
    exact finds_nil
  | (name, node) :: es, ways, hdistinct, hformed, h => by
    obtain ⟨hname, hdistinct⟩ := List.nodup_cons.mp hdistinct
    rw [Node.areFormed, Bool.and_eq_true, Bool.and_eq_true] at hformed
    unfold filesIn at h
    obtain ⟨here, hhere, h⟩ := Option.bind_eq_some_iff.mp h
    obtain ⟨more, hmore, h⟩ := Option.bind_eq_some_iff.mp h
    cases h
    exact (finds_of_filesAt hf hformed.1.2 hhere).cons (finds_of_filesIn hf hdistinct hformed.2 hmore)
      hname

end

/-- What is found in a folder, when a walk with links comes through, is found in all its entries. -/
theorem finds_of_filesUpTo : ∀ {n : Nat} {p : Stand} {inside : List Location} {access : Access}
    {ways : List (List String)}, fs.at? p.loc = some (.folder access p.entries) →
      p.inside = p.loc :: inside → filesUpTo fs n inside p.loc p.path p.way = some ways →
        access.list = true ∧ Finds fs p p.entries ways
  | 0, _, _, _, _, _, _, h => by cases h
  | n + 1, p, inside, access, ways, hat, hinside, h => by
    unfold filesUpTo at h
    rw [hat] at h
    dsimp only at h
    split at h
    · next hlist =>
      obtain ⟨hdistinct, hformed⟩ :=
        Node.isFormed_folder_iff.mp (Node.isFormed_of_at? fs.formed hat)
      rw [← hinside] at h
      exact ⟨hlist, finds_of_filesIn (fun hat h => finds_of_filesUpTo (p := Stand.enter _ _ _ _) hat rfl h)
        hdistinct hformed h⟩
    · cases h

end Finding

/-- **A walk that comes through has read all that it reaches, and found the files there, each once.** -/
theorem finds_of_files {path : String} {ways : List (List String)} (h : fs.files path = some ways) :
    fs.AllReadable path ∧ ways.Nodup ∧
      ∀ w, w ∈ ways ↔ ∃ p e, Reaches fs path p e ∧ IsFile fs p e ∧ w = p.wayTo e.1 := by
  obtain ⟨loc, hloc, h⟩ := Option.bind_eq_some_iff.mp h
  have hat : ∃ access entries, fs.at? loc = some (.folder access entries) := by
    unfold filesUpTo at h
    split at h
    · next access entries hat => exact ⟨access, entries, hat⟩
    · cases h
  obtain ⟨access, entries, hat⟩ := hat
  obtain ⟨hlist, hfinds⟩ := finds_of_filesUpTo (p := .start path loc entries) hat rfl h
  have hreaches : ∀ p e, Reaches fs path p e ↔ Below fs (.start path loc entries) entries p e := by
    intro p e
    constructor
    · rintro ⟨loc', access', entries', hloc', hat', hb⟩
      cases hloc.symm.trans hloc'
      cases hat.symm.trans hat'
      exact hb
    · exact fun hb => ⟨loc, access, entries, hloc, hat, hb⟩
  refine ⟨⟨⟨loc, access, entries, hloc, hat, hlist⟩, fun p e hr => ?_⟩, hfinds.nodup, fun w => ?_⟩
  · exact hfinds.readable p e ((hreaches p e).mp hr)
  · simp only [hreaches]
    exact hfinds.mem_iff w

/-- Behind names there are names only. -/
theorem Below.isName_wayTo {x : String × Node} (h : Below fs p es q x) :
    (∀ n ∈ p.way, Node.isName n = true) → Node.areFormed es = true →
      ∀ n ∈ q.wayTo x.1, Node.isName n = true := by
  have hwayTo : ∀ {p : Stand} {es : List (String × Node)} {e : String × Node}, e ∈ es →
      (∀ n ∈ p.way, Node.isName n = true) → Node.areFormed es = true →
        ∀ n ∈ p.wayTo e.1, Node.isName n = true := by
    intro p es e he hway hformed n hn
    rcases List.mem_append.mp hn with hn | hn
    · exact hway n hn
    · obtain rfl := List.mem_singleton.mp hn
      exact (Node.areFormed_iff.mp hformed e he).1
  induction h with
  | here he => exact hwayTo he
  | beyond he henters _ ih =>
    intro hway hformed
    have hnode := (Node.areFormed_iff.mp hformed _ he).2
    have hnames := hwayTo he hway hformed
    cases henters with
    | folder hfolder =>
      rw [hfolder] at hnode
      exact ih hnames (Node.isFormed_folder_iff.mp hnode).2
    | link _ _ hat =>
      exact ih hnames (Node.isFormed_folder_iff.mp (Node.isFormed_of_at? fs.formed hat)).2

/-- The names on the way to what a walk reaches are names. -/
theorem Reaches.isName_wayTo {path : String} {x : String × Node} (h : Reaches fs path q x) :
    ∀ n ∈ q.wayTo x.1, Node.isName n = true := by
  obtain ⟨loc, access, entries, -, hat, hb⟩ := h
  exact hb.isName_wayTo (List.forall_mem_nil _)
    (Node.isFormed_folder_iff.mp (Node.isFormed_of_at? fs.formed hat)).2

/-! ### Folders that are left -/

end FileSystem

namespace Node

mutual

/-- The locations of the folders in a tree. -/
def folderLocations : Node → List Location
  | .file _ _ => []
  | .link _ => []
  | .folder _ entries => [] :: folderLocationsIn entries

/-- The locations of the folders in the entries of a folder. -/
def folderLocationsIn : List (String × Node) → List Location
  | [] => []
  | (name, node) :: rest => (folderLocations node).map (name :: ·) ++ folderLocationsIn rest

end

mutual

theorem length_folderLocations : ∀ node : Node, (folderLocations node).length = folders node
  | .file _ _ | .link _ => rfl
  | .folder _ entries => by
    rw [folderLocations, folders, List.length_cons, length_folderLocationsIn entries, Nat.add_comm]

theorem length_folderLocationsIn : ∀ es : List (String × Node),
    (folderLocationsIn es).length = foldersOfEntries es
  | [] => rfl
  | (name, node) :: es => by
    rw [folderLocationsIn, foldersOfEntries, List.length_append, List.length_map,
      length_folderLocations node, length_folderLocationsIn es]

end

theorem mem_folderLocationsIn {name : String} {node : Node} {loc : Location}
    (hloc : loc ∈ folderLocations node) : ∀ {es : List (String × Node)},
      child? name es = some node → name :: loc ∈ folderLocationsIn es
  | [], h => by cases h
  | (n, other) :: es, h => by
    unfold child? at h
    rw [folderLocationsIn, List.mem_append]
    split at h
    · next hn =>
      cases h
      cases hn
      exact Or.inl (List.mem_map_of_mem hloc)
    · exact Or.inr (mem_folderLocationsIn hloc h)

theorem mem_folderLocations : ∀ {loc : Location} {node : Node} {access : Access}
    {entries : List (String × Node)},
    node.at? loc = some (.folder access entries) → loc ∈ folderLocations node
  | [], node, access, entries, h => by
    unfold at? at h
    cases h
    exact List.mem_cons_self
  | name :: names, .folder _ es, access, entries, h => by
    unfold at? at h
    obtain ⟨node, hchild, h⟩ := Option.bind_eq_some_iff.mp h
    rw [folderLocations]
    exact List.mem_cons_of_mem _ (mem_folderLocationsIn (mem_folderLocations h) hchild)
  | _ :: _, .file _ _, _, _, h => by cases h
  | _ :: _, .link _, _, _, h => by cases h

end Node

namespace FileSystem

variable {fs : FileSystem} {p q : Stand} {e : String × Node} {es : List (String × Node)}

/-- The number of folders in which a walk does not stand. -/
def foldersLeft (fs : FileSystem) (inside : List Location) : Nat :=
  ((Node.folderLocations fs.top).filter (!inside.contains ·)).length

theorem foldersLeft_anti {inside more : List Location} (h : inside ⊆ more) :
    foldersLeft fs more ≤ foldersLeft fs inside := by
  refine (List.monotone_filter_right _ fun loc hloc => ?_).length_le
  simp only [Bool.not_eq_true', List.contains_eq_mem, decide_eq_false_iff_not] at hloc ⊢
  exact fun hin => hloc (h hin)

/-- In a folder in which the walk did not stand, one is left less. -/
theorem foldersLeft_enter {inside : List Location} {loc : Location} {access : Access}
    {entries : List (String × Node)} (hat : fs.at? loc = some (.folder access entries))
    (hinside : loc ∉ inside) : foldersLeft fs (loc :: inside) < foldersLeft fs inside := by
  have hsplit : (Node.folderLocations fs.top).filter (!(loc :: inside).contains ·) =
      ((Node.folderLocations fs.top).filter (!inside.contains ·)).filter (· ≠ loc) := by
    rw [List.filter_filter]
    refine List.filter_congr fun l _ => ?_
    simp
  unfold foldersLeft
  rw [hsplit]
  refine List.length_filter_lt_length_iff_exists.mpr ⟨loc, ?_, by simp⟩
  exact List.mem_filter.mpr ⟨Node.mem_folderLocations hat, by simpa using hinside⟩

/-! ### A walk on which all can be read -/

/-- Walks behind links come through, as long as no more than so many folders are left. -/
def Follow.Coming (fs : FileSystem) (follow : Follow) (bound : Nat) : Prop :=
  ∀ {p : Stand} {name : String} {loc : Location} {access : Access} {entries : List (String × Node)},
    fs.at? loc = some (.folder access entries) → access.list = true → loc ∉ p.inside →
    foldersLeft fs p.inside ≤ bound →
    (∀ q x, Below fs (p.enter name loc entries) entries q x → Readable fs q x) →
      (follow p.inside loc (p.pathTo name) (p.wayTo name)).isSome

section Coming
variable {follow : Follow} {bound : Nat}

mutual

theorem isSome_filesAt (hf : follow.Coming fs bound) {p : Stand} {name : String}
    (hbound : foldersLeft fs p.inside ≤ bound) : ∀ {node : Node},
      (∀ q x, Below fs p [(name, node)] q x → Readable fs q x) →
        (filesAt fs follow p.inside (p.loc ++ [name]) (p.pathTo name) (p.wayTo name) node).isSome
  | .file _ _, _ => rfl
  | .folder access entries, h => by
    have hopen : (fs.locate (p.pathTo name)).isSome ∧ access.list = true :=
      h p (name, .folder access entries) (.here List.mem_cons_self)
    unfold filesAt
    rw [if_pos (Bool.and_eq_true_iff.mpr hopen)]
    refine isSome_filesIn hf (p := p.enter name (p.loc ++ [name]) entries)
      (Nat.le_trans (foldersLeft_anti (List.subset_cons_self _ _)) hbound) fun q x hb => h q x ?_
    exact .beyond (e := (name, .folder access entries)) List.mem_cons_self (.folder rfl) hb
  | .link target, h => by
    obtain ⟨loc, hloc, hlink⟩ := h p (name, .link target) (.here List.mem_cons_self)
    dsimp only at hloc
    unfold filesAt
    rw [hloc]
    dsimp only
    rcases hlink with ⟨_, _, hat⟩ | ⟨⟨access, entries, hat, hlist⟩, hinside⟩
    · rw [hat]
      rfl
    · rw [hat]
      dsimp only
      rw [if_neg hinside]
      refine hf hat hlist hinside hbound fun q x hb => h q x ?_
      exact .beyond (e := (name, .link target)) List.mem_cons_self (.link rfl hloc hat) hb

theorem isSome_filesIn (hf : follow.Coming fs bound) {p : Stand}
    (hbound : foldersLeft fs p.inside ≤ bound) : ∀ {es : List (String × Node)},
      (∀ q x, Below fs p es q x → Readable fs q x) →
        (filesIn fs follow p.inside p.loc p.path p.way es).isSome
  | [], _ => rfl
  | (name, node) :: es, h => by
    have hhere : (filesAt fs follow p.inside (p.loc ++ [name]) (Path.join p.path name)
        (p.way ++ [name]) node).isSome :=
      isSome_filesAt hf hbound fun q x hb => h q x (below_cons.mpr (Or.inl hb))
    have hmore : (filesIn fs follow p.inside p.loc p.path p.way es).isSome :=
      isSome_filesIn hf hbound fun q x hb => h q x (below_cons.mpr (Or.inr hb))
    obtain ⟨here, hhere⟩ := Option.isSome_iff_exists.mp hhere
    obtain ⟨more, hmore⟩ := Option.isSome_iff_exists.mp hmore
    unfold filesIn
    rw [hhere, hmore]
    rfl

end

/-- With every link that is followed one folder less is left, so the bound is never reached. -/
theorem coming_filesUpTo (fs : FileSystem) : ∀ n : Nat, Follow.Coming fs (filesUpTo fs n) n
  | 0, p, _, loc, _, _, hat, _, hinside, hbound, _ => by
    have hless := foldersLeft_enter hat hinside
    omega
  | n + 1, p, name, loc, access, entries, hat, hlist, hinside, hbound, h => by
    have hless := foldersLeft_enter hat hinside
    unfold filesUpTo
    rw [hat]
    dsimp only
    rw [if_pos hlist]
    exact isSome_filesIn (coming_filesUpTo fs n) (p := p.enter name loc entries)
      (show foldersLeft fs (loc :: p.inside) ≤ n by omega) h

end Coming

/-- **A walk comes through if all that it reaches can be read.** -/
theorem exists_files_of_readable {path : String} (h : fs.AllReadable path) :
    ∃ ways, fs.files path = some ways := by
  obtain ⟨loc, access, entries, hloc, hat, hlist⟩ := h.root
  have hbound : foldersLeft fs [loc] ≤ fs.top.folders :=
    (List.length_filter_le _ _).trans_eq (Node.length_folderLocations fs.top)
  refine Option.isSome_iff_exists.mp ?_
  unfold files
  rw [hloc]
  show (filesUpTo fs (fs.top.folders + 1) [] loc path []).isSome
  unfold filesUpTo
  rw [hat]
  dsimp only
  rw [if_pos hlist]
  exact isSome_filesIn (coming_filesUpTo fs _) (p := .start path loc entries) hbound
    fun q x hb => h.below q x ⟨loc, access, entries, hloc, hat, hb⟩

end FileSystem

end BuildPlan
