import BuildPlan.Proofs.Collection.Rewriting
import BuildPlan.Proofs.Solution.Identity
import BuildPlan.Proofs.Solution.Keys

/-! # Generated identifiers

A project that declares no identifier gets the one of a name that is made of its module and its own
name, with a slash between them. A slash may stand in the name of a project, and in a reference within
the name of a module, but a module is named by an identifier, and an identifier ends where it stops
being one. So the two parts of the name are told apart (`guidSource_injective`), and two such projects
of a solution share an identifier only if they have the same module and the same name, as far as the
digest tells their names apart (`generatedGuid_tells_apart`). -/

namespace BuildPlan

open BuildPlan.Grammar BuildPlan.Grammar.Rule

/-! ### The two parts of a name -/

theorem byteArray_toList_loop (bs : ByteArray) (i : Nat) (r : List UInt8) :
    ByteArray.toList.loop bs i r = r.reverse ++ bs.data.toList.drop i := by
  rw [ByteArray.toList.loop]
  split
  · next h =>
    have hlen : i < bs.data.toList.length := by simpa using h
    have hget : bs.get! i = bs.data.toList[i] := getElem!_pos bs.data i (by simpa using hlen)
    rw [byteArray_toList_loop bs (i + 1), List.drop_eq_getElem_cons hlen, hget, List.reverse_cons,
      List.append_assoc, List.singleton_append]
  · next h => rw [List.drop_eq_nil_of_le (by simpa using h), List.append_nil]
termination_by bs.size - i

/-- A text is known by its bytes. -/
theorem toUTF8_toList_injective {s t : String} (h : s.toUTF8.toList = t.toUTF8.toList) : s = t := by
  simp only [ByteArray.toList, byteArray_toList_loop, List.reverse_nil, List.nil_append,
    List.drop_zero, Array.toList_inj] at h
  exact String.toByteArray_inj.mp (ByteArray.ext h)

/-- The module and the project are told apart in the name of an identifier, if modules are named by
identifiers. -/
theorem guidSource_injective {m₁ m₂ p₁ p₂ : String} (h₁ : IsIdentifier m₁.toList)
    (h₂ : IsIdentifier m₂.toList) (h : guidSource m₁ p₁ = guidSource m₂ p₂) :
    m₁ = m₂ ∧ p₁ = p₂ := by
  have hchars := congrArg String.toList (toUTF8_toList_injective h)
  simp only [String.toList_append, List.append_assoc] at hchars
  -- the slash stops the identifier, whatever stands behind it
  have hslash : ∀ p : String, Stops isNameChar ("/".toList ++ p.toList) := fun p =>
    stops_cons.mpr rfl
  have hread := read_identifier h₁ (hslash p₁)
  rw [hchars, read_identifier h₂ (hslash p₂)] at hread
  simp only [Option.some.injEq, Prod.mk.injEq, String.ofList_toList, List.append_cancel_left_eq,
    String.toList_inj] at hread
  exact ⟨hread.1.symm, hread.2.symm⟩

/-! ### The names of modules -/

namespace Solution

/-- The modules of a solution have the names of the objects that declare them. -/
theorem keys_of_runIn_resolveModules {ctx : ModuleContext} {templates : Dictionary String Template} :
    ∀ {os : List Object} {modules out : Dictionary String Module} {s t : Session},
      (resolveModules ctx templates modules os).runIn s = (.ok out, t) →
        ∀ n ∈ out.keys, n ∈ modules.keys ∨ n ∈ os.map Object.name
  | [], _, _, _, _, h => by
    cases h
    exact fun n hn => Or.inl hn
  | o :: os, modules, out, s, t, h => by
    obtain ⟨-, _, _, module, _, -, -, -, h⟩ := runIn_resolveModules_cons_ok.mp h
    intro n hn
    rcases keys_of_runIn_resolveModules h n hn with hn | hn
    · rcases Dictionary.mem_keys_insert.mp hn with rfl | hn
      · exact Or.inr List.mem_cons_self
      · exact Or.inl hn
    · exact Or.inr (List.mem_cons_of_mem _ hn)

variable {o : Options} {fs : FileSystem} {d : Document} {s : Solution} {source : String}

/-- The projects of a document that was read are in modules that are named by identifiers, and fit
their settings. -/
theorem identified_of_mem_projects (hd : Document.parse source = .ok d) (hs : ResolvesTo o fs d s)
    {c : Configuration} {p : Project} (hp : p ∈ s.projects c) :
    IsIdentifier p.module.toList ∧ p.Fits := by
  obtain ⟨e, he, hpe⟩ := mem_projects.mp hp
  obtain ⟨⟨known, hknown⟩, hname⟩ := (resolved_modules hs).1 e he
  have hhas := hknown c p hpe
  refine ⟨?_, hhas.fits⟩
  obtain ⟨body, cs, hb, -, h⟩ := runIn_resolve_ok.mp (Prod.ext hs rfl)
  obtain ⟨_, _, modules, _, _, -, -, -, hm, rfl, -⟩ := runIn_resolveBody_ok.mp h
  have hkey : e.1 ∈ modules.keys := List.mem_map_of_mem he
  rcases keys_of_runIn_resolveModules hm e.1 hkey with hkey | hkey
  · cases hkey
  · obtain ⟨object, ho, hon⟩ := List.mem_map.mp hkey
    rw [hhas.module_eq, hname, ← hon]
    exact identified_of_parse hd hb object (List.mem_of_mem_filter ho)

/-! ### Projects with a generated identifier -/

/-- The names of the identifiers that are generated for the projects of a solution. -/
def generatedNames (s : Solution) : List (List UInt8) :=
  s.configurations.flatMap fun c =>
    ((s.projects c).filter fun p => (p.settings.text? PropertyName.projectGuid).isNone).map
      fun p => guidSource p.module p.name

theorem guidSource_mem_generatedNames {c : Configuration} (hc : c ∈ s.configurations) {p : Project}
    (hp : p ∈ s.projects c) (hnone : p.settings.text? PropertyName.projectGuid = none) :
    guidSource p.module p.name ∈ s.generatedNames :=
  List.mem_flatMap.mpr ⟨c, hc,
    List.mem_map.mpr ⟨p, List.mem_filter.mpr ⟨hp, by rw [hnone]; rfl⟩, rfl⟩⟩

/-- **Generated identifiers are taken from distinct names.** The names for two different pairs of a
module and a project differ, if the names of the modules are read as identifiers anywhere. So two projects
of a solution that declare no identifier have the same one exactly if they have the same module and the
same name, as far as the digest tells the names in the solution apart. -/
theorem generatedGuid_tells_apart :
    (∀ (s₁ s₂ t₁ t₂ : List Char) (m₁ m₂ p₁ p₂ : String), identifier.read s₁ = some (m₁, t₁) →
      identifier.read s₂ = some (m₂, t₂) → (m₁, p₁) ≠ (m₂, p₂) →
        guidSource m₁ p₁ ≠ guidSource m₂ p₂) ∧
    ∀ (source : String) (d : Document) (o : Options) (fs : FileSystem) (s : Solution),
      Document.parse source = .ok d → ResolvesTo o fs d s →
      Set.InjOn (Uuid.ofName Uuid.objectNamespace) {n | n ∈ s.generatedNames} →
      ∀ c₁ ∈ s.configurations, ∀ c₂ ∈ s.configurations, ∀ p₁ ∈ s.projects c₁, ∀ p₂ ∈ s.projects c₂,
        p₁.settings.text? PropertyName.projectGuid = none →
        p₂.settings.text? PropertyName.projectGuid = none →
        (p₁.identity.guid = p₂.identity.guid ↔ p₁.module = p₂.module ∧ p₁.name = p₂.name) := by
  refine ⟨fun s₁ s₂ t₁ t₂ m₁ m₂ p₁ p₂ h₁ h₂ hne h => hne (Prod.ext_iff.mpr ?_),
    fun source d o fs s hd hs hinj c₁ hc₁ c₂ hc₂ p₁ hp₁ p₂ hp₂ hn₁ hn₂ => ?_⟩
  · exact guidSource_injective (isIdentifier_of_read h₁).2 (isIdentifier_of_read h₂).2 h
  obtain ⟨hi₁, hf₁⟩ := identified_of_mem_projects hd hs hp₁
  obtain ⟨hi₂, hf₂⟩ := identified_of_mem_projects hd hs hp₂
  rw [hf₁.guid_eq hn₁, hf₂.guid_eq hn₂]
  constructor
  · intro h
    exact guidSource_injective hi₁ hi₂ (hinj (guidSource_mem_generatedNames hc₁ hp₁ hn₁)
      (guidSource_mem_generatedNames hc₂ hp₂ hn₂) h)
  · rintro ⟨hm, hn⟩
    rw [hm, hn]

/-! ### Slashes in both parts -/

/-- Two modules, one of which is named with a reference that holds a slash, for a template that puts
the name of the module and a slash into the name of the project. -/
def separated : Document :=
  ⟨[.group ⟨"g", [("Debug", .empty)]⟩,
    .object ⟨templateKind, "T", none⟩
      [.assignment ⟨.add, ["projects"], .pair "$(MODULE_NAME)/P" (.literal "S"), always⟩,
        .object ⟨settingsKind, "S", none⟩ []],
    .object ⟨moduleKind, "A", some "T"⟩ [], .object ⟨moduleKind, "A$(/A)", some "T"⟩ []]⟩

/-- The document as it is written. -/
def separatedSource : String :=
  "configuration g [ Debug: ]\ntemplate T \x7b add projects: \"$(MODULE_NAME)/P\": S\n" ++
    " settings S \x7b \x7d \x7d\nmodule A : T \x7b \x7d\nmodule A$(/A) : T \x7b \x7d\n"

theorem parse_separatedSource : Document.parse separatedSource = .ok separated := by
  decide +kernel

/-- The module and the name of each project, and whether it declares no identifier. -/
def labels (ps : List Project) : List (String × String × Bool) :=
  ps.map fun p => (p.module, p.name, (p.settings.text? PropertyName.projectGuid).isNone)

/-- Slashes within the names do not bring the identifiers of two projects together. -/
theorem generatedGuid_tells_apart_separated :
    guidSource "A$(/A)" "A/P" ≠ guidSource "A" "$(/A)/A/P" ∧
    ∃ s c p₁ p₂, Document.parse separatedSource = .ok separated ∧
      ResolvesTo (.ofEnvironment []) default separated s ∧ c ∈ s.configurations ∧
      p₁ ∈ s.projects c ∧ p₂ ∈ s.projects c ∧ p₁.name = "A/P" ∧ p₂.name = "A$(/A)/P" ∧
      p₁.identity.guid ≠ p₂.identity.guid := by
  have hlong : identifier.read "A$(/A) : T".toList = some ("A$(/A)", " : T".toList) := by decide +kernel
  have hshort : identifier.read "A".toList = some ("A", []) := by decide +kernel
  refine ⟨generatedGuid_tells_apart.1 _ _ _ _ _ _ _ _ hlong hshort (by decide), ?_⟩
  obtain ⟨s, hs, hl, hinj⟩ := exists_resolvesTo_with (.ofEnvironment []) default separated
    (fun s => s.configurations.map (fun c => labels (s.projects c)) =
        [[("A", "A/P", true), ("A$(/A)", "A$(/A)/P", true)]] ∧
      ∀ a ∈ s.generatedNames, ∀ b ∈ s.generatedNames,
        Uuid.ofName Uuid.objectNamespace a = Uuid.ofName Uuid.objectNamespace b → a = b)
    (by decide +kernel)
  obtain ⟨c, _, hcs, hl, -⟩ := List.map_eq_cons_iff.mp hl
  obtain ⟨p₁, _, hps, h₁, hl⟩ := List.map_eq_cons_iff.mp hl
  obtain ⟨p₂, _, rfl, h₂, -⟩ := List.map_eq_cons_iff.mp hl
  simp only [Prod.mk.injEq, Option.isNone_iff_eq_none] at h₁ h₂
  have hc : c ∈ s.configurations := by simp [hcs]
  have hp₁ : p₁ ∈ s.projects c := by simp [hps]
  have hp₂ : p₂ ∈ s.projects c := by simp [hps]
  have hiff := generatedGuid_tells_apart.2 _ _ _ _ s parse_separatedSource hs
    (fun a ha b hb h => hinj a ha b hb h) c hc c hc p₁ hp₁ p₂ hp₂ h₁.2.2 h₂.2.2
  refine ⟨s, c, p₁, p₂, parse_separatedSource, hs, hc, hp₁, hp₂, h₁.2.1, h₂.2.1, fun h => ?_⟩
  have hname := (hiff.mp h).2
  rw [h₁.2.1, h₂.2.1] at hname
  exact absurd hname (by decide)

end Solution

end BuildPlan
