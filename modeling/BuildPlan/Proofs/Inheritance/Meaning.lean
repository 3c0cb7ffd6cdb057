import BuildPlan.Proofs.Inheritance.Schedule

/-! # The meaning of inheritance

What an object means is defined by recursion on its chain of bases: it is compiled with what its
base means, if that is another object, with the inherited settings of that name otherwise, and with
nothing if it has no base. Compiling in the order of the schedule computes this meaning, compiles
every object once, and does so behind its base (`compileAll_eq_meaning`). -/

namespace BuildPlan.Heir

variable {inherited : Dictionary String Settings} {f : Object → Option Settings → Settings}
  {hs : List Heir}

/-- The settings that an object means among others. -/
inductive Means (hs : List Heir) (inherited : Dictionary String Settings)
    (f : Object → Option Settings → Settings) : Heir → Settings → Prop
  /-- Without a base, the object is compiled on its own. -/
  | origin {h : Heir} (hb : h.base = none) : Means hs inherited f h (f h.object none)
  /-- A base that is another one of the objects counts with what it means. -/
  | within {h p : Heir} {s : Settings} (hp : p ∈ hs) (hb : h.base = some p.name)
      (hne : p.name ≠ h.name) (hm : Means hs inherited f p s) :
      Means hs inherited f h (f h.object (some s))
  /-- Any other base, and one with the object's own name, is one of the inherited settings. -/
  | beyond {h : Heir} {b : String} {s : Settings} (hb : h.base = some b)
      (hn : b = h.name ∨ b ∉ hs.map name) (hi : inherited.get? b = some s) :
      Means hs inherited f h (f h.object (some s))

/-- No base is unknown: it is another one of the objects, or there are inherited settings of that
name. -/
def BasesKnown (hs : List Heir) (inherited : Dictionary String Settings) : Prop :=
  ∀ h ∈ hs, ∀ b, h.base = some b →
    (b ≠ h.name ∧ b ∈ hs.map name) ∨ inherited.contains b = true

/-- A compile step that succeeds, and writes down the object that it compiles. -/
def recorded (f : Object → Option Settings → Settings) (o : Object) (base : Option Settings) :
    ExceptT Failure (StateM (List Object)) Settings := do
  modify (· ++ [o])
  return f o base

/-! ### The meaning is a function -/

theorem eq_of_name_eq (hd : (hs.map name).Nodup) {h p : Heir} (hh : h ∈ hs) (hp : p ∈ hs)
    (he : h.name = p.name) : h = p :=
  List.inj_on_of_nodup_map hd hh hp he

/-- A base is not both one of the objects and one of the inherited settings. -/
theorem not_within_and_beyond {h p : Heir} (hp : p ∈ hs) (hne : p.name ≠ h.name)
    (hn : p.name = h.name ∨ p.name ∉ hs.map name) : False :=
  hn.elim hne fun hn => hn (List.mem_map_of_mem hp)

theorem Means.unique (hd : (hs.map name).Nodup) {h : Heir} {s t : Settings}
    (h1 : Means hs inherited f h s) (h2 : Means hs inherited f h t) : s = t := by
  induction h1 generalizing t with
  | origin hb =>
    cases h2 with
    | origin => rfl
    | within _ hb' => cases hb.symm.trans hb'
    | beyond hb' => cases hb.symm.trans hb'
  | within hp hb hne _ ih =>
    cases h2 with
    | origin hb' => cases hb.symm.trans hb'
    | within hp' hb' _ hm' =>
      obtain rfl := eq_of_name_eq hd hp hp' (Option.some.inj (hb.symm.trans hb'))
      rw [ih hm']
    | beyond hb' hn =>
      obtain rfl := Option.some.inj (hb.symm.trans hb')
      exact (not_within_and_beyond hp hne hn).elim
  | beyond hb hn hi =>
    cases h2 with
    | origin hb' => cases hb.symm.trans hb'
    | within hp' hb' hne' =>
      obtain rfl := Option.some.inj (hb.symm.trans hb')
      exact (not_within_and_beyond hp' hne' hn).elim
    | beyond hb' _ hi' =>
      obtain rfl := Option.some.inj (hb.symm.trans hb')
      rw [Option.some.inj (hi.symm.trans hi')]

/-! ### The objects in another order -/

section Perm
variable {hs' : List Heir} (hp : hs'.Perm hs)
include hp

theorem Means.of_perm {h : Heir} {s : Settings} (hm : Means hs' inherited f h s) :
    Means hs inherited f h s := by
  induction hm with
  | origin hb => exact .origin hb
  | within hmem hb hne _ ih => exact .within (hp.mem_iff.mp hmem) hb hne ih
  | beyond hb hn hi => exact .beyond hb (by rwa [(hp.map name).mem_iff] at hn) hi

theorem BasesKnown.of_perm (hk : BasesKnown hs inherited) : BasesKnown hs' inherited := by
  intro h hm b hb
  rw [(hp.map name).mem_iff]
  exact hk h (hp.mem_iff.mp hm) b hb

theorem Acyclic.of_perm (ha : Acyclic hs) : Acyclic hs' := by
  have hmono : ∀ a b, BuildsOn hs' a b → BuildsOn hs a b := by
    rintro a b ⟨h, hm, hn, hb, hne, hbn⟩
    exact ⟨h, hp.mem_iff.mp hm, hn, hb, hne, (hp.map name).mem_iff.mp hbn⟩
  exact fun n hn => ha n (Relation.TransGen.mono hmono n n hn)

end Perm

/-! ### Compiling in turn -/

theorem BasesKnown.unknownBase?_eq_none (hk : BasesKnown hs inherited) :
    unknownBase? inherited hs = none := by
  refine List.findSome?_eq_none_iff.mpr fun h hm => ?_
  split
  · next b hb =>
    obtain ⟨hb, hn⟩ := inherits_eq_some.mp hb
    rcases hk h hm b hb with ⟨hne, hmem⟩ | hc
    · exact absurd hmem (hn.resolve_left hne)
    · rw [if_pos hc]
  · rfl

/-- No object in front of the schedule has an unknown base. -/
theorem basesKnown_of_unknownBase? (h : unknownBase? inherited hs = none) :
    BasesKnown hs inherited := by
  intro h' hm b hb
  by_cases hw : b ≠ h'.name ∧ b ∈ hs.map name
  · exact Or.inl hw
  · have hn : b = h'.name ∨ b ∉ hs.map name := by rwa [not_and_or, not_not] at hw
    have hf := List.findSome?_eq_none_iff.mp h h' hm
    rw [inherits_eq_some.mpr ⟨hb, hn⟩] at hf
    dsimp only at hf
    split at hf
    · next hc => exact Or.inr hc
    · cases hf

/-- The settings that an object builds on when its turn comes: none without a base, what was compiled
for another one of the objects, or inherited ones. -/
theorem baseSettings_cases {compiled : Dictionary String Settings} {done : List String} {h : Heir}
    (hk : BasesKnown hs inherited) (hh : h ∈ hs) (hr : h.isReady (hs.map name) done = true)
    {C : Heir → Settings → Prop}
    (hc : ∀ p ∈ hs, p.name ∈ done → ∃ s, compiled.get? p.name = some s ∧ C p s) :
    (h.base = none ∧ h.baseSettings (hs.map name) inherited compiled = none) ∨
      (∃ p s, p ∈ hs ∧ h.base = some p.name ∧ p.name ≠ h.name ∧ C p s ∧
        h.baseSettings (hs.map name) inherited compiled = some s) ∨
      ∃ b s, h.base = some b ∧ (b = h.name ∨ b ∉ hs.map name) ∧ inherited.get? b = some s ∧
        h.baseSettings (hs.map name) inherited compiled = some s := by
  unfold baseSettings
  cases ha : h.awaits (hs.map name) with
  | some b =>
    obtain ⟨hb, hne, hbn⟩ := awaits_eq_some.mp ha
    obtain ⟨p, hp, rfl⟩ := List.mem_map.mp hbn
    obtain ⟨s, hs, hm⟩ := hc p hp (isReady_iff.mp hr _ ha)
    exact Or.inr (Or.inl ⟨p, s, hp, hb, hne, hm, hs⟩)
  | none =>
    cases hb : h.base with
    | none => exact Or.inl ⟨rfl, by simp [inherits, hb]⟩
    | some b =>
      have hn : b = h.name ∨ b ∉ hs.map name := by
        by_contra hn
        push Not at hn
        rw [awaits_eq_some.mpr ⟨hb, hn⟩] at ha
        cases ha
      rcases hk h hh b hb with ⟨hne, hmem⟩ | hcont
      · exact absurd hmem (hn.resolve_left hne)
      · obtain ⟨s, hs⟩ := Option.isSome_iff_exists.mp hcont
        refine Or.inr (Or.inr ⟨b, s, rfl, hn, hs, ?_⟩)
        dsimp only
        rw [inherits_eq_some.mpr ⟨hb, hn⟩, Option.bind_some, hs]

/-- With every awaited object compiled to its meaning, an object is compiled to its own. -/
theorem means_compiled {compiled : Dictionary String Settings} {done : List String} {h : Heir}
    (hk : BasesKnown hs inherited) (hh : h ∈ hs) (hr : h.isReady (hs.map name) done = true)
    (hc : ∀ p ∈ hs, p.name ∈ done →
      ∃ s, compiled.get? p.name = some s ∧ Means hs inherited f p s) :
    Means hs inherited f h
      (f h.object (h.baseSettings (hs.map name) inherited compiled)) := by
  rcases baseSettings_cases hk hh hr hc with
    ⟨hb, he⟩ | ⟨p, s, hp, hb, hne, hm, he⟩ | ⟨b, s, hb, hn, hi, he⟩
  · rw [he]
    exact .origin hb
  · rw [he]
    exact .within hp hb hne hm
  · rw [he]
    exact .beyond hb hn hi

theorem compileEach_cons_recorded (names : List String) (compiled : Dictionary String Settings)
    (h : Heir) (order : List Heir) (log : List Object) :
    ((compileEach names inherited (recorded f) compiled (h :: order)).run).run log =
      ((compileEach names inherited (recorded f)
        (compiled.insert h.name (f h.object (h.baseSettings names inherited compiled)))
        order).run).run (log ++ [h.object]) := rfl

/-- **Objects in turn are compiled to what they mean**, each of them once. -/
theorem compileEach_recorded (hd : (hs.map name).Nodup) (hk : BasesKnown hs inherited) :
    ∀ {order : List Heir} {done : List String} (compiled : Dictionary String Settings)
      (log : List Object), InTurn (hs.map name) done order → (∀ h ∈ order, h ∈ hs) →
      (∀ p ∈ hs, p.name ∈ done →
        ∃ s, compiled.get? p.name = some s ∧ Means hs inherited f p s) →
      ∃ all, ((compileEach (hs.map name) inherited (recorded f) compiled order).run).run log =
          (.ok all, log ++ order.map Heir.object) ∧
        ∀ p ∈ hs, p.name ∈ done ∨ p ∈ order →
          ∃ s, all.get? p.name = some s ∧ Means hs inherited f p s
  | [], done, compiled, log, _, _, hc => by
    refine ⟨compiled, by rw [List.map_nil, List.append_nil]; rfl, fun p hp h => ?_⟩
    exact hc p hp (h.resolve_right (by simp))
  | h :: order, done, compiled, log, ht, hmem, hc => by
    have hh := hmem h (by simp)
    have hc' : ∀ p ∈ hs, p.name ∈ h.name :: done → ∃ s,
        (compiled.insert h.name (f h.object
          (h.baseSettings (hs.map name) inherited compiled))).get? p.name = some s ∧
          Means hs inherited f p s := by
      intro p hp hpd
      rw [Dictionary.get?_insert]
      by_cases he : h.name = p.name
      · obtain rfl := eq_of_name_eq hd hh hp he
        rw [if_pos rfl]
        exact ⟨_, rfl, means_compiled hk hh ht.1 hc⟩
      · rw [if_neg he]
        exact hc p hp ((List.mem_cons.mp hpd).resolve_left (Ne.symm he))
    obtain ⟨all, hrun, hall⟩ := compileEach_recorded hd hk _ (log ++ [h.object]) ht.2
      (fun k hm => hmem k (List.mem_cons_of_mem _ hm)) hc'
    refine ⟨all, ?_, fun p hp hpd => hall p hp ?_⟩
    · rw [compileEach_cons_recorded, hrun, List.map_cons, List.append_assoc, List.singleton_append]
    · rcases hpd with hpd | hpd
      · exact Or.inl (List.mem_cons_of_mem _ hpd)
      · rcases List.mem_cons.mp hpd with rfl | hpd
        · exact Or.inl (by simp)
        · exact Or.inr hpd

/-- Without unknown bases and cycles every object means something. -/
theorem exists_means (hd : (hs.map name).Nodup) (hk : BasesKnown hs inherited) (ha : Acyclic hs) :
    ∀ h ∈ hs, ∃ s, Means hs inherited f h s := by
  obtain ⟨-, hperm, hturn⟩ := schedule_of_acyclic ha
  obtain ⟨all, -, hall⟩ := compileEach_recorded (f := f) hd hk .empty [] hturn
    (fun h hm => hperm.mem_iff.mp hm) (by simp)
  intro h hm
  obtain ⟨s, -, hs⟩ := hall h hm (Or.inr (hperm.mem_iff.mpr hm))
  exact ⟨s, hs⟩

/-- Where no base is unknown and nothing is left over, the objects are compiled in the order of the
schedule. -/
theorem compileAll_eq_compileEach {m : Type → Type} [Monad m] [MonadExceptOf Failure m]
    {compile : Object → Option Settings → m Settings} (hu : unknownBase? inherited hs = none)
    (hstuck : (schedule hs).2 = []) :
    compileAll inherited compile hs =
      compileEach (hs.map name) inherited compile .empty (schedule hs).1 >>= fun all =>
        pure (.ofList (hs.filterMap fun h => (all.get? h.name).map fun s => (h.name, s))) := by
  unfold compileAll
  rw [hu]
  dsimp only
  rw [hstuck]
  rfl

/-- Everything is compiled in the order of the schedule, and listed in the order of declaration. -/
theorem compileAll_recorded (hd : (hs.map name).Nodup) (hk : BasesKnown hs inherited)
    (ha : Acyclic hs) {R : Heir → Settings}
    (hR : ∀ h ∈ hs, ∀ s, Means hs inherited f h s → s = R h) :
    ∃ result, ((compileAll inherited (recorded f) hs).run).run [] =
        (.ok result, (schedule hs).1.map Heir.object) ∧
      result.entries = hs.map fun h => (h.name, R h) := by
  obtain ⟨hstuck, hperm, hturn⟩ := schedule_of_acyclic ha
  obtain ⟨all, hrun, hall⟩ := compileEach_recorded (f := f) hd hk .empty [] hturn
    (fun h hm => hperm.mem_iff.mp hm) (by simp)
  have hlist : hs.filterMap (fun h => (all.get? h.name).map fun s => (h.name, s)) =
      hs.map fun h => (h.name, R h) := by
    rw [← List.filterMap_eq_map]
    refine List.filterMap_congr fun h hm => ?_
    obtain ⟨s, hs, hmean⟩ := hall h hm (Or.inr (hperm.mem_iff.mpr hm))
    rw [hs, hR h hm s hmean]
    rfl
  refine ⟨.ofList (hs.map fun h => (h.name, R h)), ?_, ?_⟩
  · rw [compileAll_eq_compileEach hk.unknownBase?_eq_none hstuck, ExceptT.run_bind,
      StateT.run_bind, hrun, ← hlist]
    rfl
  · refine Dictionary.entries_ofList ?_
    rw [List.map_map]
    exact hd

/-- **Compiling in the order of the schedule computes the meaning of inheritance**: with distinct
names, known bases and no cycle, the objects mean something each, and in whatever order they are
declared, all of them are compiled once, each behind its base, to what they mean. -/
theorem compileAll_eq_meaning (hd : (hs.map name).Nodup) (hk : BasesKnown hs inherited)
    (ha : Acyclic hs) :
    ∃ R : Heir → Settings, (∀ h ∈ hs, ∀ s, Means hs inherited f h s ↔ s = R h) ∧
      ∀ hs', hs'.Perm hs → ∃ order result, order.Perm hs' ∧
        (∀ l h r p, order = l ++ h :: r → p ∈ hs → h.base = some p.name → p.name ≠ h.name →
          p ∈ l) ∧
        ((compileAll inherited (recorded f) hs').run).run [] =
          (.ok result, order.map Heir.object) ∧
        result.entries = hs'.map fun h => (h.name, R h) := by
  choose! R hR using exists_means (f := f) hd hk ha
  refine ⟨R, fun h hm s => ⟨fun h1 => h1.unique hd (hR h hm), fun he => he ▸ hR h hm⟩, ?_⟩
  intro hs' hp
  have hd' : (hs'.map name).Nodup := (hp.map name).nodup_iff.mpr hd
  obtain ⟨-, hperm, hturn⟩ := schedule_of_acyclic (ha.of_perm hp)
  obtain ⟨result, hrun, hres⟩ := compileAll_recorded (f := f) hd' (hk.of_perm hp) (ha.of_perm hp)
    (R := R) fun h hm s hs => (hs.of_perm hp).unique hd (hR h (hp.mem_iff.mp hm))
  refine ⟨(schedule hs').1, result, hperm, fun l h r p ho hm hb hne => ?_, hrun, hres⟩
  rw [ho] at hturn hperm
  have hp' : p ∈ hs' := hp.mem_iff.mpr hm
  have hawait := awaits_eq_some.mpr ⟨hb, hne, List.mem_map_of_mem hp'⟩
  obtain ⟨q, hq, hqn⟩ := List.mem_map.mp ((hturn.awaited_mem hawait).resolve_left (by simp))
  rwa [← eq_of_name_eq hd' (hperm.mem_iff.mp (List.mem_append_left _ hq)) hp' hqn]

/-! ### A family of three -/

/-- A child in front of its parent, and an object that builds on the inherited one of its name. -/
def family : List Heir :=
  [⟨⟨⟨"settings", "Child", some "Parent"⟩, []⟩, some "Parent"⟩,
    ⟨⟨⟨"settings", "Parent", none⟩, []⟩, none⟩,
    ⟨⟨⟨"settings", "Self", some "Self"⟩, []⟩, some "Self"⟩]

/-- Settings with nothing but a name. -/
def bare (n : String) : Settings :=
  ⟨{ (default : SettingsKey) with name := n }, default⟩

/-- Settings that are named for the whole chain of bases. -/
def chained (o : Object) (base : Option Settings) : Settings :=
  bare (base.elim o.name fun s => o.name ++ " < " ++ s.name)

theorem basesKnown_family : BasesKnown family (.ofList [("Self", bare "Old")]) := by
  intro h hm b hb
  simp only [family, List.mem_cons, List.not_mem_nil, or_false] at hm
  rcases hm with rfl | rfl | rfl
  · cases hb
    exact Or.inl (by decide)
  · cases hb
  · cases hb
    exact Or.inr (by decide)

theorem buildsOn_family {n b : String} (h : BuildsOn family n b) : n = "Child" ∧ b = "Parent" := by
  obtain ⟨h, hm, rfl, hb, hne, -⟩ := h
  simp only [family, List.mem_cons, List.not_mem_nil, or_false] at hm
  rcases hm with rfl | rfl | rfl
  · cases hb
    exact ⟨rfl, rfl⟩
  · cases hb
  · cases hb
    exact absurd rfl hne

theorem acyclic_family : Acyclic family := by
  intro n h
  obtain ⟨_, hb, -⟩ := Relation.TransGen.head'_iff.mp h
  obtain ⟨_, -, hb'⟩ := Relation.TransGen.tail'_iff.mp h
  exact absurd ((buildsOn_family hb).1.symm.trans (buildsOn_family hb').2) (by decide)

/-- The child means itself over its parent, although it comes first. -/
theorem compileAll_family : ∃ R : Heir → Settings,
    (∀ h ∈ family, ∀ s, Means family (.ofList [("Self", bare "Old")]) chained h s ↔ s = R h) ∧
      ∀ hs', hs'.Perm family → ∃ order result, order.Perm hs' ∧
        (∀ l h r p, order = l ++ h :: r → p ∈ family → h.base = some p.name → p.name ≠ h.name →
          p ∈ l) ∧
        ((compileAll (.ofList [("Self", bare "Old")]) (recorded chained) hs').run).run [] =
          (.ok result, order.map Heir.object) ∧
        result.entries = hs'.map fun h => (h.name, R h) :=
  compileAll_eq_meaning (by decide) basesKnown_family acyclic_family

end BuildPlan.Heir
