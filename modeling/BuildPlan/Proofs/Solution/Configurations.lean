import BuildPlan.Solution
import Mathlib.Data.List.Nodup

/-! # The configurations of a solution

The configurations that a body declares are distinct (`nodup_of_declaredConfigurations`), and those of
some wanted groups are the ones among all of them that are in these groups
(`declaredConfigurations_wanted`). -/

namespace BuildPlan.Solution

/-! ### Groups and their members -/

/-- The configurations of a group carry its name, and have names of their own. -/
structure Members (g : String × List Configuration) : Prop where
  group : ∀ c ∈ g.2, c.group = g.1
  names : (g.2.map (·.name)).Nodup

theorem members_of_membersOf {group : String} : ∀ {ms : List (String × NameSet)}
    {seen : List String} {cs : List Configuration}, membersOf group seen ms = .ok cs →
      Members (group, cs) ∧ ∀ c ∈ cs, c.name ∉ seen
  | [], _, _, h => by
    cases h
    exact ⟨⟨by simp, .nil⟩, by simp⟩
  | (name, constants) :: ms, seen, cs, h => by
    unfold membersOf at h
    split at h
    · cases h
    · next hn =>
      obtain ⟨more, hm, h⟩ := Fallible.bind_ok.mp h
      cases h
      obtain ⟨hmore, hseen⟩ := members_of_membersOf hm
      have hn : name ∉ seen := by simpa using hn
      refine ⟨⟨?_, ?_⟩, ?_⟩
      · exact List.forall_mem_cons.mpr ⟨rfl, hmore.group⟩
      · refine List.nodup_cons.mpr ⟨fun hmem => ?_, hmore.names⟩
        obtain ⟨c, hc, he⟩ := List.mem_map.mp hmem
        exact hseen c hc (by rw [he]; exact List.mem_cons_self)
      · refine List.forall_mem_cons.mpr ⟨hn, fun c hc hs => ?_⟩
        exact hseen c hc (List.mem_cons_of_mem _ hs)

theorem members_of_groupsOf : ∀ {gs : List ConfigurationGroup} {seen : List String}
    {groups : List (String × List Configuration)}, groupsOf seen gs = .ok groups →
      (groups.map Prod.fst).Nodup ∧ (∀ g ∈ groups, Members g ∧ g.1 ∉ seen) ∧
        groups.map Prod.fst = gs.map (·.name)
  | [], _, _, h => by
    cases h
    exact ⟨.nil, by simp, rfl⟩
  | g :: gs, seen, groups, h => by
    unfold groupsOf at h
    split at h
    · cases h
    · next hn =>
      obtain ⟨members, hm, h⟩ := Fallible.bind_ok.mp h
      obtain ⟨more, hg, h⟩ := Fallible.bind_ok.mp h
      cases h
      obtain ⟨hnodup, hmore, hnames⟩ := members_of_groupsOf hg
      refine ⟨?_, ?_, by rw [List.map_cons, List.map_cons, hnames]⟩
      · refine List.nodup_cons.mpr ⟨fun hmem => ?_, hnodup⟩
        obtain ⟨e, he, heq⟩ := List.mem_map.mp hmem
        exact (hmore e he).2 (by rw [heq]; exact List.mem_cons_self)
      · refine List.forall_mem_cons.mpr ⟨⟨(members_of_membersOf hm).1, by simpa using hn⟩, ?_⟩
        exact fun e he => ⟨(hmore e he).1, fun hs =>
          (hmore e he).2 (List.mem_cons_of_mem _ hs)⟩

/-- Distinct groups have distinct configurations. -/
theorem nodup_flatMap_members : ∀ {groups : List (String × List Configuration)},
    (groups.map Prod.fst).Nodup → (∀ g ∈ groups, Members g) → (groups.flatMap Prod.snd).Nodup
  | [], _, _ => .nil
  | g :: groups, hd, hm => by
    rw [List.map_cons, List.nodup_cons] at hd
    rw [List.flatMap_cons, List.nodup_append]
    refine ⟨(hm g List.mem_cons_self).names.of_map _,
      nodup_flatMap_members hd.2 fun e he => hm e (List.mem_cons_of_mem _ he), ?_⟩
    rintro c hc _ hc' rfl
    obtain ⟨e, he, hce⟩ := List.mem_flatMap.mp hc'
    refine hd.1 (List.mem_map.mpr ⟨e, he, ?_⟩)
    rw [← (hm e (List.mem_cons_of_mem _ he)).group c hce, (hm g List.mem_cons_self).group c hc]

/-- The configurations of some groups are those among all of them that are in these groups. -/
theorem flatMap_filter_members (keep : String → Bool) :
    ∀ {groups : List (String × List Configuration)}, (∀ g ∈ groups, Members g) →
      (groups.filter (keep ·.1)).flatMap Prod.snd =
        (groups.flatMap Prod.snd).filter (keep ·.group)
  | [], _ => rfl
  | g :: groups, hm => by
    have hin : ∀ c ∈ g.2, c.group = g.1 := (hm g List.mem_cons_self).group
    have ih := flatMap_filter_members keep fun e he => hm e (List.mem_cons_of_mem _ he)
    rw [List.flatMap_cons, List.filter_append, ← ih, List.filter_cons]
    split
    · next hg =>
      have hall : g.2.filter (keep ·.group) = g.2 :=
        List.filter_eq_self.mpr fun c hc => by rw [hin c hc, hg]
      rw [List.flatMap_cons, hall]
    · next hg =>
      have hnone : g.2.filter (keep ·.group) = [] :=
        List.filter_eq_nil_iff.mpr fun c hc => by rw [hin c hc]; exact hg
      rw [hnone, List.nil_append]

/-! ### All of them -/

section Declared
variable {body : Object} {wanted : List String} {cs : List Configuration}

/-- What is declared are the configurations of the wanted groups, if all of these are there and hold
some configuration. -/
theorem declaredConfigurations_eq_ok : declaredConfigurations body wanted = .ok cs ↔
    ∃ groups, groupsOf [] (Element.groups body.body) = .ok groups ∧
      (∀ w ∈ wanted, w ∈ groups.map Prod.fst) ∧ cs ≠ [] ∧
      cs = (groups.filter fun g => wanted.isEmpty || wanted.contains g.1).flatMap Prod.snd := by
  unfold declaredConfigurations
  rw [Fallible.bind_ok]
  refine exists_congr fun groups => and_congr_right fun _ => ?_
  have hfind : (wanted.find? fun w => !groups.any (·.1 = w)) = none ↔
      ∀ w ∈ wanted, w ∈ groups.map Prod.fst := by
    simp
  dsimp only
  cases hw : wanted.find? fun w => !groups.any (·.1 = w) with
  | some w =>
    have hn : ¬ ∀ w ∈ wanted, w ∈ groups.map Prod.fst := by
      rw [← hfind, hw]
      simp
    constructor
    · intro h
      cases h
    · exact fun h => absurd h.1 hn
  | none =>
    rw [and_iff_right (hfind.mp hw)]
    dsimp only
    split
    · next he =>
      constructor
      · intro h
        cases h
      · rintro ⟨hne, rfl⟩
        exact absurd he hne
    · next hne =>
      constructor
      · intro h
        cases h
        exact ⟨fun he => hne he, rfl⟩
      · rintro ⟨-, rfl⟩
        rfl

theorem nodup_of_declaredConfigurations (h : declaredConfigurations body wanted = .ok cs) :
    cs.Nodup := by
  obtain ⟨groups, hg, -, -, rfl⟩ := declaredConfigurations_eq_ok.mp h
  obtain ⟨hd, hm, -⟩ := members_of_groupsOf hg
  exact nodup_flatMap_members (hd.sublist (List.filter_sublist.map _))
    fun g hgm => (hm g (List.mem_of_mem_filter hgm)).1

/-- **The configurations of wanted groups are those among all of them that are in these groups.** -/
theorem declaredConfigurations_wanted (h : declaredConfigurations body [] = .ok cs)
    (hw : ∀ w ∈ wanted, w ∈ (Element.groups body.body).map (·.name))
    (hne : ∃ c ∈ cs, c.group ∈ wanted) :
    declaredConfigurations body wanted = .ok (cs.filter (wanted.contains ·.group)) := by
  obtain ⟨groups, hg, -, -, rfl⟩ := declaredConfigurations_eq_ok.mp h
  obtain ⟨-, hm, hnames⟩ := members_of_groupsOf hg
  obtain ⟨c, hc, hcw⟩ := hne
  have hwanted : wanted.isEmpty = false := by
    cases wanted with
    | nil => cases hcw
    | cons => rfl
  have hall : groups.filter (fun g => ([] : List String).isEmpty || ([] : List String).contains g.1)
      = groups := by simp
  rw [hall] at hc ⊢
  refine declaredConfigurations_eq_ok.mpr ⟨groups, hg, by rwa [hnames], ?_, ?_⟩
  · exact List.ne_nil_of_mem (List.mem_filter.mpr ⟨hc, by simpa using hcw⟩)
  · simp only [hwanted, Bool.false_or]
    exact (flatMap_filter_members (wanted.contains ·) fun g hgm => (hm g hgm).1).symm

end Declared

end BuildPlan.Solution
