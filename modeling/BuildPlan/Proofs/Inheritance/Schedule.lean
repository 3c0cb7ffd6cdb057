import BuildPlan.Inheritance
import Mathlib.Data.List.Perm.Basic
import Mathlib.Order.WellFoundedSet

/-! # The schedule of inheritance

The schedule takes objects in an order in which each one comes behind the one that it waits for
(`InTurn`), and leaves over those that wait for another one that is left over
(`exists_awaited_of_stuck`). So nothing is left over if no chain of bases comes back to where it
began (`schedule_of_acyclic`). -/

namespace BuildPlan.Heir

/-! ### What an object waits for -/

theorem awaits_eq_some {names : List String} {h : Heir} {b : String} :
    h.awaits names = some b ↔ h.base = some b ∧ b ≠ h.name ∧ b ∈ names := by
  simp [awaits, Option.filter_eq_some_iff]

theorem inherits_eq_some {names : List String} {h : Heir} {b : String} :
    h.inherits names = some b ↔ h.base = some b ∧ (b = h.name ∨ b ∉ names) := by
  simp only [inherits, Option.filter_eq_some_iff, Bool.not_eq_true', Bool.and_eq_false_iff,
    bne_eq_false_iff_eq, List.contains_eq_mem, decide_eq_false_iff_not]

theorem isReady_iff {names done : List String} {h : Heir} :
    h.isReady names done = true ↔ ∀ b, h.awaits names = some b → b ∈ done := by
  simp [isReady, Option.all_eq_true]

/-- Every object comes behind the one that it waits for, unless that one is done already. -/
def InTurn (names : List String) : List String → List Heir → Prop
  | _, [] => True
  | done, h :: hs => h.isReady names done = true ∧ InTurn names (h.name :: done) hs

/-- The awaited object stands in front. -/
theorem InTurn.awaited_mem {names : List String} : ∀ {l : List Heir} {done : List String} {h : Heir}
    {r : List Heir} {b : String}, InTurn names done (l ++ h :: r) → h.awaits names = some b →
      b ∈ done ∨ b ∈ l.map name
  | [], _, _, _, _, ht, hb => Or.inl (isReady_iff.mp ht.1 _ hb)
  | k :: l, done, h, r, b, ht, hb => by
    have ht' : InTurn names (k.name :: done) (l ++ h :: r) := ht.2
    rcases ht'.awaited_mem hb with hm | hm
    · rcases List.mem_cons.mp hm with rfl | hm
      · exact Or.inr (by simp)
      · exact Or.inl hm
    · exact Or.inr (by simp [hm])

theorem InTurn.append {names : List String} :
    ∀ {l : List Heir} {done : List String} {r : List Heir}, InTurn names done l →
      InTurn names ((l.map name).reverse ++ done) r → InTurn names done (l ++ r)
  | [], _, _, _, hr => by simpa using hr
  | h :: l, done, r, hl, hr => ⟨hl.1, InTurn.append hl.2 (by simpa using hr)⟩

/-! ### One round -/

section Round
variable {names : List String}

theorem round_perm : ∀ (hs : List Heir) (done : List String),
    ((round names done hs).1 ++ (round names done hs).2).Perm hs
  | [], _ => by simp [round]
  | h :: hs, done => by
    unfold round
    split
    · exact (round_perm hs (h.name :: done)).cons h
    · exact List.perm_middle.trans ((round_perm hs done).cons h)

theorem round_inTurn : ∀ (hs : List Heir) (done : List String),
    InTurn names done (round names done hs).1
  | [], _ => trivial
  | h :: hs, done => by
    unfold round
    split
    · next hr => exact ⟨hr, round_inTurn hs (h.name :: done)⟩
    · exact round_inTurn hs done

/-- A round that takes nobody has met nobody who was ready. -/
theorem not_isReady_of_round_eq_nil : ∀ (hs : List Heir) (done : List String),
    (round names done hs).1 = [] → ∀ h ∈ hs, ¬ h.isReady names done = true
  | [], _, _ => by simp
  | k :: hs, done, he => by
    unfold round at he
    split at he
    · cases he
    · next hr =>
      intro h hm
      rcases List.mem_cons.mp hm with rfl | hm
      · exact hr
      · exact not_isReady_of_round_eq_nil hs done he h hm

end Round

/-! ### All rounds -/

section Rounds
variable {names : List String}

theorem roundsUpTo_cons (k : Heir) (bound hs : List Heir) (done : List String) :
    roundsUpTo names (k :: bound) done hs =
      if (round names done hs).1 = [] then ([], (round names done hs).2)
      else ((round names done hs).1 ++ (roundsUpTo names bound
          (((round names done hs).1.map name).reverse ++ done) (round names done hs).2).1,
        (roundsUpTo names bound
          (((round names done hs).1.map name).reverse ++ done) (round names done hs).2).2) := by
  rw [roundsUpTo]
  simp only [List.isEmpty_iff]

theorem roundsUpTo_perm : ∀ (bound : List Heir) (done : List String) (hs : List Heir),
    ((roundsUpTo names bound done hs).1 ++ (roundsUpTo names bound done hs).2).Perm hs
  | [], _, hs => List.Perm.refl hs
  | _ :: bound, done, hs => by
    have hp : ((round names done hs).1 ++ (round names done hs).2).Perm hs := round_perm hs done
    rw [roundsUpTo_cons]
    split_ifs with he
    · rwa [he] at hp
    · rw [List.append_assoc]
      exact ((roundsUpTo_perm bound _ _).append_left _).trans hp

theorem roundsUpTo_inTurn : ∀ (bound : List Heir) (done : List String) (hs : List Heir),
    InTurn names done (roundsUpTo names bound done hs).1
  | [], _, _ => trivial
  | _ :: bound, done, hs => by
    rw [roundsUpTo_cons]
    split_ifs with he
    · trivial
    · exact (round_inTurn hs done).append (roundsUpTo_inTurn bound _ _)

/-- If there are rounds enough, those that are left over are not ready when all others are done. -/
theorem not_isReady_of_stuck : ∀ (bound : List Heir) (done : List String) (hs : List Heir),
    hs.length ≤ bound.length → ∀ h ∈ (roundsUpTo names bound done hs).2,
      ¬ h.isReady names (((roundsUpTo names bound done hs).1.map name).reverse ++ done) = true
  | [], _, hs, hl => by
    rw [List.length_eq_zero_iff.mp (Nat.le_zero.mp hl)]
    simp [roundsUpTo]
  | _ :: bound, done, hs, hl => by
    have hp : ((round names done hs).1 ++ (round names done hs).2).Perm hs := round_perm hs done
    rw [roundsUpTo_cons]
    split_ifs with he
    · rw [he, List.nil_append] at hp
      intro h hm
      exact not_isReady_of_round_eq_nil hs done he h (hp.mem_iff.mp hm)
    · have hlen := hp.length_eq
      rw [List.length_append] at hlen
      have hpos : 0 < (round names done hs).1.length := List.length_pos_iff.mpr he
      have ih := not_isReady_of_stuck bound (((round names done hs).1.map name).reverse ++ done)
        (round names done hs).2 (by simp only [List.length_cons] at hl; omega)
      simpa using ih

end Rounds

/-! ### Chains of bases -/

/-- The object of the first name has the second name as its base, and the base is another of the
objects. -/
def BuildsOn (hs : List Heir) (n b : String) : Prop :=
  ∃ h ∈ hs, h.name = n ∧ h.base = some b ∧ b ≠ n ∧ b ∈ hs.map name

/-- No chain of bases among the objects comes back to where it began. -/
def Acyclic (hs : List Heir) : Prop := ∀ n, ¬ Relation.TransGen (BuildsOn hs) n n

/-- Each one that is left over builds on another one that is left over. -/
theorem exists_awaited_of_stuck {hs : List Heir} {h : Heir} (hm : h ∈ (schedule hs).2) :
    ∃ p ∈ (schedule hs).2, BuildsOn hs h.name p.name := by
  have hp : ((schedule hs).1 ++ (schedule hs).2).Perm hs := roundsUpTo_perm hs [] hs
  have hn := not_isReady_of_stuck hs [] hs le_rfl h hm
  rw [isReady_iff] at hn
  push Not at hn
  obtain ⟨b, hb, hdone⟩ := hn
  obtain ⟨hbase, hne, hbn⟩ := awaits_eq_some.mp hb
  obtain ⟨p, hphs, rfl⟩ := List.mem_map.mp hbn
  refine ⟨p, ?_, h, hp.mem_iff.mp (List.mem_append_right _ hm), rfl, hbase, hne, hbn⟩
  rcases List.mem_append.mp (hp.mem_iff.mpr hphs) with ho | hs'
  · rw [List.append_nil, List.mem_reverse] at hdone
    exact absurd (List.mem_map_of_mem ho) hdone
  · exact hs'

/-- **Without a cycle the schedule takes every object, each behind the one that it waits for.** -/
theorem schedule_of_acyclic {hs : List Heir} (ha : Acyclic hs) :
    (schedule hs).2 = [] ∧ (schedule hs).1.Perm hs ∧
      InTurn (hs.map name) [] (schedule hs).1 := by
  have hstuck : (schedule hs).2 = [] := by
    by_contra hne
    obtain ⟨h, hm⟩ := List.exists_mem_of_ne_nil _ hne
    -- the chains order the names that are left over, so one of them has nothing to build on
    have : IsStrictOrder String fun a b => Relation.TransGen (BuildsOn hs) b a :=
      { irrefl := ha, trans := fun _ _ _ hab hbc => hbc.trans hab }
    have hfin := (List.finite_toSet ((schedule hs).2.map name)).wellFoundedOn
      (r := fun a b => Relation.TransGen (BuildsOn hs) b a)
    obtain ⟨⟨n, hn⟩, -, hmin⟩ := hfin.has_min Set.univ ⟨⟨h.name, List.mem_map_of_mem hm⟩, trivial⟩
    obtain ⟨k, hk, rfl⟩ := List.mem_map.mp hn
    obtain ⟨p, hps, hb⟩ := exists_awaited_of_stuck hk
    exact hmin ⟨p.name, List.mem_map_of_mem hps⟩ trivial (.single hb)
  have hp : ((schedule hs).1 ++ (schedule hs).2).Perm hs := roundsUpTo_perm hs [] hs
  refine ⟨hstuck, ?_, roundsUpTo_inTurn hs [] hs⟩
  rwa [hstuck, List.append_nil] at hp

end BuildPlan.Heir
