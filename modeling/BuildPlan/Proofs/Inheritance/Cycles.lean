import BuildPlan.Proofs.Inheritance.Meaning
import Mathlib.Data.Fintype.Pigeonhole

/-! # Bases that are nowhere, and bases without an end

Compiling in the order of the schedule has two failures of its own. The first object whose base is
neither another one of the objects nor inherited is named before anything is compiled. And the objects
that are left over when everything else has had its turn are those from which following the bases never
ends (`mem_stuck_iff`): the members of a cycle, and all that builds on one (`endless_iff`). So the outcome
says exactly what is wrong with the bases, and in the order of declaration who has a part in it
(`outcome_of_compileAll`). -/

namespace BuildPlan.Heir

variable {inherited : Dictionary String Settings} {hs : List Heir} {h : Heir}

/-! ### Following the bases -/

/-- Following the bases from the object never ends: there is an endless chain of the objects, each with
the next one as its base. -/
def Endless (hs : List Heir) (h : Heir) : Prop :=
  ∃ chain : Nat → Heir, chain 0 = h ∧
    ∀ k, chain k ∈ hs ∧ (chain k).base = some (chain (k + 1)).name ∧
      (chain (k + 1)).name ≠ (chain k).name

theorem Endless.mem (he : Endless hs h) : h ∈ hs := by
  obtain ⟨chain, rfl, hchain⟩ := he
  exact (hchain 0).1

/-- The base has no end either. -/
theorem Endless.next (he : Endless hs h) :
    ∃ p, Endless hs p ∧ h.base = some p.name ∧ p.name ≠ h.name := by
  obtain ⟨chain, rfl, hchain⟩ := he
  exact ⟨chain 1, ⟨fun k => chain (k + 1), rfl, fun k => hchain (k + 1)⟩, (hchain 0).2⟩

/-- A class of objects that has a base of every member has no end. -/
theorem endless_of_closed {P : Heir → Prop}
    (hP : ∀ h, P h → h ∈ hs ∧ ∃ p, P p ∧ h.base = some p.name ∧ p.name ≠ h.name) (hh : P h) :
    Endless hs h := by
  choose! next hnext using fun h hh => (hP h hh).2
  have hchain : ∀ k, P (next^[k] h) := by
    intro k
    induction k with
    | zero => exact hh
    | succ k ih =>
      rw [Function.iterate_succ_apply']
      exact (hnext _ ih).1
  refine ⟨fun k => next^[k] h, rfl, fun k => ⟨(hP _ (hchain k)).1, ?_⟩⟩
  dsimp only
  rw [Function.iterate_succ_apply']
  exact (hnext _ (hchain k)).2

/-- An object builds on what it has as its base. -/
theorem buildsOn_iff (hd : (hs.map name).Nodup) (hh : h ∈ hs) {b : String} :
    BuildsOn hs h.name b ↔ ∃ p ∈ hs, p.name = b ∧ h.base = some p.name ∧ p.name ≠ h.name := by
  constructor
  · rintro ⟨k, hk, hn, hb, hne, hm⟩
    obtain rfl := eq_of_name_eq hd hk hh hn
    obtain ⟨p, hp, rfl⟩ := List.mem_map.mp hm
    exact ⟨p, hp, rfl, hb, hne⟩
  · rintro ⟨p, hp, rfl, hb, hne⟩
    exact ⟨h, hh, rfl, hb, hne, List.mem_map_of_mem hp⟩

/-- **Following the bases never ends just from the members of a cycle and from what builds on one.** -/
theorem endless_iff (hd : (hs.map name).Nodup) (hh : h ∈ hs) :
    Endless hs h ↔ ∃ n, Relation.ReflTransGen (BuildsOn hs) h.name n ∧
      Relation.TransGen (BuildsOn hs) n n := by
  constructor
  · rintro ⟨chain, rfl, hchain⟩
    have hstep : ∀ k, BuildsOn hs (chain k).name (chain (k + 1)).name := fun k =>
      (buildsOn_iff hd (hchain k).1).mpr ⟨_, (hchain (k + 1)).1, rfl, (hchain k).2⟩
    have hreach : ∀ i k, Relation.ReflTransGen (BuildsOn hs) (chain i).name (chain (i + k)).name := by
      intro i k
      induction k with
      | zero => exact .refl
      | succ k ih => exact ih.tail (hstep (i + k))
    -- there are more places in the chain than names, so one of the names comes back
    obtain ⟨i, j, hlt, heq⟩ : ∃ i j, i < j ∧ (chain i).name = (chain j).name := by
      have hfin : Finite {n // n ∈ hs.map name} := (List.finite_toSet _).to_subtype
      obtain ⟨i, j, hne, heq⟩ := Finite.exists_ne_map_eq_of_infinite
        fun k => (⟨(chain k).name, List.mem_map_of_mem (hchain k).1⟩ : {n // n ∈ hs.map name})
      have heq : (chain i).name = (chain j).name := congrArg Subtype.val heq
      rcases Nat.lt_or_gt_of_ne hne with hlt | hlt
      · exact ⟨i, j, hlt, heq⟩
      · exact ⟨j, i, hlt, heq.symm⟩
    obtain ⟨k, rfl⟩ := Nat.exists_eq_add_of_lt hlt
    refine ⟨(chain i).name, by simpa using hreach 0 i, ?_⟩
    have hcycle := Relation.TransGen.tail' (hreach i k) (hstep (i + k))
    rwa [← heq] at hcycle
  · rintro ⟨n, hn, hc⟩
    refine endless_of_closed (P := fun h => h ∈ hs ∧ ∃ n, Relation.ReflTransGen (BuildsOn hs) h.name n ∧
      Relation.TransGen (BuildsOn hs) n n) ?_ ⟨hh, n, hn, hc⟩
    rintro h ⟨hh, n, hn, hc⟩
    refine ⟨hh, ?_⟩
    rcases hn.cases_head with rfl | ⟨b, hb, hn⟩
    · obtain ⟨b, hb, hrest⟩ := Relation.TransGen.head'_iff.mp hc
      obtain ⟨p, hp, rfl, hbase⟩ := (buildsOn_iff hd hh).mp hb
      exact ⟨p, ⟨hp, _, hrest, hc⟩, hbase⟩
    · obtain ⟨p, hp, rfl, hbase⟩ := (buildsOn_iff hd hh).mp hb
      exact ⟨p, ⟨hp, n, hn, hc⟩, hbase⟩

/-! ### What the schedule leaves over -/

/-- Behind objects whose bases end, objects in turn have bases that end. -/
theorem InTurn.not_endless (hd : (hs.map name).Nodup) : ∀ {order : List Heir} {done : List String},
    InTurn (hs.map name) done order → (∀ h ∈ order, h ∈ hs) →
      (∀ p ∈ hs, p.name ∈ done → ¬ Endless hs p) → ∀ h ∈ order, ¬ Endless hs h
  | [], _, _, _, _ => by simp
  | h :: order, done, ht, hmem, hdone => by
    obtain ⟨hh, hmem⟩ := List.forall_mem_cons.mp hmem
    have hend : ¬ Endless hs h := by
      intro he
      obtain ⟨p, hp, hb, hne⟩ := he.next
      have hawaits := awaits_eq_some.mpr ⟨hb, hne, List.mem_map_of_mem hp.mem⟩
      exact hdone p hp.mem (isReady_iff.mp ht.1 _ hawaits) hp
    refine List.forall_mem_cons.mpr ⟨hend, InTurn.not_endless hd ht.2 hmem fun p hp hpd => ?_⟩
    rcases List.mem_cons.mp hpd with hn | hpd
    · rwa [eq_of_name_eq hd hp hh hn]
    · exact hdone p hp hpd

/-- **The schedule leaves over the objects from which following the bases never ends.** -/
theorem mem_stuck_iff (hd : (hs.map name).Nodup) : h ∈ (schedule hs).2 ↔ Endless hs h := by
  have hp : ((schedule hs).1 ++ (schedule hs).2).Perm hs := roundsUpTo_perm hs [] hs
  constructor
  · refine endless_of_closed (P := (· ∈ (schedule hs).2)) fun h hm => ?_
    have hh : h ∈ hs := hp.mem_iff.mp (List.mem_append_right _ hm)
    obtain ⟨p, hps, hb⟩ := exists_awaited_of_stuck hm
    obtain ⟨q, hq, hn, hbase⟩ := (buildsOn_iff hd hh).mp hb
    obtain rfl := eq_of_name_eq hd hq (hp.mem_iff.mp (List.mem_append_right _ hps)) hn
    exact ⟨hh, q, hps, hbase⟩
  · intro he
    rcases List.mem_append.mp (hp.mem_iff.mpr he.mem) with ho | hs'
    · refine absurd he ((roundsUpTo_inTurn hs [] hs).not_endless hd (fun k hk => ?_) (by simp) h ho)
      exact hp.mem_iff.mp (List.mem_append_left _ hk)
    · exact hs'

theorem round_sublist {names : List String} : ∀ (hs : List Heir) (done : List String),
    (round names done hs).2.Sublist hs
  | [], _ => .slnil
  | h :: hs, done => by
    unfold round
    split
    · exact (round_sublist hs (h.name :: done)).cons h
    · exact (round_sublist hs done).cons_cons h

theorem roundsUpTo_sublist {names : List String} : ∀ (bound : List Heir) (done : List String)
    (hs : List Heir), (roundsUpTo names bound done hs).2.Sublist hs
  | [], _, hs => .refl hs
  | _ :: bound, done, hs => by
    rw [roundsUpTo_cons]
    split_ifs
    · exact round_sublist hs done
    · exact (roundsUpTo_sublist bound _ _).trans (round_sublist hs done)

open Classical in
/-- What is left over stands in the order of declaration. -/
theorem stuck_eq_filter (hd : (hs.map name).Nodup) :
    (schedule hs).2 = hs.filter fun h => Endless hs h := by
  have hsub : (schedule hs).2.Sublist hs := roundsUpTo_sublist hs [] hs
  have hnodup : hs.Nodup := List.Nodup.of_map name hd
  have hsub' : (schedule hs).2.Sublist (hs.filter fun h => Endless hs h) := by
    have hall : (schedule hs).2.filter (fun h => Endless hs h) = (schedule hs).2 :=
      List.filter_eq_self.mpr fun h hm => decide_eq_true ((mem_stuck_iff hd).mp hm)
    rw [← hall]
    exact hsub.filter _
  refine hsub'.eq_of_length (List.Perm.length_eq ?_)
  refine (List.perm_ext_iff_of_nodup (hnodup.sublist hsub) (hnodup.filter _)).mpr fun h => ?_
  rw [mem_stuck_iff hd, List.mem_filter, decide_eq_true_iff]
  exact ⟨fun he => ⟨he.mem, he⟩, And.right⟩

/-! ### Bases that are nowhere -/

/-- The base of the object is another one of the objects, or there are inherited settings of that
name. -/
def BaseKnown (hs : List Heir) (inherited : Dictionary String Settings) (h : Heir) : Prop :=
  ∀ b, h.base = some b → (b ≠ h.name ∧ b ∈ hs.map name) ∨ inherited.contains b = true

theorem not_baseKnown_iff : ¬ BaseKnown hs inherited h ↔
    ∃ b, h.inherits (hs.map name) = some b ∧ inherited.contains b = false := by
  unfold BaseKnown
  push Not
  refine exists_congr fun b => ?_
  rw [inherits_eq_some, and_assoc, Bool.eq_false_iff]
  refine and_congr_right fun _ => and_congr_left fun _ => ?_
  rw [← not_and_or.trans (or_congr_left not_not), not_and]

/-- The object with its base, if that is nowhere. -/
def lacking (inherited : Dictionary String Settings) (names : List String) (h : Heir) :
    Option (Heir × String) :=
  ((h.inherits names).filter fun b => !inherited.contains b).map (h, ·)

theorem unknownBase?_eq : unknownBase? inherited hs = hs.findSome? (lacking inherited (hs.map name)) := by
  unfold unknownBase?
  congr 1
  funext k
  unfold lacking
  cases k.inherits (hs.map name) with
  | none => rfl
  | some b => cases hc : inherited.contains b <;> simp [hc]

theorem lacking_eq_some {k : Heir} {out : Heir × String} :
    lacking inherited (hs.map name) k = some out ↔
      k = out.1 ∧ ¬ BaseKnown hs inherited k ∧ k.base = some out.2 := by
  obtain ⟨h, b⟩ := out
  simp only [lacking, Option.map_eq_some_iff, Option.filter_eq_some_iff, Bool.not_eq_true',
    Prod.mk.injEq, not_baseKnown_iff]
  constructor
  · rintro ⟨b', ⟨hb, hc⟩, rfl, rfl⟩
    exact ⟨rfl, ⟨b', hb, hc⟩, (inherits_eq_some.mp hb).1⟩
  · rintro ⟨rfl, ⟨b', hb, hc⟩, hbase⟩
    obtain rfl : b' = b := Option.some.inj ((inherits_eq_some.mp hb).1.symm.trans hbase)
    exact ⟨b', ⟨hb, hc⟩, rfl, rfl⟩

theorem lacking_eq_none {k : Heir} :
    lacking inherited (hs.map name) k = none ↔ BaseKnown hs inherited k := by
  rw [Option.eq_none_iff_forall_ne_some]
  constructor
  · intro hall
    by_contra hk
    obtain ⟨b, hb, -⟩ := not_baseKnown_iff.mp hk
    exact hall (k, b) (lacking_eq_some.mpr ⟨rfl, hk, (inherits_eq_some.mp hb).1⟩)
  · exact fun hk out hout => (lacking_eq_some.mp hout).2.1 hk

/-- **The first object without a known base is found, with that base.** -/
theorem unknownBase?_eq_some {b : String} : unknownBase? inherited hs = some (h, b) ↔
    ∃ l r, hs = l ++ h :: r ∧ (∀ k ∈ l, BaseKnown hs inherited k) ∧ ¬ BaseKnown hs inherited h ∧
      h.base = some b := by
  rw [unknownBase?_eq]
  refine List.findSome?_eq_some_iff.trans ⟨?_, ?_⟩
  · rintro ⟨l, k, r, hl, hfirst, hall⟩
    obtain ⟨rfl, hk, hb⟩ := lacking_eq_some.mp hfirst
    exact ⟨l, r, hl, fun k hm => lacking_eq_none.mp (hall k hm), hk, hb⟩
  · rintro ⟨l, r, hl, hall, hk, hb⟩
    exact ⟨l, h, r, hl, lacking_eq_some.mpr ⟨rfl, hk, hb⟩, fun k hm => lacking_eq_none.mpr (hall k hm)⟩

theorem unknownBase?_eq_none : unknownBase? inherited hs = none ↔ BasesKnown hs inherited :=
  ⟨basesKnown_of_unknownBase?, BasesKnown.unknownBase?_eq_none⟩

/-! ### The outcome -/

section Outcome
variable {σ : Type} (step : Object → Option Settings → StateM σ Settings) (s : σ)

/-- A compile step that always succeeds, whatever it changes. -/
def succeeding (o : Object) (base : Option Settings) : ExceptT Failure (StateM σ) Settings :=
  ExceptT.lift (step o base)

/-- Compiles objects from a state, with a step that always succeeds. -/
def runAll (inherited : Dictionary String Settings) (hs : List Heir) :
    Except Failure (Dictionary String Settings) × σ :=
  ((compileAll inherited (succeeding step) hs).run).run s

theorem compileEach_succeeding (names : List String) : ∀ (order : List Heir)
    (compiled : Dictionary String Settings) (s : σ), ∃ all t,
      ((compileEach names inherited (succeeding step) compiled order).run).run s = (.ok all, t)
  | [], compiled, s => ⟨compiled, s, rfl⟩
  | h :: order, compiled, s =>
    compileEach_succeeding names order
      (compiled.insert h.name ((step h.object (h.baseSettings names inherited compiled)).run s).1)
      ((step h.object (h.baseSettings names inherited compiled)).run s).2

theorem runAll_unknown {b : String} (hu : unknownBase? inherited hs = some (h, b)) :
    runAll step s inherited hs = (.error (Cause.unknownBase h.object.heading.display b).failure, s) := by
  unfold runAll compileAll
  rw [hu]
  rfl

/-- With known bases, the outcome depends on what the schedule leaves over. -/
theorem runAll_known (hk : BasesKnown hs inherited) :
    (((schedule hs).2 = [] ∧ ∃ result, (runAll step s inherited hs).1 = .ok result) ∨
      (schedule hs).2 ≠ [] ∧ (runAll step s inherited hs).1 =
        .error (Cause.cyclicInheritance ((schedule hs).2.map name)).failure) := by
  obtain ⟨all, t, hrun⟩ : ∃ all t, ((compileEach (hs.map name) inherited (succeeding step) .empty
      (schedule hs).1).run).run s = (.ok all, t) := compileEach_succeeding step _ _ _ s
  unfold runAll compileAll
  rw [hk.unknownBase?_eq_none]
  dsimp only
  rw [ExceptT.run_bind, StateT.run_bind, hrun]
  cases (schedule hs).2 with
  | nil => exact Or.inl ⟨rfl, _, rfl⟩
  | cons k stuck => exact Or.inr ⟨List.cons_ne_nil _ _, rfl⟩

open Classical in
/-- An outcome that says what is wrong with the bases, if something is. -/
structure Outcome (hs : List Heir) (inherited : Dictionary String Settings) (s : σ)
    (out : Except Failure (Dictionary String Settings) × σ) : Prop where
  /-- It is a failure for an unknown base if and only if a base is neither another one of the objects nor
  inherited. -/
  unknown : (∃ o b, out.1 = .error (Cause.unknownBase o b).failure) ↔
    ∃ h ∈ hs, ¬ BaseKnown hs inherited h
  /-- Then the first object with such a base is named, and nothing was compiled. -/
  first : ∀ o b, out.1 = .error (Cause.unknownBase o b).failure →
    out.2 = s ∧ ∃ l h r, hs = l ++ h :: r ∧ (∀ k ∈ l, BaseKnown hs inherited k) ∧
      ¬ BaseKnown hs inherited h ∧ h.base = some b ∧ o = h.object.heading.display
  /-- It is a failure for a cycle if and only if the bases are known and following them from some object
  never ends, and all objects from which it never ends are named, in the order of declaration. -/
  cyclic : ∀ ns, out.1 = .error (Cause.cyclicInheritance ns).failure ↔
    (∀ h ∈ hs, BaseKnown hs inherited h) ∧ (∃ h ∈ hs, Endless hs h) ∧
      ns = (hs.filter fun h => Endless hs h).map name
  /-- It is no failure in all other cases. -/
  succeeds : (∃ result, out.1 = .ok result) ↔
    (∀ h ∈ hs, BaseKnown hs inherited h) ∧ ∀ h ∈ hs, ¬ Endless hs h

/-- **The failures of inheritance are exact.** Let objects with distinct names be compiled with a step
that always succeeds. If some base is nowhere, the outcome is a failure that names the first object with
such a base, and nothing is compiled. Otherwise it is a failure exactly if following the bases from some
object never ends, and names, in the order of declaration, exactly the objects from which it never ends,
which are the members of cycles and what builds on them. -/
theorem outcome_of_compileAll (hd : (hs.map name).Nodup) :
    Outcome hs inherited s (runAll step s inherited hs) ∧
      ∀ h ∈ hs, Endless hs h ↔ ∃ n, Relation.ReflTransGen (BuildsOn hs) h.name n ∧
        Relation.TransGen (BuildsOn hs) n n := by
  classical
  refine ⟨?_, fun h hh => endless_iff hd hh⟩
  cases hu : unknownBase? inherited hs with
  | some found =>
    obtain ⟨h, b⟩ := found
    obtain ⟨l, r, hl, hall, hk, hb⟩ := unknownBase?_eq_some.mp hu
    have hh : h ∈ hs := hl ▸ List.mem_append_right _ List.mem_cons_self
    rw [runAll_unknown step s hu]
    refine ⟨⟨fun _ => ⟨h, hh, hk⟩, fun _ => ⟨_, b, rfl⟩⟩, fun o b' he => ?_, fun ns => ?_, ?_⟩
    · cases he
      exact ⟨rfl, l, h, r, hl, hall, hk, hb, rfl⟩
    · exact ⟨nofun, fun hns => absurd (hns.1 h hh) hk⟩
    · exact ⟨nofun, fun hns => absurd (hns.1 h hh) hk⟩
  | none =>
    have hk : BasesKnown hs inherited := unknownBase?_eq_none.mp hu
    have hsome : (∃ h ∈ hs, Endless hs h) ↔ (schedule hs).2 ≠ [] := by
      rw [stuck_eq_filter hd, Ne, List.filter_eq_nil_iff]
      simp only [decide_eq_true_iff, not_forall, not_not, exists_prop]
    have hunknown : ¬ ∃ h ∈ hs, ¬ BaseKnown hs inherited h := fun ⟨h, hh, hn⟩ => hn (hk h hh)
    rcases runAll_known step s hk with ⟨hnil, result, hrun⟩ | ⟨hne, hrun⟩
    · have hend : ∀ h ∈ hs, ¬ Endless hs h := fun h hh he => hsome.mp ⟨h, hh, he⟩ hnil
      refine ⟨?_, ?_, fun ns => ?_, ?_⟩ <;> rw [hrun]
      · exact ⟨nofun, fun hn => absurd hn hunknown⟩
      · nofun
      · exact ⟨nofun, fun ⟨_, hn, _⟩ => absurd hnil (hsome.mp hn)⟩
      · exact ⟨fun _ => ⟨hk, hend⟩, fun _ => ⟨result, rfl⟩⟩
    · refine ⟨?_, ?_, fun ns => ?_, ?_⟩ <;> rw [hrun]
      · exact ⟨nofun, fun hn => absurd hn hunknown⟩
      · nofun
      · rw [stuck_eq_filter hd]
        constructor
        · intro he
          cases he
          exact ⟨hk, hsome.mpr hne, rfl⟩
        · rintro ⟨-, -, rfl⟩
          rfl
      · exact ⟨nofun, fun hn => absurd (hsome.mpr hne) fun ⟨h, hh, he⟩ => hn.2 h hh he⟩

end Outcome

/-! ### A cycle with a dependant -/

/-- A settings object with its base. -/
def heirOf (n : String) (base : Option String) : Heir := ⟨⟨⟨"settings", n, base⟩, []⟩, base⟩

/-- Two objects that build on each other, one that builds on them, one that builds on the inherited one of
its name, and one without a base. -/
def tangle : List Heir :=
  [heirOf "Leaf" (some "B"), heirOf "A" (some "B"), heirOf "Self" (some "Self"), heirOf "B" (some "A"),
    heirOf "Root" none]

/-- Writes down the objects that are compiled. -/
def writtenDown (o : Object) (base : Option Settings) : StateM (List String) Settings := do
  modify (· ++ [o.name])
  return chained o base

/-- All that have a part in the cycle are named, and the others were compiled. -/
theorem outcome_of_tangle : (tangle.map name).Nodup ∧
    runAll writtenDown [] (.ofList [("Self", bare "Old")]) tangle =
      (.error (Cause.cyclicInheritance ["Leaf", "A", "B"]).failure, ["Self", "Root"]) ∧
    Outcome tangle (.ofList [("Self", bare "Old")]) []
      (runAll writtenDown [] (.ofList [("Self", bare "Old")]) tangle) :=
  ⟨by decide, rfl, (outcome_of_compileAll writtenDown [] (by decide)).1⟩

end BuildPlan.Heir
