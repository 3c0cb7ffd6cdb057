import BuildPlan.Proofs.Settings.Runs
import Mathlib.Data.Set.Lattice

/-! # What is kept

A session keeps what was compiled under its key, and answers a key that comes again with what is
kept. A computation that never asks for a key twice (`AsksOnce`) does not notice: the keys that come to
the cache are distinct, and it gives what it would if every job were compiled anew
(`AsksOnce.runIn_eq_fresh`). -/

namespace BuildPlan

/-- The answer to a job if nothing is kept. -/
def Job.answerAnew (j : Job) (external : NameSet) : Logged Settings :=
  if !j.basePresent then .lift (.error j.baseMissing) else (j.run external).within j.context

namespace Compile

variable {α β : Type}

/-- What a computation gives if nothing is kept: every job is compiled anew. -/
def fresh : Compile α → Logged α
  | .done result => .lift result
  | .warn warnings rest => ⟨warnings ++ rest.fresh.warnings, rest.fresh.result⟩
  | .ask job external rest =>
    let answer := job.answerAnew external
    ⟨answer.warnings ++ (rest answer.result).fresh.warnings, (rest answer.result).fresh.result⟩

/-- The keys that come to the cache in a run, in order. -/
def keysIn : Compile α → Session → List SettingsKey
  | .done _, _ => []
  | .warn warnings rest, s => rest.keysIn (s.warn warnings)
  | .ask job external rest, s =>
    let (answer, s) := s.answer job external
    (if job.basePresent then [job.key external] else []) ++ (rest answer).keysIn s

/-- Whatever the answers are, the computation asks for these keys only, and for none of them twice. -/
def AsksOnce : Compile α → Set SettingsKey → Prop
  | .done _, _ => True
  | .warn _ rest, K => rest.AsksOnce K
  | .ask job external rest, K =>
    job.key external ∈ K ∧ ∀ answer, (rest answer).AsksOnce (K \ {job.key external})

variable {K L : Set SettingsKey}

/-! ### Asking once -/

theorem AsksOnce.mono {m : Compile α} (h : m.AsksOnce K) (hKL : K ⊆ L) : m.AsksOnce L := by
  induction m generalizing K L with
  | done _ => trivial
  | warn _ _ ih => exact ih h hKL
  | ask _ _ _ ih => exact ⟨hKL h.1, fun a => ih a (h.2 a) (Set.sdiff_subset_sdiff_left hKL)⟩

/-- What comes behind must ask for other keys. -/
theorem AsksOnce.bind {m : Compile α} {f : α → Compile β} (hm : m.AsksOnce K)
    (hf : ∀ a, (f a).AsksOnce L) (hd : Disjoint K L) : (m >>= f).AsksOnce (K ∪ L) := by
  induction m generalizing K with
  | done r =>
    cases r with
    | ok a => exact (hf a).mono Set.subset_union_right
    | error e => trivial
  | warn _ _ ih => exact ih hm hd
  | ask j x _ ih =>
    refine ⟨Or.inl hm.1, fun a => ?_⟩
    have hj : j.key x ∉ L := Set.disjoint_left.mp hd hm.1
    refine (ih a (hm.2 a) (hd.mono_left Set.sdiff_subset)).mono ?_
    rintro k (⟨hk, hne⟩ | hk)
    · exact ⟨Or.inl hk, hne⟩
    · refine ⟨Or.inr hk, fun he => hj ?_⟩
      rwa [← Set.mem_singleton_iff.mp he]

theorem AsksOnce.within {m : Compile α} (h : m.AsksOnce K) (context : String) :
    (m.within context).AsksOnce K := by
  induction m generalizing K with
  | done _ => trivial
  | warn _ _ ih => exact ih h
  | ask _ _ _ ih => exact ⟨h.1, fun a => ih a (h.2 a)⟩

theorem asksOnce_pure (a : α) : (pure a : Compile α).AsksOnce K := trivial

theorem asksOnce_throw (e : Failure) : (throw e : Compile α).AsksOnce K := trivial

theorem asksOnce_ofLogged (m : Logged α) : (ofLogged m).AsksOnce K := trivial

theorem asksOnce_compile (j : Job) (external : NameSet) :
    (j.compile external).AsksOnce {j.key external} :=
  ⟨rfl, fun _ => trivial⟩

/-- What is done before or behind without asking counts for nothing. -/
theorem AsksOnce.bind_of_done {m : Compile α} {f : α → Compile β} (hm : m.AsksOnce K)
    (hf : ∀ a, (f a).AsksOnce ∅) : (m >>= f).AsksOnce K :=
  (hm.bind hf (Set.disjoint_empty K)).mono (by simp)

theorem AsksOnce.of_fallible {r : Fallible α} {f : α → Compile β}
    (hf : ∀ a, r = .ok a → (f a).AsksOnce K) : (ofFallible r >>= f).AsksOnce K := by
  cases r with
  | ok a => exact hf a rfl
  | error e => trivial

/-- Computations one after another, each of which asks for keys of its own. -/
theorem AsksOnce.mapM {f : α → Compile β} (keys : α → Set SettingsKey) : ∀ {as : List α},
    (∀ a ∈ as, (f a).AsksOnce (keys a)) → as.Pairwise (fun a b => Disjoint (keys a) (keys b)) →
      (as.mapM f).AsksOnce {k | ∃ a ∈ as, k ∈ keys a}
  | [], _, _ => trivial
  | a :: as, hf, hd => by
    rw [List.pairwise_cons] at hd
    have htail := AsksOnce.mapM keys (fun b hb => hf b (List.mem_cons_of_mem _ hb)) hd.2
    rw [List.mapM_cons]
    refine ((hf a List.mem_cons_self).bind (fun _ => htail.bind_of_done fun _ => asksOnce_pure _)
      (Set.disjoint_right.mpr ?_)).mono ?_
    · rintro k ⟨b, hb, hk⟩
      exact Set.disjoint_right.mp (hd.1 b hb) hk
    · rintro k (hk | ⟨b, hb, hk⟩)
      · exact ⟨a, List.mem_cons_self, hk⟩
      · exact ⟨b, List.mem_cons_of_mem _ hb, hk⟩

end Compile

/-! ### Nothing is answered from the cache -/

namespace Session

/-- A job whose key is not there is answered anew. -/
theorem answer_of_get?_eq_none {s : Session} {j : Job} {external : NameSet}
    (h : s.cache.get? (j.key external) = none) :
    (s.answer j external).1 = (j.answerAnew external).result ∧
      (s.answer j external).2.warnings = s.warnings ++ (j.answerAnew external).warnings := by
  unfold answer Job.answerAnew
  split
  · exact ⟨rfl, (List.append_nil _).symm⟩
  · rw [h]
    dsimp only
    cases hr : ((j.run external).within j.context).result <;> exact ⟨rfl, rfl⟩

end Session

namespace Compile

variable {α β : Type} {K : Set SettingsKey}

/-- **A computation that asks for no key twice does not notice what is kept**: if nothing is kept
under its keys, no two jobs with one key come to the cache, and it gives what it gives if every job is
compiled anew. -/
theorem AsksOnce.runIn_eq_fresh {m : Compile α} (h : m.AsksOnce K) {s : Session}
    (hs : ∀ k ∈ K, s.cache.get? k = none) :
    (m.runIn s).1 = m.fresh.result ∧
      (m.runIn s).2.warnings = s.warnings ++ m.fresh.warnings ∧
      (m.keysIn s).Nodup ∧ ∀ k ∈ m.keysIn s, k ∈ K := by
  induction m generalizing K s with
  | done r => exact ⟨rfl, (List.append_nil _).symm, .nil, by simp [keysIn]⟩
  | warn ws rest ih =>
    obtain ⟨hr, hw, hk⟩ := ih h (s := s.warn ws) hs
    exact ⟨hr, hw.trans (List.append_assoc _ _ _), hk⟩
  | ask j x rest ih =>
    obtain ⟨ha, hw⟩ := Session.answer_of_get?_eq_none (hs _ h.1)
    -- The rest asks for other keys only, and the answer keeps nothing under these.
    have hs' : ∀ k ∈ K \ {j.key x}, (s.answer j x).2.cache.get? k = none := by
      rintro k ⟨hk, hne⟩
      have hagree := Session.answer_agree (K := K \ {j.key x}) (fun hm => hm.2 rfl) s
      rw [← hagree k ⟨hk, hne⟩, hs k hk]
    obtain ⟨hr', hw', hd', hk'⟩ := ih _ (h.2 (s.answer j x).1) hs'
    rw [ha] at hr' hw'
    have hrun : (Compile.ask j x rest).runIn s =
        (rest (j.answerAnew x).result).runIn (s.answer j x).2 := by
      rw [← ha]
      rfl
    have hkeys : (Compile.ask j x rest).keysIn s = (if j.basePresent then [j.key x] else []) ++
        (rest (s.answer j x).1).keysIn (s.answer j x).2 := rfl
    refine ⟨?_, ?_, ?_, ?_⟩
    · rw [hrun, hr']
      rfl
    · rw [hrun, hw', hw, List.append_assoc]
      rfl
    · rw [hkeys]
      split
      · exact List.nodup_cons.mpr ⟨fun hm => (hk' _ hm).2 rfl, hd'⟩
      · exact hd'
    · rw [hkeys]
      intro k hm
      rcases List.mem_append.mp hm with hm | hm
      · split at hm
        · rw [List.mem_singleton.mp hm]
          exact h.1
        · cases hm
      · exact (hk' k hm).1

/-! ### Computations in which every job is compiled anew -/

theorem fresh_bind (m : Compile α) (f : α → Compile β) :
    (m >>= f).fresh = m.fresh >>= fun a => (f a).fresh := by
  show (m.andThen f).fresh = m.fresh.andThen fun a => (f a).fresh
  induction m with
  | done r =>
    cases r with
    | ok a => exact (Logged.succeed_andThen a fun a => (f a).fresh).symm
    | error e => rfl
  | warn ws rest ih =>
    rw [andThen, fresh, ih, fresh]
    unfold Logged.andThen
    cases rest.fresh.result <;> simp
  | ask j x rest ih =>
    rw [andThen, fresh, fresh, ih]
    unfold Logged.andThen
    cases (rest (j.answerAnew x).result).fresh.result <;> simp

end Compile

/-! ### Inheritance asks once -/

namespace Heir

variable {inherited : Dictionary String Settings}
  {compile : Object → Option Settings → Compile Settings} {key : Object → SettingsKey}

theorem asksOnce_compileEach (hkey : ∀ o o', key o = key o' → o.name = o'.name)
    {names : List String} : ∀ {order : List Heir} {compiled : Dictionary String Settings},
      (∀ h ∈ order, ∀ base, (compile h.object base).AsksOnce {key h.object}) →
      (order.map name).Nodup →
        (compileEach names inherited compile compiled order).AsksOnce
          {k | ∃ h ∈ order, k = key h.object}
  | [], _, _, _ => Compile.asksOnce_pure _
  | h :: order, _, hc, hd => by
    rw [List.map_cons, List.nodup_cons] at hd
    refine ((hc h List.mem_cons_self _).bind (fun _ => asksOnce_compileEach hkey
      (fun k hk => hc k (List.mem_cons_of_mem _ hk)) hd.2) (Set.disjoint_left.mpr ?_)).mono ?_
    · rintro k hk ⟨p, hp, he⟩
      obtain rfl := Set.mem_singleton_iff.mp hk
      exact hd.1 (List.mem_map.mpr ⟨p, hp, (hkey _ _ he).symm⟩)
    · rintro k (hk | ⟨p, hp, he⟩)
      · exact ⟨h, List.mem_cons_self, hk⟩
      · exact ⟨p, List.mem_cons_of_mem _ hp, he⟩

/-- Objects with distinct names are asked for once each. -/
theorem asksOnce_compileAll (hkey : ∀ o o', key o = key o' → o.name = o'.name) {hs : List Heir}
    (hc : ∀ h ∈ hs, ∀ base, (compile h.object base).AsksOnce {key h.object})
    (hd : (hs.map name).Nodup) :
    (compileAll inherited compile hs).AsksOnce {k | ∃ h ∈ hs, k = key h.object} := by
  have hmem : ∀ h ∈ (schedule hs).1, h ∈ hs := fun h hm =>
    (schedule_perm hs).mem_iff.mp (List.mem_append_left _ hm)
  have hd' : ((schedule hs).1.map name).Nodup := by
    have hp := ((schedule_perm hs).map name).nodup_iff.mpr hd
    rw [List.map_append] at hp
    exact hp.of_append_left
  unfold compileAll
  split
  · exact Compile.asksOnce_throw _
  · refine ((asksOnce_compileEach hkey (fun h hm => hc h (hmem h hm)) hd').bind_of_done
      fun _ => ?_).mono ?_
    · split
      · exact Compile.asksOnce_pure _
      · exact Compile.asksOnce_throw _
    · rintro k ⟨h, hm, he⟩
      exact ⟨h, hmem h hm, he⟩

end Heir

end BuildPlan
