import BuildPlan.Proofs.Inheritance.Meaning
import BuildPlan.Proofs.Settings.Causes
import BuildPlan.Proofs.Settings.WriteOnce

/-! # Bases that are there

A computation is in order if every job that it asks for is supplied: the base that the object of the job
names is there, under this name, among the settings that the computation was given as answers before
(`Supplies`). Whatever the answers are, settings have the key of the job that they answer, and a job that
is supplied does not fail for its base. So in a session that keeps settings under their own keys, a
computation in order never fails because a base is missing, unless it is told so from outside
(`Supplies.excused`), and none of the jobs that it really asks for comes before its base
(`Supplies.supplied`). Compiling objects in the
order of their inheritance is in order, if the inherited settings were answers
(`Heir.supplies_compileAll`). -/

namespace BuildPlan

/-- The base is one of the given settings, and it is there, under its name, if the object names one. -/
structure Job.Supplied (j : Job) (given : Set Settings) : Prop where
  mem : ∀ base, j.base = some base → base ∈ given
  named : ∀ n, j.object.base = some n → ∃ base, j.base = some base ∧ base.name = n

namespace Job.Supplied

variable {j : Job} {given more : Set Settings}

theorem mono (h : j.Supplied given) (hsub : given ⊆ more) : j.Supplied more :=
  ⟨fun base hb => hsub (h.mem base hb), h.named⟩

theorem basePresent (h : j.Supplied given) : j.basePresent = true := by
  unfold Job.basePresent
  cases hn : j.object.base with
  | none => rfl
  | some n =>
    obtain ⟨base, hb, hname⟩ := h.named n hn
    simp [hb, hname]

/-- An object that names no base needs none. -/
theorem of_none (hn : j.object.base = none) (hb : j.base = none) : j.Supplied given := by
  constructor
  · intro base h
    rw [hb] at h
    cases h
  · intro n h
    rw [hn] at h
    cases h

/-- The settings at hand may be more than what the object names. -/
theorem of_some {base : Settings} (hb : j.base = some base) (hmem : base ∈ given)
    (hn : ∀ n, j.object.base = some n → base.name = n) : j.Supplied given := by
  constructor
  · intro base' h
    rw [hb] at h
    cases h
    exact hmem
  · exact fun n h => ⟨base, hb, hn n h⟩

end Job.Supplied

/-- A job that is supplied does not fail for its base, whatever is kept. -/
theorem Session.Answers.findsBase {s t : Session} {j : Job} {external : NameSet}
    {r : Fallible Settings} {given : Set Settings} (h : s.Answers j external r t)
    (hj : j.Supplied given) : r.FindsBase := by
  cases h with
  | missing hbase =>
    rw [hj.basePresent] at hbase
    cases hbase
  | kept | compiled => trivial
  | failed hbase hkept hrun =>
    have hfinds := j.findsBase_run external
    rw [hrun] at hfinds
    exact hfinds

namespace Compile

variable {α β : Type}

/-- The jobs that a computation asks for in a session, each with its answer. -/
def callsIn : Compile α → Session → List (Job × Fallible Settings)
  | .done _, _ => []
  | .warn warnings rest, s => rest.callsIn (s.warn warnings)
  | .ask job external rest, s =>
    let (answer, s) := s.answer job external
    (job, answer) :: (rest answer).callsIn s

theorem runIn_ask (j : Job) (external : NameSet) (rest : Fallible Settings → Compile α) (s : Session) :
    (ask j external rest).runIn s =
      (rest (s.answer j external).1).runIn (s.answer j external).2 := rfl

theorem callsIn_ask (j : Job) (external : NameSet) (rest : Fallible Settings → Compile α)
    (s : Session) :
    (ask j external rest).callsIn s =
      (j, (s.answer j external).1) ::
        (rest (s.answer j external).1).callsIn (s.answer j external).2 := rfl

/-- Every job that the computation asks for is supplied by the given settings and the answers before,
no failure is because of a missing base, unless its cause is one of these, and the result is as demanded
of it and of the settings given by then. Answers with settings have the key of the job, and answers that
fail have other causes. -/
def Supplies (E : Cause → Prop) (Q : α → Set Settings → Prop) : Compile α → Set Settings → Prop
  | .done (.ok a), given => Q a given
  | .done (.error e), _ => e.cause.IsBaseMissing → E e.cause
  | .warn _ rest, given => rest.Supplies E Q given
  | .ask job external rest, given =>
    job.Supplied given ∧
      (∀ settings, settings.key = job.key external →
        (rest (.ok settings)).Supplies E Q (insert settings given)) ∧
      ∀ e : Failure, ¬ e.cause.IsBaseMissing → (rest (.error e)).Supplies E Q given

section Supplies
variable {E : Cause → Prop} {Q R : α → Set Settings → Prop} {given : Set Settings} {m : Compile α}

/-- What is demanded may be weakened, knowing that the given settings only become more. -/
theorem Supplies.imp (h : m.Supplies E Q given) (hQR : ∀ a more, given ⊆ more → Q a more → R a more) :
    m.Supplies E R given := by
  induction m generalizing given with
  | done r =>
    cases r with
    | ok a => exact hQR a given subset_rfl h
    | error e => exact h
  | warn _ _ ih => exact ih h hQR
  | ask j external rest ih =>
    obtain ⟨hj, hok, herror⟩ := h
    refine ⟨hj, fun b hb => ih _ (hok b hb) fun a more hsub => ?_, fun e he => ih _ (herror e he) hQR⟩
    exact hQR a more ((Set.subset_insert b given).trans hsub)

theorem supplies_pure {a : α} (h : Q a given) : (pure a : Compile α).Supplies E Q given := h

theorem supplies_throw {e : Failure} (h : ¬ e.cause.IsBaseMissing) :
    (throw e : Compile α).Supplies E Q given := fun hmissing => absurd hmissing h

/-- Goes on with what is demanded of the rest. -/
theorem supplies_bind {f : α → Compile β} {Q : β → Set Settings → Prop} :
    (m >>= f).Supplies E Q given ↔ m.Supplies E (fun a => (f a).Supplies E Q) given := by
  induction m generalizing given with
  | done r => cases r <;> exact Iff.rfl
  | warn _ _ ih => exact ih
  | ask _ _ _ ih =>
    exact and_congr_right fun _ => and_congr (forall₂_congr fun b _ => ih (.ok b))
      (forall₂_congr fun e _ => ih (.error e))

theorem Supplies.bind {f : α → Compile β} {Q : β → Set Settings → Prop} (h : m.Supplies E R given)
    (hf : ∀ a more, given ⊆ more → R a more → (f a).Supplies E Q more) : (m >>= f).Supplies E Q given :=
  supplies_bind.mpr (h.imp hf)

@[simp] theorem supplies_within (context : String) :
    (m.within context).Supplies E Q given ↔ m.Supplies E Q given := by
  induction m generalizing given with
  | done r => cases r <;> exact Iff.rfl
  | warn _ _ ih => exact ih
  | ask _ _ _ ih =>
    exact and_congr_right fun _ => and_congr (forall₂_congr fun b _ => ih (.ok b))
      (forall₂_congr fun e _ => ih (.error e))

theorem supplies_ofFallible {r : Fallible α} (hr : r.Excused E) (h : ∀ a, r = .ok a → Q a given) :
    (ofFallible r).Supplies E Q given := by
  cases r with
  | ok a => exact h a rfl
  | error e => exact hr

/-- Goes on from what may fail without having anything compiled. -/
theorem supplies_ofFallible_bind {r : Fallible α} {f : α → Compile β}
    {Q : β → Set Settings → Prop} (hr : r.FindsBase) (hf : ∀ a, r = .ok a → (f a).Supplies E Q given) :
    (ofFallible r >>= f).Supplies E Q given :=
  supplies_bind.mpr (supplies_ofFallible hr.excused hf)

theorem supplies_ofLogged {m : Logged α} (hm : m.result.Excused E)
    (h : ∀ a, m.result = .ok a → Q a given) : (ofLogged m).Supplies E Q given :=
  supplies_ofFallible hm h

theorem supplies_compile {j : Job} {external : NameSet} {Q : Settings → Set Settings → Prop}
    (hj : j.Supplied given)
    (h : ∀ settings, settings.key = j.key external → Q settings (insert settings given)) :
    (j.compile external).Supplies E Q given :=
  ⟨hj, h, fun _ he hmissing => absurd hmissing he⟩

/-- What holds of each result, and goes on holding when more is given, holds of all of them in the
end. -/
theorem supplies_mapM {f : α → Compile β} {P : β → Set Settings → Prop}
    (hmono : ∀ {b given more}, given ⊆ more → P b given → P b more) : ∀ {as : List α}
    {given : Set Settings}, (∀ a ∈ as, ∀ more, given ⊆ more → (f a).Supplies E P more) →
      (as.mapM f).Supplies E (fun bs more => ∀ b ∈ bs, P b more) given
  | [], _, _ => fun _ hb => absurd hb List.not_mem_nil
  | a :: as, given, hf => by
    rw [List.mapM_cons]
    refine (hf a List.mem_cons_self given subset_rfl).bind fun b more hmore hb => ?_
    have hrest := supplies_mapM (P := P) hmono fun a' ha' more' hmore' =>
      hf a' (List.mem_cons_of_mem a ha') more' (hmore.trans hmore')
    refine hrest.bind fun bs all hall hbs => supplies_pure fun b' hb' => ?_
    rcases List.mem_cons.mp hb' with rfl | hb'
    · exact hmono hall hb
    · exact hbs b' hb'

end Supplies

/-! ### In a session -/

section Run
variable {E : Cause → Prop} {Q : α → Set Settings → Prop} {given : Set Settings} {m : Compile α}
  {s : Session}

/-- **A computation in order does not fail because a base is missing**, but for the causes that are
excused. -/
theorem Supplies.excused (h : m.Supplies E Q given) (hs : s.Keyed) {e : Failure}
    (he : (m.runIn s).1 = .error e) : e.cause.IsBaseMissing → E e.cause := by
  induction m generalizing given s with
  | done r =>
    cases he
    exact h
  | warn _ _ ih => exact ih (s := s.warn _) h hs he
  | ask j external rest ih =>
    obtain ⟨hj, hok, herror⟩ := h
    have hanswers := s.answers j external
    rw [runIn_ask] at he
    cases hr : (s.answer j external).1 with
    | ok settings =>
      rw [hr] at he
      exact ih _ (hok settings (hanswers.key_of_ok hs hr)) (hanswers.keyed hs) he
    | error f =>
      have hcause := hanswers.findsBase hj
      rw [hr] at he hcause
      exact ih _ (herror f hcause) (hanswers.keyed hs) he

/-- **A computation in order has every base compiled before it is asked for.** -/
theorem Supplies.supplied (h : m.Supplies E Q given) (hs : s.Keyed)
    {before behind : List (Job × Fallible Settings)} {j : Job} {r : Fallible Settings}
    (hcalls : m.callsIn s = before ++ (j, r) :: behind) :
    j.Supplied (given ∪ {b | ∃ j', (j', .ok b) ∈ before}) := by
  induction m generalizing given s before with
  | done r => cases before <;> cases hcalls
  | warn _ _ ih => exact ih (s := s.warn _) h hs hcalls
  | ask j₀ external rest ih =>
    obtain ⟨hj, hok, herror⟩ := h
    have hanswers := s.answers j₀ external
    rw [callsIn_ask] at hcalls
    cases before with
    | nil =>
      cases (List.cons.inj hcalls).1
      exact hj.mono Set.subset_union_left
    | cons call before =>
      obtain ⟨hcall, hrest⟩ := List.cons.inj hcalls
      cases hr : (s.answer j₀ external).1 with
      | ok settings =>
        rw [hr] at hcall hrest
        subst hcall
        refine (ih _ (hok settings (hanswers.key_of_ok hs hr)) (hanswers.keyed hs) hrest).mono ?_
        rintro b ((rfl | hb) | ⟨j', hb⟩)
        · exact Or.inr ⟨j₀, List.mem_cons_self⟩
        · exact Or.inl hb
        · exact Or.inr ⟨j', List.mem_cons_of_mem _ hb⟩
      | error f =>
        have hcause := hanswers.findsBase hj
        rw [hr] at hrest hcause
        refine (ih _ (herror f hcause) (hanswers.keyed hs) hrest).mono ?_
        rintro b (hb | ⟨j', hb⟩)
        · exact Or.inl hb
        · exact Or.inr ⟨j', List.mem_cons_of_mem _ hb⟩

end Run

end Compile

/-! ### In the order of inheritance -/

/-- All settings of the dictionary are given, and they stand under their names. -/
def Stocked (given : Set Settings) (d : Dictionary String Settings) : Prop :=
  ∀ n s, d.get? n = some s → s.name = n ∧ s ∈ given

namespace Stocked

variable {given more : Set Settings} {d : Dictionary String Settings}

theorem mono (h : Stocked given d) (hsub : given ⊆ more) : Stocked more d :=
  fun n s hn => ⟨(h n s hn).1, hsub (h n s hn).2⟩

theorem empty (given : Set Settings) : Stocked given .empty := nofun

theorem insert {s : Settings} (h : Stocked given d) (hs : s ∈ given) :
    Stocked given (d.insert s.name s) := by
  intro n t hn
  rw [Dictionary.get?_insert] at hn
  split at hn
  · next hname =>
    cases hn
    exact ⟨hname, hs⟩
  · exact h n t hn

/-- Entries that are taken out of a dictionary by their names. -/
theorem ofList_filterMap (h : Stocked given d) (hs : List Heir) :
    Stocked given (.ofList (hs.filterMap fun h => (d.get? h.name).map fun s => (h.name, s))) := by
  intro n s hn
  have hmem := Dictionary.mem_of_mem_entries_ofList (Dictionary.mem_of_get? hn)
  obtain ⟨heir, -, hget⟩ := List.mem_filterMap.mp hmem
  obtain ⟨s', hs', heq⟩ := Option.map_eq_some_iff.mp hget
  cases heq
  exact h _ _ hs'

end Stocked

namespace Heir

/-- The base that an object names is the one that it has in effect. -/
def DeclaresBase (h : Heir) : Prop := ∀ n, h.object.base = some n → h.base = some n

section Order
variable {E : Cause → Prop} {hs : List Heir} {inherited : Dictionary String Settings} {scope : String} {r : Registry}
  {c : Option Configuration} {b : Bindings} {external : NameSet}

/-- An object whose turn has come builds on settings that are given, under the name of its base. -/
theorem supplied_baseSettings {compiled : Dictionary String Settings} {done : List String} {h : Heir}
    {given : Set Settings} (hk : BasesKnown hs inherited) (hh : h ∈ hs) (hdeclares : h.DeclaresBase)
    (hr : h.isReady (hs.map name) done = true) (hi : Stocked given inherited)
    (hc : Stocked given compiled)
    (hdone : ∀ p ∈ hs, p.name ∈ done → ∃ s, compiled.get? p.name = some s) :
    Job.Supplied ⟨h.object, scope, r, c, h.baseSettings (hs.map name) inherited compiled, b⟩ given := by
  have hdone' : ∀ p ∈ hs, p.name ∈ done →
      ∃ s, compiled.get? p.name = some s ∧ s.name = p.name ∧ s ∈ given := by
    intro p hp hpd
    obtain ⟨s, hs⟩ := hdone p hp hpd
    exact ⟨s, hs, hc _ _ hs⟩
  -- the base in effect is the declared one, wherever it comes from
  rcases baseSettings_cases hk hh hr (C := fun p s => s.name = p.name ∧ s ∈ given) hdone' with
    ⟨hb, he⟩ | ⟨p, s, -, hb, -, ⟨hname, hmem⟩, he⟩ | ⟨n, s, hb, -, hget, he⟩
  · refine .of_none ?_ he
    cases hn : h.object.base with
    | none => rfl
    | some n => cases (hdeclares n hn).symm.trans hb
  · refine .of_some he hmem fun n hn => ?_
    cases (hdeclares n hn).symm.trans hb
    exact hname
  · refine .of_some he (hi n s hget).2 fun m hm => ?_
    cases (hdeclares m hm).symm.trans hb
    exact (hi n s hget).1

/-- Objects in turn are compiled in order. -/
theorem supplies_compileEach (hk : BasesKnown hs inherited) (hdeclares : ∀ h ∈ hs, h.DeclaresBase) :
    ∀ {order : List Heir} {done : List String} {compiled : Dictionary String Settings}
      {given : Set Settings}, InTurn (hs.map name) done order → (∀ h ∈ order, h ∈ hs) →
      Stocked given inherited → Stocked given compiled →
      (∀ p ∈ hs, p.name ∈ done → ∃ s, compiled.get? p.name = some s) →
      (compileEach (hs.map name) inherited
        (fun child base => Job.compile ⟨child, scope, r, c, base, b⟩ external) compiled
        order).Supplies E (fun all more => Stocked more all) given
  | [], _, _, _, _, _, _, hc, _ => hc
  | h :: order, done, compiled, given, ht, hmem, hi, hc, hdone => by
    have hh := hmem h List.mem_cons_self
    rw [compileEach]
    refine Compile.Supplies.bind (R := fun s more => s.name = h.name ∧ s ∈ more)
      (Compile.supplies_compile
        (supplied_baseSettings hk hh (hdeclares h hh) ht.1 hi hc hdone)
        fun s hs => ⟨congrArg SettingsKey.name hs, Set.mem_insert s given⟩) ?_
    intro s more hmore hs
    refine supplies_compileEach hk hdeclares ht.2 (fun k hm => hmem k (List.mem_cons_of_mem _ hm))
      (hi.mono hmore) ?_ fun p hp hpd => ?_
    · rw [← hs.1]
      exact (hc.mono hmore).insert hs.2
    · rw [Dictionary.get?_insert]
      split
      · exact ⟨s, rfl⟩
      · next hne => exact hdone p hp ((List.mem_cons.mp hpd).resolve_left (Ne.symm hne))

/-- **Objects are compiled in order, each behind its base**, if the inherited settings are given. -/
theorem supplies_compileAll {given : Set Settings} (hdeclares : ∀ h ∈ hs, h.DeclaresBase)
    (hi : Stocked given inherited) :
    (compileAll inherited (fun child base => Job.compile ⟨child, scope, r, c, base, b⟩ external)
      hs).Supplies E (fun all more => Stocked more all) given := by
  unfold compileAll
  split
  · exact Compile.supplies_throw id
  · next hu =>
    have hperm : ((schedule hs).1 ++ (schedule hs).2).Perm hs := roundsUpTo_perm hs [] hs
    refine (supplies_compileEach (basesKnown_of_unknownBase? hu) hdeclares
      (roundsUpTo_inTurn hs [] hs) (fun h hm => hperm.mem_iff.mp (List.mem_append_left _ hm)) hi
      (.empty given) fun p _ hpd => absurd hpd List.not_mem_nil).bind fun all more _ hall => ?_
    split
    · exact hall.ofList_filterMap hs
    · exact Compile.supplies_throw id

end Order

end Heir

end BuildPlan
