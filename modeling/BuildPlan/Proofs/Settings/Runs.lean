import BuildPlan.Proofs.Inheritance.Schedule
import Mathlib.Order.CompletePartialOrder

/-! # Runs of computations

A run goes through a computation in a session. Two sessions that keep the same under the keys that a
computation asks for (`Agree`) give it the same result, and it leaves alone what is kept under all
other keys (`Asks`). -/

namespace BuildPlan

namespace Compile

variable {α β : Type}

@[simp] theorem runIn_pure (a : α) (s : Session) : (pure a : Compile α).runIn s = (.ok a, s) := rfl

@[simp] theorem runIn_throw (e : Failure) (s : Session) :
    (throw e : Compile α).runIn s = (.error e, s) := rfl

@[simp] theorem runIn_ofFallible (r : Fallible α) (s : Session) :
    (ofFallible r).runIn s = (r, s) := rfl

@[simp] theorem runIn_ofLogged (m : Logged α) (s : Session) :
    (ofLogged m).runIn s = (m.result, s.warn m.warnings) := rfl

theorem runIn_compile (j : Job) (external : NameSet) (s : Session) :
    (j.compile external).runIn s = s.answer j external := rfl

theorem runIn_bind (m : Compile α) (f : α → Compile β) (s : Session) :
    (m >>= f).runIn s =
      match m.runIn s with
      | (.ok a, t) => (f a).runIn t
      | (.error e, t) => (.error e, t) := by
  induction m generalizing s with
  | done r => cases r <;> rfl
  | warn _ _ ih => exact ih _
  | ask _ _ _ ih => exact ih _ _

theorem runIn_within (context : String) (m : Compile α) (s : Session) :
    (m.within context).runIn s = ((m.runIn s).1.within context, (m.runIn s).2) := by
  induction m generalizing s with
  | done r => rfl
  | warn _ _ ih => exact ih _
  | ask _ _ _ ih => exact ih _ _

/-- A run that goes on from a result gives something if both of its parts do. -/
theorem runIn_bind_ok {m : Compile α} {f : α → Compile β} {b : β} {s t : Session} :
    (m >>= f).runIn s = (.ok b, t) ↔
      ∃ a u, m.runIn s = (.ok a, u) ∧ (f a).runIn u = (.ok b, t) := by
  rw [runIn_bind]
  constructor
  · intro h
    split at h
    · next a u hm => exact ⟨a, u, hm, h⟩
    · cases h
  · rintro ⟨a, u, hm, hf⟩
    rw [hm]
    exact hf

theorem runIn_pure_ok {a b : α} {s t : Session} :
    (pure a : Compile α).runIn s = (.ok b, t) ↔ a = b ∧ s = t := by
  simp

theorem runIn_ofFallible_ok {r : Fallible α} {a : α} {s t : Session} :
    (ofFallible r).runIn s = (.ok a, t) ↔ r = .ok a ∧ s = t := by
  simp

/-! ### Computations as a monad -/

theorem pure_bind (a : α) (f : α → Compile β) : pure a >>= f = f a := rfl

theorem bind_pure (m : Compile α) : m >>= pure = m := by
  induction m with
  | done r => cases r <;> rfl
  | warn ws _ ih => exact congrArg (Compile.warn ws) ih
  | ask j x _ ih => exact congrArg (Compile.ask j x) (funext ih)

theorem bind_assoc {γ : Type} (m : Compile α) (f : α → Compile β) (g : β → Compile γ) :
    m >>= f >>= g = m >>= fun a => f a >>= g := by
  induction m with
  | done r => cases r <;> rfl
  | warn ws _ ih => exact congrArg (Compile.warn ws) ih
  | ask j x _ ih => exact congrArg (Compile.ask j x) (funext ih)

theorem ofFallible_ok_bind (a : α) (f : α → Compile β) : ofFallible (.ok a) >>= f = f a := rfl

theorem ofFallible_error_bind (e : Failure) (f : α → Compile β) :
    ofFallible (.error e) >>= f = throw e := rfl

instance : LawfulMonad Compile := LawfulMonad.mk' Compile bind_pure pure_bind bind_assoc

theorem runIn_mapM_cons_ok {f : α → Compile β} {a : α} {as : List α} {bs : List β}
    {s t : Session} :
    ((a :: as).mapM f).runIn s = (.ok bs, t) ↔
      ∃ b cs u, (f a).runIn s = (.ok b, u) ∧ (as.mapM f).runIn u = (.ok cs, t) ∧ bs = b :: cs := by
  simp only [List.mapM_cons, runIn_bind_ok, runIn_pure_ok]
  constructor
  · rintro ⟨b, u, hb, cs, v, hcs, rfl, rfl⟩
    exact ⟨b, cs, u, hb, hcs, rfl⟩
  · rintro ⟨b, cs, u, hb, hcs, rfl⟩
    exact ⟨b, u, hb, cs, t, hcs, rfl, rfl⟩

/-- What is computed for each of a list stands beside it. -/
theorem keys_of_runIn_mapM {f : α → Compile β} : ∀ {as : List α} {s t : Session}
    {rs : List (α × β)}, (as.mapM fun a => do return (a, ← f a)).runIn s = (.ok rs, t) →
      rs.map Prod.fst = as
  | [], _, _, _, h => by
    cases h
    rfl
  | a :: as, s, t, rs, h => by
    obtain ⟨r, cs, u, hr, hcs, rfl⟩ := runIn_mapM_cons_ok.mp h
    obtain ⟨b, v, -, hb⟩ := runIn_bind_ok.mp hr
    cases hb
    rw [List.map_cons, keys_of_runIn_mapM hcs]

/-! ### Computations with the same runs -/

/-- Computations run alike if they begin alike and go on alike from what the first ones give. -/
theorem runIn_bind_congr {m m' : Compile α} {f f' : α → Compile β} (hm : m.runIn = m'.runIn)
    (hf : ∀ a s t, m.runIn s = (.ok a, t) → (f a).runIn = (f' a).runIn) :
    (m >>= f).runIn = (m' >>= f').runIn := by
  funext s
  rw [runIn_bind, runIn_bind, ← hm]
  split
  · next a t h => rw [hf a s t h]
  · rfl

theorem runIn_within_congr {m m' : Compile α} (hm : m.runIn = m'.runIn) (context : String) :
    (m.within context).runIn = (m'.within context).runIn := by
  funext s
  rw [runIn_within, runIn_within, hm]

theorem runIn_mapM_congr {f g : α → Compile β} : ∀ {as : List α},
    (∀ a ∈ as, (f a).runIn = (g a).runIn) → (as.mapM f).runIn = (as.mapM g).runIn
  | [], _ => rfl
  | a :: as, h => by
    have htail : (as.mapM f).runIn = (as.mapM g).runIn :=
      runIn_mapM_congr fun b hb => h b (List.mem_cons_of_mem _ hb)
    rw [List.mapM_cons, List.mapM_cons]
    exact runIn_bind_congr (h a (by simp)) fun _ _ _ _ => runIn_bind_congr htail fun _ _ _ _ => rfl

end Compile

/-- A job is answered by its object's heading, and by what a walk over its body does. -/
theorem Job.run_congr {o o' : Object} (hh : o.heading = o'.heading) {external : NameSet}
    {c : Configuration} {r : Registry}
    (hw : ∀ bag, walkAll r (external.union c.constants) bag o.body =
      walkAll r (external.union c.constants) bag o'.body)
    (scope : String) (base : Option Settings) (b : Bindings) :
    Job.run ⟨o, scope, r, some c, base, b⟩ external =
      Job.run ⟨o', scope, r, some c, base, b⟩ external := by
  simp only [run, defined, hw, key, Object.kind, Object.name, hh]
  rfl

theorem Job.runIn_compile_congr {o o' : Object} (hh : o.heading = o'.heading) {external : NameSet}
    {c : Configuration} {r : Registry}
    (hw : ∀ bag, walkAll r (external.union c.constants) bag o.body =
      walkAll r (external.union c.constants) bag o'.body)
    (scope : String) (base : Option Settings) (b : Bindings) :
    (Job.compile ⟨o, scope, r, some c, base, b⟩ external).runIn =
      (Job.compile ⟨o', scope, r, some c, base, b⟩ external).runIn := by
  have hrun := Job.run_congr hh hw scope base b
  obtain ⟨heading, body⟩ := o
  obtain ⟨heading', body'⟩ := o'
  obtain rfl : heading = heading' := hh
  funext s
  rw [Compile.runIn_compile, Compile.runIn_compile]
  unfold Session.answer
  rw [hrun]
  rfl

namespace Compile

variable {α β : Type}

/-! ### The keys that a computation asks for -/

/-- Whatever the answers are, the computation asks for jobs with these keys only. -/
def Asks (K : Set SettingsKey) : Compile α → Prop
  | .done _ => True
  | .warn _ rest => rest.Asks K
  | .ask job external rest => job.key external ∈ K ∧ ∀ answer, (rest answer).Asks K

variable {K L : Set SettingsKey}

theorem Asks.mono (hKL : K ⊆ L) {m : Compile α} (h : m.Asks K) : m.Asks L := by
  induction m with
  | done _ => trivial
  | warn _ _ ih => exact ih h
  | ask _ _ _ ih => exact ⟨hKL h.1, fun a => ih a (h.2 a)⟩

theorem Asks.bind {m : Compile α} {f : α → Compile β} (hm : m.Asks K) (hf : ∀ a, (f a).Asks K) :
    (m >>= f).Asks K := by
  induction m with
  | done r =>
    cases r with
    | ok a => exact hf a
    | error e => trivial
  | warn _ _ ih => exact ih hm
  | ask _ _ _ ih => exact ⟨hm.1, fun a => ih a (hm.2 a)⟩

theorem Asks.within {m : Compile α} (h : m.Asks K) (context : String) :
    (m.within context).Asks K := by
  induction m with
  | done _ => trivial
  | warn _ _ ih => exact ih h
  | ask _ _ _ ih => exact ⟨h.1, fun a => ih a (h.2 a)⟩

theorem asks_pure (a : α) : (pure a : Compile α).Asks K := trivial

theorem asks_throw (e : Failure) : (throw e : Compile α).Asks K := trivial

theorem asks_ofFallible (r : Fallible α) : (ofFallible r).Asks K := trivial

theorem asks_ofLogged (m : Logged α) : (ofLogged m).Asks K := trivial

theorem asks_compile {j : Job} {external : NameSet} (h : j.key external ∈ K) :
    (j.compile external).Asks K :=
  ⟨h, fun _ => trivial⟩

theorem asks_mapM {f : α → Compile β} (h : ∀ a, (f a).Asks K) : ∀ as : List α, (as.mapM f).Asks K
  | [] => trivial
  | a :: as => by
    rw [List.mapM_cons]
    exact (h a).bind fun _ => (asks_mapM h as).bind fun _ => asks_pure _

end Compile

/-! ### Sessions that agree -/

/-- The sessions keep the same under these keys. -/
def Session.Agree (K : Set SettingsKey) (s t : Session) : Prop :=
  ∀ k ∈ K, s.cache.get? k = t.cache.get? k

namespace Session

variable {K : Set SettingsKey} {s t u : Session}

theorem Agree.refl (K : Set SettingsKey) (s : Session) : s.Agree K s := fun _ _ => rfl

theorem Agree.symm (h : s.Agree K t) : t.Agree K s := fun k hk => (h k hk).symm

theorem Agree.trans (h : s.Agree K t) (h' : t.Agree K u) : s.Agree K u :=
  fun k hk => (h k hk).trans (h' k hk)

theorem Agree.mono {L : Set SettingsKey} (hLK : L ⊆ K) (h : s.Agree K t) : s.Agree L t :=
  fun k hk => h k (hLK hk)

theorem get?_keep (s : Session) (k x : SettingsKey) (settings : Settings) :
    (s.keep k settings).cache.get? x = if k = x then some settings else s.cache.get? x :=
  Dictionary.get?_insert s.cache k x settings

theorem Agree.warn (h : s.Agree K t) (ws ws' : List String) : (s.warn ws).Agree K (t.warn ws') := h

theorem Agree.keep (h : s.Agree K t) (k : SettingsKey) (settings : Settings) :
    (s.keep k settings).Agree K (t.keep k settings) := by
  intro k' hk'
  rw [get?_keep, get?_keep, h k' hk']

/-- Answering a job changes what is kept under its key at most. -/
theorem answer_agree {j : Job} {external : NameSet} (h : j.key external ∉ K) (s : Session) :
    s.Agree K (s.answer j external).2 := by
  have hkeep : ∀ settings ws, s.Agree K ((s.warn ws).keep (j.key external) settings) := by
    intro settings ws k hk
    have hne : j.key external ≠ k := by
      rintro rfl
      exact h hk
    rw [get?_keep, if_neg hne]
    rfl
  unfold answer
  split
  · exact .refl K s
  · split
    · exact .refl K s
    · dsimp only
      split
      · exact hkeep _ _
      · exact .refl K s

/-- Sessions that keep the same under the key of a job answer it alike. -/
theorem Agree.answer {j : Job} {external : NameSet} (h : s.Agree K t) (hj : j.key external ∈ K) :
    (s.answer j external).1 = (t.answer j external).1 ∧
      (s.answer j external).2.Agree K (t.answer j external).2 := by
  unfold Session.answer
  split
  · exact ⟨rfl, h⟩
  · rw [h _ hj]
    split
    · exact ⟨rfl, h⟩
    · dsimp only
      split
      · exact ⟨rfl, (h.warn _ _).keep _ _⟩
      · exact ⟨rfl, h⟩

end Session

namespace Compile

variable {α : Type} {K L : Set SettingsKey}

/-- **A computation does not touch what is kept under keys that it does not ask for.** -/
theorem Asks.agree {m : Compile α} (h : m.Asks K) (hKL : Disjoint K L) (s : Session) :
    s.Agree L (m.runIn s).2 := by
  induction m generalizing s with
  | done _ => exact .refl L s
  | warn ws _ ih => exact ih h (s.warn ws)
  | ask j x _ ih =>
    have hj : j.key x ∉ L := Set.disjoint_left.mp hKL h.1
    exact (Session.answer_agree hj s).trans (ih _ (h.2 _) _)

/-- **Where sessions agree on all that a computation asks for, it has the same result**, and they
agree afterwards. -/
theorem Asks.runIn_eq {m : Compile α} (h : m.Asks K) {s t : Session} (hst : s.Agree K t) :
    (m.runIn s).1 = (m.runIn t).1 ∧ (m.runIn s).2.Agree K (m.runIn t).2 := by
  induction m generalizing s t with
  | done _ => exact ⟨rfl, hst⟩
  | warn _ _ ih => exact ih h (hst.warn _ _)
  | ask j x rest ih =>
    obtain ⟨he, ha⟩ := hst.answer h.1
    have hrun : ∀ u : Session, (Compile.ask j x rest).runIn u =
        (rest (u.answer j x).1).runIn (u.answer j x).2 := fun _ => rfl
    rw [hrun, hrun, he]
    exact ih _ (h.2 _) ha

/-- A run that gives something gives it in a session that agrees, too. -/
theorem Asks.transfer {m : Compile α} (h : m.Asks K) {s t s' : Session} {a : α}
    (hm : m.runIn s = (.ok a, t)) (hs : s.Agree K s') :
    ∃ t', m.runIn s' = (.ok a, t') ∧ t.Agree K t' := by
  obtain ⟨he, ha⟩ := h.runIn_eq hs
  rw [hm] at he ha
  exact ⟨(m.runIn s').2, Prod.ext he.symm rfl, ha⟩

end Compile

/-! ### What inheritance asks for -/

namespace Heir

variable {K : Set SettingsKey} {inherited : Dictionary String Settings}
  {compile : Object → Option Settings → Compile Settings}

theorem asks_compileEach {names : List String} : ∀ {order : List Heir}
    {compiled : Dictionary String Settings}, (∀ h ∈ order, ∀ base, (compile h.object base).Asks K) →
      (compileEach names inherited compile compiled order).Asks K
  | [], _, _ => Compile.asks_pure _
  | h :: order, _, hc =>
    (hc h (by simp) _).bind fun _ =>
      asks_compileEach fun k hk => hc k (List.mem_cons_of_mem _ hk)

theorem schedule_perm (hs : List Heir) : ((schedule hs).1 ++ (schedule hs).2).Perm hs :=
  roundsUpTo_perm hs [] hs

theorem asks_compileAll {hs : List Heir} (hc : ∀ h ∈ hs, ∀ base, (compile h.object base).Asks K) :
    (compileAll inherited compile hs).Asks K := by
  have horder : ∀ h ∈ (schedule hs).1, ∀ base, (compile h.object base).Asks K := fun h hm =>
    hc h ((schedule_perm hs).mem_iff.mp (List.mem_append_left _ hm))
  unfold compileAll
  split
  · exact Compile.asks_throw _
  · refine (asks_compileEach horder).bind fun _ => ?_
    split
    · exact Compile.asks_pure _
    · exact Compile.asks_throw _

end Heir

end BuildPlan
