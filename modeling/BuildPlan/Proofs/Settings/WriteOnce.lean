import BuildPlan.Proofs.Collection.Dictionary
import BuildPlan.Proofs.Settings.Runs

/-! # What is kept stays

A session answers a job in one of four ways (`Session.Answers`): the base is not there, the settings are
kept, they are compiled and kept from then on, or compiling them fails. None of these takes away or
changes what is kept, and only the third one adds something, under the key of the job, which is the key
of the settings too. So however many jobs are answered, what is kept is written once
(`Session.answers_write_once`). -/

namespace BuildPlan

/-- Settings have the key of the job that they were compiled for. -/
theorem Job.key_of_run {j : Job} {external : NameSet} {settings : Settings}
    (h : (j.run external).result = .ok settings) : settings.key = j.key external := by
  obtain ⟨_, -, h⟩ := Logged.result_bind_ok.mp h
  obtain ⟨_, -, h⟩ := Logged.result_bind_ok.mp h
  cases h
  rfl

namespace Session

/-- How a session answers a job, and the session behind it. -/
inductive Answers (s : Session) (j : Job) (external : NameSet) : Fallible Settings → Session → Prop
  /-- The base is not there, and nothing is looked up. -/
  | missing (hbase : j.basePresent = false) : Answers s j external (.error j.baseMissing) s
  /-- The settings are kept. -/
  | kept {settings : Settings} (hbase : j.basePresent = true)
      (hkept : s.cache.get? (j.key external) = some settings) : Answers s j external (.ok settings) s
  /-- The settings are not kept, and are compiled. -/
  | compiled {settings : Settings} (hbase : j.basePresent = true)
      (hkept : s.cache.get? (j.key external) = none)
      (hrun : (j.run external).result = .ok settings) :
      Answers s j external (.ok settings)
        ((s.warn (j.run external).warnings).keep (j.key external) settings)
  /-- The settings are not kept, and cannot be compiled. -/
  | failed {e : Failure} (hbase : j.basePresent = true)
      (hkept : s.cache.get? (j.key external) = none) (hrun : (j.run external).result = .error e) :
      Answers s j external (.error (e.within j.context)) (s.warn (j.run external).warnings)

theorem answers (s : Session) (j : Job) (external : NameSet) :
    Answers s j external (s.answer j external).1 (s.answer j external).2 := by
  unfold answer
  cases hbase : j.basePresent with
  | false => exact .missing hbase
  | true =>
    cases hkept : s.cache.get? (j.key external) with
    | some settings => exact .kept hbase hkept
    | none =>
      have hresult : ((j.run external).within j.context).result =
          (j.run external).result.within j.context := rfl
      cases hrun : (j.run external).result with
      | ok settings =>
        simp only [hresult, hrun]
        exact .compiled hbase hkept hrun
      | error e =>
        simp only [hresult, hrun]
        exact .failed hbase hkept hrun

/-- What the first session keeps, the second one keeps too. -/
def Extends (s t : Session) : Prop :=
  ∀ key settings, s.cache.get? key = some settings → t.cache.get? key = some settings

/-- Settings are kept under their own keys. -/
def Keyed (s : Session) : Prop := ∀ key settings, s.cache.get? key = some settings → settings.key = key

theorem Extends.refl (s : Session) : s.Extends s := fun _ _ h => h

theorem Extends.trans {s t u : Session} (h : s.Extends t) (h' : t.Extends u) : s.Extends u :=
  fun key settings hs => h' key settings (h key settings hs)

theorem keyed_initial : initial.Keyed := nofun

/-! ### One answer -/

section Answers
variable {s t : Session} {j : Job} {external : NameSet} {r : Fallible Settings}
  (h : Answers s j external r t)
include h

theorem Answers.extends : s.Extends t := by
  cases h with
  | missing | kept | failed => exact .refl s
  | compiled hbase hkept hrun =>
    intro key settings hs
    have hne : j.key external ≠ key := by
      rintro rfl
      rw [hkept] at hs
      cases hs
    rw [get?_keep, if_neg hne]
    exact hs

theorem Answers.cache_of_error {e : Failure} (hr : r = .error e) : t.cache = s.cache := by
  cases h with
  | missing | failed => rfl
  | kept | compiled => cases hr

theorem Answers.get?_of_ok {settings : Settings} (hr : r = .ok settings) :
    t.cache.get? (j.key external) = some settings := by
  cases h with
  | missing | failed => cases hr
  | kept hbase hkept =>
    cases hr
    exact hkept
  | compiled =>
    cases hr
    rw [get?_keep, if_pos rfl]

/-- The cache grows by what was not kept. -/
theorem Answers.size_of_ok {settings : Settings} (hr : r = .ok settings) :
    t.cache.size = s.cache.size + if s.cache.contains (j.key external) then 0 else 1 := by
  cases h with
  | missing | failed => cases hr
  | kept hbase hkept =>
    have hcontains : s.cache.contains (j.key external) = true := by
      rw [Dictionary.contains, hkept]
      rfl
    rw [if_pos hcontains]
    rfl
  | compiled hbase hkept =>
    have hcontains : s.cache.contains (j.key external) = false := by
      rw [Dictionary.contains, hkept]
      rfl
    rw [hcontains, if_neg Bool.false_ne_true]
    exact Dictionary.size_insert hcontains

theorem Answers.keyed (hs : s.Keyed) : t.Keyed := by
  cases h with
  | missing | kept | failed => exact hs
  | compiled hbase hkept hrun =>
    intro key settings hget
    rw [get?_keep] at hget
    split at hget
    · next hkey =>
      cases hget
      exact (Job.key_of_run hrun).trans hkey
    · exact hs key settings hget

theorem Answers.key_of_ok (hs : s.Keyed) {settings : Settings} (hr : r = .ok settings) :
    settings.key = j.key external :=
  h.keyed hs _ _ (h.get?_of_ok hr)

end Answers

/-! ### Any number of answers -/

/-- The session behind jobs that are answered one after another. -/
def after (s : Session) (external : NameSet) (js : List Job) : Session :=
  js.foldl (fun s j => (s.answer j external).2) s

theorem extends_after (external : NameSet) : ∀ (js : List Job) (s : Session),
    s.Extends (s.after external js)
  | [], s => .refl s
  | j :: js, s => (s.answers j external).extends.trans (extends_after external js _)

theorem keyed_after (external : NameSet) : ∀ (js : List Job) {s : Session}, s.Keyed →
    (s.after external js).Keyed
  | [], _, hs => hs
  | j :: js, s, hs => keyed_after external js ((s.answers j external).keyed hs)

/-- **What is kept is written once.** Whatever jobs a session has answered, and whatever the next one
is: all that is kept stays what it is behind any further jobs. If the next job fails, nothing is kept that
was not before. If it is answered with settings, these are the ones that are kept under its key, they have
this key, and there is one entry more if there was none of this key. And every later job of the same key
that is answered with settings is answered with the same ones. -/
theorem answers_write_once (external : NameSet) (earlier : List Job) (j : Job) :
    let s := initial.after external earlier
    let t := (s.answer j external).2
    (∀ further, s.Extends (s.after external further)) ∧
      (∀ e, (s.answer j external).1 = .error e → t.cache = s.cache) ∧
      ∀ settings, (s.answer j external).1 = .ok settings →
        t.cache.get? (j.key external) = some settings ∧ settings.key = j.key external ∧
        t.cache.size = s.cache.size + (if s.cache.contains (j.key external) then 0 else 1) ∧
        ∀ between j' settings', j'.key external = j.key external →
          ((t.after external between).answer j' external).1 = .ok settings' →
            settings' = settings := by
  intro s t
  have hanswers := s.answers j external
  have hs : s.Keyed := keyed_after external earlier keyed_initial
  refine ⟨fun further => extends_after external further s, fun e he => hanswers.cache_of_error he,
    fun settings hr => ⟨hanswers.get?_of_ok hr, hanswers.key_of_ok hs hr, hanswers.size_of_ok hr, ?_⟩⟩
  intro between j' settings' hkey hr'
  -- what the first of the two jobs has kept is still there when the second one is answered
  have hlater := (t.after external between).answers j' external
  have hkept := (extends_after external between t).trans hlater.extends _ _ (hanswers.get?_of_ok hr)
  have hkept' := hlater.get?_of_ok hr'
  rw [hkey, hkept] at hkept'
  exact (Option.some.inj hkept').symm

/-- Settings of a template that set a property. -/
def setting (name property value : String) : Job where
  object := ⟨⟨"settings", name, none⟩, [.assignment ⟨.set, [property], .literal value, always⟩]⟩
  scope := "T"
  registry := .settings
  configuration := none
  base := none
  bindings := .empty

/-- Settings that declare a base and are given none. -/
def settingBelow : Job := { setting "X" "defines" "d" with object := ⟨⟨"settings", "X", some "S"⟩, []⟩ }

/-- Settings that are not kept are compiled and kept, and others under their key are answered with these.
Neither an unknown property nor a base that is not there changes what is kept. -/
theorem answers_write_once_askedAgain :
    let s := initial.after .empty [setting "S" "defines" "d"]
    ∃ settings unknown missing,
      (initial.answer (setting "S" "defines" "d") .empty).1 = .ok settings ∧
      s.cache.get? settings.key = some settings ∧ s.cache.size = 1 ∧
      (s.answer (setting "S" "defines" "e") .empty).1 = .ok settings ∧
      (s.answer (setting "X" "define" "d") .empty).1 = .error unknown ∧
      (s.answer (setting "X" "define" "d") .empty).2.cache = s.cache ∧
      (s.answer settingBelow .empty).1 = .error missing ∧
      (s.answer settingBelow .empty).2.cache = s.cache := by
  intro s
  obtain ⟨settings, hfirst⟩ : ∃ settings, (initial.answer (setting "S" "defines" "d") .empty).1 =
    .ok settings := Fallible.exists_of_isOk (by decide +kernel)
  obtain ⟨again, hagain⟩ : ∃ again, (s.answer (setting "S" "defines" "e") .empty).1 = .ok again :=
    Fallible.exists_of_isOk (by decide +kernel)
  obtain ⟨unknown, hunknown⟩ : ∃ e, (s.answer (setting "X" "define" "d") .empty).1 = .error e :=
    Fallible.exists_of_not_isOk (by decide +kernel)
  obtain ⟨missing, hmissing⟩ : ∃ e, (s.answer settingBelow .empty).1 = .error e :=
    Fallible.exists_of_not_isOk (by decide +kernel)
  -- the first answer is written into the empty cache
  obtain ⟨-, -, hok⟩ := answers_write_once .empty [] (setting "S" "defines" "d")
  obtain ⟨hkept, hkey, hsize, hlater⟩ := hok settings hfirst
  rw [← hkey] at hkept
  -- and the later ones find it there
  obtain rfl : again = settings := hlater [] _ again rfl hagain
  have hcache := (answers_write_once .empty [setting "S" "defines" "d"] (setting "X" "define" "d")).2.1
  have hcache' := (answers_write_once .empty [setting "S" "defines" "d"] settingBelow).2.1
  exact ⟨again, unknown, missing, hfirst, hkept, hsize, hagain, hunknown, hcache unknown hunknown,
    hmissing, hcache' missing hmissing⟩

end Session

end BuildPlan
