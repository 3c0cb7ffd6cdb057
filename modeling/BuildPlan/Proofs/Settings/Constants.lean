import BuildPlan.Proofs.Settings.Keeping

/-! # The constants that count

What an object is compiled to depends on the defined constants only through its conditions, and a
condition depends on those of them that it mentions; `true` and `false` are fixed and do not count. So
sets of constants that are the same as far as the conditions of a body mention them (`deciding`) make no
difference to the object: it has the same properties, or fails for the same reason, with the same
warnings (`Job.compile_congr_of_deciding`). Only the key of its settings holds the set as it was given. -/

namespace BuildPlan

/-- The constants on which it depends how a condition is judged. The fixed ones are none of them, and a
text that cannot be read has none. -/
def Condition.deciding (expression : String) : List String :=
  match parse? expression with
  | some c => c.mentioned.filter fun x => x ≠ "true" ∧ x ≠ "false"
  | none => []

mutual

/-- The constants on which it depends what an element does: those in its condition, and for a block also
those in its elements. Objects inside are compiled on their own. -/
def Element.deciding : Element → List String
  | .block condition body => Condition.deciding condition ++ decidingAll body
  | .assignment a => Condition.deciding a.condition
  | .invocation c => Condition.deciding c.condition
  | .object _ _ => []
  | .group _ => []
  | .comment _ => []

/-- The constants on which it depends what elements do. -/
def decidingAll : List Element → List String
  | [] => []
  | e :: es => e.deciding ++ decidingAll es

end

/-- The settings as if other constants had been given for every configuration. -/
def Settings.recordedUnder (s : Settings) (external : NameSet) : Settings :=
  { s with key := { s.key with constants := external } }

/-! ### Judging -/

/-- The sets hold the same ones among these names. -/
def NameSet.AgreeOn (names : List String) (a b : NameSet) : Prop := ∀ x ∈ names, x ∈ a ↔ x ∈ b

instance (names : List String) (a b : NameSet) : Decidable (a.AgreeOn names b) :=
  inferInstanceAs (Decidable (∀ x ∈ names, x ∈ a ↔ x ∈ b))

theorem NameSet.AgreeOn.append {names more : List String} {a b : NameSet} :
    a.AgreeOn (names ++ more) b ↔ a.AgreeOn names b ∧ a.AgreeOn more b :=
  List.forall_mem_append

theorem judge_congr {expression : String} {a b : NameSet}
    (h : a.AgreeOn (Condition.deciding expression) b) : judge expression a = judge expression b := by
  unfold judge Condition.judge?
  unfold Condition.deciding at h
  cases hp : Condition.parse? expression with
  | none => rfl
  | some c =>
    rw [hp] at h
    have hc : c.holds a = c.holds b := Condition.holds_congr fun x hx ht hf =>
      h x (List.mem_filter.mpr ⟨hx, by simp [ht, hf]⟩)
    rw [Option.map_some, Option.map_some, hc]

/-! ### Walking -/

section Walk
variable {r : Registry} {a b : NameSet}

mutual

theorem Element.walk_congr (bag : Bag) : ∀ {e : Element}, a.AgreeOn e.deciding b →
    e.walk r a bag = e.walk r b bag
  | .block condition body, h => by
    rw [Element.deciding, NameSet.AgreeOn.append] at h
    rw [Element.walk, Element.walk, judge_congr h.1, walkAll_congr bag h.2]
  | .assignment _, h | .invocation _, h => by
    rw [Element.walk, Element.walk, judge_congr h]
  | .object _ _, _ | .group _, _ | .comment _, _ => rfl

/-- **A walk does not depend on constants that the conditions on its way do not mention.** -/
theorem walkAll_congr (bag : Bag) : ∀ {es : List Element}, a.AgreeOn (decidingAll es) b →
    walkAll r a bag es = walkAll r b bag es
  | [], _ => rfl
  | e :: es, h => by
    rw [decidingAll, NameSet.AgreeOn.append] at h
    rw [walkAll, walkAll, Element.walk_congr bag h.1]
    refine bind_congr fun out => ?_
    obtain ⟨bag, flow⟩ := out
    cases flow with
    | stop => rfl
    | goOn => exact walkAll_congr bag h.2

end

end Walk

/-! ### Compiling -/

namespace Job

variable {j : Job} {a b : NameSet}

theorem run_congr_of_deciding
    (h : (j.defined a).AgreeOn (decidingAll j.object.body) (j.defined b)) :
    (j.run b).warnings = (j.run a).warnings ∧
      (j.run b).result = (j.run a).result.map (·.recordedUnder b) := by
  unfold run
  rw [walkAll_congr j.start h]
  obtain ⟨warnings, result⟩ := walkAll j.registry (j.defined b) j.start j.object.body
  cases result with
  | error e => exact ⟨rfl, rfl⟩
  | ok out =>
    obtain ⟨bag, _⟩ := out
    dsimp only [bind, Logged.andThen, monadLift, MonadLift.monadLift, Logged.lift]
    cases bag.expand j.bindings .deferring <;> exact ⟨rfl, rfl⟩

theorem answerAnew_congr_of_deciding
    (h : (j.defined a).AgreeOn (decidingAll j.object.body) (j.defined b)) :
    (j.answerAnew b).warnings = (j.answerAnew a).warnings ∧
      (j.answerAnew b).result = (j.answerAnew a).result.map (·.recordedUnder b) := by
  obtain ⟨hw, hr⟩ := run_congr_of_deciding h
  unfold answerAnew
  split
  · exact ⟨rfl, rfl⟩
  · refine ⟨hw, ?_⟩
    unfold Logged.within
    dsimp only
    rw [hr]
    cases (j.run a).result <;> rfl

/-- **Only the constants that are mentioned count.** For sets of constants which, with those of the
configuration, hold the same ones among the constants that the conditions of a body mention, an object
is compiled alike if nothing is kept: to settings with the same properties, left out or not, or with the
same failure, and with the same warnings. The settings differ at most in the constants that their key
records. The two fixed constants do not count, whether they are in the sets or not. -/
theorem compile_congr_of_deciding (j : Job) (a b : NameSet)
    (h : (j.defined a).AgreeOn (decidingAll j.object.body) (j.defined b)) :
    ((j.compile b).runIn .initial).1 =
        ((j.compile a).runIn .initial).1.map (·.recordedUnder b) ∧
      ((j.compile b).runIn .initial).2.warnings = ((j.compile a).runIn .initial).2.warnings := by
  obtain ⟨hw, hr⟩ := answerAnew_congr_of_deciding h
  have hanew : ∀ external, (Session.initial.answer j external).1 = (j.answerAnew external).result ∧
      (Session.initial.answer j external).2.warnings = [] ++ (j.answerAnew external).warnings :=
    fun _ => Session.answer_of_get?_eq_none rfl
  rw [Compile.runIn_compile, Compile.runIn_compile]
  exact ⟨by rw [(hanew b).1, (hanew a).1, hr], by rw [(hanew b).2, (hanew a).2, hw]⟩

end Job

/-- Settings with a block under a condition of the configuration, a command behind a fixed constant, and
an object with a condition of its own. -/
def guardedJob : Job :=
  { object := ⟨⟨"settings", "Core", none⟩,
      [.block "Debug && !CI" [.assignment ⟨.add, ["defines"], .literal "TRACE", always⟩],
        .invocation ⟨"error", none, "false"⟩,
        .object ⟨"settings", "Tests", none⟩ [.invocation ⟨"skip", none, "Nightly"⟩]]⟩
    scope := "template Library"
    registry := .settings
    configuration := some (.ofConstants "everything" "Debug" [])
    base := none
    bindings := .empty }

/-- Constants that the configuration defines anyway, that only an object inside mentions, or that are
fixed, change nothing. -/
theorem Job.compile_congr_of_deciding_guarded :
    (guardedJob.defined .empty).AgreeOn (decidingAll guardedJob.object.body)
      (guardedJob.defined (.ofList ["Debug", "Nightly", "false"])) ∧
    ((guardedJob.compile .empty).runIn .initial).1.toOption.map (·.texts PropertyName.defines) =
      some ["TRACE"] ∧
    ((guardedJob.compile (.ofList ["Debug", "Nightly", "false"])).runIn .initial).1 =
      ((guardedJob.compile .empty).runIn .initial).1.map
        (·.recordedUnder (.ofList ["Debug", "Nightly", "false"])) := by
  have h : (guardedJob.defined .empty).AgreeOn (decidingAll guardedJob.object.body)
      (guardedJob.defined (.ofList ["Debug", "Nightly", "false"])) := by decide +kernel
  exact ⟨h, by decide +kernel, (guardedJob.compile_congr_of_deciding _ _ h).1⟩

end BuildPlan
