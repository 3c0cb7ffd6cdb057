import BuildPlan.Settings.Walk

/-! # Bodies without blocks

A body can be written as one list of steps without blocks: a block is replaced by its elements if its
condition holds, and by nothing if not, at any depth, and a condition that cannot be read is a step that
fails. The walk is the run of these steps, one after another, until one of them stops or fails
(`walkAll_eq_runSteps`). So what stands behind the first such step, in the same list or behind the blocks
around it, makes no difference (`walkAll_sequential`). -/

namespace BuildPlan

/-- A step of a body, which is no block. -/
inductive Step where
  | assign (assignment : Assignment)
  | invoke (invocation : Invocation)
  /-- The condition of a block, which cannot be read. -/
  | unreadable (condition : String)

/-- What a step does to a bag, and whether the run goes on behind it. A step under a condition does
nothing if the condition does not hold. -/
def Step.run (r : Registry) (defined : NameSet) (bag : Bag) : Step → Logged (Bag × Flow)
  | .assign a => do
    if ← judge a.condition defined then
      let definition ← r.property a.name
      return (← bag.apply definition a.action a.value, .goOn)
    else return (bag, .goOn)
  | .invoke c => do
    if ← judge c.condition defined then
      let command ← r.command c.name
      command.run c.argument bag
    else return (bag, .goOn)
  | .unreadable condition => Logged.lift (Cause.invalidCondition condition).raise

/-- Runs steps from left to right, until one of them stops the run. -/
def runSteps (r : Registry) (defined : NameSet) (bag : Bag) : List Step → Logged (Bag × Flow)
  | [] => return (bag, .goOn)
  | s :: ss => do
    match ← s.run r defined bag with
    | (bag, .stop) => return (bag, .stop)
    | (bag, .goOn) => runSteps r defined bag ss

mutual

/-- The steps of an element. -/
def Element.steps (defined : NameSet) : Element → List Step
  | .block condition body =>
    match Condition.judge? condition defined with
    | some true => stepsAll defined body
    | some false => []
    | none => [.unreadable condition]
  | .assignment a => [.assign a]
  | .invocation c => [.invoke c]
  | .object _ _ => []
  | .group _ => []
  | .comment _ => []

/-- The steps of elements, from left to right. -/
def stepsAll (defined : NameSet) : List Element → List Step
  | [] => []
  | e :: es => e.steps defined ++ stepsAll defined es

end

/-- The run does not come to its end: a step stops it or fails. -/
def EndsEarly (m : Logged (Bag × Flow)) : Prop := ∀ bag, m.result ≠ .ok (bag, .goOn)

/-- The second elements go on where the first ones end, in the same list or behind blocks around it. -/
inductive GoesOn : List Element → List Element → Prop
  | behind (es more : List Element) : GoesOn es (es ++ more)
  | inside (before : List Element) (condition : String) {body body' : List Element}
      (more : List Element) (h : GoesOn body body') :
      GoesOn (before ++ [.block condition body]) (before ++ .block condition body' :: more)

/-! ### Running steps -/

section Run
variable {r : Registry} {defined : NameSet}

/-- Goes on with steps, unless the run has been stopped. -/
def runFrom (r : Registry) (defined : NameSet) (ss : List Step) : Bag × Flow → Logged (Bag × Flow)
  | (bag, .stop) => pure (bag, .stop)
  | (bag, .goOn) => runSteps r defined bag ss

theorem runSteps_cons (bag : Bag) (s : Step) (ss : List Step) :
    runSteps r defined bag (s :: ss) = s.run r defined bag >>= runFrom r defined ss := by
  rw [runSteps]
  refine bind_congr fun out => ?_
  obtain ⟨bag, flow⟩ := out
  cases flow <;> rfl

theorem runFrom_nil : runFrom r defined [] = pure := by
  funext ⟨bag, flow⟩
  cases flow <;> rfl

theorem runSteps_singleton (bag : Bag) (s : Step) : runSteps r defined bag [s] = s.run r defined bag := by
  rw [runSteps_cons, runFrom_nil]
  exact Logged.andThen_succeed _

theorem runSteps_append (ss ss' : List Step) (bag : Bag) :
    runSteps r defined bag (ss ++ ss') = runSteps r defined bag ss >>= runFrom r defined ss' := by
  induction ss generalizing bag with
  | nil => exact (Logged.succeed_andThen _ _).symm
  | cons s ss ih =>
    rw [List.cons_append, runSteps_cons, runSteps_cons]
    refine Eq.trans (bind_congr fun out => ?_) (Logged.andThen_assoc _ _ _).symm
    obtain ⟨bag, flow⟩ := out
    cases flow with
    | stop => exact (Logged.succeed_andThen _ _).symm
    | goOn => exact ih bag

theorem Logged.bind_of_ok {α β : Type} {m : Logged α} {a : α} (h : m.result = .ok a)
    (f : α → Logged β) : m >>= f = ⟨m.warnings ++ (f a).warnings, (f a).result⟩ := by
  show m.andThen f = _
  rw [Logged.andThen, h]

/-- Nothing is run behind a step that stops or fails. -/
theorem EndsEarly.bind_runFrom {m : Logged (Bag × Flow)} (h : EndsEarly m) (ss : List Step) :
    m >>= runFrom r defined ss = m := by
  obtain ⟨warnings, result⟩ := m
  cases result with
  | error e => rfl
  | ok out =>
    obtain ⟨bag, flow⟩ := out
    cases flow with
    | goOn => exact absurd rfl (h bag)
    | stop =>
      rw [Logged.bind_of_ok rfl]
      exact congrArg (Logged.mk · _) (List.append_nil _)

/-- **A run that does not come to its end is made of steps that go on and one that stops or fails**, and it
ends like that one. -/
theorem exists_first_of_endsEarly : ∀ {ss : List Step} {bag : Bag},
    EndsEarly (runSteps r defined bag ss) →
      ∃ front s more mid, ss = front ++ s :: more ∧
        (runSteps r defined bag front).result = .ok (mid, .goOn) ∧
        EndsEarly (s.run r defined mid) ∧
        runSteps r defined bag ss =
          ⟨(runSteps r defined bag front).warnings ++ (s.run r defined mid).warnings,
            (s.run r defined mid).result⟩
  | [], bag, h => absurd rfl (h bag)
  | s :: ss, bag, h => by
    by_cases hs : EndsEarly (s.run r defined bag)
    · refine ⟨[], s, ss, bag, rfl, rfl, hs, ?_⟩
      rw [runSteps_cons, hs.bind_runFrom]
      rfl
    · obtain ⟨bag', hs⟩ : ∃ bag', (s.run r defined bag).result = .ok (bag', .goOn) := by
        simpa [EndsEarly] using hs
      have hcons : ∀ ss, runSteps r defined bag (s :: ss) =
          ⟨(s.run r defined bag).warnings ++ (runSteps r defined bag' ss).warnings,
            (runSteps r defined bag' ss).result⟩ := fun ss => by
        rw [runSteps_cons, Logged.bind_of_ok hs]
        rfl
      have h' : EndsEarly (runSteps r defined bag' ss) := fun b => by
        have hb := h b
        rwa [hcons] at hb
      obtain ⟨front, s', more, mid, rfl, hfront, hs', hrun⟩ := exists_first_of_endsEarly h'
      refine ⟨s :: front, s', more, mid, rfl, by rw [hcons]; exact hfront, hs', ?_⟩
      rw [hcons, hcons, hrun, List.append_assoc]

/-! ### The walk as a run -/

mutual

theorem Element.walk_eq_runSteps (bag : Bag) : ∀ e : Element,
    e.walk r defined bag = runSteps r defined bag (e.steps defined)
  | .block condition body => by
    rw [Element.walk, Element.steps, judge]
    cases Condition.judge? condition defined with
    | none => exact (runSteps_singleton bag (.unreadable condition)).symm
    | some holds =>
      refine (Logged.succeed_andThen holds _).trans ?_
      cases holds with
      | true => exact walkAll_eq_runSteps bag body
      | false => rfl
  | .assignment a => by
    rw [Element.walk, Element.steps, runSteps_singleton, Step.run]
  | .invocation c => by
    rw [Element.walk, Element.steps, runSteps_singleton, Step.run]
  | .object _ _ | .group _ | .comment _ => by
    rw [Element.walk, Element.steps, runSteps]

/-- **The walk is the run of the steps**, with the same bag or failure and the same warnings. -/
theorem walkAll_eq_runSteps (bag : Bag) : ∀ es : List Element,
    walkAll r defined bag es = runSteps r defined bag (stepsAll defined es)
  | [] => by
    rw [walkAll, stepsAll, runSteps]
  | e :: es => by
    rw [walkAll, stepsAll, runSteps_append, Element.walk_eq_runSteps bag e]
    refine bind_congr fun out => ?_
    obtain ⟨bag, flow⟩ := out
    cases flow with
    | stop => rfl
    | goOn => exact walkAll_eq_runSteps bag es

end

theorem stepsAll_append (es es' : List Element) :
    stepsAll defined (es ++ es') = stepsAll defined es ++ stepsAll defined es' := by
  induction es with
  | nil => rw [List.nil_append, stepsAll, List.nil_append]
  | cons e es ih => rw [List.cons_append, stepsAll, stepsAll, ih, List.append_assoc]

/-- What goes on has more steps behind the same ones. -/
theorem GoesOn.exists_steps {es es' : List Element} (h : GoesOn es es') :
    ∃ more, stepsAll defined es' = stepsAll defined es ++ more := by
  induction h with
  | behind es more => exact ⟨_, stepsAll_append es more⟩
  | @inside before condition body body' more _ ih =>
    obtain ⟨inner, hinner⟩ := ih
    have hblock : ∃ rest, (Element.block condition body').steps defined =
        (Element.block condition body).steps defined ++ rest := by
      rw [Element.steps, Element.steps]
      split
      · exact ⟨inner, hinner⟩
      · exact ⟨[], rfl⟩
      · exact ⟨[], rfl⟩
    obtain ⟨rest, hrest⟩ := hblock
    refine ⟨rest ++ stepsAll defined more, ?_⟩
    simp only [stepsAll_append, stepsAll, hrest, List.append_nil, List.append_assoc]

/-- **The walk goes through the body without its blocks, from left to right, and no further than to the
first step that stops or fails.** It gives what the run of the steps gives, with the same warnings. If it
does not come to its end, all steps but one in front have gone on, that one stops or fails on the bag that
they leave, and the walk ends as it does. Then it does not matter what stands behind, in this body or
behind the blocks around it: conditions, names and values there are never looked at. -/
theorem walkAll_sequential (r : Registry) (defined : NameSet) (bag : Bag) (es : List Element) :
    walkAll r defined bag es = runSteps r defined bag (stepsAll defined es) ∧
      (EndsEarly (walkAll r defined bag es) →
        (∃ front s more mid, stepsAll defined es = front ++ s :: more ∧
          (runSteps r defined bag front).result = .ok (mid, .goOn) ∧
          EndsEarly (s.run r defined mid) ∧
          walkAll r defined bag es =
            ⟨(runSteps r defined bag front).warnings ++ (s.run r defined mid).warnings,
              (s.run r defined mid).result⟩) ∧
        ∀ es', GoesOn es es' → walkAll r defined bag es' = walkAll r defined bag es) := by
  rw [walkAll_eq_runSteps]
  refine ⟨rfl, fun h => ⟨exists_first_of_endsEarly h, fun es' hes => ?_⟩⟩
  obtain ⟨more, hmore⟩ : ∃ more, stepsAll defined es' = stepsAll defined es ++ more :=
    hes.exists_steps
  rw [walkAll_eq_runSteps, hmore, runSteps_append, h.bind_runFrom]

end Run

/-! ### A stop inside two blocks -/

/-- A command without an argument, under no condition. -/
def plainCommand (name : String) : Element := .invocation ⟨name, none, always⟩

/-- A warning, and a stop in a block inside a block, with what stands behind in all three lists. -/
def stopping (inner middle outer : List Element) : List Element :=
  [plainCommand "warn"] ++ .block "Debug || Release"
    (.block "!Release" ([plainCommand "skip"] ++ inner) :: middle) :: outer

theorem walkAll_stopping :
    walkAll .settings (.ofList ["Debug"]) (.initial .settings) (stopping [] [] []) =
      ⟨["warning"], .ok (.initial .settings, .stop)⟩ := by
  have hrun : (walkAll .settings (.ofList ["Debug"]) (.initial .settings) (stopping [] [] [])).warnings =
      ["warning"] ∧
      (walkAll .settings (.ofList ["Debug"]) (.initial .settings)
        (stopping [] [] [])).result.toOption = some (.initial .settings, .stop) := by
    decide +kernel
  cases hw : walkAll .settings (.ofList ["Debug"]) (.initial .settings) (stopping [] [] []) with
  | mk warnings result =>
    rw [hw] at hrun
    obtain ⟨rfl, hresult⟩ := hrun
    cases result with
    | error e => cases hresult
    | ok out => rw [Option.some.inj hresult]

/-- Conditions that cannot be read, and names that are not there, do no harm behind the stop. -/
theorem walkAll_sequential_stopping : EndsEarly
      (walkAll .settings (.ofList ["Debug"]) (.initial .settings) (stopping [] [] [])) ∧
    ∀ inner middle outer, walkAll .settings (.ofList ["Debug"]) (.initial .settings)
      (stopping (plainCommand "nothing" :: inner) (.block "((" [] :: middle)
        (plainCommand "error" :: outer)) = ⟨["warning"], .ok (.initial .settings, .stop)⟩ := by
  have hends : EndsEarly
      (walkAll .settings (.ofList ["Debug"]) (.initial .settings) (stopping [] [] [])) := by
    rw [walkAll_stopping]
    nofun
  refine ⟨hends, fun inner middle outer => ?_⟩
  rw [← walkAll_stopping]
  refine ((walkAll_sequential _ _ _ _).2 hends).2 _ (.inside [plainCommand "warn"] _ _ ?_)
  exact .inside [] _ _ (.behind [plainCommand "skip"] _)

end BuildPlan
