import BuildPlan.Settings.Compile

/-! # The order of inheritance

Settings objects inherit from each other. An object waits for its base if the base is declared
beside it; a base from elsewhere, and a base with the object's own name, is taken from the settings
that are inherited as a whole. The schedule goes through the waiting objects in rounds: in a round
every object whose base is done takes its turn, in the order of declaration. Objects that no round
reaches inherit from a cycle. -/

namespace BuildPlan

/-- A settings object that is to be compiled, with the name of the base that it has in effect. -/
structure Heir where
  object : Object
  base : Option String

namespace Heir

def name (h : Heir) : String := h.object.name

/-- The base, if the object has to wait for it: another one of the given names. -/
def awaits (names : List String) (h : Heir) : Option String :=
  h.base.filter fun base => base != h.name && names.contains base

/-- The base, if it is taken from the inherited settings. -/
def inherits (names : List String) (h : Heir) : Option String :=
  h.base.filter fun base => !(base != h.name && names.contains base)

/-- Holds if the object has nothing to wait for any more. -/
def isReady (names done : List String) (h : Heir) : Bool := (h.awaits names).all done.contains

/-- One round: the objects that take their turn, and those that go on waiting. An object that takes
its turn is done for those behind it. -/
def round (names : List String) : List String → List Heir → List Heir × List Heir
  | _, [] => ([], [])
  | done, h :: hs =>
    if h.isReady names done then
      let (ready, waiting) := round names (h.name :: done) hs
      (h :: ready, waiting)
    else
      let (ready, waiting) := round names done hs
      (ready, h :: waiting)

/-- Rounds until one of them changes nothing: the objects in the order of their turns, and those that
never have one. Every round but the last takes an object at least, so the objects bound the rounds. -/
def roundsUpTo (names : List String) : List Heir → List String → List Heir → List Heir × List Heir
  | [], _, hs => ([], hs)
  | _ :: bound, done, hs =>
    let (ready, waiting) := round names done hs
    if ready.isEmpty then ([], waiting)
    else
      let (more, stuck) := roundsUpTo names bound ((ready.map name).reverse ++ done) waiting
      (ready ++ more, stuck)

/-- The objects in the order in which they can be compiled, and those that inherit from a cycle. -/
def schedule (hs : List Heir) : List Heir × List Heir := roundsUpTo (hs.map name) hs [] hs

/-- The first object whose base is nowhere, with the base. -/
def unknownBase? (inherited : Dictionary String Settings) (hs : List Heir) :
    Option (Heir × String) :=
  hs.findSome? fun h =>
    match h.inherits (hs.map name) with
    | some base => if inherited.contains base then none else some (h, base)
    | none => none

/-- The settings of the base of an object, which are compiled or inherited. -/
def baseSettings (names : List String) (inherited compiled : Dictionary String Settings) (h : Heir) :
    Option Settings :=
  match h.awaits names with
  | some base => compiled.get? base
  | none => (h.inherits names).bind inherited.get?

variable {m : Type → Type} [Monad m] [MonadExceptOf Failure m]

/-- Compiles objects one after another, each with the settings of its base. -/
def compileEach (names : List String) (inherited : Dictionary String Settings)
    (compile : Object → Option Settings → m Settings) :
    Dictionary String Settings → List Heir → m (Dictionary String Settings)
  | compiled, [] => pure compiled
  | compiled, h :: hs => do
    let settings ← compile h.object (h.baseSettings names inherited compiled)
    compileEach names inherited compile (compiled.insert h.name settings) hs

/-- Compiles objects so that every base comes before the objects that inherit from it, and gives the
settings in the order of declaration. -/
def compileAll (inherited : Dictionary String Settings)
    (compile : Object → Option Settings → m Settings) (hs : List Heir) :
    m (Dictionary String Settings) := do
  match unknownBase? inherited hs with
  | some (h, base) => throw (Cause.unknownBase h.object.heading.display base).failure
  | none => do
    let (order, stuck) := schedule hs
    let compiled ← compileEach (hs.map name) inherited compile .empty order
    if stuck.isEmpty then
      return .ofList (hs.filterMap fun h => (compiled.get? h.name).map fun s => (h.name, s))
    else throw (Cause.cyclicInheritance (stuck.map name)).failure

end Heir

end BuildPlan
