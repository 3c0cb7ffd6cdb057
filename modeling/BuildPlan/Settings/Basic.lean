import BuildPlan.Configuration
import BuildPlan.Property.Registry
import BuildPlan.Variable.Expansion

/-! # Property bags and settings

A bag holds the values of properties while an object is compiled. Settings are a bag that is done,
under the key that says which object was compiled, where, and for what. -/

namespace BuildPlan

open BuildPlan.Variable

/-- Expands the text of an item. -/
def Item.expand (b : Bindings) (e : Expansion) : Item → Fallible Item
  | .text t => do return .text (← Variable.expand b e t)
  | .xml t => do return .xml (← Variable.expand b e t)
  | .pattern p => do return .pattern { p with text := ← Variable.expand b e p.text }

/-- Expands the items and keys of a value. Items of a set that become equal are one item, and of
entries whose keys become equal the last one counts. -/
def PropertyValue.expand (b : Bindings) (e : Expansion) : PropertyValue → Fallible PropertyValue
  | .scalar none => .ok (.scalar none)
  | .scalar (some item) => do return .scalar (some (← item.expand b e))
  | .set items => do return .set (.ofList (← items.items.mapM (·.expand b e)))
  | .dictionary entries => do
    return .dictionary (.ofList (← entries.entries.mapM fun (key, item) => do
      return (← Variable.expand b e key, ← item.expand b e)))

/-- The values of properties while an object is compiled. -/
structure Bag where
  context : Context
  values : Dictionary String PropertyValue
  excluded : Bool
  deriving DecidableEq, Inhabited

namespace Bag

/-- The registered properties with their values at first. -/
def initial (r : Registry) : Bag :=
  ⟨r.context, .ofList (r.properties.map fun d => (d.name, d.initialValue)), false⟩

/-- The value of a property, which is the one at first until there is another. -/
def current (bag : Bag) (d : Definition) : PropertyValue :=
  (bag.values.get? d.name).getD d.initialValue

/-- Reads a value and merges it into a property. -/
def apply (bag : Bag) (d : Definition) (action : Action) (value : Value) : Fallible Bag := do
  let incoming ← d.read value
  let merged ← d.merge action (bag.current d) incoming
  return { bag with values := bag.values.insert d.name merged }

/-- Marks the object as left out. -/
def exclude (bag : Bag) : Bag := { bag with excluded := true }

/-- The value of every entry, expanded, with the property as the context of a failure. -/
def expandEntries (b : Bindings) (e : Expansion) :
    List (String × PropertyValue) → Fallible (List (String × PropertyValue))
  | [] => .ok []
  | (name, value) :: rest => do
    let value ← (value.expand b e).within ("property '" ++ name ++ "'")
    let rest ← expandEntries b e rest
    return (name, value) :: rest

theorem keys_expandEntries {b : Bindings} {e : Expansion} {es rs : List (String × PropertyValue)}
    (h : expandEntries b e es = .ok rs) : rs.map Prod.fst = es.map Prod.fst := by
  induction es generalizing rs with
  | nil =>
    cases h
    rfl
  | cons entry es ih =>
    unfold expandEntries at h
    cases hv : (entry.2.expand b e).within ("property '" ++ entry.1 ++ "'") with
    | error f => simp [hv, bind, Except.bind] at h
    | ok value =>
      cases hr : expandEntries b e es with
      | error f => simp [hv, hr, bind, Except.bind] at h
      | ok rest =>
        simp only [hv, hr, bind, Except.bind, pure, Except.pure, Except.ok.injEq] at h
        subst h
        simp [ih hr]

/-- Expands every value. -/
def expand (bag : Bag) (b : Bindings) (e : Expansion) : Fallible Bag :=
  match h : expandEntries b e bag.values.entries with
  | .error f => .error f
  | .ok entries =>
    .ok { bag with values := ⟨entries, by rw [keys_expandEntries h]; exact bag.values.distinct⟩ }

end Bag

/-- Which object was compiled, where, and for what. -/
structure SettingsKey where
  /-- The object that owns the compiled one. -/
  scope : String
  /-- The kind of the object. -/
  kind : String
  name : String
  configuration : Option Configuration
  /-- The constants that are defined in every configuration. -/
  constants : NameSet
  deriving DecidableEq, Inhabited

/-- A bag that is done, with its key. -/
structure Settings where
  key : SettingsKey
  bag : Bag
  deriving DecidableEq, Inhabited

namespace Settings

def name (s : Settings) : String := s.key.name

/-- Holds if the object is left out. -/
def isExcluded (s : Settings) : Bool := s.bag.excluded

def value? (s : Settings) (property : String) : Option PropertyValue :=
  s.bag.values.get? property

/-- The text of a scalar property. -/
def text? (s : Settings) (property : String) : Option String :=
  match s.value? property with
  | some (.scalar (some item)) => item.text?
  | _ => none

/-- The items of a set. -/
def items (s : Settings) (property : String) : List Item :=
  match s.value? property with
  | some (.set items) => items.items
  | _ => []

/-- The texts of a set, in order. -/
def texts (s : Settings) (property : String) : List String :=
  (s.items property).filterMap Item.text?

/-- The patterns of a set, in order. -/
def patterns (s : Settings) (property : String) : List Pattern :=
  (s.items property).filterMap Item.pattern?

/-- The texts of a dictionary under their keys, in order. -/
def entries (s : Settings) (property : String) : List (String × String) :=
  match s.value? property with
  | some (.dictionary entries) =>
    entries.entries.filterMap fun (key, item) => item.text?.map fun text => (key, text)
  | _ => []

/-- The settings with every value expanded. -/
def expand (s : Settings) (b : Bindings) (e : Expansion) : Fallible Settings := do
  return { s with bag := ← s.bag.expand b e }

end Settings

end BuildPlan
