import BuildPlan.Collection.Dictionary
import BuildPlan.Collection.OrderedSet
import BuildPlan.Failure

/-! # Properties

A property holds one item, a set of items, or a dictionary of items, and all its items are of one
kind. Its definition says which, and so decides how a value is read and how it is merged. -/

namespace BuildPlan

/-- One item of a property. -/
inductive Item where
  | text (text : String)
  | pattern (pattern : Pattern)
  | xml (text : String)
  deriving DecidableEq, Repr, Inhabited

/-- What the items of a property are. -/
inductive ItemKind where
  | text
  | pattern
  | xml
  deriving DecidableEq, Repr, Inhabited

namespace Item

def kind : Item → ItemKind
  | .text _ => .text
  | .pattern _ => .pattern
  | .xml _ => .xml

/-- The text of an item that is none of a pattern. -/
def text? : Item → Option String
  | .text t => some t
  | .xml t => some t
  | .pattern _ => none

def pattern? : Item → Option Pattern
  | .pattern p => some p
  | _ => none

end Item

/-- How many items a property holds, and how they are merged. -/
inductive Shape where
  /-- One item at most, which can only be set. -/
  | scalar
  /-- A set in order of insertion. -/
  | set
  /-- Items under keys, in order of insertion. -/
  | dictionary
  deriving DecidableEq, Repr, Inhabited

/-- The value of a property. -/
inductive PropertyValue where
  | scalar (item : Option Item)
  | set (items : OrderedSet Item)
  | dictionary (entries : Dictionary String Item)
  deriving DecidableEq, Inhabited

def PropertyValue.shape : PropertyValue → Shape
  | .scalar _ => .scalar
  | .set _ => .set
  | .dictionary _ => .dictionary

/-- The items of a property value, in order. -/
def PropertyValue.items : PropertyValue → List Item
  | .scalar item => item.toList
  | .set items => items.items
  | .dictionary entries => entries.values

/-- The definition of a property. -/
structure Definition where
  name : String
  shape : Shape
  item : ItemKind
  /-- The text that a scalar property has when nothing is said about it. -/
  initial : Option String
  deriving DecidableEq, Repr, Inhabited

namespace Definition

/-- The value of a property about which nothing is said. -/
def initialValue (d : Definition) : PropertyValue :=
  match d.shape with
  | .scalar => .scalar (d.initial.map .text)
  | .set => .set .empty
  | .dictionary => .dictionary .empty

/-- Fails because of a value that does not fit the property. -/
def misfit {α : Type} (d : Definition) (fault : ValueFault) : Fallible α :=
  (Cause.invalidValue d.name fault).raise

/-- Reads a value as one item. -/
def readItem (d : Definition) (value : Value) : Fallible Item :=
  match d.item, value with
  | .text, .literal text => .ok (.text text)
  | .text, other => d.misfit (.notText other)
  | .xml, .xml text => .ok (.xml text)
  | .xml, other => d.misfit (.notXml other)
  | .pattern, value =>
    match Pattern.ofValue? value with
    | some p => .ok (.pattern p)
    | none => d.misfit (.notPattern value)

mutual

/-- Reads a value as items: those of an array, at any depth, or a single one. -/
def readItems (d : Definition) : Value → Fallible (List Item)
  | .none => .ok []
  | .array values => readAllItems d values
  | single => do return [← d.readItem single]

/-- Reads the items of several values, one after another. -/
def readAllItems (d : Definition) : List Value → Fallible (List Item)
  | [] => .ok []
  | v :: vs => do
    let items ← readItems d v
    let more ← readAllItems d vs
    return items ++ more

end

/-- Reads a pair as an item under a key. -/
def readEntry (d : Definition) (value : Value) : Fallible (String × Item) :=
  match value with
  | .pair key value => do return (key, ← d.readItem value)
  | other => (Cause.malformedDeclaration d.name other).raise

/-- Reads a value as items under keys. -/
def readEntries (d : Definition) : Value → Fallible (List (String × Item))
  | .none => .ok []
  | .array values => values.mapM d.readEntry
  | single => do return [← d.readEntry single]

/-- Reads a value for the property. -/
def read (d : Definition) (value : Value) : Fallible PropertyValue :=
  match d.shape with
  | .scalar =>
    match value with
    | .none => .ok (.scalar none)
    | .array _ => d.misfit .notSingle
    | single => do return .scalar (some (← d.readItem single))
  | .set => do return .set (.ofList (← d.readItems value))
  | .dictionary => do return .dictionary (.ofList (← d.readEntries value))

/-- Merges a value into the current one. Setting replaces it. Adding puts the new items behind
those of a set and the new entries into a dictionary; nothing can be added to a scalar. -/
def merge (d : Definition) (action : Action) (current incoming : PropertyValue) :
    Fallible PropertyValue :=
  match action, current, incoming with
  | .set, _, incoming => .ok incoming
  | .add, .scalar _, _ => (Cause.invalidAction d.name).raise
  | .add, .set items, .set more => .ok (.set (items.insertAll more.items))
  | .add, .dictionary entries, .dictionary more => .ok (.dictionary (entries.insertAll more.entries))
  | .add, _, _ => d.misfit .wrongShape

end Definition

end BuildPlan
