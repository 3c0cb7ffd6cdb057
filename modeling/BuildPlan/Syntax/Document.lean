import BuildPlan.Collection.NameSet
import BuildPlan.Syntax.Value

/-! # Documents

A document is a list of elements: declarations of objects, properties and configurations, commands,
conditional blocks, and comments. Objects and blocks hold elements again. Conditions are kept as
they are written, since what they mean depends on the configuration. -/

namespace BuildPlan

/-- How a declaration changes a property. -/
inductive Action where
  /-- Replaces the value. -/
  | set
  /-- Merges into the collection. -/
  | add
  deriving DecidableEq, Repr, Inhabited

/-- A value for a property, under a condition. -/
structure Assignment where
  action : Action
  nameParts : List String
  value : Value
  condition : String
  deriving Inhabited, DecidableEq, Repr

/-- The name of the property: its words, one space apart. -/
def Assignment.name (a : Assignment) : String := String.intercalate " " a.nameParts

/-- A command under a condition. -/
structure Invocation where
  name : String
  argument : Option String
  condition : String
  deriving Inhabited, DecidableEq, Repr

/-- A group of configurations, each with the constants that it defines. -/
structure ConfigurationGroup where
  name : String
  members : List (String × NameSet)
  deriving Inhabited, DecidableEq

/-- The kind and the name of an object, and the object that it builds on. -/
structure Heading where
  kind : String
  name : String
  base : Option String
  deriving Inhabited, DecidableEq, Repr

/-- The heading as it stands in messages. -/
def Heading.display (h : Heading) : String :=
  match h.base with
  | some base => h.kind ++ " " ++ h.name ++ " : " ++ base
  | none => h.kind ++ " " ++ h.name

/-- An element of a document or of the body of an object or block. -/
inductive Element where
  | comment (text : String)
  | group (group : ConfigurationGroup)
  | assignment (assignment : Assignment)
  | invocation (invocation : Invocation)
  | block (condition : String) (body : List Element)
  | object (heading : Heading) (body : List Element)
  deriving Inhabited

namespace Element

mutual

/-- Decides whether two elements are equal. -/
def decEq : (e f : Element) → Decidable (e = f)
  | .comment t, f => match f with
    | .comment u => decidable_of_iff (t = u) (by simp)
    | .group _ | .assignment _ | .invocation _ | .block .. | .object .. => .isFalse nofun
  | .group g, f => match f with
    | .group h => decidable_of_iff (g = h) (by simp)
    | .comment _ | .assignment _ | .invocation _ | .block .. | .object .. => .isFalse nofun
  | .assignment a, f => match f with
    | .assignment b => decidable_of_iff (a = b) (by simp)
    | .comment _ | .group _ | .invocation _ | .block .. | .object .. => .isFalse nofun
  | .invocation i, f => match f with
    | .invocation j => decidable_of_iff (i = j) (by simp)
    | .comment _ | .group _ | .assignment _ | .block .. | .object .. => .isFalse nofun
  | .block c es, f => match f with
    | .block d fs => match decEqAll es fs with
      | .isTrue h => decidable_of_iff (c = d) (by simp [h])
      | .isFalse h => .isFalse fun he => h (Element.block.inj he).2
    | .comment _ | .group _ | .assignment _ | .invocation _ | .object .. => .isFalse nofun
  | .object g es, f => match f with
    | .object h fs => match decEqAll es fs with
      | .isTrue he => decidable_of_iff (g = h) (by simp [he])
      | .isFalse hne => .isFalse fun he => hne (Element.object.inj he).2
    | .comment _ | .group _ | .assignment _ | .invocation _ | .block .. => .isFalse nofun

/-- Decides whether two bodies are equal. -/
def decEqAll : (es fs : List Element) → Decidable (es = fs)
  | [], [] => .isTrue rfl
  | [], _ :: _ => .isFalse nofun
  | _ :: _, [] => .isFalse nofun
  | e :: es, f :: fs => match decEq e f with
    | .isTrue h => match decEqAll es fs with
      | .isTrue hs => .isTrue (by rw [h, hs])
      | .isFalse hs => .isFalse fun he => hs (List.cons.inj he).2
    | .isFalse h => .isFalse fun he => h (List.cons.inj he).1

end

instance : DecidableEq Element := decEq

end Element

/-- An object with its body. -/
structure Object where
  heading : Heading
  body : List Element
  deriving Inhabited, DecidableEq

namespace Object

def kind (o : Object) : String := o.heading.kind

def name (o : Object) : String := o.heading.name

def base (o : Object) : Option String := o.heading.base

end Object

/-- The objects that stand directly among the elements, in order. -/
def Element.objects (elements : List Element) : List Object :=
  elements.filterMap fun
    | .object heading body => some ⟨heading, body⟩
    | _ => none

/-- The configuration groups that stand directly among the elements, in order. -/
def Element.groups (elements : List Element) : List ConfigurationGroup :=
  elements.filterMap fun
    | .group g => some g
    | _ => none

/-- A document. -/
structure Document where
  elements : List Element
  deriving Inhabited, DecidableEq

/-- The condition of an element that is written without one. -/
def always : String := "true"

end BuildPlan
