/-! # Bindings

Bindings give names their values. They are a value themselves: a name is bound by making new
bindings, and the old ones stay what they were. -/

namespace BuildPlan

/-- The values of the bound names. -/
structure Bindings where
  get? : String → Option String

namespace Bindings

/-- The bindings without a bound name. -/
def empty : Bindings := ⟨fun _ => none⟩

instance : Inhabited Bindings := ⟨empty⟩

/-- The bindings in which the name has the value. -/
def bind (b : Bindings) (name value : String) : Bindings :=
  ⟨fun n => if n = name then some value else b.get? n⟩

/-- Binds names one after another. -/
def bindAll (b : Bindings) (pairs : List (String × String)) : Bindings :=
  pairs.foldl (fun b p => b.bind p.1 p.2) b

/-- The bindings of a list of names and values, of which a later one counts. -/
def ofList (pairs : List (String × String)) : Bindings := empty.bindAll pairs

@[simp] theorem get?_empty (n : String) : empty.get? n = none := rfl

theorem get?_bind (b : Bindings) (name value n : String) :
    (b.bind name value).get? n = if n = name then some value else b.get? n := rfl

end Bindings

/-! ### Names that are always bound -/

namespace Variable

def solutionName : String := "SOLUTION_NAME"

def configuration : String := "CONFIGURATION"

def configurationGroup : String := "CONFIGURATION_GROUP"

def templateName : String := "TEMPLATE_NAME"

def moduleName : String := "MODULE_NAME"

def projectName : String := "PROJECT_NAME"

end Variable

end BuildPlan
