import BuildPlan.Collection.NameSet
import BuildPlan.Variable.Bindings

/-! # Configurations

A configuration is a build variant of a group. It defines constants, and always those with its own
name and the name of its group. -/

namespace BuildPlan

/-- A build variant. -/
structure Configuration where
  group : String
  name : String
  constants : NameSet
  deriving DecidableEq, Inhabited

namespace Configuration

/-- The configuration that defines the given constants, its name and its group. -/
def ofConstants (group name : String) (constants : List String) : Configuration :=
  ⟨group, name, ((NameSet.ofList constants).insert group).insert name⟩

/-- The configuration in words: the group, a bar and the name. -/
def display (c : Configuration) : String := c.group ++ "|" ++ c.name

/-- The bindings in which the names for the configuration and its group are bound. -/
def bind (c : Configuration) (b : Bindings) : Bindings :=
  (b.bind Variable.configuration c.name).bind Variable.configurationGroup c.group

/-- The members of a configuration set always hold the name of the configuration. -/
theorem name_mem_constants (group name : String) (constants : List String) :
    name ∈ (ofConstants group name constants).constants :=
  NameSet.mem_insert.mpr (.inl rfl)

theorem group_mem_constants (group name : String) (constants : List String) :
    group ∈ (ofConstants group name constants).constants :=
  NameSet.mem_insert.mpr (.inr (NameSet.mem_insert.mpr (.inl rfl)))

end Configuration

end BuildPlan
