import BuildPlan.Condition.Parse
import BuildPlan.Logged
import BuildPlan.Settings.Basic
import BuildPlan.Syntax.Document

/-! # Walking the body of an object

The elements of a body are met one after another. An assignment changes the bag, a command may stop
the walk, and a block whose condition holds contributes its elements in its place. Objects inside
the body, configuration groups and comments say nothing about the properties. -/

namespace BuildPlan

/-- Whether the walk goes on behind an element. -/
inductive Flow where
  | goOn
  | stop
  deriving DecidableEq, Repr, Inhabited

/-- What a command does to a bag, and whether the walk goes on. -/
def Command.run (c : Command) (argument : Option String) (bag : Bag) : Logged (Bag × Flow) :=
  match c with
  | .exclude => return (bag.exclude, .stop)
  | .skip => return (bag, .stop)
  | .warn => do
    Logged.warn (argument.getD "warning")
    return (bag, .goOn)
  | .error => (Cause.user (argument.getD "error")).raise

/-- Judges a condition, and fails if it cannot be read. -/
def judge (expression : String) (defined : NameSet) : Fallible Bool :=
  match Condition.judge? expression defined with
  | some b => .ok b
  | none => (Cause.invalidCondition expression).raise

mutual

/-- What an element does to a bag, and whether the walk goes on behind it. -/
def Element.walk (r : Registry) (defined : NameSet) (bag : Bag) : Element → Logged (Bag × Flow)
  | .block condition body => do
    if ← judge condition defined then walkAll r defined bag body else return (bag, .goOn)
  | .assignment a => do
    if ← judge a.condition defined then
      let definition ← r.property a.name
      return (← bag.apply definition a.action a.value, .goOn)
    else return (bag, .goOn)
  | .invocation c => do
    if ← judge c.condition defined then
      let command ← r.command c.name
      command.run c.argument bag
    else return (bag, .goOn)
  | .object _ _ => return (bag, .goOn)
  | .group _ => return (bag, .goOn)
  | .comment _ => return (bag, .goOn)

/-- What elements do to a bag, one after another, until one of them stops the walk. -/
def walkAll (r : Registry) (defined : NameSet) (bag : Bag) : List Element → Logged (Bag × Flow)
  | [] => return (bag, .goOn)
  | e :: es => do
    match ← e.walk r defined bag with
    | (bag, .stop) => return (bag, .stop)
    | (bag, .goOn) => walkAll r defined bag es

end

end BuildPlan
