import BuildPlan.Collection.NameSet

/-! # Conditions

A condition is built from constants by negation, conjunction and disjunction. It is judged by the
set of the constants that are defined. Two constants are fixed, whatever is defined: `true` holds
and `false` does not. -/

namespace BuildPlan

/-- A condition on the defined constants. -/
inductive Condition where
  | constant (name : String)
  | not (operand : Condition)
  | and (left right : Condition)
  | or (left right : Condition)
  deriving DecidableEq, Repr, Inhabited

namespace Condition

/-- Holds of a constant that is defined, or fixed as true. -/
def constantHolds (defined : NameSet) (name : String) : Bool :=
  if name = "true" then true
  else if name = "false" then false
  else name ∈ defined

/-- Holds if the condition is met where the given constants are defined. -/
def holds (defined : NameSet) : Condition → Bool
  | .constant name => constantHolds defined name
  | .not operand => !operand.holds defined
  | .and left right => left.holds defined && right.holds defined
  | .or left right => left.holds defined || right.holds defined

/-- The names of the constants in a condition, from left to right. -/
def mentioned : Condition → List String
  | .constant name => [name]
  | .not operand => operand.mentioned
  | .and left right => left.mentioned ++ right.mentioned
  | .or left right => left.mentioned ++ right.mentioned

/-- A condition depends only on the constants that it mentions, and the fixed ones do not count. -/
theorem holds_congr {a b : NameSet} {c : Condition}
    (h : ∀ x ∈ c.mentioned, x ≠ "true" → x ≠ "false" → (x ∈ a ↔ x ∈ b)) :
    c.holds a = c.holds b := by
  induction c with
  | constant name =>
    unfold holds constantHolds
    split
    · rfl
    · next ht =>
      split
      · rfl
      · next hf => simp [h name (by simp [mentioned]) ht hf]
  | not operand ih => simp [holds, ih h]
  | and left right ihl ihr | or left right ihl ihr =>
    have hl := ihl fun x hx => h x (by simp [mentioned, hx])
    have hr := ihr fun x hx => h x (by simp [mentioned, hx])
    simp [holds, hl, hr]

end Condition

end BuildPlan
