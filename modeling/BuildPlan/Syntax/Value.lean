/-! # Values

The values that a document gives to properties, and their written form in messages. -/

namespace BuildPlan

/-- A property value as it stands in a document. -/
inductive Value where
  /-- A quoted text or a bare word. -/
  | literal (text : String)
  /-- A file pattern with wildcards. -/
  | glob (pattern : String) (negated : Bool)
  /-- A regular expression. -/
  | regex (pattern : String) (negated : Bool)
  /-- A well-formed fragment, without its common indentation. -/
  | xml (text : String)
  /-- The word for no value at all. -/
  | none
  | array (items : List Value)
  | pair (key : String) (value : Value)
  deriving Inhabited, Repr

namespace Value

/-- The mark in front of a negated pattern. -/
def bang (negated : Bool) : String := if negated then "!" else ""

mutual

/-- The form of a value in messages. Texts stand between quotes as they are. -/
def display : Value → String
  | .literal text => "\"" ++ text ++ "\""
  | .glob pattern negated => bang negated ++ "glob \"" ++ pattern ++ "\""
  | .regex pattern negated => bang negated ++ "regex \"" ++ pattern ++ "\""
  | .xml text => "xml \"\"\"" ++ text ++ "\"\"\""
  | .none => "none"
  | .array items => "[" ++ String.intercalate ", " (displayAll items) ++ "]"
  | .pair key value => key ++ ": " ++ display value

/-- The forms of the items of an array. -/
def displayAll : List Value → List String
  | [] => []
  | v :: vs => display v :: displayAll vs

end

/-! ### Equality -/

mutual

/-- Decides whether two values are equal. -/
def decEq : (v w : Value) → Decidable (v = w)
  | .literal a, w => match w with
    | .literal b => decidable_of_iff (a = b) (by simp)
    | .glob .. | .regex .. | .xml _ | .none | .array _ | .pair .. => .isFalse nofun
  | .glob a m, w => match w with
    | .glob b n => decidable_of_iff (a = b ∧ m = n) (by simp)
    | .literal _ | .regex .. | .xml _ | .none | .array _ | .pair .. => .isFalse nofun
  | .regex a m, w => match w with
    | .regex b n => decidable_of_iff (a = b ∧ m = n) (by simp)
    | .literal _ | .glob .. | .xml _ | .none | .array _ | .pair .. => .isFalse nofun
  | .xml a, w => match w with
    | .xml b => decidable_of_iff (a = b) (by simp)
    | .literal _ | .glob .. | .regex .. | .none | .array _ | .pair .. => .isFalse nofun
  | .none, w => match w with
    | .none => .isTrue rfl
    | .literal _ | .glob .. | .regex .. | .xml _ | .array _ | .pair .. => .isFalse nofun
  | .array vs, w => match w with
    | .array ws => match decEqAll vs ws with
      | .isTrue h => .isTrue (by rw [h])
      | .isFalse h => .isFalse fun he => h (Value.array.inj he)
    | .literal _ | .glob .. | .regex .. | .xml _ | .none | .pair .. => .isFalse nofun
  | .pair a v, w => match w with
    | .pair b w => match decEq v w with
      | .isTrue h => decidable_of_iff (a = b) (by simp [h])
      | .isFalse h => .isFalse fun he => h (Value.pair.inj he).2
    | .literal _ | .glob .. | .regex .. | .xml _ | .none | .array _ => .isFalse nofun

/-- Decides whether the items of two arrays are equal. -/
def decEqAll : (vs ws : List Value) → Decidable (vs = ws)
  | [], [] => .isTrue rfl
  | [], _ :: _ => .isFalse nofun
  | _ :: _, [] => .isFalse nofun
  | v :: vs, w :: ws => match decEq v w with
    | .isTrue h => match decEqAll vs ws with
      | .isTrue hs => .isTrue (by rw [h, hs])
      | .isFalse hs => .isFalse fun he => hs (List.cons.inj he).2
    | .isFalse h => .isFalse fun he => h (List.cons.inj he).1

end

instance : DecidableEq Value := decEq

end Value

end BuildPlan
