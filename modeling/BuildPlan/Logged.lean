import BuildPlan.Failure

/-! # Computations that give warnings

A logged computation gives warnings, in order, and then a result or a failure. Warnings that were
given before a failure stay given. -/

namespace BuildPlan

/-- Warnings, and a result or a failure. -/
structure Logged (α : Type) where
  warnings : List String
  result : Fallible α

namespace Logged

variable {α β : Type}

/-- A result without warnings. -/
def succeed (a : α) : Logged α := ⟨[], .ok a⟩

/-- Goes on from a result. The warnings of what follows stand behind those given before. -/
def andThen (m : Logged α) (f : α → Logged β) : Logged β :=
  match m.result with
  | .error e => ⟨m.warnings, .error e⟩
  | .ok a => ⟨m.warnings ++ (f a).warnings, (f a).result⟩

instance : Monad Logged where
  pure := succeed
  bind := andThen

/-- What may fail and gives no warnings. -/
def lift (r : Fallible α) : Logged α := ⟨[], r⟩

instance : MonadLift Fallible Logged := ⟨lift⟩

/-- Gives one warning. -/
def warn (message : String) : Logged Unit := ⟨[message], .ok ()⟩

/-- Gives a failure one more context. -/
def within (context : String) (m : Logged α) : Logged α :=
  { m with result := m.result.within context }

@[simp] theorem andThen_succeed (m : Logged α) : m.andThen succeed = m := by
  cases m with
  | mk warnings result => cases result <;> simp [andThen, succeed]

@[simp] theorem succeed_andThen (a : α) (f : α → Logged β) : (succeed a).andThen f = f a := by
  simp [andThen, succeed]

theorem andThen_assoc {γ : Type} (m : Logged α) (f : α → Logged β) (g : β → Logged γ) :
    (m.andThen f).andThen g = m.andThen fun a => (f a).andThen g := by
  cases m with
  | mk warnings result =>
    cases result with
    | error e => rfl
    | ok a =>
      cases h : (f a).result with
      | error e => simp [andThen, h]
      | ok b => simp [andThen, h]

theorem result_bind (m : Logged α) (f : α → Logged β) :
    (m >>= f).result = m.result >>= fun a => (f a).result := by
  show (m.andThen f).result = _
  unfold andThen
  cases m.result <;> rfl

/-- What goes on from a result gives something if both of its parts do. -/
theorem result_bind_ok {m : Logged α} {f : α → Logged β} {b : β} :
    (m >>= f).result = .ok b ↔ ∃ a, m.result = .ok a ∧ (f a).result = .ok b := by
  rw [result_bind, Fallible.bind_ok]

theorem result_bind_of_ok {m : Logged α} {f : α → Logged β} {a : α} (h : m.result = .ok a) :
    (m >>= f).result = (f a).result := by
  rw [result_bind, h]
  rfl

theorem result_bind_of_error {m : Logged α} {f : α → Logged β} {e : Failure}
    (h : m.result = .error e) : (m >>= f).result = .error e := by
  rw [result_bind, h]
  rfl

/-- Computations go on alike if they do so from what the first one gives. -/
theorem bind_congr_ok {m : Logged α} {f g : α → Logged β}
    (h : ∀ a, m.result = .ok a → f a = g a) : m >>= f = m >>= g := by
  show m.andThen f = m.andThen g
  unfold andThen
  cases hm : m.result with
  | error e => rfl
  | ok a =>
    dsimp only
    rw [h a hm]

end Logged

end BuildPlan
