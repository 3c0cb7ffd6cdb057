/-! # Sets in order of insertion

An ordered set lists its items in the order in which they were first inserted. Inserting an item
that is already there changes nothing. -/

namespace BuildPlan

universe u

/-- Distinct items, in order of insertion. -/
structure OrderedSet (α : Type u) where
  items : List α
  distinct : items.Nodup
  deriving DecidableEq

namespace OrderedSet

variable {α : Type u} [DecidableEq α]

/-- The set without items. -/
def empty : OrderedSet α := ⟨[], by simp⟩

instance : Inhabited (OrderedSet α) := ⟨empty⟩

def isEmpty (s : OrderedSet α) : Bool := s.items.isEmpty

/-- Adds an item at the end unless it is there. -/
def insert (s : OrderedSet α) (a : α) : OrderedSet α :=
  if h : a ∈ s.items then s
  else ⟨s.items ++ [a], by
    refine List.nodup_append.mpr ⟨s.distinct, by simp, ?_⟩
    intro x hx y hy heq
    rw [List.mem_singleton] at hy
    exact h (hy ▸ heq ▸ hx)⟩

/-- Inserts items one after another. -/
def insertAll (s : OrderedSet α) (as : List α) : OrderedSet α := as.foldl insert s

/-- The set that the items give when they are inserted one after another. -/
def ofList (as : List α) : OrderedSet α := empty.insertAll as

theorem items_insert (s : OrderedSet α) (a : α) :
    (s.insert a).items = if a ∈ s.items then s.items else s.items ++ [a] := by
  unfold insert
  split <;> rfl

theorem mem_items_insert {s : OrderedSet α} {a x : α} :
    x ∈ (s.insert a).items ↔ x ∈ s.items ∨ x = a := by
  rw [items_insert]
  split
  · next h =>
    constructor
    · exact Or.inl
    · rintro (hx | rfl)
      · exact hx
      · exact h
  · simp

end OrderedSet

end BuildPlan
