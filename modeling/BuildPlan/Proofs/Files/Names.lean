import BuildPlan.Files.Select
import Mathlib.Data.List.Basic
import Mathlib.Data.String.Basic

/-! # The names of a path

A path is split into its names at the separators. From names that are joined by separators it gives the
names back (`Path.parts_joinNames`), so that different ways give different paths. Paths are ordered by
their names, one after another (`Path.le_trans`, `Path.le_total`). -/

namespace BuildPlan.Path

theorem splitOn_ne_nil (sep : Char) : ∀ s : List Char, splitOn sep s ≠ []
  | [] => by simp [splitOn]
  | c :: s => by
    unfold splitOn
    split
    · simp
    · split <;> simp

theorem splitOn_append (sep : Char) (t : List Char) : ∀ s : List Char,
    splitOn sep (s ++ sep :: t) = splitOn sep s ++ splitOn sep t
  | [] => by simp [splitOn]
  | c :: s => by
    rw [List.cons_append, splitOn, splitOn_append sep t s, splitOn]
    split
    · rfl
    · obtain ⟨part, parts, hs⟩ := List.exists_cons_of_ne_nil (splitOn_ne_nil sep s)
      rw [hs]
      rfl

theorem splitOn_of_notMem {sep : Char} : ∀ {s : List Char}, sep ∉ s → splitOn sep s = [s]
  | [], _ => rfl
  | c :: s, h => by
    obtain ⟨hc, hs⟩ := not_or.mp (mt List.mem_cons.mpr h)
    rw [splitOn, if_neg (Ne.symm hc), splitOn_of_notMem hs]

theorem parts_append (d p : String) : parts (d ++ "/" ++ p) = parts d ++ parts p := by
  unfold parts
  rw [String.toList_append, String.toList_append, List.append_assoc,
    show "/".toList ++ p.toList = '/' :: p.toList from rfl, splitOn_append, List.map_append]

theorem parts_of_notMem {name : String} (h : '/' ∉ name.toList) : parts name = [name] := by
  unfold parts
  rw [splitOn_of_notMem h, List.map_singleton, String.ofList_toList]

/-- Names that are joined give themselves back. -/
theorem parts_joinNames : ∀ {way : List String}, way ≠ [] → (∀ n ∈ way, '/' ∉ n.toList) →
    parts (joinNames way) = way
  | [], hne, _ => absurd rfl hne
  | [n], _, h => by
    unfold joinNames
    rw [String.intercalate_singleton]
    exact parts_of_notMem (h n List.mem_cons_self)
  | n :: m :: way, _, h => by
    obtain ⟨hn, h⟩ := List.forall_mem_cons.mp h
    have hrest : parts (joinNames (m :: way)) = m :: way :=
      parts_joinNames (List.cons_ne_nil m way) h
    unfold joinNames at hrest ⊢
    rw [String.intercalate_cons_cons, parts_append, hrest, parts_of_notMem hn]
    rfl

theorem le_trans : ∀ {p q r : List String}, le p q = true → le q r = true → le p r = true
  | [], _, _, _, _ => rfl
  | _ :: _, [], _, h, _ => by cases h
  | _ :: _, _ :: _, [], _, h => by cases h
  | a :: p, b :: q, c :: r, h, h' => by
    simp only [le, Bool.or_eq_true, Bool.and_eq_true, decide_eq_true_iff] at h h' ⊢
    rcases h with h | ⟨rfl, h⟩
    · rcases h' with h' | ⟨rfl, -⟩
      · exact Or.inl (lt_trans h h')
      · exact Or.inl h
    · rcases h' with h' | ⟨rfl, h'⟩
      · exact Or.inl h'
      · exact Or.inr ⟨rfl, le_trans h h'⟩

theorem le_total : ∀ p q : List String, (le p q || le q p) = true
  | [], _ => rfl
  | _ :: _, [] => rfl
  | a :: p, b :: q => by
    have hrest := le_total p q
    simp only [le, Bool.or_eq_true, Bool.and_eq_true, decide_eq_true_iff] at hrest ⊢
    rcases lt_trichotomy a b with h | rfl | h
    · exact Or.inl (Or.inl h)
    · exact hrest.imp (fun h => Or.inr ⟨rfl, h⟩) fun h => Or.inr ⟨rfl, h⟩
    · exact Or.inr (Or.inl h)

end BuildPlan.Path
