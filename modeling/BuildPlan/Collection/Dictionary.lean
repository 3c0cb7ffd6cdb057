/-! # Dictionaries in order of insertion

A dictionary lists its entries in the order in which their keys were first inserted. Inserting a
key that is already there changes its value and keeps its place. -/

namespace BuildPlan

universe u v

/-- Entries with distinct keys, in order of insertion. -/
structure Dictionary (κ : Type u) (ν : Type v) where
  entries : List (κ × ν)
  distinct : (entries.map Prod.fst).Nodup
  deriving DecidableEq

namespace Dictionary

variable {κ : Type u} {ν : Type v} {μ : Type v} [DecidableEq κ]

/-- The dictionary without entries. -/
def empty : Dictionary κ ν := ⟨[], by simp⟩

instance : Inhabited (Dictionary κ ν) := ⟨empty⟩

/-- The keys, in order. -/
def keys (d : Dictionary κ ν) : List κ := d.entries.map Prod.fst

/-- The values, in the order of their keys. -/
def values (d : Dictionary κ ν) : List ν := d.entries.map Prod.snd

def size (d : Dictionary κ ν) : Nat := d.entries.length

def isEmpty (d : Dictionary κ ν) : Bool := d.entries.isEmpty

/-- The value of the first entry with the given key. -/
def lookup (k : κ) : List (κ × ν) → Option ν
  | [] => none
  | (key, value) :: es => if key = k then some value else lookup k es

/-- The value of a key. -/
def get? (d : Dictionary κ ν) (k : κ) : Option ν := lookup k d.entries

def contains (d : Dictionary κ ν) (k : κ) : Bool := (d.get? k).isSome

/-- Gives the key its value in the entry that has it, or in a new last one. -/
def put (k : κ) (v : ν) : List (κ × ν) → List (κ × ν)
  | [] => [(k, v)]
  | (key, value) :: es => if key = k then (key, v) :: es else (key, value) :: put k v es

theorem mem_keys_put {k x : κ} {v : ν} {es : List (κ × ν)} :
    x ∈ (put k v es).map Prod.fst ↔ x = k ∨ x ∈ es.map Prod.fst := by
  induction es with
  | nil => simp [put]
  | cons e es ih =>
    unfold put
    split
    · next h => subst h; simp
    · simp only [List.map_cons, List.mem_cons, ih]
      constructor
      · rintro (h | h | h) <;> simp [h]
      · rintro (h | h | h) <;> simp [h]

theorem nodup_keys_put {k : κ} {v : ν} {es : List (κ × ν)} (h : (es.map Prod.fst).Nodup) :
    ((put k v es).map Prod.fst).Nodup := by
  induction es with
  | nil => simp [put]
  | cons e es ih =>
    unfold put
    split
    · simpa using h
    · next hne =>
      simp only [List.map_cons, List.nodup_cons] at h ⊢
      refine ⟨fun hm => ?_, ih h.2⟩
      rcases mem_keys_put.mp hm with heq | hin
      · exact hne heq
      · exact h.1 hin

/-- Gives a key a value: in its place if the key is there, at the end otherwise. -/
def insert (d : Dictionary κ ν) (k : κ) (v : ν) : Dictionary κ ν :=
  ⟨put k v d.entries, nodup_keys_put d.distinct⟩

/-- Inserts entries one after another. -/
def insertAll (d : Dictionary κ ν) (es : List (κ × ν)) : Dictionary κ ν :=
  es.foldl (fun d e => d.insert e.1 e.2) d

/-- The dictionary that the entries give when they are inserted one after another. -/
def ofList (es : List (κ × ν)) : Dictionary κ ν := empty.insertAll es

@[simp] theorem get?_empty (k : κ) : (empty : Dictionary κ ν).get? k = none := rfl

theorem lookup_put (k x : κ) (v : ν) (es : List (κ × ν)) :
    lookup x (put k v es) = if k = x then some v else lookup x es := by
  induction es with
  | nil => simp [put, lookup]
  | cons e es ih =>
    unfold put
    split
    · next h => subst h; by_cases hx : e.1 = x <;> simp [lookup, hx]
    · next h =>
      by_cases hx : e.1 = x
      · have hk : k ≠ x := fun hk => h (hx.trans hk.symm)
        simp [lookup, hx, hk]
      · simp [lookup, hx, ih]

/-- After an insertion the key has the new value and every other key has the one it had. -/
theorem get?_insert (d : Dictionary κ ν) (k x : κ) (v : ν) :
    (d.insert k v).get? x = if k = x then some v else d.get? x :=
  lookup_put k x v d.entries

theorem put_of_not_mem {k : κ} {v : ν} {es : List (κ × ν)} (h : k ∉ es.map Prod.fst) :
    put k v es = es ++ [(k, v)] := by
  induction es with
  | nil => rfl
  | cons e es ih =>
    simp only [List.map_cons, List.mem_cons, not_or] at h
    rw [put, if_neg (Ne.symm h.1), ih h.2, List.cons_append]

theorem entries_insertAll {d : Dictionary κ ν} {es : List (κ × ν)}
    (h : ((d.entries ++ es).map Prod.fst).Nodup) : (d.insertAll es).entries = d.entries ++ es := by
  induction es generalizing d with
  | nil => simp [insertAll]
  | cons e es ih =>
    have hk : e.1 ∉ d.entries.map Prod.fst := by
      rw [List.map_append, List.nodup_append] at h
      exact fun hm => h.2.2 _ hm e.1 (by simp) rfl
    have he : (d.insert e.1 e.2).entries = d.entries ++ [e] := put_of_not_mem hk
    have := ih (d := d.insert e.1 e.2) (by simpa [he] using h)
    simpa [insertAll, he] using this

/-- Entries with distinct keys are the entries of their dictionary. -/
theorem entries_ofList {es : List (κ × ν)} (h : (es.map Prod.fst).Nodup) :
    (ofList es).entries = es :=
  (entries_insertAll (d := empty) h).trans (List.nil_append es)

end Dictionary

end BuildPlan
