import BuildPlan.Collection.Dictionary
import Mathlib.Data.List.Forall2
import Mathlib.Data.List.Nodup
import Mathlib.Data.Option.Defs
import Mathlib.Tactic.Tauto

/-! # Entries of dictionaries

Looking up a key and being an entry are the same, and what insertions leave behind was there before
or was inserted. -/

namespace BuildPlan.Dictionary

universe u v

variable {κ : Type u} {ν : Type v} [DecidableEq κ] {d : Dictionary κ ν} {k : κ} {v : ν} {e : κ × ν}
  {es : List (κ × ν)}

/-! ### Looking up -/

theorem mem_of_lookup : ∀ {es : List (κ × ν)}, lookup k es = some v → (k, v) ∈ es
  | [], h => by cases h
  | (key, value) :: es, h => by
    unfold lookup at h
    split at h
    · next he =>
      subst he
      cases h
      exact List.mem_cons_self
    · exact List.mem_cons_of_mem _ (mem_of_lookup h)

theorem mem_of_get? (h : d.get? k = some v) : (k, v) ∈ d.entries := mem_of_lookup h

theorem lookup_of_mem : ∀ {es : List (κ × ν)}, (es.map Prod.fst).Nodup → (k, v) ∈ es →
    lookup k es = some v
  | [], _, h => by cases h
  | (key, value) :: es, hd, h => by
    rw [List.map_cons, List.nodup_cons] at hd
    unfold lookup
    rcases List.mem_cons.mp h with he | h
    · cases he
      rw [if_pos rfl]
    · have hk : k ∈ es.map Prod.fst := List.mem_map.mpr ⟨(k, v), h, rfl⟩
      rw [if_neg, lookup_of_mem hd.2 h]
      rintro rfl
      exact hd.1 hk

theorem get?_of_mem (h : (k, v) ∈ d.entries) : d.get? k = some v := lookup_of_mem d.distinct h

theorem contains_iff : d.contains k = true ↔ k ∈ d.keys := by
  unfold contains
  rw [Option.isSome_iff_exists]
  constructor
  · rintro ⟨v, h⟩
    exact List.mem_map.mpr ⟨(k, v), mem_of_get? h, rfl⟩
  · intro h
    obtain ⟨⟨_, v⟩, he, rfl⟩ := List.mem_map.mp h
    exact ⟨v, get?_of_mem he⟩

/-! ### What was inserted -/

theorem mem_put (h : e ∈ put k v es) : e = (k, v) ∨ e ∈ es := by
  induction es with
  | nil => exact Or.inl (List.mem_singleton.mp h)
  | cons a es ih =>
    unfold put at h
    split at h
    · next hk =>
      rcases List.mem_cons.mp h with rfl | h
      · exact Or.inl (by rw [hk])
      · exact Or.inr (List.mem_cons_of_mem _ h)
    · rcases List.mem_cons.mp h with rfl | h
      · exact Or.inr List.mem_cons_self
      · exact (ih h).imp_right (List.mem_cons_of_mem _)

theorem contains_insert (d : Dictionary κ ν) (k x : κ) (v : ν) :
    (d.insert k v).contains x = (decide (k = x) || d.contains x) := by
  unfold contains
  rw [get?_insert]
  split
  · next h => simp [h]
  · next h => simp [h]

theorem mem_values_insert {w : ν} (h : w ∈ (d.insert k v).values) : w = v ∨ w ∈ d.values := by
  obtain ⟨e, he, rfl⟩ := List.mem_map.mp h
  rcases mem_put he with rfl | he
  · exact Or.inl rfl
  · exact Or.inr (List.mem_map_of_mem he)

/-- A new key comes last. -/
theorem entries_insert (h : d.contains k = false) :
    (d.insert k v).entries = d.entries ++ [(k, v)] := by
  refine put_of_not_mem fun hk => ?_
  rw [← keys, ← contains_iff, h] at hk
  cases hk

theorem size_insert (h : d.contains k = false) : (d.insert k v).size = d.size + 1 := by
  rw [size, entries_insert h, List.length_append]
  rfl

theorem mem_entries_insert (d : Dictionary κ ν) (k : κ) (v : ν) : (k, v) ∈ (d.insert k v).entries := by
  refine mem_of_get? ?_
  rw [get?_insert, if_pos rfl]

/-- A value that was inserted is still there where all entries are. -/
theorem mem_values_of_insert {d' : Dictionary κ ν} (h : (d.insert k v).entries ⊆ d'.entries) :
    v ∈ d'.values :=
  List.mem_map.mpr ⟨(k, v), h (mem_entries_insert d k v), rfl⟩

theorem mem_entries_insertAll : ∀ {es : List (κ × ν)} {d : Dictionary κ ν},
    e ∈ (d.insertAll es).entries → e ∈ d.entries ∨ e ∈ es
  | [], _, h => Or.inl h
  | a :: es, d, h => by
    have h : e ∈ ((d.insert a.1 a.2).insertAll es).entries := h
    rcases mem_entries_insertAll h with h | h
    · exact (mem_put h).symm.imp_right fun he => by rw [he]; exact List.mem_cons_self
    · exact Or.inr (List.mem_cons_of_mem _ h)

theorem mem_of_mem_entries_ofList (h : e ∈ (ofList es).entries) : e ∈ es :=
  (mem_entries_insertAll h).resolve_left List.not_mem_nil

theorem mem_keys_insertAll : ∀ {es : List (κ × ν)} {d : Dictionary κ ν},
    k ∈ (d.insertAll es).keys ↔ k ∈ d.keys ∨ k ∈ es.map Prod.fst
  | [], _ => by simp [insertAll]
  | e :: es, d => by
    have hi : k ∈ (d.insert e.1 e.2).keys ↔ k = e.1 ∨ k ∈ d.keys := mem_keys_put
    rw [insertAll, List.foldl_cons, ← insertAll, mem_keys_insertAll, hi, List.map_cons,
      List.mem_cons]
    tauto

theorem mem_keys_ofList : k ∈ (ofList es).keys ↔ k ∈ es.map Prod.fst := by
  rw [ofList, mem_keys_insertAll]
  simp [keys, empty]

theorem get?_insertAll : ∀ (es : List (κ × ν)) (d : Dictionary κ ν) (k : κ),
    (d.insertAll es).get? k = ((ofList es).get? k).or (d.get? k)
  | [], _, _ => rfl
  | e :: es, d, k => by
    have hl : ofList (e :: es) = (empty.insert e.1 e.2).insertAll es := rfl
    rw [hl, insertAll, List.foldl_cons, ← insertAll]
    rw [get?_insertAll es, get?_insertAll es (empty.insert e.1 e.2), get?_insert, get?_insert,
      get?_empty]
    cases (ofList es).get? k with
    | some v => rfl
    | none => split <;> rfl

omit [DecidableEq κ] in
theorem ext_entries {d d' : Dictionary κ ν} (h : d.entries = d'.entries) : d = d' := by
  cases d
  cases d'
  exact (Dictionary.mk.injEq _ _ _ _).mpr h

theorem ofList_entries (d : Dictionary κ ν) : ofList d.entries = d :=
  ext_entries (entries_ofList d.distinct)

theorem get?_ofList_map {ks : List κ} (h : ks.Nodup) (f : κ → ν) (hk : k ∈ ks) :
    (ofList (ks.map fun k => (k, f k))).get? k = some (f k) := by
  refine get?_of_mem ?_
  rw [entries_ofList (by rwa [List.map_map, Function.comp_def, List.map_id'])]
  exact List.mem_map_of_mem hk

/-- The entries of another dictionary count before those that were there. -/
theorem get?_insertAll_entries (d d' : Dictionary κ ν) (k : κ) :
    (d.insertAll d'.entries).get? k = (d'.get? k).or (d.get? k) := by
  rw [get?_insertAll, ofList_entries]

/-! ### Parts of a dictionary -/

/-- The entries whose keys are kept. -/
def restrict (keep : κ → Bool) (d : Dictionary κ ν) : Dictionary κ ν :=
  ⟨d.entries.filter (keep ·.1), d.distinct.sublist (List.filter_sublist.map _)⟩

theorem restrict_ofList {keep : κ → Bool} (h : (es.map Prod.fst).Nodup) :
    (ofList es).restrict keep = ofList (es.filter (keep ·.1)) := by
  have hk : ((es.filter (keep ·.1)).map Prod.fst).Nodup := h.sublist (List.filter_sublist.map _)
  unfold restrict
  rw [Dictionary.mk.injEq, entries_ofList h, entries_ofList hk]

theorem lookup_filter {keep : κ → Bool} (h : keep k = true) : ∀ es : List (κ × ν),
    lookup k (es.filter (keep ·.1)) = lookup k es
  | [] => rfl
  | e :: es => by
    rw [List.filter_cons, lookup]
    by_cases he : e.1 = k
    · rw [if_pos (by rw [he, h]), if_pos he, lookup, if_pos he]
    · rw [if_neg he, ← lookup_filter h es]
      split
      · rw [lookup, if_neg he]
      · rfl

theorem get?_restrict {keep : κ → Bool} (h : keep k = true) :
    (d.restrict keep).get? k = d.get? k :=
  lookup_filter h d.entries

omit [DecidableEq κ] in
@[simp] theorem restrict_true (d : Dictionary κ ν) : d.restrict (fun _ => true) = d :=
  ext_entries (List.filter_true d.entries)

/-- A new key comes last, if it is kept. -/
theorem entries_restrict_insert {keep : κ → Bool} (hd : d.contains k = false) (v : ν) :
    ((d.insert k v).restrict keep).entries =
      (d.restrict keep).entries ++ if keep k then [(k, v)] else [] := by
  unfold restrict
  dsimp only
  rw [entries_insert hd, List.filter_append, List.filter_cons, List.filter_nil]

theorem filter_key_eq : ∀ {es : List (κ × ν)}, (es.map Prod.fst).Nodup → (k, v) ∈ es →
    es.filter (fun e => decide (e.1 = k)) = [(k, v)]
  | e :: es, hd, h => by
    obtain ⟨he, hd⟩ := List.nodup_cons.mp hd
    rcases List.mem_cons.mp h with rfl | h
    · have hnil : es.filter (fun e => decide (e.1 = k)) = [] :=
        List.filter_eq_nil_iff.mpr fun a ha hk =>
          he (List.mem_map.mpr ⟨a, ha, of_decide_eq_true hk⟩)
      rw [List.filter_cons, if_pos (decide_eq_true rfl), hnil]
    · have hne : e.1 ≠ k := by
        rintro rfl
        exact he (List.mem_map.mpr ⟨_, h, rfl⟩)
      rw [List.filter_cons_of_neg (by simpa using hne), filter_key_eq hd h]

/-- One key alone has one entry. -/
theorem entries_restrict_eq (h : (k, v) ∈ d.entries) :
    (d.restrict fun x => decide (x = k)).entries = [(k, v)] :=
  filter_key_eq d.distinct h

/-- The order of the entries does not show under one key. -/
theorem restrict_eq_of_perm {d' : Dictionary κ ν} (h : d.entries.Perm d'.entries) (k : κ) :
    (d.restrict fun x => decide (x = k)) = d'.restrict fun x => decide (x = k) := by
  refine ext_entries ?_
  have hperm := h.filter fun e => decide (e.1 = k)
  cases hget : d.get? k with
  | some v =>
    have hentries : d.entries.filter (fun e => decide (e.1 = k)) = [(k, v)] :=
      filter_key_eq d.distinct (mem_of_get? hget)
    rw [hentries] at hperm
    exact hentries.trans (List.perm_singleton.mp hperm.symm).symm
  | none =>
    have hentries : d.entries.filter (fun e => decide (e.1 = k)) = [] := by
      refine List.filter_eq_nil_iff.mpr fun e he hk => ?_
      have hsome := get?_of_mem (d := d) he
      rw [of_decide_eq_true hk, hget] at hsome
      cases hsome
    rw [hentries] at hperm
    exact hentries.trans (List.perm_nil.mp hperm.symm).symm

/-- The values rewritten under their keys. -/
def mapValues {μ : Type v} (f : κ → ν → μ) (d : Dictionary κ ν) : Dictionary κ μ :=
  ⟨d.entries.map fun e => (e.1, f e.1 e.2), by
    rw [List.map_map]
    exact d.distinct⟩

theorem lookup_map {μ : Type v} (f : κ → ν → μ) (k : κ) : ∀ es : List (κ × ν),
    lookup k (es.map fun e => (e.1, f e.1 e.2)) = (lookup k es).map (f k)
  | [] => rfl
  | e :: es => by
    rw [List.map_cons, lookup, lookup]
    split
    · next h => rw [h, Option.map_some]
    · exact lookup_map f k es

theorem get?_mapValues {μ : Type v} (f : κ → ν → μ) (d : Dictionary κ ν) (k : κ) :
    (d.mapValues f).get? k = (d.get? k).map (f k) :=
  lookup_map f k d.entries

/-! ### Dictionaries alike -/

section Alike
variable {μ : Type v} {R : ν → μ → Prop} {d : Dictionary κ ν} {d' : Dictionary κ μ}

/-- The dictionaries have the same keys in the same order, with related values. -/
def Alike (R : ν → μ → Prop) (d : Dictionary κ ν) (d' : Dictionary κ μ) : Prop :=
  List.Forall₂ (fun e e' => e.1 = e'.1 ∧ R e.2 e'.2) d.entries d'.entries

theorem alike_lookup {es : List (κ × ν)} {es' : List (κ × μ)}
    (h : List.Forall₂ (fun e e' => e.1 = e'.1 ∧ R e.2 e'.2) es es') (k : κ) :
    Option.Rel R (lookup k es) (lookup k es') := by
  induction h with
  | nil => exact .none
  | @cons e e' es es' he _ ih =>
    unfold lookup
    rw [← he.1]
    split
    · exact .some he.2
    · exact ih

theorem Alike.get? (h : Alike R d d') (k : κ) : Option.Rel R (d.get? k) (d'.get? k) :=
  alike_lookup h k

theorem Alike.contains_eq (h : Alike R d d') (k : κ) : d.contains k = d'.contains k := by
  unfold contains
  have hk := h.get? k
  generalize d.get? k = r, d'.get? k = r' at hk
  cases hk <;> rfl

omit [DecidableEq κ] in
theorem alike_empty : Alike R (empty : Dictionary κ ν) (empty : Dictionary κ μ) := .nil

omit [DecidableEq κ] in
theorem Alike.imp {S : ν → μ → Prop} (h : Alike R d d') (hRS : ∀ v w, R v w → S v w) :
    Alike S d d' :=
  List.Forall₂.imp (fun _ _ he => ⟨he.1, hRS _ _ he.2⟩) h

/-- A new key comes last in both. -/
theorem Alike.insert {v : ν} {w : μ} (h : Alike R d d') (hk : d.contains k = false) (hv : R v w) :
    Alike R (d.insert k v) (d'.insert k w) := by
  unfold Alike
  rw [entries_insert hk, entries_insert (h.contains_eq k ▸ hk)]
  exact List.rel_append h (.cons ⟨rfl, hv⟩ .nil)

theorem alike_put {es : List (κ × ν)} {es' : List (κ × μ)} {v : ν} {w : μ}
    (h : List.Forall₂ (fun e e' => e.1 = e'.1 ∧ R e.2 e'.2) es es') (k : κ) (hv : R v w) :
    List.Forall₂ (fun e e' => e.1 = e'.1 ∧ R e.2 e'.2) (put k v es) (put k w es') := by
  induction h with
  | nil => exact .cons ⟨rfl, hv⟩ .nil
  | @cons e e' es es' he hes ih =>
    unfold put
    rw [← he.1]
    split
    · exact .cons ⟨rfl, hv⟩ hes
    · exact .cons ⟨rfl, he.2⟩ ih

/-- The same insertions leave dictionaries alike. -/
theorem Alike.insertAll {R : ν → ν → Prop} (hR : ∀ v, R v v) : ∀ (es : List (κ × ν))
    {d d' : Dictionary κ ν}, Alike R d d' → Alike R (d.insertAll es) (d'.insertAll es)
  | [], _, _, h => h
  | e :: es, _, _, h => Alike.insertAll hR es (alike_put h e.1 (hR e.2))

omit [DecidableEq κ] in
theorem Alike.values (h : Alike R d d') : List.Forall₂ R d.values d'.values := by
  unfold Dictionary.values
  rw [List.forall₂_map_left_iff, List.forall₂_map_right_iff]
  exact List.Forall₂.imp (fun _ _ he => he.2) h

end Alike

end BuildPlan.Dictionary
