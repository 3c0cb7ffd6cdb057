import BuildPlan.Collection.OrderedSet
import BuildPlan.Proofs.Collection.Dictionary
import Mathlib.Data.List.Induction

/-! # Collections whose items are rewritten

The items of a set, and the keys and values of a dictionary, are rewritten by functions, and those that
become equal are one. For sets it makes no difference whether items are rewritten before or behind an
insertion (`OrderedSet.ofList_map_items`). For dictionaries it does: rewriting keeps the place of a
key among those that become equal, while an insertion behind it comes last. There is no difference if
the keys that were there are kept apart, and so are those that are inserted (`rekey_insertAll`). -/

namespace BuildPlan

universe u v w

/-! ### Sets -/

namespace OrderedSet

variable {α : Type u} [DecidableEq α] {β : Type v} [DecidableEq β]

theorem insertAll_append (s : OrderedSet α) (as bs : List α) :
    s.insertAll (as ++ bs) = (s.insertAll as).insertAll bs :=
  List.foldl_append

theorem ofList_append (as bs : List α) : ofList (as ++ bs) = (ofList as).insertAll bs :=
  insertAll_append empty as bs

theorem ofList_concat (as : List α) (a : α) : ofList (as ++ [a]) = (ofList as).insert a :=
  ofList_append as [a]

theorem mem_items_ofList {as : List α} {x : α} : x ∈ (ofList as).items ↔ x ∈ as := by
  induction as using List.reverseRecOn with
  | nil => simp [ofList, insertAll, empty]
  | append_singleton as a ih => rw [ofList_concat, mem_items_insert, ih, List.mem_append,
      List.mem_singleton]

omit [DecidableEq α] in
theorem ext_items {s t : OrderedSet α} (h : s.items = t.items) : s = t := by
  cases s
  cases t
  exact (OrderedSet.mk.injEq _ _ _ _).mpr h

theorem items_ofList {as : List α} (h : as.Nodup) : (ofList as).items = as := by
  induction as using List.reverseRecOn with
  | nil => rfl
  | append_singleton as a ih =>
    obtain ⟨hd, -, hn⟩ := List.nodup_append.mp h
    have ha : a ∉ as := fun hm => hn a hm a (List.mem_singleton.mpr rfl) rfl
    rw [ofList_concat, items_insert, ih hd, if_neg ha]

theorem ofList_items (s : OrderedSet α) : ofList s.items = s := ext_items (items_ofList s.distinct)

theorem insertAll_eq (s : OrderedSet α) (as : List α) : s.insertAll as = ofList (s.items ++ as) := by
  rw [ofList_append, ofList_items]

/-- Items that are there already may be left out before the rest is rewritten. -/
theorem ofList_map_items (f : α → β) (as : List α) :
    ofList ((ofList as).items.map f) = ofList (as.map f) := by
  induction as using List.reverseRecOn with
  | nil => rfl
  | append_singleton as a ih =>
    rw [List.map_append, List.map_singleton, ofList_concat, ofList_concat, items_insert, ← ih]
    split
    · next h =>
      refine ext_items ?_
      rw [items_insert, if_pos (mem_items_ofList.mpr (List.mem_map_of_mem h))]
    · rw [List.map_append, List.map_singleton, ofList_concat]

/-- Items that stay apart are rewritten in their places. -/
theorem items_ofList_map {f : α → β} {as : List α}
    (hf : ∀ x ∈ as, ∀ y ∈ as, f x = f y → x = y) :
    (ofList (as.map f)).items = (ofList as).items.map f := by
  rw [← ofList_map_items]
  exact items_ofList (List.Nodup.map_on (fun x hx y hy =>
    hf x (mem_items_ofList.mp hx) y (mem_items_ofList.mp hy)) (ofList as).distinct)

theorem nodup_of_items_ofList {as : List α} (h : (ofList as).items = as) : as.Nodup :=
  h ▸ (ofList as).distinct

end OrderedSet

/-! ### Insertions into a dictionary -/

namespace Dictionary

variable {κ : Type u} {ν : Type v} [DecidableEq κ] {d : Dictionary κ ν} {k x y : κ} {v w : ν}
  {es : List (κ × ν)}

theorem put_cons (k : κ) (v : ν) (e : κ × ν) (es : List (κ × ν)) :
    put k v (e :: es) = if e.1 = k then (e.1, v) :: es else e :: put k v es := rfl

theorem put_put_self (k : κ) (v w : ν) : ∀ es : List (κ × ν), put k v (put k w es) = put k v es
  | [] => by rw [put, put_cons, if_pos rfl, put]
  | e :: es => by
    rw [put_cons, put_cons]
    split
    · next h => rw [put_cons, if_pos h]
    · next h => rw [put_cons, if_neg h, put_put_self k v w es]

/-- A key that is there keeps its place, whatever is inserted in between. -/
theorem put_comm (hne : x ≠ y) : ∀ {es : List (κ × ν)}, x ∈ es.map Prod.fst →
    put y w (put x v es) = put x v (put y w es)
  | [], h => by cases h
  | e :: es, h => by
    rw [put_cons, put_cons]
    by_cases hx : e.1 = x
    · have hy : e.1 ≠ y := fun hy => hne (hx.symm.trans hy)
      rw [if_pos hx, if_neg hy, put_cons, if_neg hy, put_cons, if_pos hx]
    · have hm : x ∈ es.map Prod.fst := (List.mem_cons.mp h).resolve_left (Ne.symm hx)
      rw [if_neg hx]
      by_cases hy : e.1 = y
      · rw [if_pos hy, put_cons, if_pos hy, put_cons, if_neg hx]
      · rw [if_neg hy, put_cons, if_neg hy, put_cons, if_neg hx, put_comm hne hm]

theorem insert_insert_self (d : Dictionary κ ν) (k : κ) (v w : ν) :
    (d.insert k w).insert k v = d.insert k v :=
  ext_entries (put_put_self k v w d.entries)

theorem insert_comm (hne : x ≠ y) (hx : x ∈ d.keys) :
    (d.insert x v).insert y w = (d.insert y w).insert x v :=
  ext_entries (put_comm hne hx)

theorem mem_keys_insert : x ∈ (d.insert k v).keys ↔ x = k ∨ x ∈ d.keys := mem_keys_put

theorem insertAll_insert : ∀ {es : List (κ × ν)} {d : Dictionary κ ν}, x ∈ d.keys →
    x ∉ es.map Prod.fst → (d.insert x v).insertAll es = (d.insertAll es).insert x v
  | [], _, _, _ => rfl
  | e :: es, d, hx, hn => by
    rw [List.map_cons, List.mem_cons, not_or] at hn
    rw [insertAll, List.foldl_cons, ← insertAll, insert_comm hn.1 hx,
      insertAll_insert (mem_keys_insert.mpr (Or.inr hx)) hn.2]
    rfl

theorem insertAll_append (d : Dictionary κ ν) (es fs : List (κ × ν)) :
    d.insertAll (es ++ fs) = (d.insertAll es).insertAll fs :=
  List.foldl_append

theorem ofList_append (es fs : List (κ × ν)) : ofList (es ++ fs) = (ofList es).insertAll fs :=
  insertAll_append empty es fs

theorem insertAll_eq (d : Dictionary κ ν) (es : List (κ × ν)) :
    d.insertAll es = ofList (d.entries ++ es) := by
  rw [ofList_append, ofList_entries]

theorem put_of_mem : ∀ {es : List (κ × ν)}, k ∈ es.map Prod.fst → ∃ as w bs,
    es = as ++ (k, w) :: bs ∧ put k v es = as ++ (k, v) :: bs
  | [], h => by cases h
  | e :: es, h => by
    rw [put_cons]
    by_cases he : e.1 = k
    · refine ⟨[], e.2, es, by rw [← he]; rfl, ?_⟩
      rw [if_pos he, he]
      rfl
    · obtain ⟨as, w, bs, hes, hput⟩ := put_of_mem ((List.mem_cons.mp h).resolve_left (Ne.symm he))
      refine ⟨e :: as, w, bs, by rw [hes]; rfl, ?_⟩
      rw [if_neg he, hput]
      rfl

/-! ### The keys of a dictionary -/

theorem keys_insert : (d.insert k v).keys = if k ∈ d.keys then d.keys else d.keys ++ [k] := by
  show (put k v d.entries).map Prod.fst = _
  split
  · next h =>
    obtain ⟨as, w, bs, hes, hput⟩ := put_of_mem (v := v) h
    rw [hput, keys, hes, List.map_append, List.map_append]
    rfl
  · next h =>
    rw [put_of_not_mem h, List.map_append]
    rfl

theorem keys_ofList (es : List (κ × ν)) :
    (ofList es).keys = (OrderedSet.ofList (es.map Prod.fst)).items := by
  induction es using List.reverseRecOn with
  | nil => rfl
  | append_singleton es e ih =>
    rw [List.map_append, List.map_singleton, OrderedSet.ofList_concat, OrderedSet.items_insert,
      ofList_append, ← ih]
    exact keys_insert

/-- What is inserted leaves the keys in front. -/
theorem keys_insertAll_prefix : ∀ (es : List (κ × ν)) (d : Dictionary κ ν),
    ∃ more, (d.insertAll es).keys = d.keys ++ more ∧ more ⊆ es.map Prod.fst
  | [], d => ⟨[], (List.append_nil _).symm, List.nil_subset _⟩
  | e :: es, d => by
    obtain ⟨more, hm, hsub⟩ := keys_insertAll_prefix es (d.insert e.1 e.2)
    rw [keys_insert] at hm
    split at hm
    · exact ⟨more, hm, fun _ h => List.mem_cons_of_mem _ (hsub h)⟩
    · refine ⟨e.1 :: more, by rw [insertAll, List.foldl_cons, ← insertAll, hm]; simp, ?_⟩
      exact List.cons_subset_cons e.1 hsub

/-! ### Rewriting -/

section Rekey
variable {κ' : Type u} {ν' : Type v} [DecidableEq κ'] (φ : κ → κ') (ψ : ν → ν')

/-- The dictionary with its keys and values rewritten, one after another. -/
def rekey (d : Dictionary κ ν) : Dictionary κ' ν' := ofList (d.entries.map (Prod.map φ ψ))

/-- The keys stay apart when they are rewritten. -/
def Apart (ks : List κ) : Prop := ∀ x ∈ ks, ∀ y ∈ ks, φ x = φ y → x = y

instance (φ : κ → κ') (ks : List κ) : Decidable (Apart φ ks) :=
  inferInstanceAs (Decidable (∀ x ∈ ks, ∀ y ∈ ks, φ x = φ y → x = y))

variable {φ ψ}

omit [DecidableEq κ] [DecidableEq κ'] in
theorem Apart.mono {ks ls : List κ} (h : Apart φ ls) (hs : ks ⊆ ls) : Apart φ ks :=
  fun x hx y hy => h x (hs hx) y (hs hy)

omit [DecidableEq κ] [DecidableEq κ'] in
theorem Apart.nodup_map {ks : List κ} (h : Apart φ ks) (hd : ks.Nodup) : (ks.map φ).Nodup :=
  List.Nodup.map_on h hd

omit [DecidableEq κ] in
theorem keys_rekey (d : Dictionary κ ν) :
    (d.rekey φ ψ).keys = (OrderedSet.ofList (d.keys.map φ)).items := by
  rw [rekey, keys_ofList, keys, List.map_map, List.map_map]
  rfl

omit [DecidableEq κ] in
theorem entries_rekey (h : Apart φ d.keys) :
    (d.rekey φ ψ).entries = d.entries.map (Prod.map φ ψ) := by
  refine entries_ofList ?_
  have hk : (d.entries.map (Prod.map φ ψ)).map Prod.fst = d.keys.map φ := by
    rw [keys, List.map_map, List.map_map]
    rfl
  rw [hk]
  exact h.nodup_map d.distinct

/-- An insertion is rewritten to an insertion if no key behind the place of its key becomes equal
to it. -/
theorem rekey_insert (h : ∀ as w bs, d.entries = as ++ (k, w) :: bs → ∀ e ∈ bs, φ e.1 ≠ φ k) :
    (d.insert k v).rekey φ ψ = (d.rekey φ ψ).insert (φ k) (ψ v) := by
  by_cases hk : k ∈ d.keys
  · obtain ⟨as, w, bs, hes, hput⟩ := put_of_mem (v := v) hk
    have hn : φ k ∉ (bs.map (Prod.map φ ψ)).map Prod.fst := by
      rw [List.map_map]
      intro hm
      obtain ⟨e, he, heq⟩ := List.mem_map.mp hm
      exact h as w bs hes e he heq
    have hins : ∀ u : ν, ofList ((as ++ (k, u) :: bs).map (Prod.map φ ψ)) =
        ((ofList (as.map (Prod.map φ ψ))).insert (φ k) (ψ u)).insertAll
          (bs.map (Prod.map φ ψ)) := fun u => by
      rw [List.map_append, List.map_cons, ofList_append]
      rfl
    have hmem : φ k ∈ ((ofList (as.map (Prod.map φ ψ))).insert (φ k) (ψ w)).keys :=
      mem_keys_insert.mpr (Or.inl rfl)
    show ofList ((put k v d.entries).map _) = (ofList (d.entries.map _)).insert _ _
    rw [hput, hes, hins, hins, ← insertAll_insert hmem hn, insert_insert_self]
  · show ofList ((put k v d.entries).map _) = _
    rw [put_of_not_mem hk, List.map_append, ofList_append]
    rfl

omit [DecidableEq κ] in
/-- What stands behind `k` in two lists is in the second, or both are in the first. -/
theorem mem_of_mem_behind {as bs ks more : List κ} (h : as ++ k :: bs = ks ++ more) (hx : x ∈ bs) :
    x ∈ more ∨ k ∈ ks ∧ x ∈ ks := by
  rcases List.append_eq_append_iff.mp h with ⟨cs, rfl, hcs⟩ | ⟨cs, -, rfl⟩
  · cases cs with
    | nil =>
      rw [List.nil_append] at hcs
      exact Or.inl (hcs ▸ List.mem_cons_of_mem _ hx)
    | cons c cs =>
      obtain ⟨rfl, rfl⟩ := List.cons.inj hcs
      rcases List.mem_append.mp hx with hx | hx
      · exact Or.inr ⟨by simp, by simp [hx]⟩
      · exact Or.inl hx
  · exact Or.inl (by simp [hx])

/-- **Insertions are rewritten to insertions** if the keys that were there stay apart, and those that
are inserted do. -/
theorem rekey_insertAll (hd : Apart φ d.keys) (he : Apart φ (es.map Prod.fst)) :
    (d.insertAll es).rekey φ ψ = (d.rekey φ ψ).insertAll (es.map (Prod.map φ ψ)) := by
  induction es using List.reverseRecOn with
  | nil => rfl
  | append_singleton es e ih =>
    have hsub : es.map Prod.fst ⊆ (es ++ [e]).map Prod.fst := by simp
    rw [List.map_append, insertAll_append, insertAll_append, ← ih (he.mono hsub)]
    refine rekey_insert fun as w bs hes e' hm heq => ?_
    -- A key behind `e.1` that becomes equal to it is neither inserted nor one that was there.
    obtain ⟨more, hkeys, hmore⟩ := keys_insertAll_prefix es d
    have hsplit : as.map Prod.fst ++ e.1 :: bs.map Prod.fst = d.keys ++ more := by
      rw [← hkeys, keys, hes, List.map_append]
      rfl
    have hnodup : (as.map Prod.fst ++ e.1 :: bs.map Prod.fst).Nodup := by
      rw [hsplit, ← hkeys]
      exact (d.insertAll es).distinct
    have hb : e'.1 ∈ bs.map Prod.fst := List.mem_map_of_mem hm
    have hne : e'.1 ≠ e.1 := by
      intro h
      have := (List.nodup_append.mp hnodup).2.1
      exact (List.nodup_cons.mp this).1 (h ▸ hb)
    have hlast : e.1 ∈ (es ++ [e]).map Prod.fst := by simp
    have hnot : e'.1 ∉ es.map Prod.fst := fun h => hne (he _ (hsub h) _ hlast heq)
    rcases mem_of_mem_behind hsplit hb with h | ⟨h1, h2⟩
    · exact hnot (hmore h)
    · exact hne (hd _ h2 _ h1 heq)

omit [DecidableEq κ] in
/-- Rewriting twice is rewriting once if the keys stay apart. -/
theorem rekey_rekey {κ'' : Type u} {ν'' : Type v} [DecidableEq κ''] {φ' : κ' → κ''} {ψ' : ν' → ν''}
    (h : Apart φ d.keys) : (d.rekey φ ψ).rekey φ' ψ' = d.rekey (φ' ∘ φ) (ψ' ∘ ψ) := by
  rw [rekey, entries_rekey h, List.map_map, rekey, Prod.map_comp_map]

omit [DecidableEq κ] in
theorem rekey_congr {φ' : κ → κ'} {ψ' : ν → ν'} (hk : ∀ x ∈ d.keys, φ x = φ' x)
    (hv : ∀ v ∈ d.values, ψ v = ψ' v) : d.rekey φ ψ = d.rekey φ' ψ' := by
  unfold rekey
  refine congrArg ofList (List.map_congr_left fun e he => ?_)
  exact Prod.ext (hk e.1 (List.mem_map_of_mem he)) (hv e.2 (List.mem_map_of_mem he))

end Rekey

/-! ### Rewriting before and behind insertions -/

section Stages
variable {φ₁ φ : κ → κ} {ψ₁ ψ : ν → ν} (hk : ∀ x ∈ d.keys, φ (φ₁ x) = φ x)
  (hv : ∀ v ∈ d.values, ψ (ψ₁ v) = ψ v)
include hk

/-- The keys come out the same whether what was there is rewritten before the insertions or not. -/
theorem keys_rekey_insertAll_rekey (es : List (κ × ν)) :
    (((d.rekey φ₁ ψ₁).insertAll es).rekey φ ψ).keys = ((d.insertAll es).rekey φ ψ).keys := by
  have hmap : (d.keys.map φ₁).map φ = d.keys.map φ := by
    rw [List.map_map]
    exact List.map_congr_left hk
  rw [keys_rekey, keys_rekey, rekey, ← ofList_append, keys_ofList, insertAll_eq, keys_ofList,
    OrderedSet.ofList_map_items, OrderedSet.ofList_map_items, List.map_append, List.map_append,
    List.map_append, List.map_append]
  congr 3
  rw [List.map_map, ← keys, ← hmap, keys, List.map_map, List.map_map, List.map_map]
  rfl

include hv

/-- What was there may be rewritten before the insertions if it stays apart, and if the insertions
do. -/
theorem rekey_insertAll_rekey (hd : Apart φ d.keys) (he : Apart φ (es.map Prod.fst)) :
    ((d.rekey φ₁ ψ₁).insertAll es).rekey φ ψ = (d.insertAll es).rekey φ ψ := by
  have hd₁ : Apart φ₁ d.keys := fun x hx y hy h => hd x hx y hy (by rw [← hk x hx, h, hk y hy])
  have hd₂ : Apart φ (d.rekey φ₁ ψ₁).keys := by
    rw [keys, entries_rekey hd₁, List.map_map]
    intro x hx y hy h
    obtain ⟨a, ha, rfl⟩ := List.mem_map.mp hx
    obtain ⟨b, hb, rfl⟩ := List.mem_map.mp hy
    have ha : a.1 ∈ d.keys := List.mem_map_of_mem ha
    have hb : b.1 ∈ d.keys := List.mem_map_of_mem hb
    exact congrArg φ₁ (hd _ ha _ hb (((hk _ ha).symm.trans h).trans (hk _ hb)))
  rw [rekey_insertAll hd₂ he, rekey_insertAll hd he, rekey_rekey hd₁]
  congr 1
  exact rekey_congr hk hv

omit hk in
/-- Or if its keys stay as they are. -/
theorem rekey_insertAll_of_fixed (hfix : ∀ x ∈ d.keys, φ₁ x = x) (es : List (κ × ν)) :
    ((d.rekey φ₁ ψ₁).insertAll es).rekey φ ψ = (d.insertAll es).rekey φ ψ := by
  have hd₁ : Apart φ₁ d.keys := fun x hx y hy h => by rwa [hfix x hx, hfix y hy] at h
  have hstart : Alike (fun v w => ψ v = ψ w) (d.rekey φ₁ ψ₁) d := by
    unfold Alike
    rw [entries_rekey hd₁, List.forall₂_map_left_iff, List.forall₂_same]
    exact fun e he => ⟨hfix e.1 (List.mem_map_of_mem he), hv e.2 (List.mem_map_of_mem he)⟩
  have hall := Alike.insertAll (R := fun v w => ψ v = ψ w) (fun _ => rfl) es hstart
  unfold rekey
  refine congrArg ofList ?_
  have hmap : ∀ {as bs : List (κ × ν)},
      List.Forall₂ (fun e e' => e.1 = e'.1 ∧ ψ e.2 = ψ e'.2) as bs →
        as.map (Prod.map φ ψ) = bs.map (Prod.map φ ψ) := by
    intro as bs h
    induction h with
    | nil => rfl
    | cons he _ ih =>
      rw [List.map_cons, List.map_cons, ih]
      congr 1
      exact Prod.ext (congrArg φ he.1) he.2
  exact hmap hall

end Stages

end Dictionary

end BuildPlan
