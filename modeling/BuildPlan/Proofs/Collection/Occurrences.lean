import BuildPlan.Proofs.Collection.Rewriting
import Mathlib.Data.List.Basic

/-! # Places of items

Items that are inserted into a set one after another are there once each, in the order of their first
occurrences (`FirstOccurrences.insertAll`). Of entries that are inserted into a dictionary one after
another, each key is there at its first place and with its last value (`LastValues.insertAll`). -/

namespace BuildPlan

universe u v

/-- The second list holds every item of the first one once, in the order of the first occurrences. -/
structure FirstOccurrences {α : Type u} [DecidableEq α] (as out : List α) : Prop where
  mem : ∀ a, a ∈ out ↔ a ∈ as
  order : out.Pairwise fun a b => as.idxOf a < as.idxOf b

/-- The second list holds every key of the first one once, in the order of the first occurrences, with the
value that it has at last. -/
structure LastValues {κ : Type u} {ν : Type v} [DecidableEq κ] (es out : List (κ × ν)) : Prop where
  keys : FirstOccurrences (es.map Prod.fst) (out.map Prod.fst)
  value : ∀ k v, (k, v) ∈ out ↔
    ∃ before after, es = before ++ (k, v) :: after ∧ k ∉ after.map Prod.fst

/-! ### Sets -/

section Items
variable {α : Type u} [DecidableEq α]

theorem firstOccurrences_of_nodup {as : List α} (h : as.Nodup) : FirstOccurrences as as := by
  refine ⟨fun _ => Iff.rfl, List.pairwise_iff_getElem.mpr fun i j hi hj hij => ?_⟩
  rwa [h.idxOf_getElem, h.idxOf_getElem]

namespace FirstOccurrences

variable {as out : List α} {a : α}

/-- An item that was met before changes nothing. -/
theorem concat_of_mem (h : FirstOccurrences as out) (ha : a ∈ out) :
    FirstOccurrences (as ++ [a]) out := by
  refine ⟨fun x => ?_, h.order.imp_of_mem fun hx hy hlt => ?_⟩
  · rw [h.mem, List.mem_append, List.mem_singleton]
    exact ⟨Or.inl, fun hx => hx.elim id fun hx => hx ▸ (h.mem a).mp ha⟩
  · rwa [List.idxOf_append_of_mem ((h.mem _).mp hx), List.idxOf_append_of_mem ((h.mem _).mp hy)]

/-- An item that is new comes last. -/
theorem concat_of_notMem (h : FirstOccurrences as out) (ha : a ∉ out) :
    FirstOccurrences (as ++ [a]) (out ++ [a]) := by
  have ha : a ∉ as := fun hm => ha ((h.mem a).mpr hm)
  refine ⟨fun x => ?_, List.pairwise_append.mpr
    ⟨h.order.imp_of_mem fun hx hy hlt => ?_, List.pairwise_singleton _ _, fun x hx y hy => ?_⟩⟩
  · rw [List.mem_append, List.mem_append, h.mem]
  · rwa [List.idxOf_append_of_mem ((h.mem _).mp hx), List.idxOf_append_of_mem ((h.mem _).mp hy)]
  · have hx : x ∈ as := (h.mem x).mp hx
    rw [List.mem_singleton.mp hy, List.idxOf_append_of_mem hx, List.idxOf_append_of_notMem ha]
    exact Nat.lt_add_right _ (List.idxOf_lt_length_iff.mpr hx)

theorem insert {s : OrderedSet α} (h : FirstOccurrences as s.items) (a : α) :
    FirstOccurrences (as ++ [a]) (s.insert a).items := by
  rw [OrderedSet.items_insert]
  split
  · next ha => exact h.concat_of_mem ha
  · next ha => exact h.concat_of_notMem ha

/-- **Items that are inserted into a set are there in the order of their first occurrences.** -/
theorem insertAll : ∀ {bs as : List α} {s : OrderedSet α},
    FirstOccurrences as s.items → FirstOccurrences (as ++ bs) (s.insertAll bs).items
  | [], as, s, h => by rwa [List.append_nil]
  | b :: bs, as, s, h => by
    have hrest : FirstOccurrences ((as ++ [b]) ++ bs) (s.insertAll (b :: bs)).items :=
      insertAll (h.insert b)
    rwa [List.append_assoc] at hrest

end FirstOccurrences

namespace OrderedSet

/-- Items may be made a set before they are inserted. -/
theorem insertAll_ofList (s : OrderedSet α) (as : List α) :
    s.insertAll (ofList as).items = s.insertAll as := by
  induction as using List.reverseRecOn with
  | nil => rfl
  | append_singleton as a ih =>
    have hconcat : s.insertAll (as ++ [a]) = (s.insertAll as).insert a := s.insertAll_append as [a]
    rw [hconcat, ofList_concat, items_insert]
    split
    · next ha =>
      refine ih.trans (ext_items ?_)
      have hm : a ∈ (s.insertAll as).items := by
        rw [insertAll_eq, mem_items_ofList]
        exact List.mem_append_right _ (mem_items_ofList.mp ha)
      rw [items_insert, if_pos hm]
    · rw [insertAll_append, ih]
      rfl

end OrderedSet

end Items

/-! ### Dictionaries -/

/-- A list with one more item is split at the last item or before it. -/
theorem concat_eq_append_cons {α : Type u} {as before after : List α} {a x : α} :
    as ++ [a] = before ++ x :: after ↔
      (after = [] ∧ as = before ∧ a = x) ∨ ∃ more, after = more ++ [a] ∧ as = before ++ x :: more := by
  constructor
  · intro h
    rcases List.eq_nil_or_concat' after with rfl | ⟨more, y, rfl⟩
    · obtain ⟨has, hx⟩ := List.append_inj' h rfl
      exact Or.inl ⟨rfl, has, (List.cons.inj hx).1⟩
    · rw [← List.cons_append, ← List.append_assoc] at h
      obtain ⟨has, hx⟩ := List.append_inj' h rfl
      exact Or.inr ⟨more, by rw [(List.cons.inj hx).1], has⟩
  · rintro (⟨rfl, rfl, rfl⟩ | ⟨more, rfl, rfl⟩)
    · rfl
    · rw [List.append_assoc, List.cons_append]

section Entries
variable {κ : Type u} {ν : Type v} [DecidableEq κ]

theorem lastValues_of_nodup {es : List (κ × ν)} (h : (es.map Prod.fst).Nodup) : LastValues es es := by
  refine ⟨firstOccurrences_of_nodup h, fun k v => ⟨fun hm => ?_, ?_⟩⟩
  · obtain ⟨before, after, rfl⟩ := List.append_of_mem hm
    rw [List.map_append, List.map_cons, List.nodup_append] at h
    exact ⟨before, after, rfl, (List.nodup_cons.mp h.2.1).1⟩
  · rintro ⟨before, after, rfl, -⟩
    exact List.mem_append_right _ List.mem_cons_self

namespace LastValues

theorem insert {d : Dictionary κ ν} {es : List (κ × ν)} (h : LastValues es d.entries) (e : κ × ν) :
    LastValues (es ++ [e]) (d.insert e.1 e.2).entries := by
  have hkeys : FirstOccurrences ((es ++ [e]).map Prod.fst) (d.insert e.1 e.2).keys := by
    rw [Dictionary.keys_insert, List.map_append]
    split
    · next hk => exact h.keys.concat_of_mem hk
    · next hk => exact h.keys.concat_of_notMem hk
  have hmem : ∀ {d : Dictionary κ ν} {k v}, (k, v) ∈ d.entries ↔ d.get? k = some v :=
    ⟨Dictionary.get?_of_mem, Dictionary.mem_of_get?⟩
  refine ⟨hkeys, fun k v => ?_⟩
  simp only [hmem, Dictionary.get?_insert, concat_eq_append_cons]
  by_cases hk : e.1 = k
  · rw [if_pos hk, Option.some.injEq]
    constructor
    · rintro rfl
      exact ⟨es, [], Or.inl ⟨rfl, rfl, by rw [← hk]⟩, List.not_mem_nil⟩
    · rintro ⟨before, after, ⟨-, -, rfl⟩ | ⟨more, rfl, -⟩, hn⟩
      · rfl
      · exact absurd (by simp [hk]) hn
  · rw [if_neg hk, ← hmem, h.value]
    constructor
    · rintro ⟨before, after, rfl, hn⟩
      refine ⟨before, after ++ [e], Or.inr ⟨after, rfl, rfl⟩, ?_⟩
      simpa [Ne.symm hk] using hn
    · rintro ⟨before, after, ⟨-, -, rfl⟩ | ⟨more, rfl, rfl⟩, hn⟩
      · exact absurd rfl hk
      · exact ⟨before, more, rfl, fun hm => hn (by simp [hm])⟩

/-- **Entries that are inserted into a dictionary are there at the first place of their key, with its last
value.** -/
theorem insertAll : ∀ {fs es : List (κ × ν)} {d : Dictionary κ ν},
    LastValues es d.entries → LastValues (es ++ fs) (d.insertAll fs).entries
  | [], es, d, h => by rwa [List.append_nil]
  | f :: fs, es, d, h => by
    have hrest : LastValues ((es ++ [f]) ++ fs) (d.insertAll (f :: fs)).entries :=
      insertAll (h.insert f)
    rwa [List.append_assoc] at hrest

end LastValues

namespace Dictionary

/-- An entry that is put into a dictionary may be put behind all of it. -/
theorem insertAll_entries_insert (d e : Dictionary κ ν) (k : κ) (v : ν) :
    d.insertAll (e.insert k v).entries = (d.insertAll e.entries).insert k v := by
  by_cases hk : k ∈ e.keys
  · obtain ⟨as, w, bs, hes, hput⟩ := put_of_mem (v := v) hk
    have hn : k ∉ bs.map Prod.fst := by
      have hd := e.distinct
      rw [hes, List.map_append, List.map_cons, List.nodup_append] at hd
      exact (List.nodup_cons.mp hd.2.1).1
    have hentries : (e.insert k v).entries = as ++ (k, v) :: bs := hput
    have hstep : ∀ w, d.insertAll (as ++ (k, w) :: bs) = ((d.insertAll as).insert k w).insertAll bs :=
      fun w => d.insertAll_append as ((k, w) :: bs)
    rw [hentries, hes, hstep, hstep, ← insertAll_insert (mem_keys_insert.mpr (Or.inl rfl)) hn,
      insert_insert_self]
  · have hentries : (e.insert k v).entries = e.entries ++ [(k, v)] := put_of_not_mem hk
    rw [hentries, insertAll_append]
    rfl

/-- Entries may be made a dictionary before they are inserted. -/
theorem insertAll_ofList (d : Dictionary κ ν) (es : List (κ × ν)) :
    d.insertAll (ofList es).entries = d.insertAll es := by
  induction es using List.reverseRecOn with
  | nil => rfl
  | append_singleton es e ih =>
    have hconcat : ofList (es ++ [e]) = (ofList es).insert e.1 e.2 := ofList_append es [e]
    rw [hconcat, insertAll_entries_insert, ih, insertAll_append]
    rfl

end Dictionary

end Entries

end BuildPlan
