import BuildPlan.Proofs.Variable.Rereading

/-! # Expansion in stages

A text is expanded by several deferring passes, each with bindings of its own, and then completely.
The meaning to compare with is one complete expansion under all bindings at once, where the first
bindings that have a name give it its value.

Both come to the same if every pass leaves settled symbols, since these are read back by the next
one. Nothing less will do: behind the first pass that leaves symbols which are not settled, there
are last bindings for which the two differ (`exists_ne_expandFully`). -/

namespace BuildPlan

/-- The bindings in which a name has the value of the first of two that bind it. -/
def Bindings.orElse (b c : Bindings) : Bindings := ⟨fun n => (b.get? n).or (c.get? n)⟩

theorem Bindings.get?_bindAll_of_mem {n v : String} {pairs : List (String × String)}
    (hv : ∀ p ∈ pairs, p.2 = v) (b : Bindings) (h : b.get? n = some v ∨ n ∈ pairs.map Prod.fst) :
    (b.bindAll pairs).get? n = some v := by
  induction pairs generalizing b with
  | nil => simpa [bindAll] using h
  | cons p pairs ih =>
    refine ih (fun q hq => hv q (List.mem_cons_of_mem _ hq)) (b.bind p.1 p.2) ?_
    rw [get?_bind, hv p (by simp)]
    by_cases hn : n = p.1
    · exact Or.inl (if_pos hn)
    · rw [if_neg hn]
      simpa [hn] using h

namespace Variable

/-- Expands a text with bindings one after another, deferring what is unbound, and then completely
with the last ones. -/
def expandStaged (bs : List Bindings) (b : Bindings) (text : String) : Fallible String := do
  expand b .complete (← bs.foldlM (fun text b => expand b .deferring text) text)

/-- All bindings at once, of which the first that have a name count. -/
def layered (bs : List Bindings) (b : Bindings) : Bindings := bs.foldr Bindings.orElse b

/-- The symbols behind deferring passes that read what was written. -/
def substituteAll (bs : List Bindings) (ss : List Symbol) : List Symbol :=
  bs.foldl (fun ss b => ss.flatMap (substitute b)) ss

theorem substituteAll_concat (bs : List Bindings) (c : Bindings) (ss : List Symbol) :
    substituteAll (bs ++ [c]) ss = (substituteAll bs ss).flatMap (substitute c) := by
  rw [substituteAll, List.foldl_append]
  rfl

/-! ### What expansion comes to -/

theorem mapM_evaluate_toOption (b : Bindings) (text : String) (ss : List Symbol) :
    (ss.mapM (evaluate b text)).toOption.map List.flatten = evaluate? b ss := by
  induction ss with
  | nil => rfl
  | cons s ss ih =>
    have hs : (evaluate b text s).toOption = s.value? b := by
      cases s with
      | char c => rfl
      | reference name =>
        rw [evaluate, Symbol.value?]
        cases b.get? (String.ofList name) <;> rfl
      | unclosed => rfl
    rw [List.mapM_cons, evaluate?, ← hs, ← ih]
    cases evaluate b text s with
    | error e => rfl
    | ok v => cases ss.mapM (evaluate b text) <;> rfl

theorem expandFully_toOption (b : Bindings) (text : String) :
    (expandFully b text).toOption = (evaluate? b (read text.toList)).map String.ofList := by
  rw [← mapM_evaluate_toOption b text, expandFully]
  cases (read text.toList).mapM (evaluate b text) <;> rfl

/-- A complete expansion gives what the symbols of the text come to. -/
theorem expand_complete_ok {b : Bindings} {text u : String} :
    expand b .complete text = .ok u ↔ evaluate? b (read text.toList) = some u.toList := by
  have hok : expand b .complete text = .ok u ↔ (expandFully b text).toOption = some u := by
    rw [expand]
    cases expandFully b text <;> simp [Except.toOption]
  rw [hok, expandFully_toOption, Option.map_eq_some_iff]
  constructor
  · rintro ⟨s, hs, rfl⟩
    rw [hs, String.toList_ofList]
  · intro h
    exact ⟨u.toList, h, String.ofList_toList⟩

theorem expandPartly_of_readable {b : Bindings} {text : String} (h : Readable (read text.toList)) :
    expandPartly b text =
      .ok (String.ofList (write ((read text.toList).flatMap (substitute b)))) :=
  if_neg h.closed

/-! ### Substitution -/

theorem evaluate?_substitute (b c : Bindings) (s : Symbol) :
    evaluate? c (substitute b s) = s.value? (b.orElse c) := by
  cases s with
  | char c => rfl
  | reference name =>
    rw [substitute, Symbol.value?, Bindings.orElse]
    cases hn : b.get? (String.ofList name) with
    | none => simp [evaluate?, Symbol.value?, hn]
    | some v => simp [plain, evaluate?_chars, hn]
  | unclosed => rfl

theorem evaluate?_flatMap_substitute (b c : Bindings) (ss : List Symbol) :
    evaluate? c (ss.flatMap (substitute b)) = evaluate? (b.orElse c) ss := by
  induction ss with
  | nil => rfl
  | cons s ss ih => rw [List.flatMap_cons, evaluate?_append, evaluate?_substitute, ih, evaluate?]

/-- What is put in by passes is what all bindings together give. -/
theorem evaluate?_substituteAll (bs : List Bindings) (b : Bindings) (ss : List Symbol) :
    evaluate? b (substituteAll bs ss) = evaluate? (layered bs b) ss := by
  induction bs generalizing ss with
  | nil => rfl
  | cons c bs ih =>
    rw [substituteAll, List.foldl_cons, ← substituteAll, ih, evaluate?_flatMap_substitute]
    rfl

theorem mem_substitute {b : Bindings} {s t : Symbol} (h : t ∈ substitute b s) :
    (∃ c, t = .char c) ∨ t = s := by
  unfold substitute at h
  split at h
  · split at h
    · obtain ⟨c, -, rfl⟩ := List.mem_map.mp h
      exact Or.inl ⟨c, rfl⟩
    · exact Or.inr (List.mem_singleton.mp h)
  · exact Or.inr (List.mem_singleton.mp h)

theorem Readable.flatMap_substitute {ss : List Symbol} (h : Readable ss) (b : Bindings) :
    Readable (ss.flatMap (substitute b)) := by
  have hmem : ∀ t ∈ ss.flatMap (substitute b), (∃ c, t = .char c) ∨ t ∈ ss := by
    intro t ht
    obtain ⟨s, hs, ht⟩ := List.mem_flatMap.mp ht
    exact (mem_substitute ht).imp_right fun e => by rwa [e]
  refine ⟨fun hu => ?_, fun name hn => ?_⟩
  · rcases hmem _ hu with ⟨c, hc⟩ | hu
    · cases hc
    · exact h.closed hu
  · rcases hmem _ hn with ⟨c, hc⟩ | hn
    · cases hc
    · exact h.names name hn

/-- The names of references hold no closing parenthesis, since it ends them. -/
theorem not_mem_of_reference_mem_readFrom {σ : ReadState} {s name : List Char}
    (hσ : ∀ n acc, σ = .name n acc → ')' ∉ acc) (h : .reference name ∈ readFrom σ s) :
    ')' ∉ name := by
  fun_induction readFrom σ s with
  | case1 n => simp [slashes, List.mem_replicate] at h
  | case2 n s ih => exact ih (by simp) h
  | case3 n s ih => exact ih (by simp) h
  | case4 n c s hc hd ih =>
    simp only [slashes, List.mem_append, List.mem_replicate, List.mem_cons, reduceCtorEq, and_false,
      false_or] at h
    exact ih (by simp) h
  | case5 n acc => simp at h
  | case6 n acc s ih =>
    rcases List.mem_append.mp h with h | h
    · rw [readReference, List.mem_append] at h
      split at h
      · simp [slashes, List.mem_replicate] at h
      · simp only [slashes, List.mem_replicate, reduceCtorEq, and_false, false_or,
          List.mem_singleton, Symbol.reference.injEq] at h
        rw [h, List.mem_reverse]
        exact hσ n acc rfl
    · exact ih (by simp) h
  | case7 n acc c s hc ih =>
    refine ih (fun m acc' he => ?_) h
    obtain ⟨-, rfl⟩ := ReadState.name.inj he
    rw [List.mem_cons, not_or]
    exact ⟨fun e => hc e.symm, hσ n acc rfl⟩

theorem readable_read {s : List Char} (h : .unclosed ∉ read s) : Readable (read s) :=
  ⟨h, fun _ hn => not_mem_of_reference_mem_readFrom (by simp) hn⟩

theorem readable_substituteAll {bs : List Bindings} {ss : List Symbol} (h : Readable ss) :
    Readable (substituteAll bs ss) := by
  induction bs generalizing ss with
  | nil => exact h
  | cons b bs ih => exact ih (h.flatMap_substitute b)

/-! ### Passes that leave settled symbols -/

/-- Passes that leave settled symbols behind each of them make a text from which the next one reads
the symbols that they left. -/
theorem foldlM_expand_of_settled {bs : List Bindings} {text : String}
    (hr : Readable (read text.toList))
    (hs : ∀ k, 1 ≤ k → k ≤ bs.length →
      isSettled false (substituteAll (bs.take k) (read text.toList)) = true) :
    ∃ t, bs.foldlM (fun text b => expand b .deferring text) text = .ok t ∧
      read t.toList = substituteAll bs (read text.toList) := by
  induction bs generalizing text with
  | nil => exact ⟨text, rfl, rfl⟩
  | cons b bs ih =>
    set ss := (read text.toList).flatMap (substitute b) with hss
    have hread : read (String.ofList (write ss)).toList = ss := by
      rw [String.toList_ofList]
      exact read_write (hs 1 le_rfl (by simp)) (hr.flatMap_substitute b)
    have hr' : Readable (read (String.ofList (write ss)).toList) := by
      rw [hread]
      exact hr.flatMap_substitute b
    obtain ⟨t, ht, hrt⟩ := ih hr' fun k hk hkl => by
      rw [hread]
      exact hs (k + 1) (by omega) (by simpa using hkl)
    refine ⟨t, ?_, by rw [hrt, hread]; rfl⟩
    rw [List.foldlM_cons, expand, expandPartly_of_readable hr, ← hss]
    exact ht

theorem expandStaged_of_foldlM {bs : List Bindings} {b : Bindings} {text t : String}
    (h : bs.foldlM (fun text b => expand b .deferring text) text = .ok t) :
    expandStaged bs b text = expandFully b t := by
  rw [expandStaged, h]
  rfl

/-- Such passes and a complete one give what a complete expansion under all bindings gives. -/
theorem expandStaged_of_settled {bs : List Bindings} {text : String}
    (hr : Readable (read text.toList))
    (hs : ∀ k, 1 ≤ k → k ≤ bs.length →
      isSettled false (substituteAll (bs.take k) (read text.toList)) = true) (b : Bindings) :
    (expandStaged bs b text).toOption = (expand (layered bs b) .complete text).toOption := by
  obtain ⟨t, ht, hrt⟩ := foldlM_expand_of_settled hr hs
  rw [expandStaged_of_foldlM ht, expandFully_toOption, hrt, evaluate?_substituteAll, expand,
    expandFully_toOption]

/-- A text with a reference without an end is expanded neither at once nor in passes. -/
theorem expandStaged_of_unclosed (bs : List Bindings) (b : Bindings) {text : String}
    (h : .unclosed ∈ read text.toList) :
    (expandStaged bs b text).toOption = none ∧
      (expand (layered bs b) .complete text).toOption = none := by
  have hf : ∀ c, (expandFully c text).toOption = none := fun c => by
    rw [expandFully_toOption, evaluate?_eq_none_of_unclosed h]
    rfl
  refine ⟨?_, hf _⟩
  cases bs with
  | nil => exact hf b
  | cons c bs =>
    rw [expandStaged, List.foldlM_cons, expand, expandPartly, if_pos h]
    rfl

/-! ### A pass that leaves symbols which are not settled -/

/-- The names of the references among symbols. -/
def referenceNames (ss : List Symbol) : List String :=
  ss.filterMap fun
    | .reference name => some (String.ofList name)
    | _ => none

/-- The bindings in which every name of a reference has the value `x`. -/
def allX (ss : List Symbol) : List (String × String) := (referenceNames ss).map fun n => (n, "x")

theorem get?_allX {ss : List Symbol} {name : List Char} (h : .reference name ∈ ss) :
    (Bindings.ofList (allX ss)).get? (String.ofList name) = some "x" := by
  refine Bindings.get?_bindAll_of_mem (by simp [allX]) .empty (Or.inr ?_)
  simp only [allX, referenceNames, List.map_map, List.mem_map, List.mem_filterMap]
  exact ⟨String.ofList name, ⟨_, h, rfl⟩, rfl⟩

theorem evaluate?_isSome {b : Bindings} {ss : List Symbol} (hr : Readable ss)
    (hb : ∀ name, .reference name ∈ ss → b.get? (String.ofList name) = some "x") :
    ∃ u, evaluate? b ss = some u := by
  induction ss with
  | nil => exact ⟨[], rfl⟩
  | cons s ss ih =>
    obtain ⟨u, hu⟩ := ih hr.tail fun name hm => hb name (List.mem_cons_of_mem _ hm)
    have hv : ∃ v, s.value? b = some v := by
      cases s with
      | char c => exact ⟨[c], rfl⟩
      | reference name => exact ⟨['x'], by rw [Symbol.value?, hb name (by simp)]; rfl⟩
      | unclosed => exact absurd (by simp) hr.closed
    obtain ⟨v, hv⟩ := hv
    exact ⟨v ++ u, evaluate?_cons_eq_some.mpr ⟨v, u, hv, hu, rfl⟩⟩

/-- **Behind a pass that is the first to leave symbols which are not settled**, some last bindings
of finitely many names give another text than all bindings at once. -/
theorem exists_ne_expandFully {bs : List Bindings} {c : Bindings} {text : String}
    (hr : Readable (read text.toList))
    (hs : ∀ k, 1 ≤ k → k ≤ bs.length →
      isSettled false (substituteAll (bs.take k) (read text.toList)) = true)
    (hc : isSettled false (substituteAll (bs ++ [c]) (read text.toList)) = false) :
    ∃ pairs, (expandStaged (bs ++ [c]) (.ofList pairs) text).toOption ≠
      (expand (layered (bs ++ [c]) (.ofList pairs)) .complete text).toOption := by
  obtain ⟨t, ht, hrt⟩ := foldlM_expand_of_settled hr hs
  set ss := substituteAll (bs ++ [c]) (read text.toList) with hss
  have hrs : Readable ss := readable_substituteAll hr
  have hsub : (read t.toList).flatMap (substitute c) = ss := by
    rw [hrt, hss, substituteAll_concat]
  have hlast : (bs ++ [c]).foldlM (fun text b => expand b .deferring text) text =
      .ok (String.ofList (write ss)) := by
    have hrt' : Readable (read t.toList) := by rw [hrt]; exact readable_substituteAll hr
    rw [List.foldlM_append, ht]
    show expandPartly c t >>= pure = _
    rw [expandPartly_of_readable hrt', hsub]
    rfl
  have hx : ∀ name, .reference name ∈ ss →
      (Bindings.ofList (allX ss)).get? (String.ofList name) = some "x" := fun _ => get?_allX
  obtain ⟨u, hu⟩ := evaluate?_isSome hrs hx
  refine ⟨allX ss, fun h => ?_⟩
  rw [expandStaged_of_foldlM hlast, expandFully_toOption, expand, expandFully_toOption,
    ← evaluate?_substituteAll, ← hss, hu, String.toList_ofList, Option.map_some,
    Option.map_eq_some_iff] at h
  obtain ⟨v, hv, he⟩ := h
  exact evaluate?_read_write_ne hc hrs hx hu (by rw [hv, String.ofList_injective he])

/-! ### When passes agree with one expansion -/

/-- **Staged expansion agrees with expansion at once exactly if every pass leaves settled symbols.**
To agree is to give the same text, or to fail both, for the passes up to any of them and for all
last bindings. A text with a reference without an end fails either way. -/
theorem expandStaged_agrees_iff (text : String) (bs : List Bindings) :
    (∀ k ≤ bs.length, ∀ b, (expandStaged (bs.take k) b text).toOption =
        (expand (layered (bs.take k) b) .complete text).toOption) ↔
      .unclosed ∈ read text.toList ∨ ∀ k, 1 ≤ k → k ≤ bs.length →
        isSettled false (substituteAll (bs.take k) (read text.toList)) = true := by
  constructor
  · intro hagree
    by_cases hu : .unclosed ∈ read text.toList
    · exact Or.inl hu
    · refine Or.inr fun k hk hkl => ?_
      -- the passes before are settled, so this one reads the symbols that it should
      induction k using Nat.strong_induction_on with
      | _ k ih =>
        obtain ⟨j, rfl⟩ : ∃ j, k = j + 1 := ⟨k - 1, by omega⟩
        by_contra hn
        rw [Bool.not_eq_true, ← List.take_append_getElem hkl] at hn
        have hbefore : ∀ i, 1 ≤ i → i ≤ (bs.take j).length →
            isSettled false (substituteAll ((bs.take j).take i) (read text.toList)) = true := by
          intro i hi hij
          rw [List.length_take] at hij
          rw [List.take_take, min_eq_left (by omega)]
          exact ih i (by omega) hi (by omega)
        obtain ⟨pairs, hne⟩ := exists_ne_expandFully (readable_read hu) hbefore hn
        rw [List.take_append_getElem] at hne
        exact hne (hagree (j + 1) hkl _)
  · rintro (hu | hs) k hk b
    · obtain ⟨h1, h2⟩ := expandStaged_of_unclosed (bs.take k) b hu
      rw [h1, h2]
    · by_cases hu : .unclosed ∈ read text.toList
      · obtain ⟨h1, h2⟩ := expandStaged_of_unclosed (bs.take k) b hu
        rw [h1, h2]
      · refine expandStaged_of_settled (readable_read hu) (fun i hi hik => ?_) b
        rw [List.length_take] at hik
        rw [List.take_take, min_eq_left (by omega)]
        exact hs i hi (by omega)

/-- A reference within an escaped one is escaped by a pass, and keeps the backslash. -/
theorem expandStaged_nested_escape :
    expand (layered [.empty] .empty) .complete "\\$(a$(b)" = .ok "$(a$(b)" ∧
      expandStaged [.empty] .empty "\\$(a$(b)" = .ok "$(a\\$(b)" := by
  constructor <;> rfl

end Variable

end BuildPlan
