import BuildPlan.Grammar.Parse

/-! # What rules read

A rule is followed through a text by what it finds, without the bookkeeping of failures. Every
construction has its equation, and a repetition reads the values of its rounds one after another
(`Rule.Repeats`). -/

namespace BuildPlan.Grammar

open BuildPlan.Text

namespace Rule

variable {α β : Type}

/-! ### The constructions -/

@[simp] theorem read_pure (a : α) (s : List Char) : (pure a : Rule α).read s = some (a, s) := rfl

theorem read_andThen (r : Rule α) (f : α → Rule β) (s : List Char) :
    (r.andThen f).read s = (r.read s).bind fun p => (f p.1).read p.2 := by
  dsimp only [andThen, read]
  rcases r s with ⟨_ | ⟨a, t⟩, taken, far⟩ <;> rfl

theorem read_bind (r : Rule α) (f : α → Rule β) (s : List Char) :
    (r >>= f).read s = (r.read s).bind fun p => (f p.1).read p.2 :=
  read_andThen r f s

theorem of_read_bind {r : Rule α} {f : α → Rule β} {s : List Char}
    {q : β × List Char} (h : (r >>= f).read s = some q) :
    ∃ a t, r.read s = some (a, t) ∧ (f a).read t = some q := by
  rw [read_bind] at h
  obtain ⟨⟨a, t⟩, hr, hq⟩ := Option.bind_eq_some_iff.mp h
  exact ⟨a, t, hr, hq⟩

theorem read_map (f : α → β) (r : Rule α) (s : List Char) :
    (r.map f).read s = (r.read s).map fun p => (f p.1, p.2) := by
  dsimp only [map, read]
  rcases r s with ⟨_ | ⟨a, t⟩, taken, far⟩ <;> rfl

theorem read_discard (r : Rule α) (s : List Char) :
    (discard r).read s = (r.read s).map fun p => ((), p.2) :=
  read_map (fun _ => ()) r s

theorem read_orElse (r q : Rule α) (s : List Char) :
    (r.orElse q).read s = (r.read s).or (q.read s) := by
  dsimp only [orElse, read]
  rcases r s with ⟨_ | ⟨a, t⟩, taken, far⟩ <;> rfl

theorem read_firstOf_cons (r : Rule α) (rs : List (Rule α)) (s : List Char) :
    (firstOf (r :: rs)).read s = (r.read s).or ((firstOf rs).read s) := by
  cases rs with
  | nil =>
    rw [show (firstOf ([] : List (Rule α))).read s = none from rfl, Option.or_none]
    rfl
  | cons q rs => exact read_orElse r (firstOf (q :: rs)) s

@[simp] theorem read_firstOf_nil (s : List Char) : (firstOf ([] : List (Rule α))).read s = none :=
  rfl

theorem read_optional (r : Rule α) (s : List Char) :
    (optional r).read s =
      ((r.read s).map fun p => (some p.1, p.2)).or (some (none, s)) := by
  unfold optional
  rw [read_orElse, read_map]
  rfl

theorem read_select (f : α → Option β) (r : Rule α) (s : List Char) :
    (r.select f).read s = (r.read s).bind fun p => (f p.1).map fun b => (b, p.2) := by
  dsimp only [select, read]
  rcases r s with ⟨_ | ⟨a, t⟩, taken, far⟩
  · rfl
  · cases hf : f a <;> simp [hf]

theorem read_keep (p : α → Bool) (r : Rule α) (s : List Char) :
    (r.keep p).read s = (r.read s).filter fun q => p q.1 := by
  unfold keep
  rw [read_select]
  rcases r.read s with _ | ⟨a, t⟩
  · rfl
  · dsimp only [Option.bind_some]
    cases h : p a <;> simp [Option.filter, h]

theorem read_absent (r : Rule α) (s : List Char) :
    (absent r).read s = if (r.read s).isSome then none else some ((), s) := by
  dsimp only [absent, read]
  split
  · next h => simp [h]
  · next h => simp [h]

/-! ### Characters -/

theorem read_one_cons (p : Char → Bool) (c : Char) (s : List Char) :
    (one p).read (c :: s) = if p c then some (c, s) else none := by
  dsimp only [one, read]
  split <;> rfl

@[simp] theorem read_exactly_nil (s : List Char) : (exactly []).read s = some ((), s) := rfl

theorem read_exactly_cons (c : Char) (w : List Char) (d : Char) (s : List Char) :
    (exactly (c :: w)).read (d :: s) = if d = c then (exactly w).read s else none := by
  rw [exactly, read_andThen, read_one_cons]
  by_cases h : d = c
  · rw [if_pos h, if_pos (beq_iff_eq.mpr h)]
    rfl
  · rw [if_neg h, if_neg (by simpa using h)]
    rfl

theorem read_exactly_eq_none {c : Char} {w s : List Char} (h : s.head? ≠ some c) :
    (exactly (c :: w)).read s = none := by
  cases s with
  | nil => rfl
  | cons d s => rw [read_exactly_cons, if_neg (by simpa using h)]

theorem of_read_exactly : ∀ {w s t : List Char} {u : Unit},
    (exactly w).read s = some (u, t) → s = w ++ t
  | [], s, t, u, h => by
    cases h
    rfl
  | c :: w, [], t, u, h => by cases h
  | c :: w, d :: s, t, u, h => by
    rw [read_exactly_cons] at h
    split at h
    · next hd => rw [hd, of_read_exactly h, List.cons_append]
    · cases h

theorem read_run (p : Char → Bool) (s : List Char) :
    (run p).read s = some (s.takeWhile p, s.dropWhile p) := rfl

theorem read_run1_cons (p : Char → Bool) (c : Char) (s : List Char) :
    (run1 p).read (c :: s) = if p c then some (c :: s.takeWhile p, s.dropWhile p) else none := by
  unfold run1
  rw [read_andThen, read_one_cons]
  split <;> rfl

theorem of_read_run1 {p : Char → Bool} {s a t : List Char} (h : (run1 p).read s = some (a, t)) :
    s = a ++ t ∧ ∀ c ∈ a, p c = true := by
  cases s with
  | nil => cases h
  | cons c s =>
    rw [read_run1_cons] at h
    split at h
    · next hc =>
      cases h
      refine ⟨by simp, fun d hd => ?_⟩
      rcases List.mem_cons.mp hd with rfl | hd
      · exact hc
      · exact List.all_eq_true.mp List.all_takeWhile d hd
    · cases h

/-- The text does not begin with a character of the given property. -/
def Stops (p : Char → Bool) (s : List Char) : Prop := ∀ c ∈ s.head?, p c = false

@[simp] theorem stops_nil (p : Char → Bool) : Stops p [] := by simp [Stops]

@[simp] theorem stops_cons {p : Char → Bool} {c : Char} {s : List Char} :
    Stops p (c :: s) ↔ p c = false := by
  simp [Stops]

theorem Stops.takeWhile_eq {p : Char → Bool} {s : List Char} (h : Stops p s) :
    s.takeWhile p = [] := by
  cases s with
  | nil => rfl
  | cons c s => rw [List.takeWhile_cons_of_neg (by simpa using h)]

theorem Stops.dropWhile_eq {p : Char → Bool} {s : List Char} (h : Stops p s) :
    s.dropWhile p = s := by
  cases s with
  | nil => rfl
  | cons c s => rw [List.dropWhile_cons_of_neg (by simpa using h)]

theorem read_one_eq_none {p : Char → Bool} {s : List Char} (h : Stops p s) :
    (one p).read s = none := by
  cases s with
  | nil => rfl
  | cons c s => rw [read_one_cons, if_neg (by simpa using h)]

theorem read_run1_eq_none {p : Char → Bool} {s : List Char} (h : Stops p s) :
    (run1 p).read s = none := by
  unfold run1
  rw [read_andThen, read_one_eq_none h]
  rfl

theorem stops_dropWhile (p : Char → Bool) (s : List Char) : Stops p (s.dropWhile p) := by
  induction s with
  | nil => exact stops_nil p
  | cons c s ih =>
    by_cases hc : p c = true
    · rwa [List.dropWhile_cons_of_pos hc]
    · rw [List.dropWhile_cons_of_neg hc]
      exact stops_cons.mpr (Bool.not_eq_true _ ▸ hc)

theorem Stops.dropWhile_append {p : Char → Bool} {t : List Char} (ht : Stops p t) :
    ∀ s : List Char, (s ++ t).dropWhile p = s.dropWhile p ++ t
  | [] => ht.dropWhile_eq
  | c :: s => by
    by_cases hc : p c = true
    · rw [List.cons_append, List.dropWhile_cons_of_pos hc, List.dropWhile_cons_of_pos hc,
        ht.dropWhile_append s]
    · rw [List.cons_append, List.dropWhile_cons_of_neg hc, List.dropWhile_cons_of_neg hc,
        List.cons_append]

theorem read_run_append {p : Char → Bool} {w s : List Char} (hw : ∀ c ∈ w, p c = true)
    (hs : Stops p s) : (run p).read (w ++ s) = some (w, s) := by
  rw [read_run, List.takeWhile_append_of_pos hw, List.dropWhile_append_of_pos hw, hs.takeWhile_eq,
    hs.dropWhile_eq, List.append_nil]

/-! ### Repetitions -/

theorem read_manyUpTo_of_none {r : Rule α} {s : List Char} (h : r.read s = none) :
    ∀ bound, (manyUpTo r bound).read s = some ([], s)
  | [] => rfl
  | c :: bound => by
    unfold read at h ⊢
    unfold manyUpTo
    rcases hr : r s with ⟨_ | ⟨a, t⟩, taken, far⟩
    · rfl
    · simp [hr] at h

theorem read_manyUpTo_of_some {r : Rule α} {s t : List Char} {a : α}
    (h : r.read s = some (a, t)) (c : Char) (bound : List Char) :
    (manyUpTo r (c :: bound)).read s =
      ((manyUpTo r bound).read t).map fun p => (a :: p.1, p.2) := by
  unfold read at h
  rcases hr : r s with ⟨_ | ⟨a', t'⟩, taken, far⟩
  · simp [hr] at h
  · rw [hr] at h
    cases h
    dsimp only [manyUpTo, read]
    rw [hr]

/-- The rule reads the values one after another, each from a character at least, and does not apply
to the rest. -/
inductive Repeats (r : Rule α) : List Char → List α → List Char → Prop
  | stop {s : List Char} (h : r.read s = none) : Repeats r s [] s
  | step {s t u : List Char} {a : α} {as : List α} (h : r.read s = some (a, t))
      (hl : t.length < s.length) (hr : Repeats r t as u) : Repeats r s (a :: as) u

theorem Repeats.length_le {r : Rule α} {s t : List Char} {as : List α} (h : Repeats r s as t) :
    as.length ≤ s.length := by
  induction h with
  | stop => exact Nat.zero_le _
  | step _ hl _ ih =>
    rw [List.length_cons]
    omega

theorem Repeats.read_manyUpTo {r : Rule α} {s t : List Char} {as : List α} (h : Repeats r s as t)
    {bound : List Char} (hb : as.length ≤ bound.length) :
    (manyUpTo r bound).read s = some (as, t) := by
  induction h generalizing bound with
  | stop h => exact read_manyUpTo_of_none h bound
  | step h _ _ ih =>
    cases bound with
    | nil => simp at hb
    | cons c bound =>
      rw [read_manyUpTo_of_some h, ih (Nat.le_of_succ_le_succ hb)]
      rfl

theorem Repeats.read_many {r : Rule α} {s t : List Char} {as : List α} (h : Repeats r s as t) :
    (many r).read s = some (as, t) :=
  h.read_manyUpTo h.length_le

/-- What a repetition finds is what its rounds find, one after another. -/
theorem of_read_manyUpTo {r : Rule (List Char)} {P : List Char → Prop}
    (hr : ∀ {s a t}, r.read s = some (a, t) → s = a ++ t ∧ P a) :
    ∀ {bound s t : List Char} {as : List (List Char)}, (manyUpTo r bound).read s = some (as, t) →
      s = as.flatten ++ t ∧ ∀ a ∈ as, P a
  | [], s, t, as, h => by
    cases h
    exact ⟨rfl, by simp⟩
  | c :: bound, s, t, as, h => by
    cases hs : r.read s with
    | none =>
      rw [read_manyUpTo_of_none hs] at h
      cases h
      exact ⟨rfl, by simp⟩
    | some p =>
      obtain ⟨a, u⟩ := p
      rw [read_manyUpTo_of_some hs] at h
      obtain ⟨⟨as', t'⟩, hm, he⟩ := Option.map_eq_some_iff.mp h
      cases he
      obtain ⟨rfl, ha⟩ := hr hs
      obtain ⟨rfl, has⟩ := of_read_manyUpTo hr hm
      refine ⟨by simp, fun b hb => ?_⟩
      rcases List.mem_cons.mp hb with rfl | hb
      · exact ha
      · exact has b hb

/-- A rule that reads runs of characters, as `split` takes them from the front, reads one character
more where there is one more in front. -/
theorem Repeats.cons_run {r : Rule (List Char)} (split : List Char → List Char × List Char)
    {c : Char} (hc : ∀ s, r.read (c :: s) = some (c :: (split s).1, (split s).2))
    (hn : ∀ s, (split s).1 = [] → (split s).2 = s)
    (hs : ∀ s, (split s).1 ≠ [] → r.read s = some (split s))
    (hl : ∀ s, (split s).2.length ≤ s.length)
    {s t : List Char} {as : List (List Char)} (h : Repeats r s as t) :
    ∃ as', Repeats r (c :: s) as' t ∧ as'.flatten = c :: as.flatten := by
  have hlen : (split s).2.length < (c :: s).length := Nat.lt_succ_of_le (hl s)
  by_cases he : (split s).1 = []
  · -- the character is a run of its own
    have hcs := hc s
    rw [hn s he] at hcs hlen
    exact ⟨_, .step hcs hlen h, by rw [he]; rfl⟩
  · -- the character stands in front of a run
    cases h with
    | stop h => simp [hs s he] at h
    | step h _ hr =>
      have hcs := hc s
      rw [Option.some.inj ((hs s he).symm.trans h)] at hcs hlen
      exact ⟨_, .step hcs hlen hr, rfl⟩

theorem Repeats.cons_run1 {r : Rule (List Char)} {p : Char → Bool}
    (hr : ∀ c s, p c = true → r.read (c :: s) = some (c :: s.takeWhile p, s.dropWhile p))
    {c : Char} (hc : p c = true) {s t : List Char} {as : List (List Char)} (h : Repeats r s as t) :
    ∃ as', Repeats r (c :: s) as' t ∧ as'.flatten = c :: as.flatten := by
  have hn : ∀ s : List Char, s.takeWhile p = [] → s.dropWhile p = s := by
    intro s he
    have hs := List.takeWhile_append_dropWhile (p := p) (l := s)
    rwa [he, List.nil_append] at hs
  refine h.cons_run (fun s => (s.takeWhile p, s.dropWhile p)) (hr c · hc) hn
    (fun s he => ?_) fun s => (List.dropWhile_suffix p).length_le
  cases s with
  | nil => exact absurd rfl he
  | cons d s =>
    by_cases hd : p d = true
    · rw [hr d s hd, List.takeWhile_cons_of_pos hd, List.dropWhile_cons_of_pos hd]
    · exact absurd (List.takeWhile_cons_of_neg hd) he

theorem Repeats.read_many1 {r : Rule α} {s t : List Char} {a : α} {as : List α}
    (h : Repeats r s (a :: as) t) : (many1 r).read s = some (a :: as, t) := by
  cases h with
  | step h _ hr => rw [many1, read_andThen, h, Option.bind_some, read_map, hr.read_many]; rfl

/-! ### Nesting and whole texts -/

theorem read_nested (step : Rule α → Rule α) (s : List Char) :
    (nested step).read s = (nestedUpTo step s).read s := rfl

theorem exists_nestedUpTo (step : Rule α → Rule α) (bound : List Char) :
    ∃ inner, nestedUpTo step bound = step inner := by
  cases bound <;> exact ⟨_, rfl⟩

theorem whole_eq_ok {r : Rule α} {s : List Char} {a : α} (h : r.read s = some (a, [])) :
    r.whole s = .ok a := by
  have hr : (r.andThen fun a => atEnd.map fun _ => a).read s = some (a, []) := by
    rw [read_andThen, h]
    rfl
  unfold read at hr
  unfold whole
  rcases hw : (r.andThen fun a => atEnd.map fun _ => a) s with ⟨_ | ⟨b, t⟩, taken, far⟩
  · simp [hw] at hr
  · rw [hw] at hr
    cases hr
    rfl

theorem read_of_whole {r : Rule α} {s : List Char} {a : α} (h : r.whole s = .ok a) :
    r.read s = some (a, []) := by
  have hr : ∃ t, (r.andThen fun a => atEnd.map fun _ => a).read s = some (a, t) := by
    unfold whole at h
    unfold read
    rcases hw : (r.andThen fun a => atEnd.map fun _ => a) s with ⟨_ | ⟨b, t⟩, taken, far⟩
    · simp [hw] at h
    · rw [hw] at h
      cases h
      exact ⟨t, rfl⟩
  obtain ⟨t, hr⟩ := hr
  rw [read_andThen] at hr
  obtain ⟨⟨b, u⟩, hb, he⟩ := Option.bind_eq_some_iff.mp hr
  cases u with
  | nil =>
    cases he
    exact hb
  | cons c u => cases he

theorem parse_eq_ok_iff {r : Rule α} {source : String} {a : α} :
    r.parse source = .ok a ↔ r.read source.toList = some (a, []) := by
  have hwhole : r.parse source = .ok a ↔ r.whole source.toList = .ok a := by
    unfold Rule.parse
    split
    · next b hb => simp [hb]
    · next n hn => simp [hn]
  rw [hwhole]
  exact ⟨read_of_whole, whole_eq_ok⟩

end Rule

end BuildPlan.Grammar
