import BuildPlan.Proofs.Grammar.Lexemes

/-! # What rules take

What a rule takes stands at the front of the text, and a property that ties it to the value found
goes over from the parts of a rule to the whole (`Consumes`). So a rule takes some number of
characters at least (`Takes`), and a repetition of a rule that takes one comes to its end on every
text (`Takes.exists_repeats`). -/

namespace BuildPlan.Grammar

open BuildPlan.Text BuildPlan.Grammar.Rule

variable {α β : Type} {P : α → List Char → Prop} {Q : β → List Char → Prop}

/-- What the rule takes stands at the front of the text, and it has the property together with the
value found. -/
def Consumes (r : Rule α) (P : α → List Char → Prop) : Prop :=
  ∀ s a t, r.read s = some (a, t) → ∃ u, s = u ++ t ∧ P a u

/-! ### The constructions -/

theorem Consumes.imp {P' : α → List Char → Prop} {r : Rule α} (hr : Consumes r P)
    (h : ∀ a u, P a u → P' a u) : Consumes r P' := by
  intro s a t hs
  obtain ⟨u, rfl, ha⟩ := hr s a t hs
  exact ⟨u, rfl, h a u ha⟩

theorem consumes_pure {a : α} (h : P a []) : Consumes (pure a) P := by
  intro s b t hb
  cases hb
  exact ⟨[], rfl, h⟩

theorem Consumes.bind {r : Rule α} {f : α → Rule β} (hr : Consumes r P)
    (hf : ∀ a u, P a u → Consumes (f a) fun b v => Q b (u ++ v)) : Consumes (r >>= f) Q := by
  intro s b t h
  obtain ⟨a, s', ha, hb⟩ := of_read_bind h
  obtain ⟨u, rfl, hu⟩ := hr s a s' ha
  obtain ⟨v, rfl, hv⟩ := hf a u hu s' b t hb
  exact ⟨u ++ v, (List.append_assoc u v t).symm, hv⟩

theorem Consumes.map {r : Rule α} {f : α → β} (hr : Consumes r P) (hf : ∀ a u, P a u → Q (f a) u) :
    Consumes (r.map f) Q := by
  intro s b t h
  rw [read_map] at h
  obtain ⟨⟨a, s'⟩, ha, he⟩ := Option.map_eq_some_iff.mp h
  cases he
  obtain ⟨u, rfl, hu⟩ := hr s a s' ha
  exact ⟨u, rfl, hf a u hu⟩

theorem Consumes.firstOf : ∀ {rs : List (Rule α)}, (∀ r ∈ rs, Consumes r P) →
    Consumes (firstOf rs) P
  | [], _ => fun s a t h => by cases h
  | r :: rs, hr => fun s a t h => by
    rw [read_firstOf_cons] at h
    rcases Option.or_eq_some_iff.mp h with h | ⟨-, h⟩
    · exact hr r List.mem_cons_self s a t h
    · exact Consumes.firstOf (fun q hq => hr q (List.mem_cons_of_mem _ hq)) s a t h

theorem Consumes.select {r : Rule α} {f : α → Option β} (hr : Consumes r P)
    (hf : ∀ a b u, f a = some b → P a u → Q b u) : Consumes (r.select f) Q := by
  intro s b t h
  rw [read_select] at h
  obtain ⟨⟨a, s'⟩, ha, h⟩ := Option.bind_eq_some_iff.mp h
  obtain ⟨c, hc, he⟩ := Option.map_eq_some_iff.mp h
  cases he
  obtain ⟨u, rfl, hu⟩ := hr s a s' ha
  exact ⟨u, rfl, hf a b u hc hu⟩

theorem Consumes.keep {r : Rule α} (hr : Consumes r P) (p : α → Bool) : Consumes (r.keep p) P := by
  refine hr.select fun a b u h hu => ?_
  split at h
  · cases h
    exact hu
  · cases h

theorem consumes_absent {P : Unit → List Char → Prop} (r : Rule α) (h : P () []) :
    Consumes (absent r) P := by
  intro s a t hs
  rw [read_absent] at hs
  split at hs
  · cases hs
  · cases hs
    exact ⟨[], rfl, h⟩

/-- The texts of the rounds of a repetition, one after another. -/
inductive Rounds (P : α → List Char → Prop) : List α → List Char → Prop
  | nil : Rounds P [] []
  | cons {a : α} {as : List α} {u v : List Char} (ha : P a u) (has : Rounds P as v) :
      Rounds P (a :: as) (u ++ v)

theorem Consumes.manyUpTo {r : Rule α} (hr : Consumes r P) : ∀ bound : List Char,
    Consumes (manyUpTo r bound) (Rounds P)
  | [] => fun s as t h => by
    cases h
    exact ⟨[], rfl, Rounds.nil⟩
  | c :: bound => fun s as t h => by
    cases hs : r.read s with
    | none =>
      rw [read_manyUpTo_of_none hs] at h
      cases h
      exact ⟨[], rfl, Rounds.nil⟩
    | some p =>
      obtain ⟨a, s'⟩ := p
      rw [read_manyUpTo_of_some hs] at h
      obtain ⟨⟨as', t'⟩, hm, he⟩ := Option.map_eq_some_iff.mp h
      cases he
      obtain ⟨u, rfl, hu⟩ := hr s a s' hs
      obtain ⟨v, rfl, hv⟩ := Consumes.manyUpTo hr bound s' as' t' hm
      exact ⟨u ++ v, (List.append_assoc u v t').symm, Rounds.cons hu hv⟩

theorem Consumes.many {r : Rule α} (hr : Consumes r P) : Consumes (many r) (Rounds P) :=
  fun s as t h => hr.manyUpTo s s as t h

/-- A property that a step keeps holds of what the nested rule takes. -/
theorem Consumes.nested {step : Rule α → Rule α} (h : ∀ r, Consumes r P → Consumes (step r) P) :
    Consumes (nested step) P := by
  have hbound : ∀ bound : List Char, Consumes (nestedUpTo step bound) P := by
    intro bound
    induction bound with
    | nil => exact h _ fun s a t hr => by cases hr
    | cons c bound ih => exact h _ ih
  exact fun s a t hr => hbound s s a t hr

/-! ### Characters -/

theorem consumes_one (p : Char → Bool) : Consumes (one p) fun c u => u = [c] ∧ p c = true := by
  intro s c t h
  cases s with
  | nil => cases h
  | cons d s =>
    rw [read_one_cons] at h
    split at h
    · next hd =>
      cases h
      exact ⟨[c], rfl, rfl, hd⟩
    · cases h

theorem consumes_run (p : Char → Bool) :
    Consumes (run p) fun a u => u = a ∧ ∀ c ∈ a, p c = true := by
  intro s a t h
  cases h
  exact ⟨_, List.takeWhile_append_dropWhile.symm, rfl,
    List.all_eq_true.mp List.all_takeWhile⟩

theorem consumes_run1 (p : Char → Bool) :
    Consumes (run1 p) fun a u => u = a ∧ ∀ c ∈ a, p c = true := by
  intro s a t h
  obtain ⟨rfl, ha⟩ := of_read_run1 h
  exact ⟨a, rfl, rfl, ha⟩

theorem consumes_exactly (w : List Char) : Consumes (exactly w) fun _ u => u = w :=
  fun _ _ _ h => ⟨w, of_read_exactly h, rfl⟩

theorem consumes_symbol (c : Char) : Consumes (symbol c) fun _ u => u = [c] :=
  fun _ _ _ h => ⟨[c], of_read_symbol h, rfl⟩

theorem consumes_blanks : Consumes blanks fun _ u => isBlankText u = true := by
  refine (consumes_run isBlank).map fun a u h => ?_
  rw [h.1]
  exact List.all_eq_true.mpr h.2

/-! ### Numbers of characters -/

/-- The rule takes so many characters at least. -/
def Takes (n : Nat) (r : Rule α) : Prop := Consumes r fun _ u => n ≤ u.length

variable {m n : Nat}

theorem Takes.mono {r : Rule α} (hr : Takes n r) (h : m ≤ n) : Takes m r :=
  Consumes.imp hr fun _ _ hu => Nat.le_trans h hu

theorem Takes.length_le {r : Rule α} (hr : Takes n r) {s t : List Char} {a : α}
    (h : r.read s = some (a, t)) : t.length + n ≤ s.length := by
  obtain ⟨u, rfl, hu⟩ := hr s a t h
  rw [List.length_append]
  omega

theorem takes_pure (a : α) : Takes 0 (pure a) := consumes_pure (Nat.zero_le _)

theorem Takes.bind {r : Rule α} {f : α → Rule β} (hr : Takes m r) (hf : ∀ a, Takes n (f a)) :
    Takes (m + n) (r >>= f) := by
  refine Consumes.bind hr fun a u hu => (hf a).imp fun b v hv => ?_
  rw [List.length_append]
  omega

/-- What comes behind takes nothing back. -/
theorem Takes.before {r : Rule α} {f : α → Rule β} (hr : Takes n r) (hf : ∀ a, Takes 0 (f a)) :
    Takes n (r >>= f) := hr.bind hf

/-- What comes in front takes nothing back. -/
theorem Takes.behind {r : Rule α} {f : α → Rule β} (hr : Takes 0 r) (hf : ∀ a, Takes n (f a)) :
    Takes n (r >>= f) := (hr.bind hf).mono (by omega)

theorem Takes.map {r : Rule α} (hr : Takes n r) (f : α → β) : Takes n (r.map f) :=
  Consumes.map hr fun _ _ hu => hu

theorem Takes.optional {r : Rule α} (hr : Takes 0 r) : Takes 0 (optional r) := by
  intro s o t h
  rw [read_optional] at h
  rcases Option.or_eq_some_iff.mp h with h | ⟨-, h⟩
  · obtain ⟨⟨a, s'⟩, ha, he⟩ := Option.map_eq_some_iff.mp h
    cases he
    exact hr s a s' ha
  · cases h
    exact ⟨[], rfl, Nat.zero_le _⟩

theorem takes_firstOf_nil : Takes n (firstOf ([] : List (Rule α))) := fun _ _ _ h => by cases h

theorem Takes.firstOf_cons {r : Rule α} {rs : List (Rule α)} (hr : Takes n r)
    (hrs : Takes n (Rule.firstOf rs)) : Takes n (Rule.firstOf (r :: rs)) := by
  intro s a t h
  rw [read_firstOf_cons] at h
  rcases Option.or_eq_some_iff.mp h with h | ⟨-, h⟩
  · exact hr s a t h
  · exact hrs s a t h

theorem Takes.select {r : Rule α} (hr : Takes n r) (f : α → Option β) : Takes n (r.select f) :=
  Consumes.select hr fun _ _ _ _ hu => hu

theorem Takes.keep {r : Rule α} (hr : Takes n r) (p : α → Bool) : Takes n (r.keep p) := hr.select _

theorem takes_absent (r : Rule α) : Takes 0 (absent r) := consumes_absent r (Nat.zero_le _)

theorem takes_refuse : Takes n (refuse : Rule α) := fun _ _ _ h => by cases h

theorem Takes.many {r : Rule α} (hr : Takes 0 r) : Takes 0 (many r) :=
  Consumes.imp (Consumes.many hr) fun _ _ _ => Nat.zero_le _

theorem Takes.many1 {r : Rule α} (hr : Takes n r) : Takes n (many1 r) :=
  hr.before fun _ => ((hr.mono (Nat.zero_le n)).many).map _

theorem takes_one (p : Char → Bool) : Takes 1 (one p) :=
  (consumes_one p).imp fun _ _ h => by rw [h.1]; exact Nat.le_refl 1

theorem takes_run (p : Char → Bool) : Takes 0 (run p) :=
  (consumes_run p).imp fun _ _ _ => Nat.zero_le _

theorem takes_run1 (p : Char → Bool) : Takes 1 (run1 p) :=
  (takes_one p).before fun _ => (takes_run p).map _

theorem takes_exactly (w : List Char) : Takes w.length (exactly w) :=
  (consumes_exactly w).imp fun _ _ h => Nat.le_of_eq (by rw [h])

theorem takes_symbol (c : Char) : Takes 1 (symbol c) := (takes_one _).map _

theorem takes_blanks : Takes 0 blanks := (takes_run isBlank).map _

theorem takes_trivia : Takes 0 trivia := by
  intro s a t h
  rw [read_trivia] at h
  cases h
  obtain ⟨u, hu⟩ := skipTrivia_suffix s
  exact ⟨u, hu.symm, Nat.zero_le _⟩

theorem takes_spaces : Takes 0 spaces := (takes_run _).map _

theorem Takes.padded {r : Rule α} (hr : Takes n r) : Takes n (padded r) :=
  hr.before fun _ => takes_trivia.before fun _ => takes_pure _

theorem takes_word : Takes 1 word :=
  (takes_one _).before fun _ => (takes_run _).before fun _ => takes_pure _

theorem takes_keyword (w : String) : Takes 1 (keyword w) := (takes_word.keep _).map _

theorem takes_comment : Takes 1 comment :=
  ((takes_exactly ['/', '/']).mono (by decide)).before fun _ => (takes_run _).before fun _ =>
    takes_pure _

theorem takes_reference : Takes 1 reference :=
  ((takes_symbol '\\').mono (Nat.zero_le 1)).optional.behind fun _ =>
    ((takes_exactly ['$', '(']).mono (by decide)).before fun _ => (takes_run _).before fun _ =>
      ((takes_symbol ')').mono (Nat.zero_le 1)).before fun _ => takes_pure _

theorem takes_quotedPart : Takes 1 quotedPart :=
  (((takes_exactly ['\\', '"']).mono (by decide)).map _).firstOf_cons <|
    (takes_run1 _).firstOf_cons <| ((takes_one _).map _).firstOf_cons takes_firstOf_nil

theorem takes_quoted : Takes 1 quoted :=
  (takes_symbol '"').before fun _ => (takes_quotedPart.mono (Nat.zero_le 1)).many.before fun _ =>
    ((takes_symbol '"').mono (Nat.zero_le 1)).before fun _ => takes_pure _

/-- A repetition of a rule that takes a character comes to its end. -/
theorem Takes.exists_repeats {r : Rule α} (hr : Takes 1 r) (s : List Char) :
    ∃ as t, Repeats r s as t := by
  cases h : r.read s with
  | none => exact ⟨[], s, .stop h⟩
  | some p =>
    obtain ⟨a, t⟩ := p
    have hlt : t.length < s.length := hr.length_le h
    obtain ⟨as, u, hu⟩ := hr.exists_repeats t
    exact ⟨a :: as, u, .step h hlt hu⟩
termination_by s.length

theorem read_many_of_none {r : Rule α} {s : List Char} (h : r.read s = none) :
    (many r).read s = some ([], s) :=
  (Repeats.stop h).read_many

theorem Takes.read_many_of_some {r : Rule α} (hr : Takes 1 r) {s t : List Char} {a : α}
    (h : r.read s = some (a, t)) :
    (Rule.many r).read s = ((Rule.many r).read t).map fun p => (a :: p.1, p.2) := by
  obtain ⟨as, u, hu⟩ := hr.exists_repeats t
  rw [(Repeats.step h (hr.length_le h) hu).read_many, hu.read_many]
  rfl

/-- The rounds of a repetition are the ones that it reads. -/
theorem Takes.repeats_of_read {r : Rule α} (hr : Takes 1 r) {s t : List Char} {as : List α}
    (h : (Rule.many r).read s = some (as, t)) : Repeats r s as t := by
  obtain ⟨bs, u, hu⟩ := hr.exists_repeats s
  rw [hu.read_many] at h
  cases h
  exact hu

/-! ### Groups -/

theorem Balanced.append {s t : List Char} (hs : Balanced s) (ht : Balanced t) :
    Balanced (s ++ t) := by
  induction hs with
  | nil => exact ht
  | char hc _ ih => exact .char hc ih
  | @group u v hu _ _ ihv =>
    have happend : '(' :: u ++ ')' :: v ++ t = '(' :: u ++ ')' :: (v ++ t) := by simp
    rw [happend]
    exact .group hu ihv

theorem balanced_of_forall : ∀ {s : List Char}, (∀ c ∈ s, isOutside c = true) → Balanced s
  | [], _ => .nil
  | c :: s, h => by
    rw [List.forall_mem_cons] at h
    exact .char (by simpa [isOutside] using h.1) (balanced_of_forall h.2)

theorem balanced_of_rounds {parts : List (List Char)} {u : List Char}
    (h : Rounds (fun a v => v = a ∧ Balanced a) parts u) : u = parts.flatten ∧ Balanced u := by
  induction h with
  | nil => exact ⟨rfl, .nil⟩
  | cons ha _ ih =>
    obtain ⟨rfl, ha⟩ := ha
    exact ⟨by rw [ih.1, List.flatten_cons], ha.append ih.2⟩

theorem consumes_group :
    Consumes (group '(' ')') fun g u => u = g ∧ ∃ w, Balanced w ∧ g = '(' :: w ++ [')'] := by
  refine Consumes.nested fun inner hi => ?_
  have hpart : Consumes (groupPart inner) fun a u => u = a ∧ Balanced a := by
    refine Consumes.firstOf fun r hr => ?_
    rw [List.mem_cons, List.mem_singleton] at hr
    rcases hr with rfl | rfl
    · exact (consumes_run1 isOutside).imp fun _ _ h => ⟨h.1, balanced_of_forall h.2⟩
    · refine hi.imp fun a u h => ⟨h.1, ?_⟩
      obtain ⟨w, hw, rfl⟩ := h.2
      exact .group hw .nil
  refine (consumes_symbol '(').bind fun _ u hu => hpart.many.bind fun parts v hv =>
    (consumes_symbol ')').bind fun _ w hw => consumes_pure ?_
  obtain ⟨rfl, hbalanced⟩ := balanced_of_rounds hv
  rw [hu, hw]
  exact ⟨by simp, _, hbalanced, rfl⟩

/-- A text in parentheses is balanced up to its own closing parenthesis. -/
theorem consumes_parenthesized :
    Consumes parenthesized fun w u => Balanced w ∧ u = '(' :: w ++ [')'] := by
  refine consumes_group.map fun g u h => ?_
  obtain ⟨rfl, w, hw, rfl⟩ := h
  have htail : ('(' :: w ++ [')']).tail.dropLast = w := by simp
  rw [htail]
  exact ⟨hw, rfl⟩

theorem takes_parenthesized : Takes 1 parenthesized := by
  refine consumes_parenthesized.imp fun w u h => ?_
  rw [h.2, List.cons_append, List.length_cons]
  omega

theorem takes_conditional : Takes 1 conditional :=
  (takes_keyword "if").before fun _ => takes_trivia.before fun _ =>
    (takes_parenthesized.mono (Nat.zero_le 1)).before fun _ => takes_pure _

/-! ### Nesting -/

/-- What a nested rule finds at one place more inside, if the given text bounds the nesting. -/
def innerUpTo (step : Rule α → Rule α) : List Char → Rule α
  | [] => refuse
  | _ :: bound => nestedUpTo step bound

/-- Two nested rules are related if one step of them is, where the bounds are long enough. -/
theorem related_nestedUpTo {step : Rule α → Rule α} {R : Nat → Rule α → Rule α → Prop}
    (hzero : ∀ r r', R 0 r r')
    (hstep : ∀ n bound bound', R n (innerUpTo step bound) (innerUpTo step bound') →
      R (n + 1) (nestedUpTo step bound) (nestedUpTo step bound')) :
    ∀ n bound bound', n ≤ bound.length + 1 → n ≤ bound'.length + 1 →
      R n (nestedUpTo step bound) (nestedUpTo step bound')
  | 0, _, _, _, _ => hzero _ _
  | n + 1, bound, bound', hb, hb' => by
    refine hstep n bound bound' ?_
    match bound, bound', n with
    | _, _, 0 => exact hzero _ _
    | _ :: bound, _ :: bound', n + 1 =>
      exact related_nestedUpTo hzero hstep (n + 1) bound bound' (by simpa using hb)
        (by simpa using hb')
    | [], _, n + 1 => simp at hb
    | _ :: _, [], n + 1 => simp at hb'

theorem Takes.nestedUpTo {step : Rule α → Rule α} (h : ∀ r, Takes n r → Takes n (step r)) :
    ∀ bound : List Char, Takes n (nestedUpTo step bound)
  | [] => h _ takes_refuse
  | _ :: bound => h _ (Takes.nestedUpTo h bound)

theorem Takes.innerUpTo {step : Rule α → Rule α} (h : ∀ r, Takes n r → Takes n (step r))
    (bound : List Char) : Takes n (innerUpTo step bound) := by
  cases bound with
  | nil => exact takes_refuse
  | cons c bound => exact Takes.nestedUpTo h bound

theorem nestedUpTo_eq (step : Rule α → Rule α) (bound : List Char) :
    nestedUpTo step bound = step (innerUpTo step bound) := by
  cases bound <;> rfl

end BuildPlan.Grammar
