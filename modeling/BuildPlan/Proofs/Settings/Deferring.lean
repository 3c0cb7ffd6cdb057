import BuildPlan.Proofs.Collection.Rewriting
import BuildPlan.Proofs.Variable.Stages
import BuildPlan.Settings.Basic

/-! # Values that are expanded twice

A deferring expansion gives every text of a value what its references stand for, if they are bound, and
fails only if a reference has no end. Where a text settles, a second expansion reads what the first one
meant, and then it does not matter whether the text was expanded before
(`PropertyValue.deferred_deferred`). -/

namespace BuildPlan

namespace Bindings

@[simp] theorem orElse_self (b : Bindings) : b.orElse b = b := by
  unfold orElse
  congr 1
  funext n
  exact Option.or_self

/-- A name that is bound only later does not get in the way of the others. -/
theorem orElse_bind {b : Bindings} {name : String} (h : b.get? name = none) (value : String) :
    b.orElse (b.bind name value) = b.bind name value := by
  unfold orElse
  congr 1
  funext n
  rw [get?_bind]
  split
  · next hn => rw [hn, h, Option.none_or]
  · exact Option.or_self

end Bindings

namespace Fallible

variable {α β : Type} {f : α → Fallible β} {P : α → Prop} {g : α → β}

/-- A list is gone through if the step succeeds on every item. -/
theorem mapM_ok_forall₂ : ∀ {as : List α} {bs : List β},
    as.mapM f = .ok bs ↔ List.Forall₂ (fun a b => f a = .ok b) as bs
  | [], bs => by
    rw [List.mapM_nil, List.forall₂_nil_left_iff]
    exact ⟨fun h => (Except.ok.inj h).symm, fun h => congrArg Except.ok h.symm⟩
  | a :: as, bs => by
    rw [List.mapM_cons, bind_ok, List.forall₂_cons_left_iff]
    constructor
    · rintro ⟨b, hb, h⟩
      obtain ⟨cs, hcs, h⟩ := bind_ok.mp h
      cases h
      exact ⟨b, cs, hb, mapM_ok_forall₂.mp hcs, rfl⟩
    · rintro ⟨b, cs, hb, hcs, rfl⟩
      exact ⟨b, hb, bind_ok.mpr ⟨cs, mapM_ok_forall₂.mpr hcs, rfl⟩⟩

theorem mapM_ok_of_forall {as : List α} (h : ∀ a ∈ as, f a = .ok (g a)) :
    as.mapM f = .ok (as.map g) :=
  mapM_ok_forall₂.mpr (List.forall₂_map_right_iff.mpr (List.forall₂_same.mpr h))

/-- What comes out is what the step gives for the items. -/
theorem mem_mapM {as : List α} {bs : List β} (h : as.mapM f = .ok bs) {b : β} :
    b ∈ bs ↔ ∃ a ∈ as, f a = .ok b := by
  induction mapM_ok_forall₂.mp h with
  | nil => simp
  | @cons a b' as bs hf htail ih =>
    have hb : b = b' ↔ f a = .ok b := by rw [hf, Except.ok.injEq, eq_comm]
    rw [List.mem_cons, ih (mapM_ok_forall₂.mpr htail), hb]
    simp only [List.mem_cons, exists_eq_or_imp]

theorem exists_of_mapM_ok {as : List α} {bs : List β} (h : as.mapM f = .ok bs) {a : α}
    (ha : a ∈ as) : ∃ b, f a = .ok b := by
  induction mapM_ok_forall₂.mp h with
  | nil => cases ha
  | cons hf htail ih =>
    rcases List.mem_cons.mp ha with rfl | ha
    · exact ⟨_, hf⟩
    · exact ih (mapM_ok_forall₂.mpr htail) ha

theorem exists_mapM_ok : ∀ {as : List α}, (∀ a ∈ as, ∃ b, f a = .ok b) → ∃ bs, as.mapM f = .ok bs
  | [], _ => ⟨[], rfl⟩
  | a :: as, h => by
    obtain ⟨⟨b, hb⟩, has⟩ := List.forall_mem_cons.mp h
    obtain ⟨bs, hbs⟩ := exists_mapM_ok has
    exact ⟨b :: bs, by rw [List.mapM_cons]; exact bind_ok.mpr ⟨b, hb, bind_ok.mpr ⟨bs, hbs, rfl⟩⟩⟩

/-- If it succeeds where it should, it gives what it should. -/
theorem mapM_ok_iff (hf : ∀ a b, f a = .ok b ↔ P a ∧ b = g a) {as : List α} {bs : List β} :
    as.mapM f = .ok bs ↔ (∀ a ∈ as, P a) ∧ bs = as.map g := by
  have hf' : ∀ a b, f a = .ok b ↔ P a ∧ g a = b := fun a b => by rw [hf, eq_comm (a := b)]
  simp only [mapM_ok_forall₂, hf']
  rw [List.forall₂_and_left, eq_comm (a := bs), ← List.forall₂_eq_eq_eq, List.forall₂_map_left_iff]

end Fallible

/-! ### Texts -/

namespace Variable

variable {b c : Bindings} {text u : String}

/-- All references in the text have an end. -/
def Closed (text : String) : Prop := .unclosed ∉ read text.toList

/-- What a deferring expansion makes of a text. -/
def deferred (b : Bindings) (text : String) : String :=
  String.ofList (write ((read text.toList).flatMap (substitute b)))

/-- What a deferring expansion makes of the text is read back by the next one. -/
def Settles (b : Bindings) (text : String) : Prop :=
  isSettled false ((read text.toList).flatMap (substitute b)) = true

instance (b : Bindings) (text : String) : Decidable (Settles b text) :=
  inferInstanceAs (Decidable (_ = true))

theorem expand_deferring_ok : expand b .deferring text = .ok u ↔ Closed text ∧ u = deferred b text := by
  by_cases h : .unclosed ∈ read text.toList
  · have he : expand b .deferring text = (Cause.unterminatedVariable text).raise := if_pos h
    rw [he]
    exact ⟨nofun, fun h' => absurd h h'.1⟩
  · have he : expand b .deferring text = .ok (deferred b text) := if_neg h
    rw [he, Except.ok.injEq, eq_comm]
    exact (and_iff_right h).symm

theorem isSettled_of_unclosed {ss : List Symbol} (h : .unclosed ∈ ss) (opened : Bool) :
    isSettled opened ss = false := by
  fun_induction isSettled opened ss <;> simp_all

theorem Settles.closed (h : Settles b text) : Closed text := by
  intro hu
  have hm : Symbol.unclosed ∈ (read text.toList).flatMap (substitute b) :=
    List.mem_flatMap.mpr ⟨.unclosed, hu, List.mem_singleton.mpr rfl⟩
  rw [Settles, isSettled_of_unclosed hm] at h
  cases h

theorem read_deferred (h : Settles b text) :
    read (deferred b text).toList = (read text.toList).flatMap (substitute b) := by
  rw [deferred, String.toList_ofList]
  exact read_write h ((readable_read h.closed).flatMap_substitute b)

theorem flatMap_substitute_plain (c : Bindings) (s : String) :
    (plain s).flatMap (substitute c) = plain s := by
  unfold plain
  induction s.toList with
  | nil => rfl
  | cons x xs ih =>
    rw [List.map_cons, List.flatMap_cons, ih]
    rfl

/-- What is substituted is not substituted again. -/
theorem flatMap_substitute_substitute (b c : Bindings) (ss : List Symbol) :
    (ss.flatMap (substitute b)).flatMap (substitute c) = ss.flatMap (substitute (b.orElse c)) := by
  rw [List.flatMap_assoc]
  refine List.flatMap_congr fun s _ => ?_
  cases s with
  | char x => rfl
  | unclosed => rfl
  | reference name =>
    have hor : (b.orElse c).get? (String.ofList name) =
        (b.get? (String.ofList name)).or (c.get? (String.ofList name)) := rfl
    rw [substitute, substitute, hor]
    cases b.get? (String.ofList name) with
    | some v => exact flatMap_substitute_plain c v
    | none => exact List.flatMap_singleton _ _

theorem deferred_deferred (h : Settles b text) (c : Bindings) :
    deferred c (deferred b text) = deferred (b.orElse c) text := by
  rw [deferred, read_deferred h, flatMap_substitute_substitute]
  rfl

theorem expand_complete_deferred (h : Settles b text) :
    expand c .complete (deferred b text) = .ok u ↔ expand (b.orElse c) .complete text = .ok u := by
  rw [expand_complete_ok, expand_complete_ok, read_deferred h, evaluate?_flatMap_substitute]

/-- If every reference has a value, nothing is deferred. -/
theorem flatMap_substitute_of_evaluate? : ∀ {ss : List Symbol} {s : List Char},
    evaluate? b ss = some s → ss.flatMap (substitute b) = s.map .char
  | [], _, h => by
    cases h
    rfl
  | x :: ss, s, h => by
    obtain ⟨v, r, hv, hr, rfl⟩ := evaluate?_cons_eq_some.mp h
    rw [List.flatMap_cons, flatMap_substitute_of_evaluate? hr, List.map_append]
    congr 1
    cases x with
    | char c =>
      cases hv
      rfl
    | unclosed => cases hv
    | reference name =>
      obtain ⟨value, hvalue, rfl⟩ := Option.map_eq_some_iff.mp hv
      rw [substitute, hvalue]
      rfl

/-- The text whose expansion is the given one, whatever is bound. -/
def verbatim (u : String) : String := String.ofList (write (plain u))

theorem deferred_of_expand_complete (h : expand b .complete text = .ok u) :
    deferred b text = verbatim u := by
  rw [deferred, flatMap_substitute_of_evaluate? (expand_complete_ok.mp h)]
  rfl

end Variable

open Variable

/-! ### Items and values -/

namespace Item

/-- The text of an item of any kind, which is what is expanded of it. -/
def source : Item → String
  | .text t => t
  | .xml t => t
  | .pattern p => p.text

/-- What a deferring expansion makes of an item. -/
def deferred (b : Bindings) : Item → Item
  | .text t => .text (Variable.deferred b t)
  | .xml t => .xml (Variable.deferred b t)
  | .pattern p => .pattern { p with text := Variable.deferred b p.text }

theorem expand_deferring_ok {b : Bindings} (i j : Item) :
    i.expand b .deferring = .ok j ↔ Closed i.source ∧ j = i.deferred b := by
  have hstep : ∀ (f : String → Item) (t : String), (do return f (← Variable.expand b .deferring t)) =
      (Except.ok j : Fallible Item) ↔ Closed t ∧ j = f (Variable.deferred b t) := by
    intro f t
    refine Fallible.bind_ok.trans ⟨?_, ?_⟩
    · rintro ⟨u, hu, h⟩
      cases h
      obtain ⟨hc, rfl⟩ := Variable.expand_deferring_ok.mp hu
      exact ⟨hc, rfl⟩
    · rintro ⟨hc, rfl⟩
      exact ⟨_, Variable.expand_deferring_ok.mpr ⟨hc, rfl⟩, rfl⟩
  cases i with
  | text t => exact hstep .text t
  | xml t => exact hstep .xml t
  | pattern p => exact hstep (fun t => .pattern { p with text := t }) p.text

theorem deferred_deferred {b c : Bindings} {i : Item} (h : Settles b i.source) :
    (i.deferred b).deferred c = i.deferred (b.orElse c) := by
  cases i with
  | text t => exact congrArg Item.text (Variable.deferred_deferred h c)
  | xml t => exact congrArg Item.xml (Variable.deferred_deferred h c)
  | pattern p =>
    exact congrArg (fun t => Item.pattern { p with text := t }) (Variable.deferred_deferred h c)

end Item

namespace PropertyValue

/-- The keys of a dictionary. -/
def keys : PropertyValue → List String
  | .dictionary entries => entries.keys
  | _ => []

/-- The keys and the texts of a value, which are what is expanded of it. -/
def sources (v : PropertyValue) : List String := v.keys ++ v.items.map Item.source

/-- What a deferring expansion makes of a value. -/
def deferred (b : Bindings) : PropertyValue → PropertyValue
  | .scalar item => .scalar (item.map (Item.deferred b))
  | .set items => .set (.ofList (items.items.map (Item.deferred b)))
  | .dictionary entries => .dictionary (entries.rekey (Variable.deferred b) (Item.deferred b))

/-- **A deferring expansion fails only at a reference without an end.** -/
theorem expand_deferring_ok {b : Bindings} (v w : PropertyValue) :
    v.expand b .deferring = .ok w ↔ (∀ t ∈ v.sources, Closed t) ∧ w = v.deferred b := by
  have hpure : ∀ {α : Type} {r : Fallible α} {f : α → PropertyValue} {P : Prop} {a : α},
      (∀ c, r = .ok c ↔ P ∧ c = a) → ((do return f (← r)) = Except.ok w ↔ P ∧ w = f a) := by
    intro α r f P a hr
    rw [Fallible.bind_ok]
    constructor
    · rintro ⟨c, hc, h⟩
      cases h
      obtain ⟨hP, rfl⟩ := (hr c).mp hc
      exact ⟨hP, rfl⟩
    · rintro ⟨hP, rfl⟩
      exact ⟨a, (hr a).mpr ⟨hP, rfl⟩, rfl⟩
  cases v with
  | scalar item =>
    cases item with
    | none => simp [expand, sources, keys, items, deferred, eq_comm]
    | some i =>
      refine (hpure fun j => Item.expand_deferring_ok i j).trans (and_congr_left fun _ => ?_)
      simp [sources, keys, items]
  | set s =>
    refine (hpure fun is => Fallible.mapM_ok_iff Item.expand_deferring_ok).trans
      (and_congr_left fun _ => ?_)
    simp only [sources, keys, items, List.nil_append, List.forall_mem_map]
  | dictionary d =>
    have hentry : ∀ e e' : String × Item, (do
        return (← Variable.expand b .deferring e.1, ← e.2.expand b .deferring)) =
          (Except.ok e' : Fallible (String × Item)) ↔
        (Closed e.1 ∧ Closed e.2.source) ∧
          e' = Prod.map (Variable.deferred b) (Item.deferred b) e := by
      intro e e'
      rw [Fallible.bind_ok]
      constructor
      · rintro ⟨k, hk, h⟩
        obtain ⟨i, hi, h⟩ := Fallible.bind_ok.mp h
        cases h
        obtain ⟨hck, rfl⟩ := Variable.expand_deferring_ok.mp hk
        obtain ⟨hci, rfl⟩ := (Item.expand_deferring_ok _ _).mp hi
        exact ⟨⟨hck, hci⟩, rfl⟩
      · rintro ⟨⟨hck, hci⟩, rfl⟩
        exact ⟨_, Variable.expand_deferring_ok.mpr ⟨hck, rfl⟩,
          Fallible.bind_ok.mpr ⟨_, (Item.expand_deferring_ok _ _).mpr ⟨hci, rfl⟩, rfl⟩⟩
    refine (hpure fun es => Fallible.mapM_ok_iff hentry).trans (and_congr_left fun _ => ?_)
    simp only [sources, keys, items, Dictionary.keys, Dictionary.values, List.map_map,
      List.forall_mem_append, List.forall_mem_map, Function.comp_apply, forall_and]

end PropertyValue

end BuildPlan
