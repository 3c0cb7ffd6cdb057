import BuildPlan.Solution
import Mathlib.Data.List.Forall2

/-! # Opening blocks

A block whose condition holds contributes its elements in its place. To open it is to write its
elements where it stands (`Opens`). The walk over the properties does not notice
(`Opens.walkAll_eq`). But objects and configuration groups are collected from the elements that stand
directly in a body, and not from blocks. So a block may be opened as long as it holds nothing that
would be collected where it comes to stand (`Place.LeavesOut`): then the same objects are collected,
with blocks opened in them (`Opens.objects`), and documents have the same bodies up to opened blocks
(`both_bodyOf`). -/

namespace BuildPlan

/-- Where elements stand, by what is collected from there. -/
inductive Place where
  /-- A document: configuration groups, and a solution object or templates and modules. -/
  | document
  /-- The body of a solution object: configuration groups, templates and modules. -/
  | solution
  /-- The body of a template or module: settings objects. -/
  | owner
  /-- A block, or the body of any other object: nothing. -/
  | inner
  deriving DecidableEq

namespace Place

/-- Where the body of an object stands. -/
def within : Place → Heading → Place
  | .document, heading => if heading.kind = Solution.solutionKind then .solution else .owner
  | .solution, _ => .owner
  | .owner, _ => .inner
  | .inner, _ => .inner

/-- Nothing among the elements would be collected if they stood there. -/
def LeavesOut : Place → List Element → Prop
  | .document, es => Element.objects es = [] ∧ Element.groups es = []
  | .solution, es => Element.objects es = [] ∧ Element.groups es = []
  | .owner, es => Element.objects es = []
  | .inner, _ => True

end Place

/-- The second elements are the first ones with some blocks opened, at any depth, whose conditions
have the given property. -/
inductive Opens (P : String → Prop) : Place → List Element → List Element → Prop
  | nil {p : Place} : Opens P p [] []
  | same {p : Place} (e : Element) {es es' : List Element} (h : Opens P p es es') :
      Opens P p (e :: es) (e :: es')
  | here {p : Place} {condition : String} {body es es' : List Element} (hc : P condition)
      (hb : p.LeavesOut body) (h : Opens P p (body ++ es) es') :
      Opens P p (.block condition body :: es) es'
  | block {p : Place} {condition : String} {body body' es es' : List Element}
      (hb : Opens P .inner body body') (h : Opens P p es es') :
      Opens P p (.block condition body :: es) (.block condition body' :: es')
  | object {p : Place} {heading : Heading} {body body' es es' : List Element}
      (hb : Opens P (p.within heading) body body') (h : Opens P p es es') :
      Opens P p (.object heading body :: es) (.object heading body' :: es')

namespace Opens

variable {P : String → Prop} {p : Place} {es es' fs fs' : List Element}

theorem refl (es : List Element) : Opens P p es es := by
  induction es with
  | nil => exact .nil
  | cons e _ ih => exact .same e ih

theorem append (h : Opens P p es es') (hf : Opens P p fs fs') : Opens P p (es ++ fs) (es' ++ fs') := by
  induction h with
  | nil => exact hf
  | same e _ ih => exact .same e (ih hf)
  | here hc hb _ ih =>
    have ih := ih hf
    rw [List.append_assoc] at ih
    exact .here hc hb ih
  | block hb _ _ ih => exact .block hb (ih hf)
  | object hb _ _ ih => exact .object hb (ih hf)

end Opens

/-! ### The walk -/

section Walk
variable {r : Registry} {defined : NameSet}

/-- Goes on behind an element, unless the walk stops there. -/
def goOnWith (r : Registry) (defined : NameSet) (es : List Element) :
    Bag × Flow → Logged (Bag × Flow)
  | (bag, .stop) => pure (bag, .stop)
  | (bag, .goOn) => walkAll r defined bag es

theorem walkAll_cons (bag : Bag) (e : Element) (es : List Element) :
    walkAll r defined bag (e :: es) = e.walk r defined bag >>= goOnWith r defined es := by
  rw [walkAll]
  refine bind_congr fun a => ?_
  obtain ⟨bag, flow⟩ := a
  cases flow <;> rfl

theorem walkAll_append (es fs : List Element) (bag : Bag) :
    walkAll r defined bag (es ++ fs) = walkAll r defined bag es >>= goOnWith r defined fs := by
  induction es generalizing bag with
  | nil => exact (Logged.succeed_andThen _ _).symm
  | cons e es ih =>
    rw [List.cons_append, walkAll_cons, walkAll_cons]
    refine Eq.trans (bind_congr fun a => ?_) (Logged.andThen_assoc _ _ _).symm
    obtain ⟨bag, flow⟩ := a
    cases flow with
    | stop => exact (Logged.succeed_andThen _ _).symm
    | goOn => exact ih bag

theorem walk_block_of_judge {condition : String} (hc : judge condition defined = .ok true)
    (bag : Bag) (body : List Element) :
    (Element.block condition body).walk r defined bag = walkAll r defined bag body := by
  rw [Element.walk, hc]
  exact Logged.succeed_andThen true _

/-- **The walk does not notice that blocks are opened whose conditions hold.** -/
theorem Opens.walkAll_eq {P : String → Prop} {p : Place} {es es' : List Element}
    (hP : ∀ c, P c → judge c defined = .ok true) (h : Opens P p es es') (bag : Bag) :
    walkAll r defined bag es = walkAll r defined bag es' := by
  induction h generalizing bag with
  | nil => rfl
  | same e _ ih =>
    rw [walkAll_cons, walkAll_cons]
    refine bind_congr fun a => ?_
    obtain ⟨bag, flow⟩ := a
    cases flow with
    | stop => rfl
    | goOn => exact ih bag
  | here hc _ _ ih => rw [walkAll_cons, walk_block_of_judge (hP _ hc), ← walkAll_append, ih]
  | block _ _ ihb ih =>
    rw [walkAll_cons, walkAll_cons, Element.walk, Element.walk]
    simp only [ihb]
    refine bind_congr fun a => ?_
    obtain ⟨bag, flow⟩ := a
    cases flow with
    | stop => rfl
    | goOn => exact ih bag
  | object _ _ _ ih =>
    rw [walkAll_cons, walkAll_cons, Element.walk, Element.walk]
    refine bind_congr fun a => ?_
    obtain ⟨bag, flow⟩ := a
    cases flow with
    | stop => rfl
    | goOn => exact ih bag

end Walk

/-! ### What is collected -/

/-- Objects with one heading, of which the second has blocks opened in its body. -/
def Object.Opens (P : String → Prop) (p : Place) (o o' : Object) : Prop :=
  o.heading = o'.heading ∧ BuildPlan.Opens P p o.body o'.body

/-- Both fail alike, or both give something, and the relation holds of what they give. -/
inductive Fallible.Both {α β : Type} (R : α → β → Prop) : Fallible α → Fallible β → Prop
  | ok {a : α} {b : β} (h : R a b) : Both R (.ok a) (.ok b)
  | error (e : Failure) : Both R (.error e) (.error e)

namespace Opens

variable {P : String → Prop} {p : Place} {es es' : List Element}

theorem objects_append (es fs : List Element) :
    Element.objects (es ++ fs) = Element.objects es ++ Element.objects fs :=
  List.filterMap_append

theorem groups_append (es fs : List Element) :
    Element.groups (es ++ fs) = Element.groups es ++ Element.groups fs :=
  List.filterMap_append

theorem objects_of_leavesOut (hp : p ≠ .inner) (h : p.LeavesOut es) : Element.objects es = [] := by
  cases p with
  | document | solution => exact h.1
  | owner => exact h
  | inner => exact absurd rfl hp

/-- The same objects are collected, with blocks opened in them. -/
theorem objects (hp : p ≠ .inner) (h : Opens P p es es') :
    List.Forall₂ (fun o o' => o.Opens P (p.within o.heading) o') (Element.objects es)
      (Element.objects es') := by
  induction h with
  | nil => exact .nil
  | same e _ ih =>
    cases e with
    | object heading body => exact .cons ⟨rfl, refl body⟩ (ih hp)
    | comment | group | assignment | invocation | block => exact ih hp
  | here _ hb _ ih =>
    have ih := ih hp
    rwa [objects_append, objects_of_leavesOut hp hb] at ih
  | block _ _ _ ih => exact ih hp
  | object hb _ _ ih => exact .cons ⟨rfl, hb⟩ (ih hp)

theorem groups (hp : p = .document ∨ p = .solution) (h : Opens P p es es') :
    Element.groups es = Element.groups es' := by
  induction h with
  | nil => rfl
  | same e _ ih =>
    cases e with
    | group g => exact congrArg (g :: ·) (ih hp)
    | comment | object | assignment | invocation | block => exact ih hp
  | @here p condition body es es' _ hb _ ih =>
    have hg : Element.groups body = [] := by
      rcases hp with rfl | rfl
      · exact hb.2
      · exact hb.2
    have ih := ih hp
    rwa [groups_append, hg] at ih
  | block _ _ _ ih => exact ih hp
  | object _ _ _ ih => exact ih hp

end Opens

namespace Solution

variable {P : String → Prop}

theorem isWrapper_of_objects_eq_nil {es : List Element} (h : Element.objects es = []) :
    ∀ e ∈ es, isWrapper e = false := by
  intro e he
  cases e with
  | object heading body =>
    have hm : ⟨heading, body⟩ ∈ Element.objects es := List.mem_filterMap.mpr ⟨_, he, rfl⟩
    rw [h] at hm
    cases hm
  | comment | group | assignment | invocation | block => rfl

theorem wrapper?_append {found : Option Object} {es fs : List Element}
    (h : ∀ e ∈ es, isWrapper e = false) : wrapper? found (es ++ fs) = wrapper? found fs := by
  induction es with
  | nil => rfl
  | cons e es ih =>
    have ih := ih fun e he => h e (List.mem_cons_of_mem _ he)
    cases e with
    | object heading body =>
      have hk : ¬ heading.kind = solutionKind :=
        of_decide_eq_false (h (.object heading body) (by simp))
      rw [List.cons_append, wrapper?, if_neg hk, ih]
    | comment | group | assignment | invocation | block => exact ih

/-- The elements beside the solution object. -/
theorem opens_others {es es' : List Element} (h : Opens P .document es es') :
    Opens P .solution (es.filter (!isWrapper ·)) (es'.filter (!isWrapper ·)) := by
  generalize hp : Place.document = p at h
  induction h with
  | nil => exact .nil
  | same e _ ih =>
    rw [List.filter_cons, List.filter_cons]
    split
    · exact .same e (ih hp)
    · exact ih hp
  | here hc hb _ ih =>
    subst hp
    have hnot : ∀ e ∈ _, (!isWrapper e) = true := fun e he => by
      rw [isWrapper_of_objects_eq_nil hb.1 e he]
      rfl
    have ih := ih rfl
    rw [List.filter_append, List.filter_eq_self.mpr hnot] at ih
    exact .here hc hb ih
  | block hb _ _ ih => exact .block hb (ih hp)
  | @object p heading body body' es es' hb _ _ ih =>
    subst hp
    rw [List.filter_cons, List.filter_cons]
    by_cases hk : heading.kind = solutionKind
    · rw [if_neg (by simp [isWrapper, hk]), if_neg (by simp [isWrapper, hk])]
      exact ih rfl
    · rw [if_pos (by simp [isWrapper, hk]), if_pos (by simp [isWrapper, hk])]
      rw [Place.within, if_neg hk] at hb
      exact .object hb (ih rfl)

/-- Solution objects are found alike among the elements. -/
def BothWrap (P : String → Prop) (es es' : List Element) : Prop :=
  ∀ found found', Option.Rel (Object.Opens P .solution) found found' →
    Fallible.Both (Option.Rel (Object.Opens P .solution)) (wrapper? found es) (wrapper? found' es')

theorem BothWrap.object {heading : Heading} {body body' es es' : List Element}
    (h : BothWrap P es es') (hb : heading.kind = solutionKind → Opens P .solution body body') :
    BothWrap P (.object heading body :: es) (.object heading body' :: es') := by
  intro found found' hf
  have hs : found.isSome = found'.isSome := by cases hf <;> rfl
  rw [wrapper?, wrapper?, hs]
  split
  · next hk =>
    split
    · exact .error _
    · cases heading.base with
      | some base => exact .error _
      | none => exact h _ _ (.some ⟨rfl, hb hk⟩)
  · exact h _ _ hf

theorem bothWrap {es es' : List Element} (h : Opens P .document es es') : BothWrap P es es' := by
  generalize hp : Place.document = p at h
  induction h with
  | nil => exact fun _ _ hf => .ok hf
  | same e _ ih =>
    cases e with
    | object heading body => exact (ih hp).object fun _ => .refl body
    | comment | group | assignment | invocation | block => exact ih hp
  | here _ hb _ ih =>
    subst hp
    intro found found' hf
    have ih := ih rfl found found' hf
    rwa [wrapper?_append (isWrapper_of_objects_eq_nil hb.1)] at ih
  | block _ _ _ ih => exact ih hp
  | object hb _ _ ih =>
    subst hp
    refine (ih rfl).object fun hk => ?_
    rwa [Place.within, if_pos hk] at hb

/-- The bodies of documents, of which the second has blocks opened. -/
theorem both_bodyOf {d d' : Document} (h : Opens P .document d.elements d'.elements) :
    Fallible.Both (Object.Opens P .solution) (bodyOf d) (bodyOf d') := by
  have hw := bothWrap h none none .none
  have ho := opens_others h
  unfold bodyOf
  generalize wrapper? none d.elements = w at hw ⊢
  generalize wrapper? none d'.elements = w' at hw ⊢
  cases hw with
  | error e => exact .error e
  | ok hr =>
    cases hr with
    | none => exact .ok ⟨rfl, ho⟩
    | some hoo => exact .ok ⟨hoo.1, hoo.2.append ho⟩

end Solution

end BuildPlan
