import BuildPlan.Proofs.Grammar.Wrapping
import BuildPlan.Solution
import Mathlib.Control.Monad.Basic

/-! # A solution object around a document

A document with no solution object in it may be put into one: the solution object is the only
element then, it holds the elements of the document, and with the name that a solution without a
name has the solution is the same (`Solution.parse_wrapped_solution`). -/

namespace BuildPlan.Solution

open BuildPlan.Grammar

/-! ### The body of the solution -/

theorem wrapper?_eq_none : ∀ {es : List Element}, (∀ e ∈ es, isWrapper e = false) →
    wrapper? none es = .ok none
  | [], _ => rfl
  | e :: es, h => by
    rw [List.forall_mem_cons] at h
    have ih := wrapper?_eq_none h.2
    cases e with
    | object heading body =>
      have hkind : heading.kind ≠ solutionKind := by simpa [isWrapper] using h.1
      rw [wrapper?, if_neg hkind, ih]
    | _ => exact ih

theorem bodyOf_eq {d : Document} (h : ∀ e ∈ d.elements, isWrapper e = false) :
    bodyOf d = .ok ⟨⟨solutionKind, defaultName, none⟩, d.elements⟩ := by
  have hothers : d.elements.filter (!isWrapper ·) = d.elements :=
    List.filter_eq_self.mpr fun e he => by rw [h e he]; rfl
  unfold bodyOf
  rw [wrapper?_eq_none h, hothers]
  rfl

theorem bodyOf_object (name : String) (es : List Element) :
    bodyOf ⟨[.object ⟨solutionKind, name, none⟩ es]⟩ = .ok ⟨⟨solutionKind, name, none⟩, es⟩ := by
  have hbody : bodyOf ⟨[.object ⟨solutionKind, name, none⟩ es]⟩ =
      .ok ⟨⟨solutionKind, name, none⟩, es ++ []⟩ := rfl
  rw [hbody, List.append_nil]

/-- A document is resolved by the body of the solution alone. -/
theorem resolve_congr {d d' : Document} (h : bodyOf d = bodyOf d') (o : Options) (fs : FileSystem) :
    resolve o fs d = resolve o fs d' := by
  unfold resolve
  rw [h]

theorem parse_eq_resolve {source : String} {d : Document} (h : Document.parse source = .ok d)
    (o : Options) (fs : FileSystem) : parse o fs source = resolve o fs d := by
  unfold parse readDocument
  rw [h]
  rfl

/-! ### The solution -/

/-- **A document is read inside a solution object as it is read by itself**, whatever the name of
the object is. If there is no solution object in it, it makes the same solution there. -/
theorem parse_wrapped_solution {source : String} {d : Document}
    (h : Document.parse source = .ok d) :
    (∀ name : String, IsIdentifier name.toList →
      Document.parse (Document.wrapped solutionKind name source) =
        .ok ⟨[.object ⟨solutionKind, name, none⟩ d.elements]⟩) ∧
    ((∀ e ∈ d.elements, isWrapper e = false) → ∀ (o : Options) (fs : FileSystem),
      parse o fs (Document.wrapped solutionKind defaultName source) = parse o fs source) := by
  have hwrapped : ∀ name : String, IsIdentifier name.toList →
      Document.parse (Document.wrapped solutionKind name source) =
        .ok ⟨[.object ⟨solutionKind, name, none⟩ d.elements]⟩ :=
    fun _ hn => Document.parse_wrapped h (by decide) hn
  refine ⟨hwrapped, fun hd o fs => ?_⟩
  rw [parse_eq_resolve h, parse_eq_resolve (hwrapped defaultName (by decide +kernel))]
  refine resolve_congr ?_ o fs
  rw [bodyOf_object, bodyOf_eq hd]

/-- A module, and a comment that ends with the text. -/
def lastLine : Document := ⟨[.object ⟨moduleKind, "Core", some "Base"⟩ [], .comment "last"]⟩

theorem parse_wrapped_solution_lastLine :
    Document.parse "module Core : Base \x7b \x7d // last" = .ok lastLine ∧
      Document.parse
          (Document.wrapped solutionKind "Acme" "module Core : Base \x7b \x7d // last") =
        .ok ⟨[.object ⟨solutionKind, "Acme", none⟩ lastLine.elements]⟩ ∧
      parse ⟨[], .empty, [], none, selectFiles⟩ .empty
          (Document.wrapped solutionKind defaultName "module Core : Base \x7b \x7d // last") =
        parse ⟨[], .empty, [], none, selectFiles⟩ .empty "module Core : Base \x7b \x7d // last" := by
  have hread : Document.parse "module Core : Base \x7b \x7d // last" = .ok lastLine := by decide +kernel
  obtain ⟨hname, hsolution⟩ := parse_wrapped_solution hread
  exact ⟨hread, hname "Acme" (by decide +kernel), hsolution (by decide) _ _⟩

end BuildPlan.Solution
