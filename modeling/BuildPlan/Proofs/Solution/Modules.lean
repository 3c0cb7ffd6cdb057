import BuildPlan.Proofs.Solution.Binding

/-! # The modules of a resolved solution

What holds of a template and its module that are resolved where nothing is kept for them holds of all
templates and modules of a solution: in the resolution of a document that was read no two jobs have one
key, so nothing is ever kept for an object that is still to come (`modules_of_resolvesTo`). -/

namespace BuildPlan.Solution

open BuildPlan.Variable

variable {source : String} {d : Document} {o : Options} {fs : FileSystem} {s : Solution}

/-- **The modules of a solution have the declared projects.** These have the settings of the module's own
objects or of its template's. If the name of the module is not bound by others, every declaration has a
project of its own just if no two of their names are equal in the end, and it is bound by the expansion of
its settings name. -/
theorem modules_of_resolvesTo (hd : Document.parse source = .ok d) (h : ResolvesTo o fs d s) :
    ∃ body cs resolved, bodyOf d = .ok body ∧ declaredConfigurations body o.groups = .ok cs ∧
      ((compileSettings o body cs).runIn .initial).1 = .ok resolved ∧
      ∀ m ∈ s.modules.values, ∃ object ∈ modulesIn body, ∃ origin ∈ templatesIn body, ∃ template,
        object.base = some origin.name ∧ s.templates.get? origin.name = some template ∧
        Module.DeclaresSettings (contextOf o fs body resolved) object template m ∧
        ((bindingsIn o body).get? moduleName = none →
          Module.KeepsDeclarations (contextOf o fs body resolved) origin object template m ∧
          Module.BindsDeclarations (contextOf o fs body resolved) origin object template m) := by
  obtain ⟨body, cs, resolved, hb, hcs, hresolved, -, hmodules⟩ :=
    resolved_of_fresh_resolve (fresh_of_resolvesTo hd h)
  have hasks := asksOnce_compileSettings o body (nodup_of_declaredConfigurations hcs)
  refine ⟨body, cs, resolved, hb, hcs, ?_, fun m hm => ?_⟩
  · rw [(hasks.runIn_eq_fresh fun _ _ => rfl).1, hresolved]
  obtain ⟨object, hobject, origin, horigin, template, hbase, hget, htemplate, hmodule⟩ := hmodules m hm
  exact ⟨object, hobject, origin, horigin, template, hbase, hget,
    Module.declared_of_fresh_resolve hmodule, fun hfree =>
      ⟨Module.keepsDeclarations_of_fresh htemplate hmodule hfree,
        Module.bindsDeclarations_of_fresh htemplate hmodule hfree⟩⟩

end BuildPlan.Solution
