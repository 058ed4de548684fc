/-
A file that was read can always be run.

A run fails only where it has to ask a bare `*` for its package. The
parser reads no such import, imports that go leave none behind, and the
one that comes is asked for before it is there.

Chain: after `Imports`; the proofs about whole commands rest on it.
-/
import JavaRefit.Attribution.Unit
import JavaRefit.Proofs.CatchRule.Blank
import JavaRefit.Proofs.CatchRule.Imports
import JavaRefit.Proofs.CatchRule.Spec
import JavaRefit.Proofs.Grammar.Text
import JavaRefit.Proofs.Import.Delta

namespace JavaRefit

namespace CompilationUnit

/-- No import of the file is of a bare `*`. -/
def IsPackaged (cu : CompilationUnit) : Prop :=
  ∀ p ∈ cu.imports, p.element.isBare = false

variable {cu cu' : CompilationUnit}

theorem IsPackaged.asksInVain (h : cu.IsPackaged) (fqn : String) :
    cu.asksInVain fqn = false := by
  have hany : ((cu.imports.takeWhile fun p => !p.element.shows fqn).any
      fun p => p.element.isBare) = false :=
    List.any_eq_false.2 fun p hp => by
      rw [h p ((List.takeWhile_sublist _).subset hp)]
      exact Bool.false_ne_true
  rw [CompilationUnit.asksInVain, hany, Bool.and_false]

theorem isPackaged_iff_unled :
    cu.IsPackaged ↔ ∀ p ∈ cu.imports.map Import.unled,
      p.element.isBare = false := by
  rw [List.forall_mem_map]
  exact Iff.rfl

theorem IsPackaged.of_removeImport? {fqn : String} (h : cu.IsPackaged)
    (hremove : cu.removeImport? fqn = some cu') : cu'.IsPackaged := by
  obtain ⟨before, p, after, -, -, hold, hnew⟩ :=
    exists_unled_of_removeImport? hremove
  rw [isPackaged_iff_unled, hold] at h
  rw [isPackaged_iff_unled, hnew]
  exact fun q hq =>
    h q (((List.sublist_cons_self p after).append_left before).subset hq)

/-- To drop imports is a change that brings none. -/
theorem IsPackaged.dropImports {ω : Type} (h : cu.IsPackaged)
    (removed : NameSet) :
    (cu.dropImports cu.simpleReferences removed :
      Edited ω CompilationUnit).value.IsPackaged :=
  applyDelta_induction (ω := ω) (d := ⟨[], removed⟩)
    (fun _ _ hmem => nomatch hmem)
    (fun _ _ _ hremove hcu => hcu.of_removeImport? hremove) h

theorem isPackaged_of_parseTree {source : String} {path : Option String}
    (h : parseTree source path = .ok cu) : cu.IsPackaged := by
  obtain ⟨ts, hspells⟩ := parseTree_eq_ok_iff.1 h
  intro p hp
  have houter : p.element.packageName?.isNone = false := by
    rw [Import.packageName?, Option.isNone_map]
    exact Option.isNone_eq_false_iff.2
      (Option.isSome_iff_ne_none.2 (hspells.imports p hp))
  rw [Import.isBare, houter, Bool.and_false]

end CompilationUnit

namespace CatchRule

variable {r : CatchRule}

end CatchRule

end JavaRefit
