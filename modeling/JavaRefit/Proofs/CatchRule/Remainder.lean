/-
What a run leaves of a file.

A run touches the imports, the parameters of catch clauses, and the
trivia in front of the first class of a file without a package. Blanked
out there, the file before it and the file after it are one tree, types
included (`remainder_run`).

The text has the same three places: the list of imports, the trivia in
front of the first class, and what a clause declares. All else is copied
character by character: the text after a run is the text of the file with
these places filled in anew (`exists_source_eq_textWith`). A package keeps
what is in front of the first class, and only a clause that is rewritten
comes to declare something else.

Chain: after `Frame`, `Comments` and what changes of imports leave; the
command line reads it.
-/
import JavaRefit.Proofs.CatchRule.Comments
import JavaRefit.Proofs.CatchRule.Frame
import JavaRefit.Proofs.CatchRule.Rerun
import JavaRefit.Proofs.Tree.Remainder

namespace JavaRefit

-- ================================================================= the tree

namespace CatchRule

variable {r : CatchRule}

/-- What the rule does to statements leaves the rest of a file. -/
theorem leaves_edit (hne : r.legacy ≠ r.replacement.fqn) (qualified : Bool)
    (cu : CompilationUnit) :
    cu.Leaves (cu.edit (r.editor qualified)).value := by
  have hclasses := recaught_edit_any hne qualified cu
  rw [editor_eq, CompilationUnit.edit_value] at hclasses ⊢
  exact CompilationUnit.leaves_recaught hclasses

/-- A run leaves a file as it is, but for its imports, the parameters of its
catch clauses and, if it has no package, the trivia in front of its first
class. -/
theorem remainder_run (hne : r.legacy ≠ r.replacement.fqn) (cp : ClassPath)
    (cu : CompilationUnit) : (r.run cp cu).after.remainder = cu.remainder ∧
      (cu.package? ≠ none →
        (r.run cp cu).after.classes.head?.map ClassDecl.lead =
          cu.classes.head?.map ClassDecl.lead) := by
  have hleaves : cu.Leaves (r.run cp cu).after := by
    cases hchanged : (r.run cp cu).isChanged with
    | false =>
        rw [after_run_of_not_isChanged hchanged]
        exact .refl cu
    | true =>
        rw [after_run_of_isChanged hchanged]
        exact (leaves_edit hne _ cu).trans
          (CompilationUnit.leaves_applyDelta _ _)
  exact ⟨hleaves.remainder, hleaves.firstLead⟩

/-- The sample is changed and keeps its remainder. -/
theorem remainder_run_sample :
    sampleRule.legacy ≠ sampleRule.replacement.fqn ∧
      (sampleRule.run sampleClassPath (sampleUnit sampleText)).isChanged =
        true ∧
      (sampleRule.run sampleClassPath (sampleUnit sampleText)).after.remainder =
        (sampleUnit sampleText).remainder := by
  have hne : sampleRule.legacy ≠ sampleRule.replacement.fqn :=
    Recipe.ne_ruleOf (by decide) sampleClassPath
  exact ⟨hne, by decide +kernel,
    (remainder_run hne sampleClassPath (sampleUnit sampleText)).1⟩

end CatchRule

-- ================================================================= the text

open Piece

namespace CompilationUnit

/-- The text of the file with such imports, other trivia in front of its first
class, and such pieces for what its clauses declare. -/
def textWith (cu : CompilationUnit) (imports : List (RightPadded Import))
    (lead : Trivia → Trivia) (shown : ShownDeclaration) : String :=
  textAll (({ cu with imports }.withFirstClassLead lead).piecesWith shown)

theorem print_eq_textWith (cu : CompilationUnit) :
    cu.print = cu.textWith cu.imports id declarations := by
  rw [textWith, withFirstClassLead_id, piecesWith_declarations]
  rfl

end CompilationUnit

namespace CatchRule

variable (r : CatchRule)

/-- A file of which the rule edited the classes shows the rewritten
declarations, and all else as it was, whatever is put in front of its first
class then. -/
theorem pieces_editClasses (qualified : Bool) (cu : CompilationUnit)
    (lead : Trivia → Trivia) :
    ({ cu with classes := cu.classes.map fun c : JavaClass =>
        (c.edit (.ofTry (r.retarget qualified))).value }.withFirstClassLead
          lead).pieces =
      (cu.withFirstClassLead lead).piecesWith
        (r.newDeclarations qualified) := by
  have hlead (c : JavaClass) :
      { (c.edit (.ofTry (r.retarget qualified))).value with
      lead := lead (c.edit (.ofTry (r.retarget qualified))).value.lead } =
        (ClassDecl.edit (.ofTry (r.retarget qualified))
          { c with lead := lead c.lead }).value := by
    rw [ClassDecl.edit_value, ClassDecl.edit_value]
  have hclasses (cs : List JavaClass) :
      (cs.map fun c => (c.edit (.ofTry (r.retarget qualified))).value).flatMap
        ClassDecl.pieces =
        cs.flatMap (ClassDecl.piecesWith (r.newDeclarations qualified)) := by
    rw [List.flatMap_map]
    exact List.flatMap_congr fun c _ => r.pieces_editClass c
  -- The classes with their new lead are edited as they were without it.
  have hcomm : { cu with classes := cu.classes.map fun c : JavaClass =>
        (c.edit (.ofTry (r.retarget qualified))).value }.withFirstClassLead
          lead =
      { cu with classes := (cu.withFirstClassLead lead).classes.map fun c =>
        (c.edit (.ofTry (r.retarget qualified))).value } := by
    obtain ⟨start, package?, imports, classes, close, path⟩ := cu
    cases classes with
    | nil => rfl
    | cons c cs =>
        simp only [CompilationUnit.withFirstClassLead, List.map_cons]
        rw [hlead]
  have hrest : (cu.withFirstClassLead lead).piecesWith
      (r.newDeclarations qualified) =
      { cu with classes := (cu.withFirstClassLead lead).classes }.piecesWith
        (r.newDeclarations qualified) := by
    unfold CompilationUnit.withFirstClassLead
    split <;> rfl
  rw [hcomm, hrest, ← CompilationUnit.piecesWith_declarations]
  simp only [CompilationUnit.piecesWith,
    funext ClassDecl.piecesWith_declarations, hclasses]

/-- The text after a run is the text of the file but for the imports, what is
in front of the first class where no package comes before, and what rewritten
clauses declare. -/
theorem exists_source_eq_textWith (cp : ClassPath) (cu : CompilationUnit) :
    ∃ imports lead shown, (cu.package? ≠ none → lead = id) ∧
      (∀ t c, r.rewrites (r.mustQualify cp cu) t c = false →
        shown t c = c.declaration.pieces) ∧
      (r.run cp cu).source = cu.textWith imports lead shown := by
  cases hchanged : (r.run cp cu).isChanged with
  | false =>
      refine ⟨cu.imports, id, declarations, fun _ => rfl, fun _ _ _ => rfl, ?_⟩
      rw [RecipeResult.source, after_run_of_not_isChanged hchanged,
        CompilationUnit.print_eq_textWith]
  | true =>
      have hedit : (cu.edit (r.editor (r.mustQualify cp cu))).value =
          { cu with classes := cu.classes.map fun c : JavaClass =>
              (c.edit (.ofTry (r.retarget (r.mustQualify cp cu)))).value } := by
        rw [editor_eq, CompilationUnit.edit_value]
      have hdelta : (cu.edit (r.editor (r.mustQualify cp cu))).value.ImportsOnly
          (r.run cp cu).after := by
        rw [after_run_of_isChanged hchanged]
        exact CompilationUnit.importsOnly_applyDelta _ _
      obtain ⟨imports, lead, hlead, hafter⟩ := hdelta
      rw [hedit] at hafter
      rw [hedit] at hlead
      refine ⟨imports, lead, r.newDeclarations (r.mustQualify cp cu), hlead,
        fun t c => newDeclarations_of_not_rewrites, ?_⟩
      rw [RecipeResult.source, hafter, CompilationUnit.print,
        CompilationUnit.textWith, ← r.pieces_editClasses]

end CatchRule

end JavaRefit
