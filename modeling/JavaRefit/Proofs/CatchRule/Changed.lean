/-
When a run changes a file.

The rule is called on each node of a file, but has something to say of `try`
statements only. So a run that looks at the file changes it just where it
gave another node for a `try`, as that was when the rule came to it: with
everything below rewritten already (`CatchRule.isChanged_run_iff`).

With what is said of rewriting trees and of renaming classes this is all
there is to know of changes (`rewriting_exact`).

Chain: after `Rerun` and the proofs about rewriting; nothing reads it.
-/
import JavaRefit.Proofs.CatchRule.Rerun
import JavaRefit.Proofs.Rename.Changed
import JavaRefit.Proofs.Rename.Place

namespace JavaRefit

namespace CatchRule

variable (r : CatchRule)

/-- The rule gives back what it does not rewrite. -/
theorem honest_editor (qualified : Bool) : (r.editor qualified).Honest := by
  rw [editor_eq]
  exact Editor.honest_ofTry (r.honest_retarget qualified)

/-- The rule gives another node for a `try` only. -/
theorem isNew_onNode_iff {qualified : Bool} {n : Node} :
    ((r.editor qualified).onNode n).isNew = true ↔
      ∃ t, n = .stmt (.tryCatch t) ∧ (r.retarget qualified t).isNew = true := by
  constructor
  · intro h
    cases n with
    | stmt s =>
        cases s with
        | tryCatch t => exact ⟨t, rfl, h⟩
        | _ => cases h
    | _ => cases h
  · intro h
    obtain ⟨t, rfl, h⟩ := h
    exact h

/-- The rule rewrote a `try` of the file as another node. -/
def Rewrites (qualified : Bool) (cu : CompilationUnit) : Prop :=
  ∃ handed, (Node.unit cu).calls (r.editor qualified).onNode = some handed ∧
    ∃ t, .stmt (.tryCatch t) ∈ handed ∧ (r.retarget qualified t).isNew = true

theorem isNew_edit_iff (qualified : Bool) (cu : CompilationUnit) :
    (cu.edit (r.editor qualified)).isNew = true ↔ r.Rewrites qualified cu := by
  have hhonest := r.honest_editor qualified
  have hunit : (Node.unit cu).IsProper := .unit cu
  obtain ⟨handed, hcalls, -, -, hnew⟩ :=
    (Node.rewritesExactly (fun m hm => Node.honest_onNode hhonest hm)
      hunit).calls _
      (Node.transform_onNode hhonest hunit)
  replace hnew : (cu.edit (r.editor qualified)).isNew = true ↔ _ := hnew
  rw [hnew]
  constructor
  · intro h
    obtain ⟨m, hm, h⟩ := h
    obtain ⟨t, rfl, h⟩ := r.isNew_onNode_iff.1 h
    exact ⟨handed, hcalls, t, hm, h⟩
  · intro h
    obtain ⟨handed', hcalls', t, ht, h⟩ := h
    obtain rfl := Option.some.inj (hcalls.symm.trans hcalls')
    exact ⟨_, ht, r.isNew_onNode_iff.2 ⟨t, rfl, h⟩⟩

/-- A run changes a file just where it looks at it and rewrites a `try` of it
as another node. -/
theorem isChanged_run_iff (cp : ClassPath) (cu : CompilationUnit) :
    (r.run cp cu).isChanged = true ↔
      r.appliesTo cu = true ∧ r.Rewrites (r.mustQualify cp cu) cu := by
  rw [← isNew_edit_iff]
  unfold run
  cases r.appliesTo cu with
  | false => exact ⟨fun h => (nomatch h), fun h => (nomatch h.1)⟩
  | true => exact ⟨fun h => ⟨rfl, h⟩, fun h => h.2⟩

end CatchRule

-- ================================================================== all

/-- Rewriting is exact. Rewriting a tree with a node function comes to the tree
of the plain way, by one call for each node of the tree, and to another tree
just where one of the calls gave another node; and an edit by an editor is such
a rewriting. So a renaming changes a tree just where a node has the class as
its own type, and a run changes a file just where it looks at it and rewrites a
`try` as another node. -/
theorem rewriting_exact {ω : Type} {f : Node → Edited ω Node}
    (hf : ∀ m : Node, m.IsProper → (f m).Honest m) {r : Editor ω}
    (hr : r.Honest) {n : Node} (hn : n.IsProper) (ren : Renaming)
    (rule : CatchRule) (cp : ClassPath) (cu : CompilationUnit) :
    (n.RewritesExactly f ∧ n.postorder.Perm n.walk) ∧
      (n.transform r.onNode = some (n.edit r) ∧ n.RewritesExactly r.onNode) ∧
      ((n.edit (ren.editor : Editor ω)).isNew = true ↔
        ∃ m ∈ n.walk, ren.concerns m.typeField? = true) ∧
      ((rule.run cp cu).isChanged = true ↔
        rule.appliesTo cu = true ∧
        rule.Rewrites (rule.mustQualify cp cu) cu) := by
  have hexact : n.RewritesExactly r.onNode :=
    Node.rewritesExactly (fun m hm => Node.honest_onNode hr hm) hn
  exact ⟨⟨Node.rewritesExactly hf hn, Node.postorder_perm hn⟩,
    ⟨Node.transform_onNode hr hn, hexact⟩, ren.isNew_edit_iff hn,
    rule.isChanged_run_iff cp cu⟩

theorem rewriting_exact_sample :
    let r := sampleRule.editor false
    let cu := sampleUnit sampleText
    r.Honest ∧ (Node.unit cu).IsProper ∧
    (Node.unit cu).RewritesExactly r.onNode ∧
      (Node.unit cu).transform r.onNode = some ((Node.unit cu).edit r) ∧
      (∃ m ∈ cu.walk, sampleRenaming.concerns m.typeField? = true) ∧
      sampleRule.Rewrites (sampleRule.mustQualify sampleClassPath cu) cu := by
  intro r cu
  have hr : r.Honest := sampleRule.honest_editor false
  have hn : (Node.unit cu).IsProper := .unit cu
  obtain ⟨⟨hexact, -⟩, ⟨hedit, -⟩, hrenamed, hrun⟩ :=
    rewriting_exact (fun m hm => Node.honest_onNode hr hm)
      hr hn sampleRenaming sampleRule
      sampleClassPath cu
  have hnew :
      ((Node.unit cu).edit (sampleRenaming.editor : Editor RuleNote)).isNew =
        true := by
    decide +kernel
  have hchanged : (sampleRule.run sampleClassPath cu).isChanged = true := by
    decide +kernel
  exact ⟨hr, hn, hexact, hedit, hrenamed.1 hnew, (hrun.1 hchanged).2⟩

end JavaRefit
