/-
Reading what the rule has written.

Chain: after the rewriting of clauses and of imports; what names mean
after a run is read off the tree that is read again.
-/
import JavaRefit.Proofs.Attribution.Untyped
import JavaRefit.Proofs.CatchRule.Imports
import JavaRefit.Proofs.CatchRule.Parameter
import JavaRefit.Proofs.CatchRule.Rerun
import JavaRefit.Proofs.Grammar.Clauses
import JavaRefit.Proofs.Grammar.Recaught
import JavaRefit.Proofs.Grammar.Words
import JavaRefit.Proofs.Import.Layout
import JavaRefit.Proofs.Tree.Remainder

namespace JavaRefit

open Spelling Token

-- ============================================================== the classes

/-- A file can be written with recaught classes, if the declarations can be
written. -/
theorem CompilationUnit.IsLaidOut.recaught {P : Variables → Variables → Prop}
    (hP : ∀ ⦃d d'⦄, P d d' →
      (ParameterWith SpellsCatchType).Rewrites d.untyped d'.untyped)
    {cu : CompilationUnit} (h : cu.IsLaidOut) {classes : List JavaClass}
    (hclasses : List.Forall₂ (ClassDecl.Recaught P) cu.classes classes) :
    { cu with classes }.IsLaidOut := by
  have hleads : classes.map ClassDecl.lead = cu.classes.map ClassDecl.lead := by
    have heq : List.Forall₂ Eq (cu.classes.map ClassDecl.lead)
        (classes.map ClassDecl.lead) := by
      rw [List.forall₂_map_left_iff, List.forall₂_map_right_iff]
      exact hclasses.imp fun c c' hc => hc.lead_eq.symm
    rw [List.forall₂_eq_eq_eq] at heq
    exact heq.symm
  refine @withParts cu h cu.imports _ h.isWritable ?_ fun lead hlead =>
    h.first lead ?_
  · refine CatchRule.forall_right_of_forall₂ ?_
      ((List.forall₂_and_left _ _).2 ⟨h.classes, hclasses⟩)
    rintro c c' ⟨⟨us, hus, hsep⟩, hc⟩
    obtain ⟨us', hus', href⟩ := rewrites_recaughtTopClass
      (P := (ParameterWith SpellsCatchType).Rewrites) (fun _ _ h => h)
      (Member.Recaught.untyped hP hc) us hus
    exact ⟨us', hus', href.separated hsep⟩
  · rw [leads] at hlead ⊢
    rwa [← hleads]

/-- The second file has the path of the first and as many classes. -/
def CompilationUnit.Frames (cu cu' : CompilationUnit) : Prop :=
  cu'.path = cu.path ∧ cu'.classes.length = cu.classes.length

theorem CompilationUnit.ImportsOnly.frames {cu cu' : CompilationUnit}
    (h : cu.ImportsOnly cu') : cu.Frames cu' := by
  refine ⟨h.path_eq, ?_⟩
  obtain ⟨imports, lead, -, rfl⟩ := h
  unfold CompilationUnit.withFirstClassLead
  split
  · rfl
  · next c cs hclasses =>
    have hclasses : cu.classes = c :: cs := hclasses
    rw [hclasses, List.length_cons, List.length_cons]

namespace CatchRule

variable {r : CatchRule}

/-- What the rule makes of a file that can be written can be written, if what
it comes to declare is legible. -/
theorem isLaidOut_after (hne : r.legacy ≠ r.replacement.fqn)
    (hnew : IsQualifiedName r.replacement.fqn) {cp : ClassPath}
    {cu : CompilationUnit} (h : cu.IsLaidOut)
    (hlegible : ∀ t ∈ cu.tries, ∀ c ∈ t.catches,
      (r.newDeclaration (r.mustQualify cp cu)
        (r.plan t) c.declaration).IsLegible) :
    (r.run cp cu).after.IsLaidOut := by
  cases hchanged : (r.run cp cu).isChanged with
  | false => rwa [after_run_of_not_isChanged hchanged]
  | true =>
      rw [after_run_of_isChanged hchanged]
      refine CompilationUnit.IsLaidOut.applyDelta ?_ ?_
      · have hclasses : List.Forall₂
            (ClassDecl.Recaught fun d d' =>
              (∃ plan, d' = r.newDeclaration (r.mustQualify cp cu) plan d) ∧
                d'.IsLegible)
            cu.classes
              (cu.edit (r.editor (r.mustQualify cp cu))).value.classes :=
          recaught_edit hne fun t ht c hc => ⟨⟨_, rfl⟩, hlegible t ht c hc⟩
        rw [editor_eq, CompilationUnit.edit_value] at hclasses ⊢
        refine h.recaught ?_ hclasses
        rintro d _ ⟨⟨plan, rfl⟩, hd⟩
        exact rewrites_newDeclaration _ hnew hne plan hd
      · rw [delta_edit hne]
        intro fqn hfqn
        dsimp only at hfqn
        split at hfqn
        · rw [List.mem_singleton] at hfqn
          rwa [hfqn]
        · cases hfqn

/-- A run keeps the path of a file and the number of its classes. -/
theorem frames_run (r : CatchRule) (cp : ClassPath) (cu : CompilationUnit) :
    cu.Frames (r.run cp cu).after := by
  cases hchanged : (r.run cp cu).isChanged with
  | false =>
      rw [after_run_of_not_isChanged hchanged]
      exact ⟨rfl, rfl⟩
  | true =>
      rw [after_run_of_isChanged hchanged]
      obtain ⟨hpath, hlength⟩ :=
        (CompilationUnit.importsOnly_applyDelta (ω := Empty)
        (cu.edit (r.editor (r.mustQualify cp cu))).value
        (RuleNote.delta
          (cu.edit (r.editor (r.mustQualify cp cu))).notes)).frames
      rw [editor_eq, CompilationUnit.edit_value] at hpath hlength ⊢
      exact ⟨hpath, hlength.trans (List.length_map _)⟩

/-- Every `try` of a file is in the file after the run with the declarations of
its plan. -/
theorem exists_of_mem_tries (hne : r.legacy ≠ r.replacement.fqn)
    (cp : ClassPath) {cu : CompilationUnit} {t : Try Stmt} (ht : t ∈ cu.tries) :
    ∃ t' ∈ (r.run cp cu).after.tries, t'.catches.map Catch.declaration =
      t.catches.map fun c =>
        r.newDeclaration (r.mustQualify cp cu) (r.plan t) c.declaration := by
  cases hchanged : (r.run cp cu).isChanged with
  | false =>
      have hplan := plan_eq_unchanged_iff.2
        ((isChanged_run_eq_false_iff hne cp cu).1 hchanged t ht)
      rw [after_run_of_not_isChanged hchanged, hplan]
      refine ⟨t, ht, List.map_congr_left fun c _ => ?_⟩
      rw [newDeclaration, ite_self]
  | true =>
      rw [after_run_of_isChanged hchanged,
        CompilationUnit.tries_applyDelta, editor_eq,
        CompilationUnit.tries_edit (keepsBlocks_retarget r _)]
      exact ⟨_, List.mem_map_of_mem ht, declarations_edited hne t⟩

/-- In a file that can be written, what a catch clause declares can be. -/
theorem writes_declaration {cu : CompilationUnit} (h : cu.IsLaidOut)
    {t : Try Stmt} (ht : t ∈ cu.tries) {c : Catch Stmt} (hc : c ∈ t.catches) :
    (ParameterWith SpellsCatchType).Writes c.declaration.untyped := by
  rw [cu.tries_eq, List.mem_flatMap] at ht
  obtain ⟨k, hk, ht⟩ := ht
  have hwritten := declaresWritten_topClass (h.classes k hk)
  rw [ClassDecl.tries_untyped] at hwritten
  exact hwritten _ (List.mem_map_of_mem ht) _ (List.mem_map_of_mem hc)

/-- In a file that can be written, what catch clauses declare is legible. -/
theorem isLegible_of_isLaidOut {cu : CompilationUnit} (h : cu.IsLaidOut)
    {t : Try Stmt} (ht : t ∈ cu.tries) {c : Catch Stmt} (hc : c ∈ t.catches) :
    c.declaration.IsLegible :=
  Variables.isLegible_of_writes (writes_declaration h ht hc)

/-- The text that a run gives is read as the tree that it gives, types aside,
just when every clause comes to declare a variable of one word that stands
apart from its type. -/
theorem parseTree_run_iff (hne : r.legacy ≠ r.replacement.fqn)
    (hnew : IsQualifiedName r.replacement.fqn) {cp : ClassPath}
    {source : String} {path : Option String} {cu : CompilationUnit}
    (h : parseUnit source cp path = .ok cu) :
    parseTree (r.run cp cu).source path = .ok (r.run cp cu).after.untyped ↔
      ∀ t ∈ cu.tries, ∀ c ∈ t.catches,
        (r.newDeclaration (r.mustQualify cp cu)
          (r.plan t) c.declaration).IsLegible := by
  have htree := parseTree_of_parseUnit h
  have hframes := frames_run r cp cu
  constructor
  · intro hreread t ht c hc
    obtain ⟨t', ht', hdeclarations⟩ := exists_of_mem_tries hne cp ht
    have hlaid := CompilationUnit.isLaidOut_of_parseTree hreread
    have hmem := List.mem_map_of_mem
      (f := fun c => r.newDeclaration (r.mustQualify cp cu)
        (r.plan t) c.declaration) hc
    rw [← hdeclarations, List.mem_map] at hmem
    obtain ⟨c', hc', heq⟩ := hmem
    rw [← heq]
    exact isLegible_of_isLaidOut hlaid ht' hc'
  · intro hlegible
    cases hchanged : (r.run cp cu).isChanged with
    | false => rwa [RecipeResult.source, after_run_of_not_isChanged hchanged,
          print_parseUnit h]
    | true =>
        have hsome : cu.classes ≠ [] := by
          by_contra hnone
          have htries : cu.tries = [] := by rw [cu.tries_eq, hnone]; rfl
          have hsettled :=
            (isChanged_run_eq_false_iff hne cp cu).2 (by simp [htries])
          rw [hchanged] at hsettled
          cases hsettled
        have hafter : (r.run cp cu).after.classes ≠ [] := by
          rwa [Ne, ← List.length_eq_zero_iff, hframes.2,
            List.length_eq_zero_iff]
        have hreread :=
          (isLaidOut_after hne hnew
            (CompilationUnit.isLaidOut_of_parseTree htree)
          hlegible).parseTree_print (CompilationUnit.leads_ne_nil hafter)
        rwa [hframes.1, CompilationUnit.path_of_parseTree htree] at hreread

/-- The text of the sample after a run is read as the tree after the run. -/
theorem parseTree_run_sample :
    ∃ cu, sampleRule.legacy ≠ sampleRule.replacement.fqn ∧
      IsQualifiedName sampleRule.replacement.fqn ∧
      parseUnit sampleText sampleClassPath none = .ok cu ∧
      (sampleRule.run sampleClassPath cu).source = sampleOnce ∧
      parseTree (sampleRule.run sampleClassPath cu).source none =
        .ok (sampleRule.run sampleClassPath cu).after.untyped := by
  have hne : sampleRule.legacy ≠ sampleRule.replacement.fqn :=
    Recipe.ne_ruleOf (by decide) sampleClassPath
  have hnew : IsQualifiedName sampleRule.replacement.fqn := by decide +kernel
  have hok : (parseUnit sampleText sampleClassPath none).isOk = true := by
    decide +kernel
  have hlegible : ∀ t ∈ (sampleUnit sampleText).tries, ∀ c ∈ t.catches,
      (sampleRule.newDeclaration
        (sampleRule.mustQualify sampleClassPath (sampleUnit sampleText))
        (sampleRule.plan t) c.declaration).IsLegible := by
    decide +kernel
  have hsource := source_run_sample.1
  obtain ⟨cu, h⟩ := exists_of_isOk hok
  have hunit : sampleUnit sampleText = cu := by rw [sampleUnit, h]
  rw [hunit] at hsource hlegible
  exact ⟨cu, hne, hnew, h, hsource, (parseTree_run_iff hne hnew h).2 hlegible⟩

/-- A file in which the replacement has to be written in full and a variable is
named like the legacy type. -/
def sampleNamedAlike : String :=
  "import p.*;class New\x7b\x7dclass A\x7bApi a;void f()\x7btry\x7ba.call();\x7dcatch(Old Old)" ++
    "\x7b\x7d\x7d\x7d"

/-- A run makes it a file that cannot be read: the variable is renamed with the
type. -/
theorem parseTree_run_sample_not :
    IsQualifiedName sampleRule.replacement.fqn ∧
      (parseUnit sampleNamedAlike sampleClassPath none).isOk = true ∧
      (parseTree (sampleRule.run sampleClassPath
        (sampleUnit sampleNamedAlike)).source none).isOk = false := by
  have hsource :
      (sampleRule.run sampleClassPath (sampleUnit sampleNamedAlike)).source =
      "import p.*;class New\x7b\x7dclass A\x7bApi a;void f()\x7btry\x7ba.call();\x7d" ++
        "catch(p.New p.New)\x7b\x7d\x7d\x7d" := by
    decide +kernel
  rw [hsource]
  exact ⟨by decide +kernel, by decide +kernel, by decide +kernel⟩

end CatchRule

end JavaRefit
