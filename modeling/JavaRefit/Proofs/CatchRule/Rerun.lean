/-
Running the rule once more.

# On the tree

A run leaves no `try` of its tree to be changed: a substituted one no
longer catches the legacy type, an augmented one catches the replacement,
and what is said of the bodies is said as before. So a run on the tree a
run gave changes nothing.

# On the text

A run on the text a run gave finds the types anew, and they need not be
those the first run left. The parameter of a rewritten clause has another
type, so where its body throws it again that may no longer raise the
legacy type for the `try` around it. What the second run changes is what
the types found anew leave to be changed, and nothing else: it gives the
text back where every `try` is settled as it is read (`source_rerun`), and
the sample has one that is not (`source_rerun_sample_ne`). What the first
file tells of that is said in `Settled`.

Chain: after `Run`; `Path`, `Reread` and `Comments` go on from a run that
changes nothing.
-/
import JavaRefit.Proofs.Attribution.Untyped
import JavaRefit.Proofs.ClassPath.Order
import JavaRefit.Proofs.CatchRule.Run
import JavaRefit.Proofs.Tree.Notes

namespace JavaRefit

namespace CatchRule

variable {r : CatchRule}

-- =============================================================== settled

/-- Nothing is left to do about a `try`: its body does not call the API that
changed, no clause catches the legacy type, or it can still be raised and a
type related to the replacement is caught. -/
def Settled (r : CatchRule) (t : Try Stmt) : Prop :=
  r.callsApi t = false ∨ r.catchesLegacy t = false ∨
    (r.raisesLegacy t = true ∧ r.catchesRelated t = true)

theorem plan_eq_unchanged_iff {t : Try Stmt} : r.plan t = .unchanged ↔
    r.Settled t := by
  unfold plan Settled
  cases r.callsApi t <;> cases r.catchesLegacy t <;> cases r.raisesLegacy t <;>
    cases r.catchesRelated t <;> decide

/-- What is augmented catches the legacy type, which can still be raised. -/
theorem of_plan_eq_augmentation {t : Try Stmt} (h : r.plan t = .augmentation) :
    r.catchesLegacy t = true ∧ r.raisesLegacy t = true := by
  unfold plan at h
  split at h
  · cases h
  · next hdl =>
    split at h
    · cases h
    · next hr => exact ⟨by simp_all, by simpa using hr⟩

/-- What is retargeted is settled. -/
theorem Retargets.settled (hne : r.legacy ≠ r.replacement.fqn) {t t' : Try Stmt}
    (h : r.Retargets t t') : r.Settled t' := by
  cases hplan : r.plan t with
  | unchanged =>
      have hc : t'.caught = t.caught := by
        rw [h.caught, hplan]
        exact List.map_id t.caught
      rw [← plan_eq_unchanged_iff, plan_congr h.sites hc, hplan]
  | substitution =>
      refine .inr (.inl ?_)
      unfold catchesLegacy
      rw [h.caught, hplan, List.any_map]
      refine List.any_eq_false.2 fun types _ => ?_
      show ¬(r.substituted types).any _ = true
      rw [any_substituted hne]
      exact Bool.false_ne_true
  | augmentation =>
      obtain ⟨hl, hr⟩ := of_plan_eq_augmentation hplan
      have hnew : isAssignable r.newType r.newType = true :=
        r.replacement.isSubtypeOf_self
      refine .inr (.inr ⟨?_, ?_⟩)
      · unfold raisesLegacy at hr ⊢
        rw [h.sites, hr]
      · obtain ⟨types, htypes, hany⟩ := List.any_eq_true.1 hl
        refine List.any_eq_true.2 ⟨r.augmented types, ?_, ?_⟩
        · rw [h.caught, hplan]
          exact List.mem_map_of_mem htypes
        · refine List.any_eq_true.2 ⟨r.newType, mem_augmented hany, ?_⟩
          rw [hnew, Bool.true_or]

/-- What every related pair has on the right, all of the right has. -/
theorem forall_right_of_forall₂ {α β : Type} {R : α → β → Prop} {P : β → Prop}
    (hp : ∀ a b, R a b → P b) {as : List α} {bs : List β}
    (h : List.Forall₂ R as bs) :
    ∀ b ∈ bs, P b := by
  induction h with
  | nil => exact List.forall_mem_nil P
  | cons hab _ ih => exact List.forall_mem_cons.2 ⟨hp _ _ hab, ih⟩

/-- After a run every `try` is settled. -/
theorem settled_run (hne : r.legacy ≠ r.replacement.fqn) (cp : ClassPath)
    (cu : CompilationUnit) : ∀ t ∈ (r.run cp cu).after.tries, r.Settled t :=
  forall_right_of_forall₂ (fun _ _ h => h.settled hne) (tries_run hne cp cu)

-- ============================================================ no change

/-- The rule says that a `try` is not new only of the `try` itself. -/
theorem honest_retarget (r : CatchRule) (qualified : Bool) (t : Try Stmt) :
    Edited.Honest t (r.retarget qualified t) := by
  intro hn
  obtain ⟨hv, hnew⟩ := r.retarget_isRetargeted qualified t
  have hplan : r.plan t = .unchanged := by
    rw [hnew] at hn
    simpa using hn
  rw [hv, hplan, newClause_unchanged, List.map_id]

/-- A run that does not call the file changed gives the file itself. -/
theorem after_run_of_not_isChanged {cp : ClassPath} {cu : CompilationUnit}
    (h : (r.run cp cu).isChanged = false) : (r.run cp cu).after = cu := by
  unfold run at h ⊢
  cases ha : r.appliesTo cu with
  | false => rfl
  | true =>
      simp only [ha, Bool.not_true, Bool.false_eq_true, if_false] at h ⊢
      rw [h]
      exact CompilationUnit.honest_edit
        (Editor.honest_ofTry fun t => r.honest_retarget _ t) cu h

/-- The file as the rule leaves it, imports aside. -/
theorem after_run_of_isChanged {cp : ClassPath} {cu : CompilationUnit}
    (h : (r.run cp cu).isChanged = true) :
    (r.run cp cu).after =
      ((cu.edit (r.editor (r.mustQualify cp cu))).value.applyDelta
      (RuleNote.delta (cu.edit (r.editor (r.mustQualify cp cu))).notes) :
        Edited Empty CompilationUnit).value := by
  unfold run at h ⊢
  split
  · next happ => rw [if_pos happ] at h; cases h
  · next happ =>
    rw [if_neg happ] at h
    exact if_pos h

/-- A run calls the file changed just when not every `try` of it is settled. -/
theorem isChanged_run_eq_false_iff (hne : r.legacy ≠ r.replacement.fqn)
    (cp : ClassPath) (cu : CompilationUnit) :
    (r.run cp cu).isChanged = false ↔ ∀ t ∈ cu.tries, r.Settled t := by
  constructor
  · intro h
    have hs := settled_run hne cp cu
    rwa [after_run_of_not_isChanged h] at hs
  · intro h
    unfold run
    cases r.appliesTo cu with
    | false => rfl
    | true =>
        refine CompilationUnit.isNew_edit_ofTry (fun t => r.honest_retarget _ t)
          cu fun t ht => ?_
        rw [(r.retarget_isRetargeted _ t).2, plan_eq_unchanged_iff.2 (h t ht)]
        rfl

/-- A run on the tree that a run gave changes nothing. -/
theorem run_run (hne : r.legacy ≠ r.replacement.fqn) (cp : ClassPath)
    (cu : CompilationUnit) :
    (r.run cp (r.run cp cu).after).after = (r.run cp cu).after :=
  after_run_of_not_isChanged
    ((isChanged_run_eq_false_iff hne cp _).2 (settled_run hne cp cu))

-- ================================================================= texts

/-- Two `try` statements are judged alike: their bodies have sites of the
same kinds, and their clauses catch the same types. -/
structure JudgedAlike (r : CatchRule) (t t' : Try Stmt) : Prop where
  sites : r.sites (Stmt.walkBlock t'.body) = r.sites (Stmt.walkBlock t.body)
  caught : t'.caught = t.caught

/-- What is judged as a settled `try` is settled. -/
theorem JudgedAlike.settled {t t' : Try Stmt} (h : r.JudgedAlike t t')
    (hs : r.Settled t) : r.Settled t' := by
  rw [← plan_eq_unchanged_iff, plan_congr h.sites h.caught]
  exact plan_eq_unchanged_iff.2 hs

/-- A run on the text that a run gave. It calls the file changed just when some
`try` is not settled with the types that are found anew. Where every one is
settled it gives the text back, and every one is where the `try` statements are
judged as those that the first run left. -/
theorem source_rerun (r : CatchRule) (hne : r.legacy ≠ r.replacement.fqn)
    (cp : ClassPath) (cu : CompilationUnit) {path : Option String}
    {cu' : CompilationUnit}
    (h : parseUnit (r.run cp cu).source cp path = .ok cu') :
    ((r.run cp cu').isChanged = false ↔ ∀ t ∈ cu'.tries, r.Settled t) ∧
      ((∀ t ∈ cu'.tries, r.Settled t) → (r.run cp cu').source =
        (r.run cp cu).source) ∧
      (List.Forall₂ r.JudgedAlike (r.run cp cu).after.tries cu'.tries →
        ∀ t ∈ cu'.tries, r.Settled t) := by
  have hiff := isChanged_run_eq_false_iff hne cp cu'
  refine ⟨hiff, fun hs => ?_, fun ha => ?_⟩
  · calc (r.run cp cu').source
        = cu'.print := by
          rw [RecipeResult.source, after_run_of_not_isChanged (hiff.2 hs)]
      _ = (r.run cp cu).source := print_parseUnit h
  · have hboth := (List.forall₂_and_left _ _).2 ⟨settled_run hne cp cu, ha⟩
    exact forall_right_of_forall₂ (fun _ _ h => h.2.settled h.1) hboth

/-- The sample after a run. -/
def sampleOnce : String :=
  "import p.*;class A\x7bApi a;void f()\x7btry\x7btry\x7ba.call();\x7dcatch(New e)" ++
    "\x7bthrow e;\x7d\x7dcatch(New | Old o)\x7b\x7d\x7d\x7d"

/-- The sample after two runs. -/
def sampleTwice : String :=
  "import p.*;class A\x7bApi a;void f()\x7btry\x7btry\x7ba.call();\x7dcatch(New e)" ++
    "\x7bthrow e;\x7d\x7dcatch(New o)\x7b\x7d\x7d\x7d"

theorem source_run_sample :
    (sampleRule.run sampleClassPath (sampleUnit sampleText)).source =
      sampleOnce ∧
      (sampleRule.run sampleClassPath (sampleUnit sampleOnce)).source =
        sampleTwice :=
  ⟨by decide +kernel, by decide +kernel⟩

/-- A run on the sample gives a text that another run changes. -/
theorem source_rerun_sample_ne :
    (sampleRule.run sampleClassPath (sampleUnit sampleText)).source =
      sampleOnce ∧
      (sampleRule.run sampleClassPath (sampleUnit sampleOnce)).source =
        sampleTwice ∧
      sampleOnce ≠ sampleTwice := by
  refine ⟨source_run_sample.1, source_run_sample.2, ?_⟩
  unfold sampleOnce sampleTwice
  rw [ne_eq, String.append_right_inj]
  simp only [String.reduceEq]
  exact not_false

/-- The text after two runs is given back by a third. -/
theorem source_rerun_sampleOnce :
    ∃ cu', sampleRule.legacy ≠ sampleRule.replacement.fqn ∧
      parseUnit (sampleRule.run sampleClassPath (sampleUnit sampleOnce)).source
        sampleClassPath none
        = .ok cu' ∧
      (∀ t ∈ cu'.tries, sampleRule.Settled t) ∧
      (sampleRule.run sampleClassPath cu').source =
        (sampleRule.run sampleClassPath (sampleUnit sampleOnce)).source := by
  have hne : sampleRule.legacy ≠ sampleRule.replacement.fqn :=
    Recipe.ne_ruleOf (by decide) sampleClassPath
  have hok : (parseUnit sampleTwice sampleClassPath none).isOk = true := by
    decide +kernel
  obtain ⟨cu', h⟩ := exists_of_isOk hok
  have hunit : sampleUnit sampleTwice = cu' := by rw [sampleUnit, h]
  have hsettled : (sampleRule.run sampleClassPath cu').isChanged = false := by
    rw [← hunit]
    decide +kernel
  rw [← source_run_sample.2] at h
  obtain ⟨hiff, hsource, -⟩ :=
    source_rerun sampleRule hne sampleClassPath (sampleUnit sampleOnce) h
  exact ⟨cu', hne, h, hiff.1 hsettled, hsource (hiff.1 hsettled)⟩

end CatchRule

end JavaRefit
