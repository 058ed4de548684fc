/-
What the catch rule does to one `try`.

The rule goes about it by searches and by early returns; it comes to the
plan for the statement. The clauses get the declarations of the plan,
everything else in the statement stays, and the statement counts as new
just when the plan changes it.

Chain: after `Clause`; the proofs about whole files read it.
-/
import JavaRefit.Proofs.CatchRule.Clause

namespace JavaRefit

namespace CatchRule

variable (r : CatchRule) (qualified : Bool)

-- ============================================================== the plan

theorem usesApi_body (t : Try Stmt) :
    r.usesApi (Stmt.walkBlock t.body) = r.callsApi t :=
  r.usesApi_eq _

theorem hasOtherSource_body (t : Try Stmt) :
    r.hasOtherSource (Stmt.walkBlock t.body) = r.raisesLegacy t :=
  r.hasOtherSource_eq _

theorem any_catches (t : Try Stmt) :
    (t.catches.any fun c => c.catches r.legacy) = r.catchesLegacy t := by
  rw [catchesLegacy, Try.caught, List.any_map]
  rfl

theorem any_catchesRelated (t : Try Stmt) :
    (t.catches.any fun c => c.catchesRelated r.replacement) =
      r.catchesRelated t := by
  rw [catchesRelated, Try.caught, List.any_map]
  refine congrArg (List.any _) (funext fun c =>
    congrArg (List.any _) (funext fun type => ?_))
  rcases type with _ | ⟨c⟩ | p | e <;> rfl

variable {r} {t : Try Stmt}

theorem plan_of_not_callsApi (h : r.callsApi t = false) :
    r.plan t = .unchanged := by
  simp [plan, h]

theorem plan_of_not_catchesLegacy (h : r.catchesLegacy t = false) :
    r.plan t = .unchanged := by
  simp [plan, h]

-- =========================================================== declarations

/-- The declaration that a clause gets. -/
def newDeclaration (r : CatchRule) (qualified : Bool) (plan : Retargeting)
    (d : Variables) : Variables :=
  if d.typeTree.caught.any (isClassNamed r.legacy) then
    match plan with
    | .unchanged => d
    | .substitution =>
        (r.substituteIn qualified d : Edited RuleNote Variables).value
    | .augmentation => r.augmentIn qualified d
  else d

/-- The clause that comes of a clause. -/
def newClause (r : CatchRule) (qualified : Bool) (plan : Retargeting)
    (c : Catch Stmt) : Catch Stmt :=
  c.withDeclaration (r.newDeclaration qualified plan c.declaration)

variable (r)

theorem newClause_unchanged : r.newClause qualified .unchanged = id := by
  funext c
  simp only [newClause, newDeclaration, ite_self]
  rfl

theorem caughtTypes_newClause (hne : r.legacy ≠ r.replacement.fqn)
    (plan : Retargeting) (c : Catch Stmt) :
    (r.newClause qualified plan c).caughtTypes =
      r.retyped plan c.caughtTypes := by
  simp only [Catch.caughtTypes_eq, newClause, Catch.declaration_withDeclaration,
    newDeclaration]
  cases h : c.declaration.typeTree.caught.any (isClassNamed r.legacy) with
  | false =>
      cases plan with
      | unchanged => rfl
      | substitution => exact (substituted_of_not_any h).symm
      | augmentation => exact (augmented_of_not_any h).symm
  | true =>
      cases plan with
      | unchanged => rfl
      | substitution => exact r.caught_substituteIn qualified hne c.declaration
      | augmentation => exact r.caught_augmentIn qualified h

-- ================================================================ clauses

/-- The clauses edited, by a function that makes declarations anew where the
legacy type is caught. -/
theorem editClauses_eq {f : Variables → Edited RuleNote Variables}
    {plan : Retargeting} (hf : ∀ d,
      d.typeTree.caught.any (isClassNamed r.legacy) = true →
      (f d).isNew = true ∧ (f d).value = r.newDeclaration qualified plan d)
    (cs : List (Catch Stmt)) :
    (r.editClauses f cs).value = cs.map (r.newClause qualified plan) ∧
      (r.editClauses f cs).isNew = cs.any fun c => c.catches r.legacy := by
  induction cs with
  | nil => exact ⟨rfl, rfl⟩
  | cons c cs ih =>
      have hc : c.catches r.legacy =
          c.declaration.typeTree.caught.any (isClassNamed r.legacy) := by
        rw [Catch.catches, Catch.caughtTypes_eq]
      cases h : c.catches r.legacy with
      | true =>
          obtain ⟨hn, hv⟩ := hf c.declaration (hc ▸ h)
          simp [editClauses, h, ih.1, hn, hv, newClause]
      | false =>
          have hk : r.newClause qualified plan c = c := by
            simp only [newClause, newDeclaration, ← hc, h]
            rfl
          simp [editClauses, h, ih.1, ih.2, hk]

-- =========================================================== the statement

/-- The edited statement has the clauses of the plan for the statement, and is
new just when the plan changes it. -/
def IsRetargeted (t : Try Stmt) (e : Edited RuleNote (Try Stmt)) : Prop :=
  e.value =
    { t with catches := t.catches.map (r.newClause qualified (r.plan t)) } ∧
    e.isNew = (r.plan t != .unchanged)

variable {r qualified}

theorem isRetargeted_of_unchanged
    {t : Try Stmt} {e : Edited RuleNote (Try Stmt)}
    (h : r.plan t = .unchanged) (hv : e.value = t) (hn : e.isNew = false) :
    r.IsRetargeted qualified t e := by
  have hc : t.catches.map (r.newClause qualified .unchanged) = t.catches := by
    simp [newClause_unchanged]
  exact ⟨by rw [hv, h, hc], by rw [hn, h]; rfl⟩

/-- Clauses edited as a plan has it, in a `try` that has this plan if it
catches the legacy type. -/
theorem isRetargeted_withClauses {t : Try Stmt}
    {f : Variables → Edited RuleNote Variables} (plan : Retargeting)
    (delta : ImportDelta) (hplan : plan ≠ .unchanged)
    (h : r.catchesLegacy t = true → r.plan t = plan)
    (hf : ∀ d, d.typeTree.caught.any (isClassNamed r.legacy) = true →
      (f d).isNew = true ∧ (f d).value = r.newDeclaration qualified plan d) :
    r.IsRetargeted qualified
      t (withClauses t (r.editClauses f t.catches) delta) := by
  obtain ⟨hv, hn⟩ := r.editClauses_eq qualified hf t.catches
  rw [any_catches] at hn
  unfold withClauses
  cases hl : r.catchesLegacy t with
  | true =>
      rw [if_pos (hn.trans hl)]
      exact ⟨by rw [hv, h hl], by simp [h hl, hplan]⟩
  | false =>
      rw [if_neg (by simp [hn, hl])]
      exact isRetargeted_of_unchanged (plan_of_not_catchesLegacy hl) rfl rfl

variable (r qualified)

/-- The rule does to a `try` what is planned. -/
theorem retarget_isRetargeted (t : Try Stmt) :
    r.IsRetargeted qualified t (r.retarget qualified t) := by
  simp only [retarget, usesApi_body, hasOtherSource_body,
    any_catches, any_catchesRelated]
  split
  · next h =>
    refine isRetargeted_of_unchanged ?_ rfl rfl
    rcases Bool.or_eq_true_iff.1 h with h | h
    · exact plan_of_not_catchesLegacy (by
        simp [catchesLegacy, Try.caught, List.isEmpty_iff.1 h])
    · exact plan_of_not_callsApi (by simpa using h)
  · next h =>
    have hd : r.callsApi t = true := by simp_all
    split
    · next hh =>
      refine isRetargeted_withClauses .substitution _ (by simp) (fun hl => ?_)
        (fun d hl => ?_)
      · simp [plan, hd, hl, hh]
      · exact ⟨r.isNew_substituteIn qualified hl, by simp [newDeclaration, hl]⟩
    · next hh =>
      split
      · next hl =>
        exact isRetargeted_of_unchanged
          (plan_of_not_catchesLegacy (by simpa using hl)) rfl rfl
      · next hl =>
        split
        · next hg =>
            exact isRetargeted_of_unchanged (by simp_all [plan]) rfl rfl
        · next hg =>
          refine isRetargeted_withClauses .augmentation _ (by simp)
            (fun hl => ?_)
            (fun d hl => ?_)
          · simp_all [plan]
          · exact ⟨rfl, by simp [newDeclaration, hl]⟩

end CatchRule

end JavaRefit
