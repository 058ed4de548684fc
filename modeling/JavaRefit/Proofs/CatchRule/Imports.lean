/-
Which imports a run asks for.

Every `try` that is changed asks for the replacement, and one in which the
replacement takes the place of the legacy type has no more use for that
(`delta_run`). Nothing else is asked for.

Chain: after `Run` and the notes of a file; the rereading of what the
rule writes rests on it.
-/
import JavaRefit.Proofs.CatchRule.Frame
import JavaRefit.Proofs.Tree.Notes

namespace JavaRefit

theorem NameSet.union_self (name : String) :
    NameSet.union [name] [name] = [name] := by
  simp [NameSet.union, insert]

namespace RuleNote

-- ================================================================ merging

/-- The note asks for imports. -/
def isImports : RuleNote → Bool
  | imports _ => true
  | remark _ => false

/-- Notes that ask for one class, some of them in the place of another, ask for
these together. -/
theorem foldl_delta {f : ImportDelta → RuleNote → ImportDelta}
    (himports : ∀ d d', f d (imports d') = d.merge d')
    (hremark : ∀ d e, f d (remark e) = d) {new old : String}
    {notes : List RuleNote}
    (h : ∀ d, imports d ∈ notes → d = .of [new] [old] ∨ d = .of [new] [])
    {acc : ImportDelta} (hadded : acc.added = [] ∨ acc.added = [new])
    (hremoved : acc.removed = [] ∨ acc.removed = [old]) :
    notes.foldl f acc =
      ⟨if notes.any isImports then [new] else acc.added,
        if notes.any (· == imports (.of [new] [old])) then [old]
          else acc.removed⟩ := by
  induction notes generalizing acc with
  | nil => rfl
  | cons n notes ih =>
      have hnotes : ∀ d, imports d ∈ notes → d = .of [new] [old] ∨
          d = .of [new] [] :=
        fun d hd => h d (List.mem_cons_of_mem n hd)
      rw [List.foldl_cons]
      cases n with
      | remark d =>
          rw [hremark]
          exact ih hnotes hadded hremoved
      | imports d =>
          obtain ⟨added, removed⟩ := acc
          have hnew : NameSet.union added [new] = [new] := by
            rcases hadded with rfl | rfl
            · rfl
            · exact NameSet.union_self new
          have hold : NameSet.union removed [old] = [old] := by
            rcases hremoved with rfl | rfl
            · rfl
            · exact NameSet.union_self old
          have hkeep : NameSet.union removed [] = removed := by
            rcases hremoved with rfl | rfl <;> rfl
          rcases h d List.mem_cons_self with rfl | rfl
          · have hmerge : ImportDelta.merge ⟨added, removed⟩ (.of [new] [old]) =
                ⟨[new], [old]⟩ :=
              congrArg₂ ImportDelta.mk hnew hold
            rw [himports, hmerge]
            refine Eq.trans (ih hnotes (.inr rfl) (.inr rfl)) ?_
            simp [isImports]
          · have hmerge : ImportDelta.merge ⟨added, removed⟩ (.of [new] []) =
                ⟨[new], removed⟩ :=
              congrArg₂ ImportDelta.mk hnew hkeep
            rw [himports, hmerge]
            refine Eq.trans (ih hnotes (.inr rfl) hremoved) ?_
            simp [isImports, ImportDelta.of, NameSet.ofList, NameSet.insert]

end RuleNote

namespace CatchRule

variable (r : CatchRule) (qualified : Bool)

/-- What a `try` with a plan asks for. -/
def asks (plan : Retargeting) : Option ImportDelta :=
  match plan with
  | .unchanged => none
  | .substitution => some (.of [r.replacement.fqn] [r.legacy])
  | .augmentation => some (.of [r.replacement.fqn] [])

variable {r qualified}

theorem not_imports_of_unchanged {t : Try Stmt} {notes : List RuleNote}
    {d : ImportDelta} (h : r.plan t = .unchanged)
    (hnotes : .imports d ∉ notes) :
    .imports d ∈ notes ↔ r.asks (r.plan t) = some d := by
  rw [h]
  exact iff_of_false hnotes nofun

theorem mem_notes_withClauses {t : Try Stmt}
    {f : Variables → Edited RuleNote Variables} {plan : Retargeting}
    {delta d : ImportDelta} (hasks : r.asks plan = some delta)
    (h : r.catchesLegacy t = true → r.plan t = plan)
    (hf : ∀ d, d.typeTree.caught.any (isClassNamed r.legacy) = true →
      (f d).isNew = true ∧ (f d).value = r.newDeclaration qualified plan d) :
    .imports d ∈ (withClauses t (r.editClauses f t.catches) delta).notes ↔
      r.asks (r.plan t) = some d := by
  obtain ⟨-, hn⟩ := r.editClauses_eq qualified hf t.catches
  rw [any_catches] at hn
  unfold withClauses
  cases hl : r.catchesLegacy t with
  | true =>
      rw [if_pos (hn.trans hl), h hl, hasks]
      simp [eq_comm]
  | false =>
      rw [if_neg (by simp [hn, hl])]
      exact not_imports_of_unchanged (plan_of_not_catchesLegacy hl)
        (List.not_mem_nil)

/-- The notes at a `try` ask for what its plan asks for. -/
theorem mem_notes_retarget (t : Try Stmt) (d : ImportDelta) :
    .imports d ∈ (r.retarget qualified t).notes ↔
    r.asks (r.plan t) = some d := by
  simp only [retarget, usesApi_body, hasOtherSource_body, any_catches,
    any_catchesRelated]
  split
  · next h =>
    refine not_imports_of_unchanged ?_ (List.not_mem_nil)
    rcases Bool.or_eq_true_iff.1 h with h | h
    · exact plan_of_not_catchesLegacy (by
        simp [catchesLegacy, Try.caught, List.isEmpty_iff.1 h])
    · exact plan_of_not_callsApi (by simpa using h)
  · next h =>
    have hd : r.callsApi t = true := by simp_all
    split
    · next hh =>
      refine @mem_notes_withClauses r qualified t _ .substitution _ _ rfl
        (fun hl => ?_)
        (fun d hl => ?_)
      · simp [plan, hd, hl, hh]
      · exact ⟨r.isNew_substituteIn qualified hl, by simp [newDeclaration, hl]⟩
    · next hh =>
      split
      · next hl =>
        exact not_imports_of_unchanged (plan_of_not_catchesLegacy
          (by simpa using hl))
          (List.not_mem_nil)
      · next hl =>
        split
        · next hg =>
            exact not_imports_of_unchanged (by simp_all [plan]) (by simp)
        · next hg =>
          refine @mem_notes_withClauses r qualified t _ .augmentation _ _ rfl
            (fun hl => ?_)
            (fun d hl => ?_)
          · simp_all [plan]
          · exact ⟨rfl, by simp [newDeclaration, hl]⟩

/-- What is asked for in a file is the replacement, in the place of the legacy
type or not. -/
theorem of_mem_notes_edit {cu : CompilationUnit} {d : ImportDelta}
    (hd : .imports d ∈ (cu.edit (r.editor qualified)).notes) :
    d = .of [r.replacement.fqn] [r.legacy] ∨
    d = .of [r.replacement.fqn] [] := by
  rw [editor_eq, cu.mem_notes_iff] at hd
  obtain ⟨t, -, hd⟩ := hd
  rw [Try.notes, mem_notes_retarget] at hd
  cases hp : r.plan (Try.editParts (.ofTry (r.retarget qualified)) t).value <;>
    rw [hp] at hd <;> cases hd
  · exact .inl rfl
  · exact .inr rfl

/-- A file asks for no class to go but the legacy type. -/
theorem removed_delta_edit (r : CatchRule) (qualified : Bool)
    (cu : CompilationUnit) :
    (RuleNote.delta (cu.edit (r.editor qualified)).notes).removed = [] ∨
      (RuleNote.delta (cu.edit (r.editor qualified)).notes).removed =
        [r.legacy] := by
  have h : RuleNote.delta (cu.edit (r.editor qualified)).notes = _ :=
    RuleNote.foldl_delta (fun _ _ => rfl) (fun _ _ => rfl)
      (fun _ hd => of_mem_notes_edit hd)
      (.inl rfl) (.inl rfl)
  rw [h]
  dsimp only
  split
  · exact .inr rfl
  · exact .inl rfl

/-- A file asks for the replacement if any `try` of it is changed, and for the
legacy type to go if that has lost its place in one. -/
theorem delta_edit (hne : r.legacy ≠ r.replacement.fqn) (cu : CompilationUnit) :
    RuleNote.delta (cu.edit (r.editor qualified)).notes =
      ⟨if cu.tries.any fun t => r.plan t != .unchanged
        then [r.replacement.fqn] else [],
        if cu.tries.any fun t => r.plan t == .substitution then [r.legacy]
          else []⟩ := by
  have hmem (d : ImportDelta) :
      .imports d ∈ (cu.edit (r.editor qualified)).notes ↔
      ∃ t ∈ cu.tries, r.asks (r.plan t) = some d := by
    have hplan (t : Try Stmt) : .imports d ∈ t.notes (r.retarget qualified) ↔
        r.asks (r.plan t) = some d := by
      rw [Try.notes, mem_notes_retarget, plan_editParts hne]
    simp only [editor_eq, cu.mem_notes_iff, hplan]
  have hadded : (cu.edit (r.editor qualified)).notes.any RuleNote.isImports =
      cu.tries.any fun t => r.plan t != .unchanged := by
    rw [Bool.eq_iff_iff, List.any_eq_true, List.any_eq_true]
    constructor
    · rintro ⟨n, hn, himports⟩
      cases n with
      | remark => cases himports
      | imports d =>
          obtain ⟨t, ht, hplan⟩ := (hmem d).1 hn
          refine ⟨t, ht, bne_iff_ne.2 fun h => ?_⟩
          rw [h] at hplan
          cases hplan
    · rintro ⟨t, ht, hplan⟩
      cases h : r.plan t with
      | unchanged => rw [h] at hplan; cases hplan
      | substitution => exact ⟨_, (hmem _).2 ⟨t, ht, congrArg r.asks h⟩, rfl⟩
      | augmentation => exact ⟨_, (hmem _).2 ⟨t, ht, congrArg r.asks h⟩, rfl⟩
  have hremoved : ((cu.edit (r.editor qualified)).notes.any
      (· == .imports (.of [r.replacement.fqn] [r.legacy]))) =
        cu.tries.any fun t => r.plan t == .substitution := by
    rw [Bool.eq_iff_iff, List.any_eq_true, List.any_eq_true]
    constructor
    · rintro ⟨n, hn, himports⟩
      obtain rfl := beq_iff_eq.1 himports
      obtain ⟨t, ht, hplan⟩ := (hmem _).1 hn
      refine ⟨t, ht, ?_⟩
      cases h : r.plan t <;> rw [h] at hplan <;> cases hplan
      rfl
    · rintro ⟨t, ht, hplan⟩
      exact ⟨_, (hmem _).2 ⟨t, ht, congrArg r.asks (beq_iff_eq.1 hplan)⟩,
        beq_self_eq_true _⟩
  rw [← hadded, ← hremoved]
  exact RuleNote.foldl_delta (fun _ _ => rfl) (fun _ _ => rfl)
    (fun _ hd => of_mem_notes_edit hd)
    (.inl rfl) (.inl rfl)

end CatchRule

end JavaRefit
