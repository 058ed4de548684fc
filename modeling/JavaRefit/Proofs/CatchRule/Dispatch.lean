/-
Which clause handles an exception, before and after a run.

# First match

The first clause that catches a class above the thrown one handles it.
The rule moves no clause, so for one class it is enough to look at the
clauses one by one: where each catches the class after the run just when
it did before, the class is handled by the clause it was handled by.

# What moves

An augmentation only adds the replacement, and a substitution takes the
legacy type away besides. So a class that is not below the replacement
goes where it went, provided the legacy type stays caught or the class is
not below that either. A class below the replacement is caught, at the
latest, by the first clause that caught the legacy type: each of these
catches the replacement after the run.

Chain: after `Run`; nothing reads it.
-/
import JavaRefit.Proofs.CatchRule.Run

namespace JavaRefit

-- =============================================================== handlers

/-- A clause that catches the types handles a class: one of them is the class
or above it. -/
def handles (x : ClassType) (types : List (Option JavaType)) : Bool :=
  types.any fun type => isAssignable (some (.reference x)) type

/-- The clause of a `try` that handles a class: the first one that catches
it. -/
def Try.handler? (t : Try Stmt) (x : ClassType) : Option Nat :=
  t.caught.findIdx? (handles x)

/-- The first clause of a `try` that catches the legacy type. -/
def CatchRule.legacyClause? (r : CatchRule) (t : Try Stmt) : Option Nat :=
  t.caught.findIdx? fun types => types.any (isClassNamed r.legacy)

/-- A class is handled by a type just when it is below the class the type
names. -/
theorem isAssignable_of_isClassNamed {fqn : String} {type : Option JavaType}
    (x : ClassType) (h : isClassNamed fqn type = true) :
    isAssignable (some (.reference x)) type = x.isSubtypeOf fqn := by
  obtain ⟨c, rfl, rfl⟩ := isClassNamed_iff.1 h
  rfl

-- ============================================================ single lists

namespace CatchRule

variable {r : CatchRule} {x : ClassType}

theorem isAssignable_newType (r : CatchRule) (x : ClassType) :
    isAssignable (some (.reference x)) r.newType =
      x.isSubtypeOf r.replacement.fqn :=
  rfl

/-- What is below neither class is handled as before by a substituted list. -/
theorem handles_substituted (hnew : x.isSubtypeOf r.replacement.fqn = false)
    (hold : x.isSubtypeOf r.legacy = false) (types : List (Option JavaType)) :
    handles x (r.substituted types) = handles x types := by
  have hlegacy : ∀ type, isClassNamed r.legacy type = true →
      isAssignable (some (.reference x)) type = false := by
    intro type h
    rw [isAssignable_of_isClassNamed x h, hold]
  unfold substituted handles
  split
  · rw [List.any_filter]
    refine congrArg (List.any types) (funext fun type => ?_)
    by_cases h : isClassNamed r.legacy type = true
    · rw [h, hlegacy type h]
      rfl
    · rw [Bool.not_eq_true] at h
      rw [h]
      rfl
  · rw [List.any_map]
    refine congrArg (List.any types) (funext fun type => ?_)
    show isAssignable _ (if isClassNamed r.legacy type then r.newType
      else type) = _
    by_cases h : isClassNamed r.legacy type = true
    · rw [if_pos h, isAssignable_newType, hnew, hlegacy type h]
    · rw [if_neg h]

/-- What is not below the replacement is handled as before by an augmented
list. -/
theorem handles_augmented (hnew : x.isSubtypeOf r.replacement.fqn = false)
    (types : List (Option JavaType)) :
    handles x (r.augmented types) = handles x types := by
  induction types with
  | nil => rfl
  | cons type types ih =>
      rw [augmented]
      by_cases h : isClassNamed r.legacy type = true
      · rw [if_pos h]
        show (isAssignable _ r.newType || handles x (type :: types)) = _
        rw [isAssignable_newType, hnew, Bool.false_or]
      · rw [if_neg h]
        show (isAssignable _ type || handles x (r.augmented types)) = _
        rw [ih]
        rfl

/-- What is below the replacement is handled by a list that had the legacy
type, once that is changed. -/
theorem handles_retyped {plan : Retargeting} {types : List (Option JavaType)}
    (hne : r.legacy ≠ r.replacement.fqn) (hplan : plan ≠ .unchanged)
    (hx : x.isSubtypeOf r.replacement.fqn = true)
    (h : types.any (isClassNamed r.legacy) = true) :
    handles x (r.retyped plan types) = true := by
  refine List.any_eq_true.2 ?_
  cases plan with
  | unchanged => exact absurd rfl hplan
  | substitution =>
      obtain ⟨type, ht, hn⟩ := exists_mem_substituted hne h
      refine ⟨type, ht, ?_⟩
      rw [isAssignable_of_isClassNamed x hn, hx]
  | augmentation => exact ⟨r.newType, mem_augmented h, hx⟩

-- ============================================================ whole clauses

/-- A `try` handles a class as another does, clause by clause, after what is
done to the types of each. -/
theorem handler?_congr {t t' : Try Stmt}
    {f : List (Option JavaType) → List (Option JavaType)}
    (hc : t'.caught = t.caught.map f)
    (h : ∀ types, handles x (f types) = handles x types) :
    t'.handler? x = t.handler? x := by
  unfold Try.handler?
  rw [hc, List.findIdx?_map]
  exact congrArg (List.findIdx? · t.caught) (funext h)

/-- Where each item that has one property gets another, the first item to have
the other comes no later than the first to have had the one. -/
theorem exists_findIdx?_le {α : Type} {l : List α} {f : α → α} {p q : α → Bool}
    (h : ∀ a, q a = true → p (f a) = true) (hq : l.any q = true) :
    ∃ i j, (l.map f).findIdx? p = some i ∧ l.findIdx? q = some j ∧ i ≤ j := by
  induction l with
  | nil => cases hq
  | cons a l ih =>
      rw [List.map_cons, List.findIdx?_cons, List.findIdx?_cons]
      by_cases hp : p (f a) = true
      · obtain ⟨j, hj⟩ : ∃ j, (a :: l).findIdx? q = some j := by
          rw [← List.findIdx?_isSome] at hq
          exact Option.isSome_iff_exists.1 hq
        rw [List.findIdx?_cons] at hj
        exact ⟨0, j, if_pos hp, hj, Nat.zero_le j⟩
      · have hqa : ¬q a = true := fun hqa => hp (h a hqa)
        rw [List.any_cons, Bool.or_eq_true] at hq
        obtain ⟨i, j, hi, hj, hle⟩ := ih (hq.resolve_left hqa)
        refine ⟨i + 1, j + 1, ?_, ?_, by omega⟩
        · rw [if_neg hp, hi]
          rfl
        · rw [if_neg hqa, hj]
          rfl

/-- What a run leaves of the handlers of one class: which clause of a `try`
handles it before the run and after. -/
structure HandlesAlike (r : CatchRule) (x : ClassType)
    (t t' : Try Stmt) : Prop where
  /-- A class that is not below the replacement is handled where it was, or
  nowhere as before, if the legacy type is still caught or the class is not
  below that either. -/
  kept : x.isSubtypeOf r.replacement.fqn = false →
    (r.plan t = .augmentation ∨ x.isSubtypeOf r.legacy = false) →
    t'.handler? x = t.handler? x
  /-- A class below the replacement is handled by the first clause that caught
  the legacy type, or by one before it, if the `try` is rewritten at all. -/
  taken : x.isSubtypeOf r.replacement.fqn = true → r.plan t ≠ .unchanged →
    ∃ i j, t'.handler? x = some i ∧ r.legacyClause? t = some j ∧ i ≤ j

/-- A `try` with a plan that changes it catches the legacy type. -/
theorem catchesLegacy_of_plan {t : Try Stmt} (h : r.plan t ≠ .unchanged) :
    r.catchesLegacy t = true := by
  by_cases hl : r.catchesLegacy t = true
  · exact hl
  · rw [Bool.not_eq_true] at hl
    exact absurd (plan_of_not_catchesLegacy hl) h

/-- What is retargeted handles every class alike. -/
theorem Retargets.handlesAlike {t t' : Try Stmt}
    (hne : r.legacy ≠ r.replacement.fqn) (h : r.Retargets t t')
    (x : ClassType) : r.HandlesAlike x t t' := by
  constructor
  · intro hnew hor
    refine handler?_congr h.caught fun types => ?_
    cases hplan : r.plan t with
    | unchanged => rfl
    | substitution =>
        rcases hor with ha | hold
        · rw [hplan] at ha
          cases ha
        · exact handles_substituted hnew hold types
    | augmentation => exact handles_augmented hnew types
  · intro hx hplan
    unfold Try.handler?
    rw [h.caught]
    exact exists_findIdx?_le (fun types hl => handles_retyped hne hplan hx hl)
      (catchesLegacy_of_plan hplan)

/-- A run handles exceptions where they were handled. In every `try` of the
file the class `x` goes to the clause it went to if it is not below the
replacement, and below the legacy type only where that stays caught; if it is
below the replacement and the `try` is rewritten, it is handled no later than
the legacy type was. -/
theorem handler?_run (r : CatchRule) (hne : r.legacy ≠ r.replacement.fqn)
    (cp : ClassPath) (cu : CompilationUnit) (x : ClassType) :
    List.Forall₂ (r.HandlesAlike x) cu.tries (r.run cp cu).after.tries :=
  (tries_run hne cp cu).imp fun _ _ h => h.handlesAlike hne x

/-- In the sample an exception of the new type is handled where it was not. -/
theorem handler?_run_sample :
    sampleRule.legacy ≠ sampleRule.replacement.fqn ∧
      (sampleUnit sampleText).tries.map (·.handler? (.bare "p.New")) =
        [none, none] ∧
      (sampleRule.run sampleClassPath (sampleUnit sampleText)).after.tries.map
        (·.handler? (.bare "p.New")) = [some 0, some 0] ∧
      List.Forall₂ (sampleRule.HandlesAlike (.bare "p.New"))
        (sampleUnit sampleText).tries
        (sampleRule.run sampleClassPath
          (sampleUnit sampleText)).after.tries := by
  have hne : sampleRule.legacy ≠ sampleRule.replacement.fqn :=
    Recipe.ne_ruleOf (by decide) sampleClassPath
  have hat : (sampleUnit sampleText).tries.map (·.handler? (.bare "p.New")) =
      [none, none] ∧
      (sampleRule.run sampleClassPath (sampleUnit sampleText)).after.tries.map
        (·.handler? (.bare "p.New")) = [some 0, some 0] := by decide +kernel
  exact ⟨hne, hat.1, hat.2, handler?_run sampleRule hne _ _ _⟩

end CatchRule

end JavaRefit
