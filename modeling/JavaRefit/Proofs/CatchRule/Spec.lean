/-
What the catch rule has to do to one `try`, said without trees.

A `try` is judged by the kinds of the sites in its body and by the types
its clauses catch, and the outcome is a change of the lists of caught
types: none, a substitution of the replacement for the legacy type, or an
augmentation by the replacement. The kinds are those of `classify`; the
searches that the rule really makes come to the same.

A document of options that names one class as legacy type and as
replacement is refused, and a rule has the classes that its options name.
So every rule that is ever run tells the two apart.

Chain: first of the proofs about the catch rule; the proofs that the
rule does this, and what follows for the exceptions that are handled,
read it.
-/
import JavaRefit.Proofs.Except
import JavaRefit.Proofs.Tree.Walk
import JavaRefit.Recipe

namespace JavaRefit

/-- The types that the clauses catch, clause by clause. -/
def Try.caught (t : Try Stmt) : List (List (Option JavaType)) :=
  t.catches.map Catch.caughtTypes

theorem isClassNamed_iff {fqn : String} {type : Option JavaType} :
    isClassNamed fqn type = true ↔ ∃ c, type = some (.reference c) ∧
    c.fqn = fqn := by
  unfold isClassNamed
  split <;> simp_all

/-- A type is one class at most. -/
theorem isClassNamed_inj {fqn fqn' : String} {type : Option JavaType}
    (h : isClassNamed fqn type = true) (h' : isClassNamed fqn' type = true) :
    fqn = fqn' := by
  unfold isClassNamed at h h'
  split at h
  · exact (beq_iff_eq.1 h).symm.trans (beq_iff_eq.1 h')
  · cases h

/-- What is done to the lists of caught types of a `try`. -/
inductive Retargeting where
  | unchanged | substitution | augmentation
deriving DecidableEq, Repr

namespace CatchRule

-- ============================================================== judgement

/-- The kinds of the sites among some nodes, in order. -/
def sites (r : CatchRule) (nodes : List Node) : List SiteKind :=
  (nodes.filter Node.isSite).map r.classify

/-- The body calls the API that changed. -/
def callsApi (r : CatchRule) (t : Try Stmt) : Bool :=
  (r.sites (Stmt.walkBlock t.body)).contains .designatedApi

/-- Something else in the body can raise the legacy type. -/
def raisesLegacy (r : CatchRule) (t : Try Stmt) : Bool :=
  (r.sites (Stmt.walkBlock t.body)).contains .throwsLegacy

/-- Some clause catches the legacy type. -/
def catchesLegacy (r : CatchRule) (t : Try Stmt) : Bool :=
  t.caught.any fun types => types.any (isClassNamed r.legacy)

/-- The type of the replacement. -/
def newType (r : CatchRule) : Option JavaType :=
  some (.reference r.replacement)

/-- Some clause catches a type above the replacement, or one below it. -/
def catchesRelated (r : CatchRule) (t : Try Stmt) : Bool :=
  t.caught.any fun types =>
    types.any fun type =>
      isAssignable r.newType type || isAssignable type r.newType

/-- What has to be done to a `try`. -/
def plan (r : CatchRule) (t : Try Stmt) : Retargeting :=
  if !r.callsApi t || !r.catchesLegacy t then .unchanged
  else if !r.raisesLegacy t then .substitution
  else if r.catchesRelated t then .unchanged
  else .augmentation

-- ================================================================ outcome

/-- Caught types with the replacement in the place of the legacy type; without
the legacy type, if they have the replacement already. -/
def substituted (r : CatchRule) (types : List (Option JavaType)) :
    List (Option JavaType) :=
  if types.any (isClassNamed r.replacement.fqn) then
    types.filter fun type => !isClassNamed r.legacy type
  else types.map fun type => if isClassNamed r.legacy type
    then r.newType else type

/-- Caught types with the replacement in front of the first legacy one. -/
def augmented (r : CatchRule) : List (Option JavaType) → List (Option JavaType)
  | [] => []
  | type :: types =>
    if isClassNamed r.legacy type then r.newType :: type :: types
    else type :: augmented r types

/-- Caught types after what is done to them. -/
def retyped (r : CatchRule) : Retargeting → List (Option JavaType) →
    List (Option JavaType)
  | .unchanged, types => types
  | .substitution, types => r.substituted types
  | .augmentation, types => r.augmented types

/-- The second `try` is what has to come of the first: its body has the same
sites, and its clauses catch what they have to. -/
structure Retargets (r : CatchRule) (t t' : Try Stmt) : Prop where
  sites : r.sites (Stmt.walkBlock t'.body) = r.sites (Stmt.walkBlock t.body)
  caught : t'.caught = t.caught.map (r.retyped (r.plan t))

variable {r : CatchRule} {types : List (Option JavaType)}

/-- Caught types without the legacy type stay as they are. -/
theorem substituted_of_not_any (h : types.any (isClassNamed r.legacy) = false) :
    r.substituted types = types := by
  simp only [List.any_eq_false] at h
  unfold substituted
  split
  · exact List.filter_eq_self.2 fun type ht => by simp [h type ht]
  · calc types.map (fun type => if isClassNamed r.legacy type
      then r.newType else type)
        = types.map id := List.map_congr_left fun type ht => by simp [h type ht]
      _ = types := List.map_id types

theorem augmented_of_not_any (h : types.any (isClassNamed r.legacy) = false) :
    r.augmented types = types := by
  induction types with
  | nil => rfl
  | cons type types ih =>
      simp only [List.any_cons, Bool.or_eq_false_iff] at h
      simp [augmented, h.1, ih h.2]

/-- A type named as one class is not named as another. -/
theorem not_isLegacy (r : CatchRule) (hne : r.legacy ≠ r.replacement.fqn)
    {type : Option JavaType} (h : isClassNamed r.replacement.fqn type = true) :
    isClassNamed r.legacy type = false := by
  obtain ⟨c, rfl, hc⟩ := isClassNamed_iff.1 h
  simp [isClassNamed, hc, hne.symm]

/-- No legacy type is left in the substituted list. -/
theorem any_substituted (hne : r.legacy ≠ r.replacement.fqn)
    (types : List (Option JavaType)) :
    (r.substituted types).any (isClassNamed r.legacy) = false := by
  have hnew : isClassNamed r.legacy r.newType = false :=
    r.not_isLegacy hne (beq_self_eq_true r.replacement.fqn)
  refine List.any_eq_false.2 fun type ht => ?_
  unfold substituted at ht
  split at ht
  · obtain ⟨-, hl⟩ := List.mem_filter.1 ht
    simpa using hl
  · obtain ⟨old, -, rfl⟩ := List.mem_map.1 ht
    by_cases h : isClassNamed r.legacy old = true
    · rw [if_pos h, hnew]
      exact Bool.false_ne_true
    · rw [if_neg h]
      exact h

/-- The substituted list has the replacement, if the list had the legacy
type. -/
theorem exists_mem_substituted (hne : r.legacy ≠ r.replacement.fqn)
    (h : types.any (isClassNamed r.legacy) = true) :
    ∃ type ∈ r.substituted types,
      isClassNamed r.replacement.fqn type = true := by
  obtain ⟨old, hold, hl⟩ := List.any_eq_true.1 h
  unfold substituted
  split
  · next hr =>
    obtain ⟨type, ht, hn⟩ := List.any_eq_true.1 hr
    refine ⟨type, List.mem_filter.2 ⟨ht, ?_⟩, hn⟩
    rw [r.not_isLegacy hne hn]
    rfl
  · refine ⟨r.newType, List.mem_map.2 ⟨old, hold, ?_⟩, beq_self_eq_true _⟩
    rw [if_pos hl]

/-- So does the augmented list. -/
theorem mem_augmented (h : types.any (isClassNamed r.legacy) = true) :
    r.newType ∈ r.augmented types := by
  induction types with
  | nil => cases h
  | cons type types ih =>
      rw [augmented]
      by_cases hl : isClassNamed r.legacy type = true
      · rw [if_pos hl]
        exact List.mem_cons_self
      · rw [List.any_cons, Bool.or_eq_true] at h
        rw [if_neg hl]
        exact List.mem_cons_of_mem type (ih (h.resolve_left hl))

-- ================================================================ searches

variable (r)

theorem isSite_of_method? {n : Node} {m : MethodType} (h : n.method? = some m) :
    n.isSite = true := by
  cases n with
  | expr e => cases e <;> first | rfl | cases h
  | stmt s =>
      cases s with
      | expr e => cases e <;> first | rfl | cases h
      | _ => cases h
  | _ => cases h

theorem classify_of_method? {n : Node} {m : MethodType}
    (h : n.method? = some m) :
    r.classify n = if r.isDesignated n then .designatedApi
      else if m.throws.any fun c => c.isSubtypeOf r.legacy then .throwsLegacy
        else .neither := by
  cases n with
  | stmt s =>
      cases s with
      | expr e => simp only [classify, h]
      | _ => cases h
  | _ => simp only [classify, h]

/-- A node is a call of the API that changed just when it is a site of that
kind. -/
theorem isDesignated_iff (n : Node) :
    r.isDesignated n = true ↔ n.isSite = true ∧
    r.classify n = .designatedApi := by
  cases h : n.method? with
  | some m =>
      rw [r.classify_of_method? h, isSite_of_method? h]
      split
      · simp [*]
      · split <;> simp [*]
  | none =>
      have hd : r.isDesignated n = false := by
        simp [isDesignated, MethodPattern.matchesNode, h]
      have hc : r.classify n ≠ .designatedApi := by
        unfold classify
        split
        · split <;> simp
        · simp [h]
      simp [hd, hc]

/-- The search for calls of the API that changed comes to the kinds of sites. -/
theorem usesApi_eq (nodes : List Node) :
    r.usesApi nodes = (r.sites nodes).contains .designatedApi := by
  rw [Bool.eq_iff_iff, List.contains_iff_mem]
  calc r.usesApi nodes = true
      ↔ ∃ n ∈ nodes, r.isDesignated n = true := by
        simp only [usesApi, MethodPattern.isUsedIn, isDesignated,
          List.any_eq_true]
        exact ⟨fun ⟨p, hp, n, hn, h⟩ => ⟨n, hn, p, hp, h⟩,
          fun ⟨n, hn, p, hp, h⟩ => ⟨p, hp, n, hn, h⟩⟩
    _ ↔ SiteKind.designatedApi ∈ r.sites nodes := by
        simp only [sites, List.mem_map, List.mem_filter,
          isDesignated_iff, and_assoc]

/-- The search for other sources of the legacy type comes to the kinds of
sites. -/
theorem hasOtherSource_eq (nodes : List Node) :
    r.hasOtherSource nodes = (r.sites nodes).contains .throwsLegacy := by
  rw [Bool.eq_iff_iff, List.contains_iff_mem]
  simp [hasOtherSource, sites, and_assoc]

end CatchRule

-- ================================================================ options

/-- The type made for a name by a class path that has made none yet has that
name. -/
theorem ClassPath.fqn_typeOf (cp : ClassPath) (fqn : String) :
    (cp.typeOf fqn []).1.fqn = fqn := by
  unfold typeOf build
  simp only [bind, StateT.bind, recalled?, List.lookup_nil]
  cases cp.info? fqn with
  | none => rfl
  | some info =>
      simp only
      split
      · cases info.supertype with
        | none => rfl
        | some s => simp only; split <;> rfl
      · rfl

/-- The rule that options make tells two classes apart if the options do. -/
theorem Recipe.ne_ruleOf {o : RuleOptions}
    (h : o.legacyType ≠ o.replacementType) (cp : ClassPath) :
    (ruleOf o cp []).1.legacy ≠ (ruleOf o cp []).1.replacement.fqn := by
  have hr : (ruleOf o cp []).1.replacement.fqn = o.replacementType :=
    cp.fqn_typeOf o.replacementType
  rw [hr]
  exact h

end JavaRefit
