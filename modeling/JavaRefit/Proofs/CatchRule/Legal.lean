/-
Catch lists that a compiler takes, before and after a run.

# Legal lists

No two alternatives of a clause may be related, and no clause may catch
what an earlier one has caught already. In a legal list the legacy type
stands at most once: two of a name are related.

# What a run keeps

An augmentation is made only where no caught type is related to the
replacement, so it keeps a list legal. A substitution looks at nothing
but the alternatives of its own clause, and there only for the
replacement itself. It keeps a list legal exactly where the replacement
fits (`Fits`), and the sample has one where it does not
(`isLegal_run_sample_not`).

Chain: after `Run`; nothing reads it.
-/
import Mathlib.Data.List.Pairwise
import JavaRefit.Proofs.CatchRule.Run
import JavaRefit.Proofs.ClassPath.Order

namespace JavaRefit

-- =============================================================== legality

/-- One of the types can be assigned to the other. -/
def areRelated (a b : Option JavaType) : Bool :=
  isAssignable a b || isAssignable b a

/-- The types that the clauses of a `try` catch may stand in these lists. -/
structure IsLegal (caught : List (List (Option JavaType))) : Prop where
  /-- No two alternatives of a clause are related. -/
  alternatives : ∀ types ∈ caught, types.Pairwise fun a b =>
    areRelated a b = false
  /-- No clause catches a type that can be assigned to one that an earlier
  clause catches. -/
  order : caught.Pairwise fun earlier later =>
    ∀ a ∈ earlier, ∀ b ∈ later, isAssignable b a = false

instance (caught : List (List (Option JavaType))) :
    Decidable (IsLegal caught) :=
  decidable_of_iff
    ((∀ types ∈ caught, types.Pairwise fun a b => areRelated a b = false) ∧
      caught.Pairwise fun earlier later => ∀ a ∈ earlier, ∀ b ∈ later,
        isAssignable b a = false)
    ⟨fun ⟨alternatives, order⟩ => ⟨alternatives, order⟩, fun h =>
      ⟨h.alternatives, h.order⟩⟩

theorem areRelated_comm (a b : Option JavaType) :
    areRelated a b = areRelated b a :=
  Bool.or_comm _ _

instance : Std.Symm fun a b => areRelated a b = false :=
  ⟨fun a b h => by rw [areRelated_comm, h]⟩

theorem areRelated_eq_false_iff {a b : Option JavaType} :
    areRelated a b = false ↔ isAssignable a b = false ∧
    isAssignable b a = false :=
  Bool.or_eq_false_iff

/-- Types named as the same class can be assigned to one another. -/
theorem isAssignable_of_isClassNamed_both {fqn : String} {a b : Option JavaType}
    (ha : isClassNamed fqn a = true) (hb : isClassNamed fqn b = true) :
    isAssignable a b = true := by
  obtain ⟨c, rfl, hc⟩ := isClassNamed_iff.1 ha
  obtain ⟨d, rfl, hd⟩ := isClassNamed_iff.1 hb
  show c.isSubtypeOf d.fqn = true
  rw [hd, ← hc]
  exact c.isSubtypeOf_self

namespace CatchRule

-- ================================================================ fitting

/-- In a list of alternatives the replacement takes the place of the legacy
type, which is there while the replacement is not. -/
def TakesPlace (r : CatchRule) (types : List (Option JavaType)) : Prop :=
  types.any (isClassNamed r.legacy) = true ∧
    types.any (isClassNamed r.replacement.fqn) = false

/-- The replacement fits where it takes the place of the legacy type. -/
structure Fits (r : CatchRule) (caught : List (List (Option JavaType))) :
    Prop where
  /-- It is related to no other alternative of the clause. -/
  alternatives : ∀ types ∈ caught, r.TakesPlace types →
    ∀ type ∈ types, isClassNamed r.legacy type = false →
    areRelated type r.newType = false
  /-- No later clause catches a type that can be assigned to it, and it can be
  assigned to no type that an earlier clause catches. -/
  order : caught.Pairwise fun earlier later =>
    (r.TakesPlace earlier → ∀ b ∈ later, isAssignable b r.newType = false) ∧
      (r.TakesPlace later → ∀ a ∈ earlier, isAssignable r.newType a = false)

variable {r : CatchRule} {types earlier later : List (Option JavaType)}

theorem isClassNamed_newType (r : CatchRule) :
    isClassNamed r.replacement.fqn r.newType = true :=
  beq_self_eq_true r.replacement.fqn

-- ========================================================== substitutions

/-- A substituted list has the types that are not the legacy one, and the
replacement if it took that one's place. -/
theorem mem_substituted_iff (hne : r.legacy ≠ r.replacement.fqn)
    {type : Option JavaType} : type ∈ r.substituted types ↔
      (type ∈ types ∧ isClassNamed r.legacy type = false) ∨
        (type = r.newType ∧ r.TakesPlace types) := by
  have hnew := r.not_isLegacy hne r.isClassNamed_newType
  unfold substituted
  split
  · next hr => simp [TakesPlace, hr]
  · next hr =>
    rw [Bool.not_eq_true] at hr
    rw [List.mem_map]
    constructor
    · rintro ⟨old, hold, rfl⟩
      by_cases hl : isClassNamed r.legacy old = true
      · rw [if_pos hl]
        exact .inr ⟨rfl, List.any_eq_true.2 ⟨old, hold, hl⟩, hr⟩
      · rw [if_neg hl]
        exact .inl ⟨hold, eq_false_of_ne_true hl⟩
    · rintro (⟨ht, hl⟩ | ⟨rfl, hl, -⟩)
      · exact ⟨type, ht, by rw [hl]; rfl⟩
      · obtain ⟨old, hold, hl⟩ := List.any_eq_true.1 hl
        exact ⟨old, hold, if_pos hl⟩

/-- The alternatives of a clause stay unrelated under a substitution just when
the replacement is unrelated to the others, if it comes in. -/
theorem pairwise_substituted_iff (hne : r.legacy ≠ r.replacement.fqn)
    (h : types.Pairwise fun a b => areRelated a b = false) :
    ((r.substituted types).Pairwise fun a b => areRelated a b = false) ↔
      (r.TakesPlace types → ∀ type ∈ types, isClassNamed r.legacy type = false →
        areRelated type r.newType = false) := by
  constructor
  · intro hs hplace type ht hl
    have hmem : type ∈ r.substituted types :=
      (mem_substituted_iff hne).2 (.inl ⟨ht, hl⟩)
    have hnew : r.newType ∈ r.substituted types :=
      (mem_substituted_iff hne).2 (.inr ⟨rfl, hplace⟩)
    have hdiff : type ≠ r.newType := by
      rintro rfl
      exact List.any_eq_false.1 hplace.2 _ ht r.isClassNamed_newType
    exact hs.forall hmem hnew hdiff
  · intro hfit
    unfold substituted
    split
    · exact h.filter _
    · next hr =>
      rw [Bool.not_eq_true] at hr
      rw [List.pairwise_map]
      refine h.imp_of_mem fun {a b} ha hb hab => ?_
      by_cases hla : isClassNamed r.legacy a = true <;> by_cases hlb :
        isClassNamed r.legacy b = true
      · rw [areRelated_eq_false_iff,
          isAssignable_of_isClassNamed_both hla hlb] at hab
        cases hab.1
      · rw [if_pos hla, if_neg hlb, areRelated_comm]
        exact hfit ⟨List.any_eq_true.2 ⟨a, ha, hla⟩, hr⟩ b hb
          (eq_false_of_ne_true hlb)
      · rw [if_neg hla, if_pos hlb]
        exact hfit ⟨List.any_eq_true.2 ⟨b, hb, hlb⟩, hr⟩ a ha
          (eq_false_of_ne_true hla)
      · rwa [if_neg hla, if_neg hlb]

/-- A clause with the legacy type has no later clause with it. -/
theorem isClassNamed_legacy_later
    (h : ∀ a ∈ earlier, ∀ b ∈ later, isAssignable b a = false)
    (he : earlier.any (isClassNamed r.legacy) = true) {b : Option JavaType}
    (hb : b ∈ later) :
    isClassNamed r.legacy b = false := by
  obtain ⟨a, ha, hla⟩ := List.any_eq_true.1 he
  refine eq_false_of_ne_true fun hlb => ?_
  have hab := h a ha b hb
  rw [isAssignable_of_isClassNamed_both hlb hla] at hab
  cases hab

/-- A clause with the legacy type has no earlier clause with it. -/
theorem isClassNamed_legacy_earlier
    (h : ∀ a ∈ earlier, ∀ b ∈ later, isAssignable b a = false)
    (hl : later.any (isClassNamed r.legacy) = true) {a : Option JavaType}
    (ha : a ∈ earlier) :
    isClassNamed r.legacy a = false := by
  refine eq_false_of_ne_true fun hla => ?_
  obtain ⟨b, hb, hlb⟩ := List.any_eq_true.1 hl
  have hnone := isClassNamed_legacy_later h (List.any_eq_true.2 ⟨a, ha, hla⟩) hb
  rw [hlb] at hnone
  cases hnone

/-- A substitution keeps the order of two clauses just when the replacement
fits between them. -/
theorem order_substituted_iff (hne : r.legacy ≠ r.replacement.fqn)
    (h : ∀ a ∈ earlier, ∀ b ∈ later, isAssignable b a = false) :
    (∀ a ∈ r.substituted earlier, ∀ b ∈ r.substituted later,
      isAssignable b a = false) ↔
      (r.TakesPlace earlier → ∀ b ∈ later, isAssignable b r.newType = false) ∧
        (r.TakesPlace later → ∀ a ∈ earlier,
          isAssignable r.newType a = false) := by
  constructor
  · intro hs
    refine ⟨fun hplace b hb => ?_, fun hplace a ha => ?_⟩
    · have hlb := isClassNamed_legacy_later h hplace.1 hb
      exact hs _ ((mem_substituted_iff hne).2 (.inr ⟨rfl, hplace⟩))
        _ ((mem_substituted_iff hne).2 (.inl ⟨hb, hlb⟩))
    · have hla := isClassNamed_legacy_earlier h hplace.1 ha
      exact hs _ ((mem_substituted_iff hne).2 (.inl ⟨ha, hla⟩))
        _ ((mem_substituted_iff hne).2 (.inr ⟨rfl, hplace⟩))
  · rintro ⟨hearlier, hlater⟩ a ha b hb
    rcases (mem_substituted_iff hne).1 ha with ⟨ha, -⟩ | ⟨rfl, hplace⟩ <;>
      rcases (mem_substituted_iff hne).1 hb with ⟨hb, -⟩ | ⟨rfl, hplace'⟩
    · exact h a ha b hb
    · exact hlater hplace' a ha
    · exact hearlier hplace b hb
    · -- the legacy type would stand in both clauses
      obtain ⟨b, hb, hlb⟩ := List.any_eq_true.1 hplace'.1
      rw [isClassNamed_legacy_later h hplace.1 hb] at hlb
      cases hlb

/-- A substitution keeps legal lists legal just when the replacement fits. -/
theorem isLegal_substituted_iff (hne : r.legacy ≠ r.replacement.fqn)
    {caught : List (List (Option JavaType))} (h : IsLegal caught) :
    IsLegal (caught.map r.substituted) ↔ r.Fits caught := by
  constructor
  · rintro ⟨halternatives, horder⟩
    refine ⟨fun types ht => ?_, ?_⟩
    · exact (pairwise_substituted_iff hne (h.alternatives types ht)).1
        (halternatives _ (List.mem_map_of_mem ht))
    · exact (h.order.and (List.pairwise_map.1 horder)).imp fun ⟨ho, hs⟩ =>
        (order_substituted_iff hne ho).1 hs
  · rintro ⟨halternatives, horder⟩
    refine ⟨List.forall_mem_map.2 fun types ht => ?_, List.pairwise_map.2 ?_⟩
    · exact (pairwise_substituted_iff hne (h.alternatives types ht)).2
        (halternatives types ht)
    · exact (h.order.and horder).imp fun ⟨ho, hf⟩ =>
        (order_substituted_iff hne ho).2 hf

-- ========================================================== augmentations

/-- An augmented list has the types it had, and the replacement besides if it
had the legacy type. -/
theorem mem_augmented_iff {type : Option JavaType} :
    type ∈ r.augmented types ↔
      type ∈ types ∨
      (type = r.newType ∧ types.any (isClassNamed r.legacy) = true) := by
  induction types with
  | nil => simp [augmented]
  | cons first types ih =>
      rw [augmented, List.any_cons]
      by_cases hl : isClassNamed r.legacy first = true
      · rw [if_pos hl, hl, List.mem_cons, Bool.true_or, or_comm,
          and_iff_left rfl]
      · rw [if_neg hl, List.mem_cons, ih, List.mem_cons, or_assoc,
          eq_false_of_ne_true hl, Bool.false_or]

/-- The alternatives of a clause stay unrelated under an augmentation by an
unrelated type. -/
theorem pairwise_augmented (hnew : ∀ type ∈ types, areRelated type r.newType =
    false) (h : types.Pairwise fun a b => areRelated a b = false) :
    (r.augmented types).Pairwise fun a b => areRelated a b = false := by
  induction types with
  | nil => exact .nil
  | cons type types ih =>
      obtain ⟨hfirst, hrest⟩ := List.forall_mem_cons.1 hnew
      obtain ⟨hfrom, hlater⟩ := List.pairwise_cons.1 h
      rw [augmented]
      split
      · refine List.pairwise_cons.2 ⟨fun b hb => ?_, h⟩
        rw [areRelated_comm]
        exact hnew b hb
      · refine List.pairwise_cons.2 ⟨fun b hb => ?_, ih hrest hlater⟩
        rcases mem_augmented_iff.1 hb with hb | ⟨rfl, -⟩
        · exact hfrom b hb
        · exact hfirst

/-- An augmentation by a type that is related to none that is caught keeps
legal lists legal. -/
theorem isLegal_augmented {caught : List (List (Option JavaType))}
    (hnew : ∀ types ∈ caught, ∀ type ∈ types, areRelated type r.newType = false)
    (h : IsLegal caught) : IsLegal (caught.map r.augmented) := by
  refine ⟨List.forall_mem_map.2 fun types ht => ?_,
    List.pairwise_map.2 (h.order.imp_of_mem ?_)⟩
  · exact pairwise_augmented (hnew types ht) (h.alternatives types ht)
  · intro earlier later hearlier hlater ho a ha b hb
    rcases mem_augmented_iff.1 ha with ha | ⟨rfl, hl⟩ <;>
      rcases mem_augmented_iff.1 hb with hb | ⟨rfl, hl'⟩
    · exact ho a ha b hb
    · exact (areRelated_eq_false_iff.1 (hnew earlier hearlier a ha)).2
    · exact (areRelated_eq_false_iff.1 (hnew later hlater b hb)).1
    · obtain ⟨b, hb, hlb⟩ := List.any_eq_true.1 hl'
      rw [isClassNamed_legacy_later ho hl hb] at hlb
      cases hlb

-- ================================================================= the run

/-- What is augmented catches nothing that is related to the replacement. -/
theorem not_areRelated_of_plan {t : Try Stmt} (h : r.plan t = .augmentation) :
    ∀ types ∈ t.caught, ∀ type ∈ types, areRelated type r.newType = false := by
  have hnone : r.catchesRelated t = false := by
    cases hg : r.catchesRelated t with
    | false => rfl
    | true =>
        unfold plan at h
        rw [hg] at h
        split at h
        · cases h
        · split at h <;> cases h
  intro types hts type ht
  rw [areRelated_comm]
  exact eq_false_of_ne_true
    (List.any_eq_false.1 (eq_false_of_ne_true
      (List.any_eq_false.1 hnone types hts)) type ht)

/-- A run keeps the catch lists legal that are, but for those in which it puts
the replacement in the place of the legacy type where it does not fit. -/
theorem isLegal_run (r : CatchRule) (hne : r.legacy ≠ r.replacement.fqn)
    (cp : ClassPath) (cu : CompilationUnit) :
    List.Forall₂
      (fun t t' => IsLegal t.caught →
        (IsLegal t'.caught ↔ (r.plan t = .substitution → r.Fits t.caught)))
      cu.tries (r.run cp cu).after.tries := by
  refine (tries_run hne cp cu).imp fun t t' h hlegal => ?_
  rw [h.caught]
  cases hplan : r.plan t with
  | unchanged =>
      have hsame : t.caught.map (r.retyped .unchanged) = t.caught :=
        List.map_id t.caught
      rw [hsame]
      exact iff_of_true hlegal fun hp => by cases hp
  | substitution =>
      rw [forall_prop_of_true rfl]
      exact isLegal_substituted_iff hne hlegal
  | augmentation =>
      exact iff_of_true (isLegal_augmented (not_areRelated_of_plan hplan)
        hlegal) fun hp => by
        cases hp

/-- In the sample the lists are legal and stay legal. -/
theorem isLegal_run_sample :
    sampleRule.legacy ≠ sampleRule.replacement.fqn ∧
      (∀ t ∈ (sampleUnit sampleText).tries, IsLegal t.caught) ∧
      (∀ t ∈
        (sampleRule.run sampleClassPath (sampleUnit sampleText)).after.tries,
        IsLegal t.caught) ∧
      List.Forall₂
        (fun t t' => IsLegal t.caught →
          (IsLegal t'.caught ↔ (sampleRule.plan t = .substitution →
            sampleRule.Fits t.caught))) (sampleUnit sampleText).tries
        (sampleRule.run sampleClassPath
          (sampleUnit sampleText)).after.tries := by
  have hne : sampleRule.legacy ≠ sampleRule.replacement.fqn :=
    Recipe.ne_ruleOf (by decide) sampleClassPath
  have hlegal : (∀ t ∈ (sampleUnit sampleText).tries, IsLegal t.caught) ∧
      ∀ t ∈
        (sampleRule.run sampleClassPath (sampleUnit sampleText)).after.tries,
        IsLegal t.caught := by decide +kernel
  exact ⟨hne, hlegal.1, hlegal.2, isLegal_run sampleRule hne sampleClassPath _⟩

/-- A file in which an earlier clause catches the replacement already. -/
def sampleCaughtBefore : String :=
  "import p.*;class A\x7bApi a;void f()\x7btry\x7ba.call();\x7dcatch(New n)\x7b\x7d" ++
    "catch(Old o)\x7b\x7d\x7d\x7d"

/-- A run makes a legal list illegal: the later clause comes to catch what the
earlier one does. -/
theorem isLegal_run_sample_not :
    (∀ t ∈ (sampleUnit sampleCaughtBefore).tries, IsLegal t.caught) ∧
      ¬∀ t ∈ (sampleRule.run sampleClassPath
        (sampleUnit sampleCaughtBefore)).after.tries, IsLegal t.caught := by
  decide +kernel

end CatchRule

end JavaRefit
