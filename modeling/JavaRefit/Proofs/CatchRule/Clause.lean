/-
What the catch rule does to the declaration of one clause.

Both ways of changing a declaration are followed on the types it
catches: a substitution gives `substituted`, an augmentation `augmented`.
A substitution where the legacy type is caught is always a new
declaration.

Chain: after `Spec`; the proofs about whole `try` statements read it.
-/
import JavaRefit.Proofs.CatchRule.Spec
import JavaRefit.Proofs.Tree.Edit
import JavaRefit.Proofs.Tree.Lead

namespace JavaRefit

/-- The types named by a written type as that of a parameter: each of the
alternatives, or the only one. -/
def TypeTree.caught : TypeTree → List (Option JavaType)
  | .union _ alternatives => alternatives.map fun p => p.element.type
  | t => [t.type]

theorem Catch.caughtTypes_eq (c : Catch Stmt) :
    c.caughtTypes = c.declaration.typeTree.caught := by
  unfold caughtTypes
  cases c.declaration.typeTree <;> rfl

@[simp] theorem Catch.declaration_withDeclaration (c : Catch Stmt)
    (d : Variables) : (c.withDeclaration d).declaration = d := rfl

-- ==================================================== types and trivia

@[simp] theorem Name.type_withType (type : Option JavaType) (n : Name) :
    (n.withType type).type = type := by
  cases n <;> rfl

@[simp] theorem Name.type_withLead (lead : Trivia) (n : Name) :
    (n.withLead lead).type = n.type := by
  cases n <;> rfl

@[simp] theorem TypeTree.type_withLead (lead : Trivia) (t : TypeTree) :
    (t.withLead lead).type = t.type := by
  cases t <;> simp [withLead, type]

/-- A written type that has a type is no list of alternatives. -/
theorem TypeTree.caught_of_type {t : TypeTree} {type : JavaType}
    (h : t.type = some type) : t.caught = [some type] := by
  cases t with
  | union lead alternatives => cases h
  | _ => exact congrArg (fun t => [t]) h

theorem TypeTree.caught_of_not_union {t : TypeTree}
    (h : ∀ lead ps, t = .union lead ps → False) : t.caught = [t.type] := by
  cases t with
  | union lead ps => exact (h lead ps rfl).elim
  | _ => rfl

-- =============================================================== renaming

namespace Renaming

variable {ω : Type} (r : Renaming)

@[simp] theorem type_fullName (lead : Trivia) :
    (r.fullName lead).type = r.newType := by
  simp [fullName]

@[simp] theorem type_simple (i : Ident) : (r.simple i).type = r.newType := by
  unfold simple
  split
  · split
    · simp
    · rfl
  · rfl

/-- A type after the renaming. -/
def typeOf (type : Option JavaType) : Option JavaType :=
  if r.concerns type then r.newType else type

theorem type_name (n : Name) :
    (r.name n : Edited ω Name).value.type = r.typeOf n.type := by
  unfold name typeOf
  split
  · cases n with
    | simple i type => simp
    | qualified lead outer last type =>
        simp only [Edited.value_replace]
        split
        · simp
        · rfl
  · rfl

/-- A renamed name has the renamed type. -/
theorem type_editName (n : Name) :
    (n.edit (r.editor : Editor ω)).value.type = r.typeOf n.type := by
  cases n <;> exact r.type_name _

theorem type_typeTree {t : TypeTree} (h : ∀ n, t ≠ .named n) :
    (r.typeTree t : Edited ω TypeTree).value.type = r.typeOf t.type := by
  unfold typeTree typeOf
  split
  · cases t with
    | named n => exact absurd rfl (h n)
    | union lead alternatives =>
        simp_all [concerns, TypeTree.type, isClassNamed]
    | _ => rfl
  · rfl

/-- A renamed written type has the renamed type. -/
theorem type_editTypeTree (t : TypeTree) :
    (t.edit (r.editor : Editor ω)).value.type = r.typeOf t.type := by
  cases t with
  | named n => exact r.type_editName n
  | _ => exact r.type_typeTree (by simp)

/-- A written type that has the renamed class as its type is made anew. -/
theorem isNew_editTypeTree {t : TypeTree} (h : r.concerns t.type = true) :
    (t.edit (r.editor : Editor ω)).isNew = true := by
  have hn {n : Name} (h : r.concerns n.type = true) :
      (r.name n : Edited ω Name).isNew = true := by simp [name, h]
  have ht {t : TypeTree} (h : r.concerns t.type = true) :
      (r.typeTree t : Edited ω TypeTree).isNew = true := by simp [typeTree, h]
  cases t with
  | named n =>
      cases n with
      | simple i type => exact hn h
      | qualified lead outer last type =>
          exact Edited.isNew_andThen_of_right (hn h)
  | primitive lead keyword type => exact ht h
  | generic lead base args type => exact Edited.isNew_andThen_of_right (ht h)
  | array lead element dimension type =>
      exact Edited.isNew_andThen_of_right (ht h)
  | union lead alternatives => cases h

/-- A written type that is no list of alternatives catches its one type,
renamed. -/
theorem caught_typeTree {t : TypeTree} (hn : ∀ n, t ≠ .named n)
    (hu : ∀ lead ps, t ≠ .union lead ps) :
    (r.typeTree t : Edited ω TypeTree).value.caught = [r.typeOf t.type] := by
  unfold typeTree typeOf
  split
  · cases t with
    | named n => exact absurd rfl (hn n)
    | union lead ps => exact absurd rfl (hu lead ps)
    | _ => rfl
  · exact TypeTree.caught_of_not_union hu

/-- The types caught by a renamed written type. -/
theorem caught_editTypeTree (t : TypeTree) :
    (t.edit (r.editor : Editor ω)).value.caught = t.caught.map r.typeOf := by
  cases t with
  | union lead alternatives =>
      have hu : (TypeTree.edit (r.editor : Editor ω)
          (.union lead alternatives)).value =
          .union lead (TypeTree.editAll (r.editor : Editor ω)
            alternatives).value := rfl
      simp [hu, TypeTree.caught, TypeTree.editAll_value, RightPadded.map,
        type_editTypeTree]
  | named n => simp [TypeTree.caught, TypeTree.edit, TypeTree.type,
        type_editName]
  | _ => exact r.caught_typeTree (by simp) (by simp)

/-- Where the class to rename is caught, there is a new written type. -/
theorem isNew_of_caught {t : TypeTree} (h : t.caught.any r.concerns = true) :
    (t.edit (r.editor : Editor ω)).isNew = true := by
  cases t with
  | union lead alternatives =>
      obtain ⟨p, hp, hc⟩ : ∃ p ∈ alternatives,
          r.concerns p.element.type = true := by
        simpa [TypeTree.caught] using h
      have hs : (TypeTree.editAll (r.editor : Editor ω) alternatives).isNew =
          true := by
        rw [TypeTree.isNew_editAll, List.any_eq_true]
        exact ⟨p, hp, r.isNew_editTypeTree hc⟩
      simp [TypeTree.edit, hs]
  | _ => exact r.isNew_editTypeTree (by simpa [TypeTree.caught] using h)

end Renaming

-- ============================================================ declarations

namespace CatchRule

variable {ω : Type} (r : CatchRule) (qualified : Bool)

theorem typeOf_rename (type : Option JavaType) :
    (r.rename qualified).typeOf type = if isClassNamed r.legacy type
      then r.newType else type := rfl

/-- The alternatives that are left once the legacy type is dropped. -/
theorem types_dropLegacy (ps : List (RightPadded TypeTree)) :
    (r.dropLegacy ps).map (fun p => p.element.type) =
      (ps.map fun p => p.element.type).filter fun type =>
        !isClassNamed r.legacy type := by
  have hfirst (lead : Trivia) (qs : List (RightPadded TypeTree)) :
      (withFirstLead lead qs).map (fun p => p.element.type) = qs.map fun p =>
        p.element.type := by
    cases qs <;> simp [withFirstLead]
  have hlast (after : Trivia) (qs : List (RightPadded TypeTree)) :
      (RightPadded.closeLast after qs).map (fun p => p.element.type) =
        qs.map fun p => p.element.type := by
    have h := congrArg (List.map TypeTree.type)
      (RightPadded.map_element_closeLast after qs)
    rwa [List.map_map, List.map_map] at h
  simp only [dropLegacy, hlast, hfirst, List.filter_map]
  rfl

/-- The types caught once the legacy type is dropped from alternatives that
have the replacement. -/
theorem caught_dropFrom (hne : r.legacy ≠ r.replacement.fqn) (d : Variables)
    (lead : Trivia) {ps : List (RightPadded TypeTree)}
    (h : ps.any (fun p => isClassNamed r.replacement.fqn p.element.type) =
      true) :
    (r.dropFrom d lead ps).typeTree.caught =
      (ps.map fun p => p.element.type).filter fun type =>
        !isClassNamed r.legacy type := by
  rw [← r.types_dropLegacy ps]
  unfold dropFrom
  split
  · -- the one that is left is the replacement, so it is no list of
    -- alternatives in turn
    next only heq =>
    obtain ⟨p, hp, hr⟩ := List.any_eq_true.1 h
    have hm : p.element.type ∈ (r.dropLegacy ps).map fun p =>
        p.element.type := by
      rw [r.types_dropLegacy ps]
      exact List.mem_filter.2 ⟨List.mem_map_of_mem hp,
        by simp [r.not_isLegacy hne hr]⟩
    rw [heq, List.map_singleton, List.mem_singleton] at hm
    obtain ⟨c, hc, -⟩ := isClassNamed_iff.1 hr
    rw [heq, List.map_singleton, ← hm, hc]
    exact TypeTree.caught_of_type (by rw [TypeTree.type_withLead, ← hm, hc])
  · rfl

/-- The tree made for the replacement stands for it. -/
theorem type_replacementFor {t : TypeTree}
    (h : isClassNamed r.legacy t.type = true) :
    (r.replacementFor qualified t).type = r.newType := by
  rw [replacementFor, Renaming.type_editTypeTree, typeOf_rename, if_pos h]

/-- The alternatives once the replacement is put in front of the legacy type. -/
theorem types_insertBeforeLegacy (isFirst : Bool)
    (ps : List (RightPadded TypeTree)) :
    (r.insertBeforeLegacy qualified isFirst ps).map (fun p => p.element.type) =
      r.augmented (ps.map fun p => p.element.type) := by
  induction ps generalizing isFirst with
  | nil => rfl
  | cons p ps ih =>
      simp only [insertBeforeLegacy, isLegacy, List.map_cons, augmented]
      by_cases h : isClassNamed r.legacy p.element.type = true
      · cases isFirst <;> simp [h, r.type_replacementFor qualified h]
      · simp [h, ih]

theorem caught_edit_rename (d : Variables) :
    (d.edit ((r.rename qualified).editor : Editor ω)).value.typeTree.caught =
      d.typeTree.caught.map fun type =>
        if isClassNamed r.legacy type then r.newType else type :=
  (r.rename qualified).caught_editTypeTree d.typeTree

/-- A substitution in a declaration does to the caught types what it has to. -/
theorem caught_substituteIn (hne : r.legacy ≠ r.replacement.fqn)
    (d : Variables) :
    (r.substituteIn qualified d : Edited ω Variables).value.typeTree.caught =
      r.substituted d.typeTree.caught := by
  unfold substituteIn
  split
  · next lead ps heq =>
    have hp : d.typeTree.caught.any (isClassNamed r.replacement.fqn) =
        ps.any fun p => isClassNamed r.replacement.fqn p.element.type := by
      rw [heq, TypeTree.caught, List.any_map]
      rfl
    split
    · next h =>
      rw [Edited.value_replace, r.caught_dropFrom hne d lead h, substituted,
        if_pos (hp.trans h), heq]
      rfl
    · next h =>
      rw [caught_edit_rename, substituted, if_neg (by rwa [hp])]
  · next hu =>
    rw [caught_edit_rename, TypeTree.caught_of_not_union hu]
    by_cases h : isClassNamed r.replacement.fqn d.typeTree.type = true
    · simp [substituted, h, r.not_isLegacy hne h]
    · simp [substituted, h]

/-- A substitution in a declaration that catches the legacy type gives a new
one. -/
theorem isNew_substituteIn {d : Variables}
    (h : d.typeTree.caught.any (isClassNamed r.legacy) = true) :
    (r.substituteIn qualified d : Edited ω Variables).isNew = true := by
  have ht : (d.typeTree.edit ((r.rename qualified).editor : Editor ω)).isNew =
      true :=
    (r.rename qualified).isNew_of_caught h
  have hd : (d.edit ((r.rename qualified).editor : Editor ω)).isNew = true := by
    simp [Variables.edit, ht]
  unfold substituteIn
  split
  · split
    · rfl
    · exact hd
  · exact hd

/-- An augmentation of a declaration that catches the legacy type does to the
caught types what it has to. -/
theorem caught_augmentIn {d : Variables}
    (h : d.typeTree.caught.any (isClassNamed r.legacy) = true) :
    (r.augmentIn qualified d).typeTree.caught =
      r.augmented d.typeTree.caught := by
  unfold augmentIn
  split
  · next lead ps heq =>
    rw [heq]
    exact r.types_insertBeforeLegacy qualified true ps
  · next hu =>
    rw [TypeTree.caught_of_not_union hu] at h ⊢
    have hl : isClassNamed r.legacy d.typeTree.type = true := by simpa using h
    simp [TypeTree.caught, augmented, hl, r.type_replacementFor qualified hl]

end CatchRule

end JavaRefit
