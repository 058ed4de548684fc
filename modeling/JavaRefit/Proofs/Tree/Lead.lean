/-
The trivia in front of a tree.

Names, written types and expressions that start with another tree keep
the trivia in front of it themselves. So they are given other trivia in
front without a look at what they start with, and taking the types away
makes no difference to it.

Chain: after `Untyped`; read where trees are put in the place of others.
-/
import JavaRefit.Proofs.Tree.Untyped

namespace JavaRefit

variable (lead lead' : Trivia)

-- ================================================================= names

namespace Name

variable (n : Name)

@[simp] theorem lead_withLead : (n.withLead lead).lead = lead := by
  cases n <;> rfl

@[simp] theorem withLead_withLead :
    (n.withLead lead).withLead lead' = n.withLead lead' := by
  cases n <;> rfl

@[simp] theorem withLead_lead : n.withLead n.lead = n := by
  cases n <;> rfl

/-- A name that has some trivia is as if given it. -/
theorem withLead_eq_self {n : Name} (h : n.lead = lead) :
    n.withLead lead = n := by
  rw [← h, withLead_lead]

@[simp] theorem lead_untyped : n.untyped.lead = n.lead := by
  cases n <;> rfl

@[simp] theorem untyped_withLead :
    (n.withLead lead).untyped = n.untyped.withLead lead := by
  cases n <;> rfl

/-- A chain made of words has no types. -/
theorem untyped_ofDotted (fqn : String) :
    (ofDotted fqn).untyped = ofDotted fqn := by
  have hfold (rest : List String) (n : Name) (h : n.untyped = n) :
      (rest.foldl (fun outer word => qualified "" outer ⟨"", ⟨"", word⟩⟩ none)
        n).untyped =
        rest.foldl (fun outer word => qualified "" outer ⟨"", ⟨"", word⟩⟩ none)
          n := by
    induction rest generalizing n with
    | nil => exact h
    | cons s rest ih => exact ih _ (by rw [untyped_qualified, h])
  rw [ofDotted]
  split
  · rfl
  · exact hfold _ _ rfl

end Name

-- ================================================================= lists

/-- The last element may be closed before or after a function is applied. -/
theorem RightPadded.map_closeLast {α β : Type} (f : α → β) (after : Trivia)
    (ps : List (RightPadded α)) :
    (closeLast after ps).map (.map f) = closeLast after (ps.map (.map f)) := by
  induction ps with
  | nil => rfl
  | cons p ps ih =>
      cases ps with
      | nil => rfl
      | cons q qs => exact congrArg (p.map f :: ·) ih

@[simp] theorem RightPadded.map_element_closeLast {α : Type} (after : Trivia)
    (ps : List (RightPadded α)) :
    (closeLast after ps).map RightPadded.element =
      ps.map RightPadded.element := by
  induction ps with
  | nil => rfl
  | cons p ps ih =>
      cases ps with
      | nil => rfl
      | cons q qs => exact congrArg (p.element :: ·) ih

-- ================================================================= types

namespace TypeTree

variable (t : TypeTree)

@[simp] theorem lead_withLead : (t.withLead lead).lead = lead := by
  cases t with
  | named n => exact n.lead_withLead lead
  | _ => rfl

@[simp] theorem withLead_withLead :
    (t.withLead lead).withLead lead' = t.withLead lead' := by
  cases t with
  | named n => exact congrArg named (n.withLead_withLead lead lead')
  | _ => rfl

@[simp] theorem withLead_lead : t.withLead t.lead = t := by
  cases t with
  | named n => exact congrArg named n.withLead_lead
  | _ => rfl

theorem withLead_eq_self {t : TypeTree} (h : t.lead = lead) :
    t.withLead lead = t := by
  rw [← h, withLead_lead]

@[simp] theorem lead_untyped : t.untyped.lead = t.lead := by
  cases t with
  | named n => exact n.lead_untyped
  | _ => rfl

@[simp] theorem untyped_withLead :
    (t.withLead lead).untyped = t.untyped.withLead lead := by
  cases t with
  | named n => exact congrArg named (n.untyped_withLead lead)
  | _ => rfl

end TypeTree

-- =========================================================== expressions

namespace Expr

variable (e : Expr)

@[simp] theorem lead_withLead : (e.withLead lead).lead = lead := by
  cases e <;> rfl

@[simp] theorem withLead_withLead :
    (e.withLead lead).withLead lead' = e.withLead lead' := by
  cases e <;> rfl

@[simp] theorem withLead_lead : e.withLead e.lead = e := by
  cases e <;> rfl

theorem withLead_eq_self {e : Expr} (h : e.lead = lead) :
    e.withLead lead = e := by
  rw [← h, withLead_lead]

@[simp] theorem lead_untyped : e.untyped.lead = e.lead := by
  cases e <;> rfl

@[simp] theorem untyped_withLead :
    (e.withLead lead).untyped = e.untyped.withLead lead := by
  cases e <;> rfl

end Expr

end JavaRefit
