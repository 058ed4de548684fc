/-
Renaming does not look at trivia.

What a renaming puts in the place of a node depends on the words and the
type of the node, and adds no trivia: blanking a node and renaming it is
renaming it and blanking the result.

Chain: after `BlankEdit` and the types of blank trees; the catch rule
renames with it.
-/
import JavaRefit.Proofs.Attribution.Blank
import JavaRefit.Proofs.Tree.BlankEdit
import JavaRefit.Rename

namespace JavaRefit

-- ================================================================= leads

theorem Name.withLead_blank (n : Name) : n.blank.withLead "" = n.blank := by
  cases n <;> rfl

/-- A chain made of words is blank. -/
theorem Name.blank_ofDotted (fqn : String) :
    (ofDotted fqn).blank = ofDotted fqn := by
  have hfold (rest : List String) (n : Name) (h : n.blank = n) :
      (rest.foldl (fun outer word => qualified "" outer ⟨"", ⟨"", word⟩⟩ none)
        n).blank =
        rest.foldl (fun outer word => qualified "" outer ⟨"", ⟨"", word⟩⟩ none)
          n := by
    induction rest generalizing n with
    | nil => exact h
    | cons s rest ih =>
        refine ih _ ?_
        rw [blank_qualified, h]
        rfl
  rw [ofDotted]
  split
  · rfl
  · exact hfold _ _ rfl

/-- A blank name is a blank chain of words. -/
theorem Expr.ofName_blank (n : Name) :
    Expr.ofName n.blank = (Expr.ofName n).blank := by
  induction n with
  | simple i type => rfl
  | qualified lead outer last type ih =>
      rw [Name.blank_qualified, ofName, ofName, blank_access, ih]

namespace Renaming

variable {ω : Type} (r : Renaming)

-- ================================================================== words

/-- The new name in full, without trivia. -/
theorem fullName_blank (lead : Trivia) :
    r.fullName "" = (r.fullName lead).blank := by
  rw [fullName, fullName, ← Name.withType_blank, Name.blank_withLead,
    Name.blank_ofDotted, ← Name.blank_ofDotted, Name.withLead_blank]

/-- What a simple name is renamed to, without trivia. -/
theorem simple_blank (i : Ident) : r.simple i.blank = (r.simple i).blank := by
  unfold simple
  rw [show i.blank.name = i.name from rfl]
  split
  · split
    · exact r.fullName_blank i.lead
    · rfl
  · rfl

-- ================================================================== nodes

/-- A choice between another node and the node itself, made for blank ones. -/
theorem ite_replace_keep {α : Type} {blank : α → α} {b : Bool}
    {new new' a a' : α} (hnew : new' = blank new) (ha : a' = blank a) :
    (if b then Edited.replace new' else .keep a' : Edited ω α) =
      blank <$> (if b then .replace new else .keep a) := by
  rw [hnew, ha]
  split <;> rfl

/-- Names are renamed before or after the trivia go. -/
theorem commutes_name :
    Commutes Name.blank (r.name : Name → Edited ω Name) := by
  intro n
  unfold name
  rw [Name.type_blank]
  refine ite_replace_keep ?_ rfl
  cases n with
  | simple i type => exact r.simple_blank i
  | qualified lead outer last type =>
      have hdotted := (Name.qualified lead outer last type).dotted_blank
      rw [Name.blank_qualified] at hdotted ⊢
      dsimp only
      rw [hdotted]
      split
      · exact r.fullName_blank lead
      · rfl

/-- Types are renamed before or after the trivia go. -/
theorem commutes_typeTree :
    Commutes TypeTree.blank (r.typeTree : TypeTree → Edited ω TypeTree) := by
  intro t
  unfold typeTree
  rw [TypeTree.type_blank]
  refine ite_replace_keep ?_ rfl
  cases t with
  | generic lead base args type =>
      rw [TypeTree.blank_generic, TypeTree.blank_generic]
  | union lead alternatives => rw [TypeTree.blank_union]
  | named | primitive | array => rfl

/-- Expressions are renamed before or after the trivia go. -/
theorem commutes_expr :
    Commutes Expr.blank (r.expr : Expr → Edited ω Expr) := by
  intro e
  cases e with
  | ident i type =>
      exact ite_replace_keep ((congrArg Expr.ofName (r.simple_blank i)).trans
        (Expr.ofName_blank _))
        rfl
  | access lead target name type =>
      have hdotted := (Expr.access lead target name type).dotted?_blank
      rw [Expr.blank_access] at hdotted ⊢
      refine ite_replace_keep ?_ rfl
      dsimp only
      rw [hdotted]
      split
      · exact (congrArg Expr.ofName (r.fullName_blank lead)).trans
          (Expr.ofName_blank _)
      · rfl
  | call lead select name args method =>
      rw [Expr.blank_call]
      exact congrArg Edited.keep (Expr.blank_call ..).symm
  | new lead base args constructor type =>
      rw [Expr.blank_new]
      exact ite_replace_keep (Expr.blank_new ..).symm (Expr.blank_new ..).symm
  | literal | assign | binary | unary | parens => exact ite_replace_keep rfl rfl

/-- Declared variables are renamed before or after the trivia go. -/
theorem commutes_declarator :
    Commutes Variable.blank (r.declarator : Variable → Edited ω Variable) := by
  intro v
  rw [Variable.blank_eq]
  exact ite_replace_keep (Variable.blank_eq { v with type := r.newType }).symm
    v.blank_eq.symm

/-- Declared classes are renamed before or after the trivia go. -/
theorem commutes_classDecl :
    Commutes ClassDecl.blank (r.classDecl : JavaClass →
      Edited ω JavaClass) := by
  intro c
  rw [ClassDecl.blank_eq]
  exact ite_replace_keep (ClassDecl.blank_eq { c with type := r.newType }).symm
    c.blank_eq.symm

/-- A renaming ignores trivia. -/
theorem ignoresTrivia : (r.editor : Editor ω).IgnoresTrivia where
  name := r.commutes_name.ignores
  typeTree := r.commutes_typeTree.ignores
  expr := r.commutes_expr.ignores
  declarator := r.commutes_declarator.ignores
  classDecl := r.commutes_classDecl.ignores

end Renaming

end JavaRefit
