/-
When a renaming changes a tree.

A node is renamed by its own type alone, that is by the field it has for a
type and not by a type it has from its parts. No child of it has any part
in that, and a node that is rebuilt keeps its own type. So a renamed tree
is another one just where a node of it has the class as its own type
(`Renaming.isNew_edit_iff`).

Chain: after `Rewrite` of trees; read by what is said of changes in all.
-/
import JavaRefit.Proofs.Tree.Rewrite
import JavaRefit.Rename

namespace JavaRefit

-- ============================================================== own types

/-- The type a node has in a field of its own. A call has none, and a
declaration is typed by what is written there. -/
def Node.typeField? : Node → Option JavaType
  | .name n => n.type
  | .typeTree t => t.type
  | .expr (.call ..) => none
  | .expr e => e.type
  | .declarator v => v.type
  | .classDecl c => c.type
  | _ => none

variable {ω : Type}

/-- The type a node carries is no matter of what its parts become. -/
theorem Node.typeField?_rebuilt {r : Editor ω} {n : Node} (hn : n.IsProper) :
    (n.rebuilt r).typeField? = n.typeField? := by
  cases hn with
  | name n => cases n <;> rfl
  | @typeTree t h => cases t <;> rfl
  | expr e => cases e <;> rfl
  | _ => rfl

-- ================================================================ honesty

namespace Edited

variable {α : Type} (c : Bool) (a b : α)

/-- A choice between replacing and keeping is new iff it replaces. -/
theorem isNew_ite :
    (if c then .replace a else .keep b : Edited ω α).isNew = c := by
  cases c <;> rfl

/-- A choice between replacing and keeping is honest. -/
theorem honest_ite :
    (if c then .replace a else .keep b : Edited ω α).Honest b := by
  intro h
  rw [isNew_ite] at h
  rw [h]
  rfl

end Edited

namespace Renaming

variable (r : Renaming)

/-- A renaming gives back what it does not rename. -/
theorem honest_editor : (r.editor : Editor ω).Honest where
  ident := .keep
  name _ := Edited.honest_ite _ _ _
  typeTree _ := Edited.honest_ite _ _ _
  expr e := by
    cases e with
    | call => exact .keep _
    | _ => exact Edited.honest_ite _ _ _
  modifier := .keep
  declarator _ := Edited.honest_ite _ _ _
  declaration := .keep
  condition := .keep
  parameter := .keep
  catchClause := .keep
  elseBranch := .keep
  block := .keep
  stmt := .keep
  method := .keep
  classBody := .keep
  classDecl _ := Edited.honest_ite _ _ _
  package := .keep
  importDecl := .keep
  unit := .keep

-- ================================================================ changes

theorem isNew_name (n : Name) :
    (r.name n : Edited ω Name).isNew = r.concerns n.type :=
  Edited.isNew_ite _ _ _

theorem isNew_typeTree (t : TypeTree) :
    (r.typeTree t : Edited ω TypeTree).isNew = r.concerns t.type :=
  Edited.isNew_ite _ _ _

/-- An expression is new iff the type it carries is renamed. -/
theorem isNew_expr (e : Expr) :
    (r.expr e : Edited ω Expr).isNew = r.concerns (Node.expr e).typeField? := by
  cases e with
  | call => rfl
  | _ => exact Edited.isNew_ite _ _ _

/-- A declared variable is new iff its type is renamed. -/
theorem isNew_declarator (v : Variable) :
    (r.declarator v : Edited ω Variable).isNew = r.concerns v.type :=
  Edited.isNew_ite _ _ _

theorem isNew_classDecl (c : JavaClass) :
    (r.classDecl c : Edited ω JavaClass).isNew = r.concerns c.type :=
  Edited.isNew_ite _ _ _

/-- A single node is renamed where its own type is the class. -/
theorem isNew_onNode (n : Node) :
    ((r.editor : Editor ω).onNode n).isNew = r.concerns n.typeField? := by
  cases n with
  | name n => exact r.isNew_name n
  | typeTree t => exact r.isNew_typeTree t
  | expr e => exact r.isNew_expr e
  | declarator v => exact r.isNew_declarator v
  | classDecl c => exact r.isNew_classDecl c
  | _ => rfl

/-- A renamed tree is another one just where a node of it has the class as its
own type. -/
theorem isNew_edit_iff {n : Node} (hn : n.IsProper) :
    (n.edit (r.editor : Editor ω)).isNew = true ↔ ∃ m ∈ n.walk,
      r.concerns m.typeField? = true := by
  rw [Node.isNew_edit_iff hn]
  refine exists_congr fun m => and_congr_right fun hm => ?_
  rw [isNew_onNode, Node.typeField?_rebuilt (Node.isProper_of_mem_walk hn hm)]

end Renaming

end JavaRefit
