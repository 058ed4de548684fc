/-
One node in an edit.

An edit goes from the leaves up. A node is rebuilt from its edited
children (`Node.rebuilt`), and what comes of that is given to the editor's
function for nodes of its sort (`Node.applied`). So the children of a
rebuilt node are the edited children of the node it was, and where the
functions leave the children of what they are given, a whole tree is
walked after an edit as it was before. So it is with a tree that loses its
types (`Node.untyped`).

Chain: after `Place`; an editor is known by what it does to single nodes.
-/
import Mathlib.Data.List.Basic
import JavaRefit.Proofs.Tree.Place
import JavaRefit.Proofs.Tree.Untyped
import JavaRefit.Tree.Edit

namespace JavaRefit

variable {ω : Type} (r : Editor ω)

-- ============================================================== one node

/-- A name with its parts edited, itself not yet. -/
def Name.rebuilt : Name → Name
  | .simple i type => .simple i type
  | .qualified lead outer last type =>
    .qualified lead (outer.edit r).value (last.editIdent r).value type

/-- A type with its parts edited, itself not yet. -/
def TypeTree.rebuilt : TypeTree → TypeTree
  | .named n => .named n
  | .generic lead base args type =>
    .generic lead (base.edit r).value
      ⟨args.before, (TypeTree.editAll r args.elements).value, args.close⟩ type
  | .primitive lead keyword type => .primitive lead keyword type
  | .array lead element dimension type =>
      .array lead (element.edit r).value dimension type
  | .union lead alternatives =>
      .union lead (TypeTree.editAll r alternatives).value

/-- An expression with its operands edited, itself not yet. -/
def Expr.rebuilt : Expr → Expr
  | .ident i type => .ident i type
  | .access lead target last type =>
    .access lead (target.edit r).value (last.editIdent r).value type
  | .call lead select name args method =>
    .call lead (Expr.editSelect r select).value (r.ident name).value
      ⟨args.before, (Expr.editAll r args.elements).value, args.close⟩ method
  | .new lead base args constructor type =>
    .new lead (base.edit r).value ⟨args.before,
      (Expr.editAll r args.elements).value, args.close⟩
      constructor type
  | .literal lead text type => .literal lead text type
  | .assign lead target value type =>
    .assign lead (target.edit r).value ⟨value.before,
      (value.element.edit r).value⟩ type
  | .binary lead left operator right type =>
    .binary lead (left.edit r).value operator (right.edit r).value type
  | .unary lead operator operand type =>
      .unary lead operator (operand.edit r).value type
  | .parens lead inner type =>
      .parens lead ⟨(inner.element.edit r).value, inner.after⟩ type

/-- An annotation with its name and arguments edited, itself not yet. -/
def Modifier.rebuilt : Modifier → Modifier
  | .keyword lead word => .keyword lead word
  | .annotated lead name none => .annotated lead (name.edit r).value none
  | .annotated lead name (some args) =>
    .annotated lead (name.edit r).value
      (some ⟨args.before, (Expr.editAll r args.elements).value, args.close⟩)

/-- A statement with its parts edited, itself not yet. -/
def Stmt.rebuilt : Stmt → Stmt
  | .block b => .block b
  | .declaration d => .declaration d
  | .expr e => .expr e
  | .empty lead => .empty lead
  | .tryCatch t => .tryCatch (Try.editParts r t).value
  | .throwing lead exception => .throwing lead (exception.edit r).value
  | .returning lead none => .returning lead none
  | .returning lead (some value) => .returning lead (some (value.edit r).value)
  | .ifElse lead condition thenPart elsePart =>
    .ifElse lead (Expr.editCondition r condition).value
      ⟨(thenPart.element.edit r).value, thenPart.after⟩
        (Stmt.editElse r elsePart).value
  | .whileLoop lead condition body =>
    .whileLoop lead (Expr.editCondition r condition).value
      ⟨(body.element.edit r).value, body.after⟩

namespace Node

/-- The node with the edit made in it and in all below it. -/
def edited : Node → Node
  | ident i => .ident (r.ident i).value
  | name n => .name (n.edit r).value
  | typeTree t => (t.edit r).value.node
  | expr e => .expr (e.edit r).value
  | modifier m => .modifier (m.edit r).value
  | declarator v => .declarator (v.edit r).value
  | declaration d => .declaration (d.edit r).value
  | condition c => .condition (Expr.editCondition r c).value
  | parameter c => .parameter (Variables.editParameter r c).value
  | catchClause c => .catchClause (c.edit r).value
  | elseBranch e => .elseBranch (e.edit r).value
  | block b => .block (Stmt.editBlock r b).value
  | stmt s => (s.edit r).value.node
  | method m => .method (m.edit r).value
  | classBody b => .classBody (Member.editBlock r b).value
  | classDecl c => .classDecl (c.edit r).value
  | package p => .package (r.package ⟨p.lead, (p.name.edit r).value⟩).value
  | importDecl i =>
      .importDecl (r.importDecl ⟨i.lead, i.static?,
        (i.name.edit r).value⟩).value
  | unit cu => .unit (cu.edit r).value

/-- The node with edited children, itself as it was. -/
def rebuilt : Node → Node
  | ident i => .ident i
  | name n => .name (n.rebuilt r)
  | typeTree t => .typeTree (t.rebuilt r)
  | expr e => .expr (e.rebuilt r)
  | modifier m => .modifier (m.rebuilt r)
  | declarator v =>
    .declarator ⟨v.lead, (v.name.edit r).value,
      (LeftPadded.editExpr r v.initializer).value, v.type⟩
  | declaration d =>
    .declaration ⟨d.lead, (Modifier.editAll r d.modifiers).value,
      (d.typeTree.edit r).value, (Variable.editAll r d.declarators).value⟩
  | condition c =>
      .condition ⟨c.lead, ⟨(c.inner.element.edit r).value, c.inner.after⟩⟩
  | parameter c =>
      .parameter ⟨c.lead, ⟨(c.inner.element.edit r).value, c.inner.after⟩⟩
  | catchClause c =>
    .catchClause ⟨c.lead, (Variables.editParameter r c.parameter).value,
      (Stmt.editBlock r c.body).value⟩
  | elseBranch e =>
      .elseBranch ⟨e.lead, ⟨(e.body.element.edit r).value, e.body.after⟩⟩
  | block b => .block ⟨b.lead, (Stmt.editAll r b.statements).value, b.close⟩
  | stmt s => .stmt (s.rebuilt r)
  | method m =>
    .method ⟨m.lead, (Modifier.editAll r m.modifiers).value,
      (TypeTree.editOption r m.returnType).value, (r.ident m.name).value,
      ⟨m.parameters.before, (Variables.editAll r m.parameters.elements).value,
        m.parameters.close⟩,
      (TypeTree.editList r m.throws).value,
      (Stmt.editBody r m.body).value, m.type⟩
  | classBody b =>
      .classBody ⟨b.lead, (Member.editAll r b.statements).value, b.close⟩
  | classDecl c =>
    .classDecl ⟨c.lead, (Modifier.editAll r c.modifiers).value,
      c.kindLead, c.kind,
      (c.name.edit r).value, (TypeTree.editList r c.extends?).value,
      (TypeTree.editList r c.implements?).value,
      (Member.editBlock r c.body).value, c.type⟩
  | package p => .package ⟨p.lead, (p.name.edit r).value⟩
  | importDecl i => .importDecl ⟨i.lead, i.static?, (i.name.edit r).value⟩
  | unit cu =>
    .unit ⟨cu.lead, (Package.edit r cu.package?).value,
      (Import.editAll r cu.imports).value,
      (ClassDecl.editAll r cu.classes).value, cu.close, cu.path⟩

/-- What the editor's functions make of the node alone. -/
def applied : Node → Node
  | ident i => .ident (r.ident i).value
  | name n => .name (r.name n).value
  | typeTree t => (r.typeTree t).value.node
  | expr e => .expr (r.expr e).value
  | modifier m => .modifier (r.modifier m).value
  | declarator v => .declarator (r.declarator v).value
  | declaration d => .declaration (r.declaration d).value
  | condition c => .condition (r.condition c).value
  | parameter c => .parameter (r.parameter c).value
  | catchClause c => .catchClause (r.catchClause c).value
  | elseBranch e => .elseBranch (r.elseBranch e).value
  | block b => .block (r.block b).value
  | stmt s => (r.stmt s).value.node
  | method m => .method (r.method m).value
  | classBody b => .classBody (r.classBody b).value
  | classDecl c => .classDecl (r.classDecl c).value
  | package p => .package (r.package p).value
  | importDecl i => .importDecl (r.importDecl i).value
  | unit cu => .unit (r.unit cu).value

variable {r}

/-- An edit rebuilds a node and then does to it what is done to nodes of its
sort. -/
theorem edited_eq {n : Node} (hn : n.IsProper) :
    n.edited r = (n.rebuilt r).applied r := by
  cases hn with
  | name n => cases n <;> rfl
  | @typeTree t h =>
      cases t with
      | named n => exact absurd rfl (h n)
      | _ => rfl
  | expr e => cases e <;> rfl
  | modifier m =>
      cases m with
      | keyword lead word => rfl
      | annotated lead name args => cases args <;> rfl
  | @stmt s hb hd he =>
      cases s with
      | block b => exact absurd rfl (hb b)
      | declaration d => exact absurd rfl (hd d)
      | expr e => exact absurd rfl (he e)
      | returning lead value => cases value <;> rfl
      | _ => rfl
  | catchClause c => rw [edited, Catch.edit]; rfl
  | elseBranch e => rw [edited, Else.edit]; rfl
  | block b => rw [edited, Stmt.editBlock]; rfl
  | classBody b => rw [edited, Member.editBlock]; rfl
  | classDecl c => rw [edited, ClassDecl.edit]; rfl
  | _ => rfl

/-- A rebuilt node is of its sort. -/
theorem isProper_rebuilt {n : Node} (hn : n.IsProper) :
    (n.rebuilt r).IsProper := by
  cases hn with
  | @typeTree t h =>
      cases t with
      | named n => exact absurd rfl (h n)
      | _ => exact .typeTree nofun
  | @stmt s hb hd he =>
      cases s with
      | block b => exact absurd rfl (hb b)
      | declaration d => exact absurd rfl (hd d)
      | expr e => exact absurd rfl (he e)
      | returning lead value => cases value <;> exact .stmt nofun nofun nofun
      | _ => exact .stmt nofun nofun nofun
  | _ => constructor

/-- An edited node is of some sort. -/
theorem isProper_edited {n : Node} (hn : n.IsProper) :
    (n.edited r).IsProper := by
  cases hn with
  | typeTree h => exact TypeTree.isProper_node _
  | stmt _ _ _ => exact Stmt.isProper_node _
  | _ => constructor

end Node

-- ============================================================== children

theorem TypeTree.edited_node (t : TypeTree) :
    t.node.edited r = (t.edit r).value.node := by
  cases t <;> rfl

theorem Stmt.edited_node (s : Stmt) :
    s.node.edited r = (s.edit r).value.node := by
  cases s <;> rfl

theorem Member.edited_node (m : Member) :
    m.node.edited r = (m.edit r).value.node := by
  cases m <;> rfl

theorem TypeTree.children_node (t : TypeTree) :
    t.node.children = Node.typeTreeChildren t := by
  cases t <;> rfl

theorem Stmt.children_node (s : Stmt) :
    s.node.children = Node.stmtChildren s := by
  cases s <;> rfl

namespace Node

variable {r}

/-- The nodes of edited types in a row are the edited nodes. -/
theorem map_edited_types (ps : List (RightPadded TypeTree)) :
    ((TypeTree.editAll r ps).value.map fun p => p.element.node) =
      (ps.map fun p => p.element.node).map (edited r) := by
  rw [TypeTree.editAll_value, List.map_map, List.map_map]
  exact List.map_congr_left fun p _ => (TypeTree.edited_node r p.element).symm

theorem map_edited_list (o : Option (Container TypeTree)) :
    TypeTree.listNodes (TypeTree.editList r o).value =
      (TypeTree.listNodes o).map (edited r) := by
  cases o with
  | none => rfl
  | some c =>
      have h := map_edited_types (r := r) c.elements
      simp only [TypeTree.editList, TypeTree.listNodes, Container.items,
        List.map_map] at h ⊢
      exact h

theorem map_edited_exprs (ps : List (RightPadded Expr)) :
    ((Expr.editAll r ps).value.map fun p => expr p.element) =
      (ps.map fun p => expr p.element).map (edited r) := by
  rw [Expr.editAll_value, List.map_map, List.map_map]
  rfl

theorem map_edited_modifiers (ms : List Modifier) :
    (Modifier.editAll r ms).value.map modifier =
      (ms.map modifier).map (edited r) := by
  rw [Modifier.editAll_value, List.map_map, List.map_map]
  rfl

theorem map_edited_variables (ps : List (RightPadded Variable)) :
    ((Variable.editAll r ps).value.map fun p => declarator p.element) =
      (ps.map fun p => declarator p.element).map (edited r) := by
  rw [Variable.editAll_value, List.map_map, List.map_map]
  rfl

/-- The nodes of edited statements in a row are the edited nodes. -/
theorem map_edited_statements (ps : List (RightPadded Stmt)) :
    ((Stmt.editAll r ps).value.map fun p => p.element.node) =
      (ps.map fun p => p.element.node).map (edited r) := by
  rw [Stmt.editAll_value, List.map_map, List.map_map]
  exact List.map_congr_left fun p _ => (Stmt.edited_node r p.element).symm

/-- The nodes of edited members in a row are the edited nodes. -/
theorem map_edited_members (ps : List (RightPadded Member)) :
    ((Member.editAll r ps).value.map fun p => p.element.node) =
      (ps.map fun p => p.element.node).map (edited r) := by
  rw [Member.editAll_value, List.map_map, List.map_map]
  exact List.map_congr_left fun p _ => (Member.edited_node r p.element).symm

/-- The children of a rebuilt type are the edited children. -/
theorem typeTreeChildren_rebuilt {t : TypeTree} (h : ∀ n, t ≠ .named n) :
    typeTreeChildren (t.rebuilt r) = (typeTreeChildren t).map (edited r) := by
  cases t with
  | named n => exact absurd rfl (h n)
  | generic lead base args type =>
      have hargs := map_edited_types (r := r) args.elements
      simp only [typeTreeChildren, Container.items, List.map_map,
        List.map_cons] at hargs ⊢
      exact congrArg _ hargs
  | primitive lead keyword type => rfl
  | array lead element dimension type =>
      exact congrArg (fun n => [n]) (TypeTree.edited_node r element).symm
  | union lead alternatives => exact map_edited_types alternatives

/-- The children of a rebuilt expression are the edited children. -/
theorem exprChildren_rebuilt (e : Expr) :
    exprChildren (e.rebuilt r) = (exprChildren e).map (edited r) := by
  cases e with
  | call lead select name args method =>
      have hargs := map_edited_exprs (r := r) args.elements
      simp only [Expr.rebuilt, exprChildren, Container.items, List.map_map,
        List.map_append, List.map_cons] at hargs ⊢
      cases select with
      | none => exact congrArg (ident (r.ident name).value :: ·) hargs
      | some p =>
          exact congrArg (.expr (p.element.edit r).value ::
            ident (r.ident name).value :: ·) hargs
  | new lead base args constructor type =>
      have hargs := map_edited_exprs (r := r) args.elements
      simp only [Expr.rebuilt, exprChildren, Container.items, List.map_map,
        List.map_cons, TypeTree.edited_node] at hargs ⊢
      exact congrArg (_ :: ·) hargs
  | _ => rfl

/-- The children of a rebuilt annotation are the edited children. -/
theorem modifierChildren_rebuilt (m : Modifier) :
    modifierChildren (m.rebuilt r) = (modifierChildren m).map (edited r) := by
  cases m with
  | keyword lead word => rfl
  | annotated lead name args =>
      cases args with
      | none => rfl
      | some c =>
          have hargs := map_edited_exprs (r := r) c.elements
          simp only [Modifier.rebuilt, modifierChildren, Option.toList_some,
            List.flatMap_singleton, Container.items, List.map_map,
            List.map_cons] at hargs ⊢
          exact congrArg (_ :: ·) hargs

/-- The children of a rebuilt statement are the edited children. -/
theorem stmtChildren_rebuilt {s : Stmt} (hb : ∀ b, s ≠ .block b)
    (hd : ∀ d, s ≠ .declaration d) (he : ∀ e, s ≠ .expr e) :
    stmtChildren (s.rebuilt r) = (stmtChildren s).map (edited r) := by
  cases s with
  | block b => exact absurd rfl (hb b)
  | declaration d => exact absurd rfl (hd d)
  | expr e => exact absurd rfl (he e)
  | empty lead => rfl
  | tryCatch t =>
      have hcatches : (Catch.editAll r t.catches).value.map catchClause =
          (t.catches.map catchClause).map (edited r) := by
        rw [Catch.editAll_value, List.map_map, List.map_map]
        rfl
      have hfinally : ((Stmt.editFinally r t.finally?).value.toList.map fun f =>
          block f.element) =
          (t.finally?.toList.map fun f => block f.element).map (edited r) := by
        cases t.finally? <;> rfl
      show tryChildren (Try.editParts r t).value = _
      simp only [stmtChildren, tryChildren, List.map_cons, List.map_append,
        ← hcatches, ← hfinally]
      rw [Try.editParts]
      rfl
  | throwing lead exception => rfl
  | returning lead value => cases value <;> rfl
  | ifElse lead c thenPart elsePart =>
      have helse : (Stmt.editElse r elsePart).value.toList.map elseBranch =
          (elsePart.toList.map elseBranch).map (edited r) := by
        cases elsePart <;> rfl
      simp only [Stmt.rebuilt, stmtChildren, List.map_cons, ← helse,
        Stmt.edited_node]
      rfl
  | whileLoop lead c body =>
      simp only [Stmt.rebuilt, stmtChildren, List.map_cons, Stmt.edited_node]
      rfl

/-- The children of a rebuilt node are its edited children. -/
theorem children_rebuilt {n : Node} (hn : n.IsProper) :
    (n.rebuilt r).children = n.children.map (edited r) := by
  cases hn with
  | ident i => rfl
  | name n => cases n <;> rfl
  | typeTree h => exact typeTreeChildren_rebuilt h
  | expr e => exact exprChildren_rebuilt e
  | modifier m => exact modifierChildren_rebuilt m
  | declarator v =>
      cases hv : v.initializer <;> simp only [rebuilt, children, hv] <;> rfl
  | declaration d =>
      show (Modifier.editAll r d.modifiers).value.map modifier ++
        (d.typeTree.edit r).value.node ::
          (Variable.editAll r d.declarators).value.map _ = _
      rw [map_edited_modifiers, map_edited_variables, ← TypeTree.edited_node]
      simp [children, variablesChildren]
  | condition c => rfl
  | parameter c => rfl
  | catchClause c => rfl
  | elseBranch e =>
      exact congrArg (fun n => [n]) (Stmt.edited_node r e.body.element).symm
  | block b => exact map_edited_statements b.statements
  | stmt hb hd he => exact stmtChildren_rebuilt hb hd he
  | method m =>
      have hreturn : (TypeTree.editOption r m.returnType).value.toList.map
          TypeTree.node =
          (m.returnType.toList.map TypeTree.node).map (edited r) := by
        cases m.returnType with
        | none => rfl
        | some t =>
            exact congrArg (fun n => [n]) (TypeTree.edited_node r t).symm
      have hparameters :
          ((Variables.editAll r m.parameters.elements).value.map
            RightPadded.element).map declaration =
            ((m.parameters.elements.map RightPadded.element).map
              declaration).map (edited r) := by
        rw [Variables.editAll_value, List.map_map, List.map_map, List.map_map,
          List.map_map]
        rfl
      have hbody : (Stmt.editBody r m.body).value.toList.map block =
          (m.body.toList.map block).map (edited r) := by
        cases m.body <;> rfl
      simp only [rebuilt, children, Container.items, List.map_append,
        List.map_cons, map_edited_modifiers, hreturn, hparameters,
        map_edited_list, hbody]
      rfl
  | classBody b => exact map_edited_members b.statements
  | classDecl c =>
      simp only [rebuilt, children, List.map_append, List.map_cons,
        List.map_nil, map_edited_modifiers, map_edited_list]
      rfl
  | package p => rfl
  | importDecl i => rfl
  | unit cu =>
      have hpackage : ((Package.edit r cu.package?).value.toList.map fun p =>
          package p.element) =
          (cu.package?.toList.map fun p => package p.element).map
            (edited r) := by
        cases cu.package? <;> rfl
      have himports : ((Import.editAll r cu.imports).value.map fun p =>
          importDecl p.element) =
          (cu.imports.map fun p => importDecl p.element).map (edited r) := by
        rw [value_eq_map (f := fun p =>
          ⟨(r.importDecl ⟨p.element.lead, p.element.static?,
          (p.element.name.edit r).value⟩).value, p.after⟩) rfl
            (fun _ _ => rfl) cu.imports,
          List.map_map, List.map_map]
        rfl
      have hclasses : (ClassDecl.editAll r cu.classes).value.map classDecl =
          (cu.classes.map classDecl).map (edited r) := by
        rw [ClassDecl.editAll_value, List.map_map, List.map_map]
        rfl
      simp only [rebuilt, children, List.map_append, ← hpackage,
        ← himports, ← hclasses]

/-- Where the editor's functions leave the children of what they are given, the
children of an edited node are its edited children. -/
theorem children_edited (happlied : ∀ m : Node, m.IsProper →
    (m.applied r).children = m.children) {n : Node}
    (hn : n.IsProper) : (n.edited r).children = n.children.map (edited r) := by
  rw [edited_eq hn, happlied _ (isProper_rebuilt hn), children_rebuilt hn]

/-- All nodes of a tree are edited then, and none is lost or added. -/
theorem walk_edited (happlied : ∀ m : Node, m.IsProper →
    (m.applied r).children = m.children) {n : Node}
    (hn : n.IsProper) : (n.edited r).walk = n.walk.map (edited r) := by
  refine induction_on (P := fun n =>
    (n.edited r).walk = n.walk.map (edited r)) ?_ hn
  intro n hn ih
  rw [walk_eq (isProper_edited hn), walk_eq hn, children_edited happlied hn,
    List.map_cons, List.flatMap_map, List.map_flatMap]
  exact congrArg (_ :: ·) (List.flatMap_congr ih)

-- ========================================================== without types

/-- The node without its types. -/
def untyped (n : Node) : Node := n.edited untyping

/-- Types are nothing that is below a node. -/
theorem children_applied_untyping {n : Node} (hn : n.IsProper) :
    (n.applied untyping).children = n.children := by
  cases hn with
  | name n => cases n <;> rfl
  | @typeTree t h =>
      cases t with
      | named n => exact absurd rfl (h n)
      | _ => rfl
  | expr e => cases e <;> rfl
  | stmt _ _ _ => exact Stmt.children_node _
  | _ => rfl

/-- The children of a node without types. -/
theorem children_untyped {n : Node} (hn : n.IsProper) :
    n.untyped.children = n.children.map untyped :=
  children_edited (fun _ h => children_applied_untyping h) hn

/-- The nodes met on a walk without types. -/
theorem walk_untyped {n : Node} (hn : n.IsProper) :
    n.untyped.walk = n.walk.map untyped :=
  walk_edited (fun _ h => children_applied_untyping h) hn

end Node

end JavaRefit
