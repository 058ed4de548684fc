/-
Places in a tree.

A node is followed in its walk by the walks of its children. So what holds
of a node as soon as it holds of its children holds of every node
(`Node.induction_on`), and a node can be found by the numbers of the
children that lead to it.

A part that only wraps another is no node of its own: a type that is a
name is the name, a statement that is an expression the expression. No
child of a node is such a part.

Chain: after `Induction`; read by the proofs that follow single nodes
through an edit.
-/
import JavaRefit.Proofs.Tree.Induction
import JavaRefit.Tree.Node

namespace JavaRefit

namespace Node

-- ================================================================ walks

/-- The node and the nodes below it. -/
def walk : Node → List Node
  | ident i => [.ident i]
  | name n => n.walk
  | typeTree t => t.walk
  | expr e => e.walk
  | modifier m => m.walk
  | declarator v => v.walk
  | declaration d => d.walk
  | condition c => Expr.walkCondition c
  | parameter c => Variables.walkParameter c
  | catchClause c => c.walk
  | elseBranch e => e.walk
  | block b => Stmt.walkBlock b
  | stmt s => s.walk
  | method m => m.walk
  | classBody b => Member.walkBlock b
  | classDecl c => c.walk
  | package p => .package p :: p.name.walk
  | importDecl i => .importDecl i :: i.name.walk
  | unit cu => cu.walk

/-- The node is no part that only wraps another. -/
inductive IsProper : Node → Prop
  | ident (i : Ident) : IsProper (.ident i)
  | name (n : Name) : IsProper (.name n)
  | typeTree {t : TypeTree} (h : ∀ n, t ≠ .named n) : IsProper (.typeTree t)
  | expr (e : Expr) : IsProper (.expr e)
  | modifier (m : Modifier) : IsProper (.modifier m)
  | declarator (v : Variable) : IsProper (.declarator v)
  | declaration (d : Variables) : IsProper (.declaration d)
  | condition (c : Parens Expr) : IsProper (.condition c)
  | parameter (c : Parens Variables) : IsProper (.parameter c)
  | catchClause (c : Catch Stmt) : IsProper (.catchClause c)
  | elseBranch (e : Else Stmt) : IsProper (.elseBranch e)
  | block (b : Block Stmt) : IsProper (.block b)
  | stmt {s : Stmt} (hb : ∀ b, s ≠ .block b) (hd : ∀ d, s ≠ .declaration d)
    (he : ∀ e, s ≠ .expr e) : IsProper (.stmt s)
  | method (m : Method) : IsProper (.method m)
  | classBody (b : Block Member) : IsProper (.classBody b)
  | classDecl (c : JavaClass) : IsProper (.classDecl c)
  | package (p : Package) : IsProper (.package p)
  | importDecl (i : Import) : IsProper (.importDecl i)
  | unit (cu : CompilationUnit) : IsProper (.unit cu)

end Node

open Node (IsProper)

theorem TypeTree.isProper_node (t : TypeTree) : t.node.IsProper := by
  cases t with
  | named n => exact .name n
  | _ => exact .typeTree nofun

theorem Stmt.isProper_node (s : Stmt) : s.node.IsProper := by
  cases s with
  | block b => exact .block b
  | declaration d => exact .declaration d
  | expr e => exact .expr e
  | _ => exact .stmt nofun nofun nofun

theorem Member.isProper_node (m : Member) : m.node.IsProper := by
  cases m with
  | field d => exact .declaration d
  | method m => exact .method m
  | nested c => exact .classDecl c

@[simp] theorem TypeTree.walk_node (t : TypeTree) : t.node.walk = t.walk := by
  cases t with
  | named n => rw [TypeTree.node, Node.walk, TypeTree.walk]
  | _ => rfl

@[simp] theorem Stmt.walk_node (s : Stmt) : s.node.walk = s.walk := by
  cases s with
  | block b => rw [Stmt.node, Node.walk, Stmt.walk]
  | declaration d => rw [Stmt.node, Node.walk, Stmt.walk]
  | expr e => rw [Stmt.node, Node.walk, Stmt.walk]
  | _ => rfl

@[simp] theorem Member.walk_node (m : Member) : m.node.walk = m.walk := by
  cases m <;> rw [Member.node, Node.walk, Member.walk]

namespace Node

/-- Below types in a row are the nodes of each. -/
theorem flatMap_walk_types (ps : List (RightPadded TypeTree)) :
    (ps.map fun p => p.element.node).flatMap walk = TypeTree.walkAll ps := by
  rw [List.flatMap_map, TypeTree.walkAll_eq]
  simp

theorem flatMap_walk_exprs (ps : List (RightPadded Expr)) :
    (ps.map fun p => Node.expr p.element).flatMap walk = Expr.walkAll ps := by
  rw [List.flatMap_map, Expr.walkAll_eq]
  rfl

theorem flatMap_walk_select (o : Option (RightPadded Expr)) :
    (o.toList.map fun p => Node.expr p.element).flatMap walk =
      Expr.walkSelect o := by
  cases o with
  | none => rfl
  | some p => exact List.append_nil _

/-- Below statements in a row are the nodes of each. -/
theorem flatMap_walk_statements (ps : List (RightPadded Stmt)) :
    (ps.map fun p => p.element.node).flatMap walk = Stmt.walkAll ps := by
  rw [List.flatMap_map, Stmt.walkAll_eq]
  simp

/-- Below members in a row are the nodes of each. -/
theorem flatMap_walk_members (ps : List (RightPadded Member)) :
    (ps.map fun p => p.element.node).flatMap walk = Member.walkAll ps := by
  rw [List.flatMap_map, Member.walkAll_eq]
  simp

/-- Below what a keyword introduces are the nodes of each type. -/
theorem flatMap_walk_list (o : Option (Container TypeTree)) :
    (TypeTree.listNodes o).flatMap walk = TypeTree.walkList o := by
  cases o with
  | none => rfl
  | some c =>
      rw [TypeTree.listNodes, TypeTree.walkList, ← flatMap_walk_types,
        Container.items, List.map_map]
      rfl

theorem flatMap_walk_returnType (o : Option TypeTree) :
    (o.toList.map TypeTree.node).flatMap walk = match o
      with | none => [] | some t => t.walk := by
  cases o <;> simp

theorem flatMap_walk_body (o : Option (Block Stmt)) :
    (o.toList.map block).flatMap walk =
      match o with | none => [] | some b => Stmt.walkBlock b := by
  cases o with
  | none => rfl
  | some b => exact List.append_nil _

theorem flatMap_walk_package (o : Option (RightPadded Package)) :
    (o.toList.map fun p => package p.element).flatMap walk =
      match o with | none => [] | some p => .package p.element ::
        p.element.name.walk := by
  cases o with
  | none => rfl
  | some p => exact List.append_nil _

/-- Below a branch are the nodes of its statement. -/
theorem flatMap_walk_else (o : Option (Else Stmt)) :
    (o.toList.map elseBranch).flatMap walk = Stmt.walkElse o := by
  cases o with
  | none => rfl
  | some e => exact List.append_nil _

theorem flatMap_walk_catches (cs : List (Catch Stmt)) :
    (cs.map catchClause).flatMap walk = Catch.walkAll cs := by
  rw [List.flatMap_map, Catch.walkAll_eq]
  rfl

/-- Below a last block are the nodes of its statements. -/
theorem flatMap_walk_finally (o : Option (LeftPadded (Block Stmt))) :
    (o.toList.map fun f => block f.element).flatMap walk =
      Stmt.walkFinally o := by
  cases o with
  | none => rfl
  | some f => exact List.append_nil _

theorem flatMap_walk_one (m : Node) : [m].flatMap walk = m.walk := by
  rw [List.flatMap_cons, List.flatMap_nil, List.append_nil]

theorem flatMap_walk_two (m n : Node) :
    [m, n].flatMap walk = m.walk ++ n.walk := by
  rw [List.flatMap_cons, flatMap_walk_one]

-- ---------------------------------------------------------- sorts of nodes

/-- The node is followed by the walks of its children. -/
def WalksBelow (n : Node) : Prop :=
  n.walk = n :: n.children.flatMap walk

/-- Below a name are the names before its dots. -/
theorem walksBelow_name (n : Name) : (name n).WalksBelow := by
  cases n <;> rfl

/-- A type that is no name is a node of its own. -/
theorem walksBelow_typeTree {t : TypeTree} (h : ∀ n, t ≠ .named n) :
    (typeTree t).WalksBelow := by
  cases t with
  | named n => exact absurd rfl (h n)
  | generic lead base args type =>
      show _ :: (base.walk ++ TypeTree.walkAll args.elements) = _
      rw [children, typeTreeChildren, List.flatMap_cons, Container.items,
        List.map_map, ← flatMap_walk_types]
      rfl
  | primitive lead keyword type => rfl
  | array lead element dimension type =>
      show _ :: element.walk = _
      rw [children, typeTreeChildren, flatMap_walk_one, TypeTree.walk_node]
  | union lead alternatives =>
      show _ :: TypeTree.walkAll alternatives = _
      rw [← flatMap_walk_types]
      rfl

/-- Below an expression are the nodes of its operands. -/
theorem walksBelow_expr (e : Expr) : (expr e).WalksBelow := by
  unfold WalksBelow
  cases e with
  | ident i type => rfl
  | access lead target name type => rfl
  | call lead select name args method =>
      show _ :: (Expr.walkSelect select ++ .ident name ::
        Expr.walkAll args.elements) = _
      rw [children, exprChildren, List.flatMap_append, List.flatMap_cons,
        Container.items, List.map_map, flatMap_walk_select,
        ← flatMap_walk_exprs]
      rfl
  | new lead base args constructor type =>
      show _ :: (base.walk ++ Expr.walkAll args.elements) = _
      rw [children, exprChildren, List.flatMap_cons, TypeTree.walk_node,
        Container.items, List.map_map, ← flatMap_walk_exprs]
      rfl
  | literal lead text type => rfl
  | assign lead target value type =>
      rw [children, exprChildren, flatMap_walk_two]
      rfl
  | binary lead left operator right type =>
      rw [children, exprChildren, flatMap_walk_two]
      rfl
  | unary lead operator operand type =>
      rw [children, exprChildren, flatMap_walk_one]
      rfl
  | parens lead inner type =>
      rw [children, exprChildren, flatMap_walk_one]
      rfl

/-- Below an annotation are its name and its arguments. -/
theorem walksBelow_modifier (m : Modifier) : (modifier m).WalksBelow := by
  unfold WalksBelow
  cases m with
  | keyword lead word => rfl
  | annotated lead word args =>
      cases args with
      | none =>
          show _ = _ :: [name word].flatMap walk
          rw [flatMap_walk_one]
          rfl
      | some c =>
          show _ :: (word.walk ++ Expr.walkAll c.elements) = _
          rw [children, modifierChildren, List.flatMap_cons,
            ← flatMap_walk_exprs]
          simp only [Option.toList, Container.items, List.flatMap_cons,
            List.flatMap_nil, List.append_nil, List.map_map]
          rfl

theorem walksBelow_declarator (v : Variable) : (declarator v).WalksBelow := by
  unfold WalksBelow
  cases hv : v.initializer <;> simp [walk, Variable.walk, children, hv]

theorem walksBelow_declaration (d : Variables) :
    (declaration d).WalksBelow := by
  unfold WalksBelow
  simp only [children, variablesChildren, List.flatMap_append,
    List.flatMap_cons, List.flatMap_map, TypeTree.walk_node,
    ← List.append_assoc]
  rfl

/-- Below a clause are its parameter and its body. -/
theorem walksBelow_catchClause (c : Catch Stmt) :
    (catchClause c).WalksBelow := by
  unfold WalksBelow
  rw [children, flatMap_walk_two]
  show c.walk = _
  rw [Catch.walk]
  rfl

/-- Below a try are its body, its clauses and its last block. -/
theorem walksBelow_try (t : Try Stmt) : (stmt (.tryCatch t)).WalksBelow := by
  unfold WalksBelow
  simp only [children, stmtChildren, tryChildren, List.flatMap_cons,
    List.flatMap_append, flatMap_walk_catches, flatMap_walk_finally,
    ← List.append_assoc]
  show t.walk = _
  rw [Try.walk]
  rfl

/-- So is a statement that is no block, declaration or expression. -/
theorem walksBelow_stmt {s : Stmt} (hb : ∀ b, s ≠ .block b)
    (hd : ∀ d, s ≠ .declaration d) (he : ∀ e, s ≠ .expr e) :
    (stmt s).WalksBelow := by
  cases s with
  | block b => exact absurd rfl (hb b)
  | declaration d => exact absurd rfl (hd d)
  | expr e => exact absurd rfl (he e)
  | empty lead => rfl
  | tryCatch t => exact walksBelow_try t
  | throwing lead exception =>
      rw [WalksBelow, children, stmtChildren, flatMap_walk_one]
      rfl
  | returning lead value =>
      cases value with
      | none => rfl
      | some e =>
          show _ = _ :: [Node.expr e].flatMap walk
          rw [flatMap_walk_one]
          rfl
  | ifElse lead c thenPart elsePart =>
      rw [WalksBelow, children, stmtChildren, List.flatMap_cons,
        List.flatMap_cons, flatMap_walk_else, Stmt.walk_node,
        ← List.append_assoc]
      rfl
  | whileLoop lead c body =>
      rw [WalksBelow, children, stmtChildren, flatMap_walk_two,
        Stmt.walk_node]
      rfl

/-- Below a method are its types, its parameters and its body. -/
theorem walksBelow_method (m : Method) : (method m).WalksBelow := by
  have hreturn := flatMap_walk_returnType m.returnType
  have hbody := flatMap_walk_body m.body
  unfold WalksBelow
  simp only [children, List.flatMap_append, List.flatMap_cons, hreturn, hbody,
    flatMap_walk_list, Container.items, List.flatMap_map]
  rfl

/-- Below a class are its types and its members. -/
theorem walksBelow_classDecl (c : JavaClass) : (classDecl c).WalksBelow := by
  unfold WalksBelow
  simp only [children, List.flatMap_append, List.flatMap_cons,
    flatMap_walk_list, List.flatMap_map, List.flatMap_nil, List.append_nil,
    ← List.append_assoc]
  show ClassDecl.walk c = _
  rw [ClassDecl.walk]
  rfl

/-- Below a file are its package, its imports and its classes. -/
theorem walksBelow_unit (cu : CompilationUnit) : (unit cu).WalksBelow := by
  have hpackage := flatMap_walk_package cu.package?
  unfold WalksBelow
  simp only [children, List.flatMap_append, hpackage, List.flatMap_map]
  rfl

/-- The walk of a node is the node and then the walks of its children. -/
theorem walk_eq {n : Node} (h : n.IsProper) :
    n.walk = n :: n.children.flatMap walk := by
  cases h with
  | ident i => rfl
  | name n => exact walksBelow_name n
  | typeTree h => exact walksBelow_typeTree h
  | expr e => exact walksBelow_expr e
  | modifier m => exact walksBelow_modifier m
  | declarator v => exact walksBelow_declarator v
  | declaration d => exact walksBelow_declaration d
  | condition c | parameter c | package p | importDecl i =>
      rw [children, flatMap_walk_one]
      rfl
  | catchClause c => exact walksBelow_catchClause c
  | elseBranch e =>
      rw [children, flatMap_walk_one, Stmt.walk_node]
      exact Else.walk.eq_1 e
  | block b =>
      rw [children, flatMap_walk_statements, walk, Stmt.walkBlock]
  | stmt hb hd he => exact walksBelow_stmt hb hd he
  | method m => exact walksBelow_method m
  | classBody b =>
      rw [children, flatMap_walk_members, walk, Member.walkBlock]
  | classDecl c => exact walksBelow_classDecl c
  | unit cu => exact walksBelow_unit cu

-- =========================================================== induction

theorem isProper_of_mem_list {o : Option (Container TypeTree)} :
    ∀ m ∈ TypeTree.listNodes o, m.IsProper := by
  cases o with
  | none => nofun
  | some c => exact List.forall_mem_map.2 fun t _ => t.isProper_node

theorem isProper_of_mem_name {n : Name} : ∀ m ∈ nameChildren n, m.IsProper := by
  cases n with
  | simple i type => nofun
  | qualified lead outer last type =>
      simp [nameChildren, IsProper.name, IsProper.ident]

theorem isProper_of_mem_expr {e : Expr} : ∀ m ∈ exprChildren e, m.IsProper := by
  cases e <;>
    simp [exprChildren, or_imp, forall_and, IsProper.expr, IsProper.ident,
      TypeTree.isProper_node]

theorem isProper_of_mem_variables {d : Variables} : ∀ m ∈ variablesChildren d,
    m.IsProper := by
  simp [variablesChildren, or_imp, forall_and, IsProper.modifier,
    IsProper.declarator, TypeTree.isProper_node]

/-- No child of a node only wraps another part. -/
theorem isProper_of_mem_children {n : Node} : ∀ m ∈ n.children, m.IsProper := by
  cases n with
  | name n => exact isProper_of_mem_name
  | typeTree t =>
      cases t with
      | named n => exact isProper_of_mem_name
      | generic lead base args type =>
          simp [children, typeTreeChildren, IsProper.name,
            TypeTree.isProper_node]
      | primitive lead keyword type => nofun
      | array lead element dimension type =>
          simp [children, typeTreeChildren, TypeTree.isProper_node]
      | union lead alternatives =>
          simp [children, typeTreeChildren, TypeTree.isProper_node]
  | expr e => exact isProper_of_mem_expr
  | modifier m =>
      cases m with
      | keyword lead word => nofun
      | annotated lead name args =>
          cases args <;> simp [children, modifierChildren, IsProper.name,
            IsProper.expr]
  | declaration d => exact isProper_of_mem_variables
  | stmt s =>
      cases s with
      | declaration d => exact isProper_of_mem_variables
      | expr e => exact isProper_of_mem_expr
      | _ =>
          simp [children, stmtChildren, tryChildren, or_imp, forall_and,
            IsProper.expr, IsProper.block, IsProper.catchClause,
            IsProper.condition, IsProper.elseBranch,
            Stmt.isProper_node]
  | method m =>
      simp [children, or_imp, forall_and, IsProper.modifier, IsProper.ident,
        IsProper.declaration, IsProper.block, TypeTree.isProper_node]
      exact isProper_of_mem_list
  | classDecl c =>
      simp [children, or_imp, forall_and, IsProper.modifier, IsProper.name,
        IsProper.classBody]
      exact ⟨isProper_of_mem_list, isProper_of_mem_list⟩
  | _ =>
      simp [children, or_imp, forall_and, IsProper.name, IsProper.expr,
        IsProper.block, IsProper.declaration, IsProper.parameter,
        IsProper.package, IsProper.importDecl,
        IsProper.classDecl, Stmt.isProper_node, Member.isProper_node]

/-- What holds of a node as soon as it holds of its children holds of every
node. -/
theorem induction_on {P : Node → Prop} (h : ∀ n : Node, n.IsProper →
    (∀ m ∈ n.children, P m) → P n) {n : Node} (hn : n.IsProper) :
    P n := by
  induction hl : n.walk.length using Nat.strongRecOn generalizing n with
  | ind l ih =>
      refine h n hn fun m hm => ?_
      have hm' := isProper_of_mem_children m hm
      refine ih m.walk.length ?_ hm' rfl
      obtain ⟨before, after, hchildren⟩ := List.append_of_mem hm
      rw [← hl, walk_eq hn, hchildren, List.flatMap_append, List.flatMap_cons,
        List.length_cons, List.length_append, List.length_append]
      omega

/-- What is met on a walk is a proper node. -/
theorem isProper_of_mem_walk {n m : Node} (hn : n.IsProper) (hm : m ∈ n.walk) :
    m.IsProper := by
  refine induction_on (P := fun n => ∀ m ∈ n.walk, m.IsProper) ?_ hn m hm
  intro n hn ih
  rw [walk_eq hn, List.forall_mem_cons, List.forall_mem_flatMap]
  exact ⟨hn, ih⟩

/-- What is met in a walk brings its own walk along. -/
theorem walk_subset {n m : Node} (hn : n.IsProper) (hm : m ∈ n.walk) :
    m.walk ⊆ n.walk := by
  refine induction_on (P := fun n => ∀ m ∈ n.walk, m.walk ⊆ n.walk) ?_ hn m hm
  intro n hn ih m hm
  rw [walk_eq hn, List.mem_cons, List.mem_flatMap] at hm
  rcases hm with rfl | ⟨k, hk, hm⟩
  · exact List.Subset.refl _
  · intro x hx
    rw [walk_eq hn]
    exact List.mem_cons_of_mem n (List.mem_flatMap.2 ⟨k, hk, ih k hk m hm hx⟩)

/-- A walk begins with the node itself. -/
theorem mem_walk_self {n : Node} (hn : n.IsProper) : n ∈ n.walk := by
  rw [walk_eq hn]
  exact List.mem_cons_self

/-- The children of a node are met on its walk. -/
theorem children_subset_walk {n : Node} (hn : n.IsProper) :
    n.children ⊆ n.walk := by
  intro m hm
  rw [walk_eq hn]
  refine List.mem_cons_of_mem n (List.mem_flatMap.2 ⟨m, hm, ?_⟩)
  exact mem_walk_self (isProper_of_mem_children m hm)

-- ============================================================== places

/-- The node that the numbers of children lead to, one below the other. -/
def at? : Node → List Nat → Option Node
  | n, [] => some n
  | n, i :: place => n.children[i]?.bind fun m => m.at? place

/-- A place leads to a child and goes on below it. -/
theorem at?_cons (n : Node) (i : Nat) (place : List Nat) :
    n.at? (i :: place) = n.children[i]?.bind fun m => m.at? place := rfl

/-- What stands at a place is met in the walk. -/
theorem mem_walk_of_at? {n m : Node} (hn : n.IsProper) {place : List Nat}
    (h : n.at? place = some m) : m ∈ n.walk := by
  induction place generalizing n with
  | nil =>
      obtain rfl := Option.some.inj h
      exact mem_walk_self hn
  | cons i place ih =>
      obtain ⟨k, hk, hat⟩ := Option.bind_eq_some_iff.1 h
      have hmem := List.mem_of_getElem? hk
      rw [walk_eq hn]
      exact List.mem_cons_of_mem n
        (List.mem_flatMap.2 ⟨k, hmem, ih (isProper_of_mem_children k hmem) hat⟩)

end Node

end JavaRefit
