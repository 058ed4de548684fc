/-
The walk of a tree without its trivia.

Blanking a tree blanks its nodes and moves none of them, so that what is
looked for by words and types is found at the same places.

Chain: after `Blank` and `Walk`; the proofs about the rule ask walks.
-/
import JavaRefit.Proofs.Tree.Blank
import JavaRefit.Proofs.Tree.Walk

namespace JavaRefit

/-- A node without its trivia. -/
def Node.blank : Node → Node
  | ident i => ident i.blank
  | name n => name n.blank
  | typeTree t => typeTree t.blank
  | expr e => expr e.blank
  | modifier m => modifier m.blank
  | declarator v => declarator v.blank
  | declaration d => declaration d.blank
  | condition c => condition (c.blank Expr.blank)
  | parameter c => parameter (c.blank Variables.blank)
  | catchClause c => catchClause c.blank
  | elseBranch e => elseBranch e.blank
  | block b => block (b.blank Stmt.blank)
  | stmt s => stmt s.blank
  | method m => method m.blank
  | classBody b => classBody (b.blank Member.blank)
  | classDecl c => classDecl c.blank
  | package p => package p.blank
  | importDecl i => importDecl i.blank
  | unit cu => unit cu.blank

-- ================================================================== lists

/-- Walks of blank values in a row are blank walks. -/
theorem flatMap_blank {α : Type} {w : α → List Node} {f : α → α} {as : List α}
    (h : ∀ a ∈ as, w (f a) = (w a).map Node.blank) :
    (as.map f).flatMap w = (as.flatMap w).map Node.blank := by
  rw [List.flatMap_map, List.map_flatMap]
  exact List.flatMap_congr h

/-- So are those of padded values. -/
theorem flatMap_padded_blank {α : Type} {w : α → List Node} {f : α → α}
    {ps : List (RightPadded α)}
    (h : ∀ p ∈ ps, w (f p.element) = (w p.element).map Node.blank) :
    ((ps.map (RightPadded.blank f)).flatMap fun p => w p.element) =
      (ps.flatMap fun p => w p.element).map Node.blank := by
  rw [List.flatMap_map, List.map_flatMap]
  exact List.flatMap_congr h

-- ======================================================= names and types

/-- The nodes of a blank name are the blank nodes of the name. -/
theorem Name.walk_blank (n : Name) : n.blank.walk = n.walk.map Node.blank := by
  induction n with
  | simple i type => rfl
  | qualified lead outer last type ih =>
      rw [blank_qualified, walk, walk, ih, List.map_cons, List.map_append]
      rfl

/-- The nodes of a blank type are the blank nodes of the type. -/
theorem TypeTree.walk_blank (t : TypeTree) :
    t.blank.walk = t.walk.map Node.blank := by
  induction t using TypeTree.induction_on with
  | named n => exact n.walk_blank
  | generic lead base args type ih =>
      rw [blank_generic, walk, walk, walkAll_eq, walkAll_eq, base.walk_blank,
        Container.blank, flatMap_padded_blank ih, List.map_cons,
        List.map_append, Node.blank, blank_generic,
        Container.blank]
  | primitive lead keyword type => rfl
  | array lead element dimension type ih =>
      rw [blank_array, walk, walk, ih, List.map_cons, Node.blank, blank_array]
  | union lead alternatives ih =>
      rw [blank_union, walk, walk, walkAll_eq, walkAll_eq,
        flatMap_padded_blank ih, List.map_cons, Node.blank, blank_union]

theorem TypeTree.walkList_blank (o : Option (Container TypeTree)) :
    TypeTree.walkList (o.map (.blank TypeTree.blank)) =
      (TypeTree.walkList o).map Node.blank := by
  cases o with
  | none => rfl
  | some c =>
      rw [Option.map_some, walkList, walkList, walkAll_eq, walkAll_eq,
        Container.blank, flatMap_padded_blank fun p _ => p.element.walk_blank]

-- =========================================================== expressions

/-- The nodes of a blank expression are the blank nodes of the expression. -/
theorem Expr.walk_blank (e : Expr) : e.blank.walk = e.walk.map Node.blank := by
  induction e using Expr.induction_on with
  | ident i type => rfl
  | access lead target name type ih =>
      rw [blank_access, walk, walk, ih, List.map_cons, List.map_append,
        Node.blank, blank_access]
      rfl
  | call lead select name args method ihs iha =>
      have hs : walkSelect (select.map (.blank Expr.blank)) =
          (walkSelect select).map Node.blank := by
        cases select with
        | none => rfl
        | some p => exact ihs p rfl
      rw [blank_call, walk, walk, walkAll_eq, walkAll_eq, hs, Container.blank,
        flatMap_padded_blank iha, List.map_cons, List.map_append, List.map_cons]
      simp only [Node.blank, blank_call, Container.blank]
  | new lead base args constructor type ih =>
      rw [blank_new, walk, walk, walkAll_eq, walkAll_eq, base.walk_blank,
        Container.blank, flatMap_padded_blank ih, List.map_cons,
        List.map_append, Node.blank, blank_new,
        Container.blank]
  | literal lead text type => rfl
  | assign lead target value type iht ihv =>
      rw [blank_assign, walk, walk, iht, LeftPadded.blank, ihv, List.map_cons,
        List.map_append, Node.blank, blank_assign]
      rfl
  | binary lead left operator right type ihl ihr =>
      rw [blank_binary, walk, walk, ihl, ihr, List.map_cons,
        List.map_append, Node.blank, blank_binary]
  | unary lead operator operand type ih =>
      rw [blank_unary, walk, walk, ih, List.map_cons, Node.blank, blank_unary]
  | parens lead inner type ih =>
      rw [blank_parens, walk, walk, RightPadded.blank, ih, List.map_cons,
        Node.blank, blank_parens]
      rfl

-- ========================================================== declarations

theorem Modifier.walk_blank (m : Modifier) :
    m.blank.walk = m.walk.map Node.blank := by
  cases m with
  | keyword lead word => rfl
  | annotated lead name args =>
      cases args with
      | none =>
          rw [blank_annotated, Option.map_none, walk, walk, name.walk_blank,
            List.map_cons, Node.blank, blank_annotated]
          rfl
      | some c =>
          rw [blank_annotated, Option.map_some, walk, walk, name.walk_blank,
            Expr.walkAll_eq, Expr.walkAll_eq, Container.blank,
            flatMap_padded_blank fun p _ => p.element.walk_blank,
            List.map_cons, List.map_append, Node.blank, blank_annotated]
          rfl

theorem Variable.walk_blank (v : Variable) :
    v.blank.walk = v.walk.map Node.blank := by
  rw [blank_eq, walk, walk, v.name.walk_blank, List.map_cons, List.map_append,
    Node.blank, blank_eq]
  cases v.initializer with
  | none => rfl
  | some i =>
      rw [Option.map_some]
      dsimp only [LeftPadded.blank]
      rw [i.element.walk_blank]

theorem Variables.walk_blank (d : Variables) :
    d.blank.walk = d.walk.map Node.blank := by
  rw [blank_eq, walk, walk, flatMap_blank fun m _ => m.walk_blank,
    d.typeTree.walk_blank, flatMap_padded_blank fun p _ => p.element.walk_blank,
    List.map_cons, List.map_append,
    List.map_append, Node.blank, blank_eq]

theorem Expr.walkCondition_blank (c : Parens Expr) :
    Expr.walkCondition (c.blank Expr.blank) =
      (Expr.walkCondition c).map Node.blank := by
  rw [walkCondition, walkCondition, List.map_cons, ← walk_blank]
  rfl

theorem Variables.walkParameter_blank (c : Parens Variables) :
    Variables.walkParameter (c.blank Variables.blank) =
      (Variables.walkParameter c).map Node.blank := by
  rw [walkParameter, walkParameter, List.map_cons, ← walk_blank]
  rfl

-- ============================================================ statements

/-- The nodes of a blank block, if this holds of its statements. -/
theorem Stmt.walkBlock_blank_of {b : Block Stmt}
    (h : ∀ p ∈ b.statements, p.element.blank.walk =
      p.element.walk.map Node.blank) :
    Stmt.walkBlock (b.blank Stmt.blank) =
      (Stmt.walkBlock b).map Node.blank := by
  rw [walkBlock, walkBlock, walkAll_eq, walkAll_eq, List.map_cons, Block.blank,
    flatMap_padded_blank h, Node.blank, Block.blank]

/-- The nodes of a blank clause, if this holds of the statements of its
body. -/
theorem Catch.walk_blank_of {c : Catch Stmt}
    (h : ∀ p ∈ c.body.statements, p.element.blank.walk =
      p.element.walk.map Node.blank) :
    c.blank.walk = c.walk.map Node.blank := by
  rw [walk, walk, List.map_cons, List.map_append,
    ← Variables.walkParameter_blank, ← Stmt.walkBlock_blank_of h]
  rfl

/-- The nodes of a blank statement are the blank nodes of the statement. -/
theorem Stmt.walk_blank (s : Stmt) : s.blank.walk = s.walk.map Node.blank := by
  induction s using Stmt.induction_on with
  | block b ih => rw [blank_block, walk, walk, walkBlock_blank_of ih]
  | declaration d => exact d.walk_blank
  | expr e => exact e.walk_blank
  | empty lead => rfl
  | tryCatch t ihb ihc ihf =>
      have hf : walkFinally (t.finally?.map (.blank (.blank Stmt.blank))) =
          (walkFinally t.finally?).map Node.blank := by
        cases hf : t.finally? with
        | none => rfl
        | some f => exact walkBlock_blank_of (ihf f hf)
      rw [blank_tryCatch, walk, walk, Try.walk, Try.walk, Catch.walkAll_eq,
        Catch.walkAll_eq, List.map_cons, List.map_append, List.map_append, ← hf,
        ← walkBlock_blank_of ihb,
        ← flatMap_blank fun c hc => Catch.walk_blank_of (ihc c hc), Node.blank,
        blank_tryCatch]
      rfl
  | throwing lead exception =>
      rw [blank_throwing, walk, walk, exception.walk_blank, List.map_cons,
        Node.blank, blank_throwing]
  | returning lead value =>
      cases value with
      | none => rfl
      | some e =>
          rw [blank_returning, Option.map_some, walk, walk, e.walk_blank,
            List.map_cons, Node.blank, blank_returning, Option.map_some]
  | ifElse lead condition thenPart elsePart iht ihe =>
      have he : walkElse (elsePart.map Else.blank) =
          (walkElse elsePart).map Node.blank := by
        cases elsePart with
        | none => rfl
        | some e =>
            rw [Option.map_some, walkElse, walkElse, Else.walk, Else.walk,
              List.map_cons, ← ihe e rfl]
            rfl
      rw [blank_ifElse, walk, walk, he, Expr.walkCondition_blank,
        RightPadded.blank, iht, List.map_cons, List.map_append, List.map_append,
        Node.blank, blank_ifElse]
      rfl
  | whileLoop lead condition body ih =>
      rw [blank_whileLoop, walk, walk, Expr.walkCondition_blank,
        RightPadded.blank, ih, List.map_cons, List.map_append, Node.blank,
        blank_whileLoop]
      rfl

theorem Stmt.walkBlock_blank (b : Block Stmt) :
    Stmt.walkBlock (b.blank Stmt.blank) = (Stmt.walkBlock b).map Node.blank :=
  walkBlock_blank_of fun p _ => p.element.walk_blank

-- =================================================== classes and files

theorem Method.walk_blank (m : Method) :
    m.blank.walk = m.walk.map Node.blank := by
  rw [blank_eq, walk, walk]
  dsimp only [Container.blank]
  rw [flatMap_blank fun m _ => m.walk_blank,
    flatMap_padded_blank fun p _ => p.element.walk_blank,
    TypeTree.walkList_blank]
  cases hr : m.returnType <;> cases hb : m.body <;>
    simp only [Option.map_none, Option.map_some, TypeTree.walk_blank,
      Stmt.walkBlock_blank, List.map_nil, List.map_cons, List.map_append,
      Node.blank, blank_eq, Container.blank, hr, hb]

/-- The nodes of a blank class, if this holds of its members. -/
theorem ClassDecl.walk_blank_of {c : JavaClass}
    (h : ∀ p ∈ c.body.statements, p.element.blank.walk =
      p.element.walk.map Node.blank) :
    c.blank.walk = c.walk.map Node.blank := by
  rw [blank_eq, walk, walk, Member.walkBlock, Member.walkBlock,
    Member.walkAll_eq, Member.walkAll_eq]
  dsimp only [Block.blank]
  rw [flatMap_blank fun m _ => m.walk_blank, c.name.walk_blank,
    TypeTree.walkList_blank, TypeTree.walkList_blank, flatMap_padded_blank h]
  simp only [List.map_cons, List.map_append, Node.blank, blank_eq, Block.blank]

/-- The nodes of a blank member are the blank nodes of the member. -/
theorem Member.walk_blank (m : Member) :
    m.blank.walk = m.walk.map Node.blank := by
  induction m using Member.induction_on with
  | field d => exact d.walk_blank
  | method m => exact m.walk_blank
  | nested c ih => exact ClassDecl.walk_blank_of ih

theorem ClassDecl.walk_blank (c : JavaClass) :
    c.blank.walk = c.walk.map Node.blank :=
  walk_blank_of fun p _ => p.element.walk_blank

/-- The nodes of a blank file are the blank nodes of the file. -/
theorem CompilationUnit.walk_blank (cu : CompilationUnit) :
    cu.blank.walk = cu.walk.map Node.blank := by
  have himports (ps : List (RightPadded Import)) :
      ((ps.map (RightPadded.blank Import.blank)).flatMap fun p =>
        Node.importDecl p.element :: p.element.name.walk) =
      (ps.flatMap fun p => Node.importDecl p.element :: p.element.name.walk).map
        Node.blank := by
    refine flatMap_padded_blank (w := fun i => Node.importDecl i :: i.name.walk)
      fun p _ => ?_
    rw [List.map_cons, ← Name.walk_blank]
    rfl
  rw [blank_eq, walk, walk]
  dsimp only
  rw [himports, flatMap_blank fun c _ => ClassDecl.walk_blank c]
  cases hp : cu.package? <;>
    simp only [Option.map_none, Option.map_some, RightPadded.blank,
      List.map_nil, List.map_cons, List.map_append, Node.blank, blank_eq, hp,
      Package.blank, Name.walk_blank]

end JavaRefit
