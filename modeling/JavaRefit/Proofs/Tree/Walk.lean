/-
Which nodes a walk meets.

Names and written types are made of names and written types; expressions
and declarations have no statements below them, so the `try` statements of
a tree are those of the blocks in it. A `try` statement met on a walk has
its body on the walk.

Chain: after `Induction`; read by the proofs about sites and about `try`
statements.
-/
import JavaRefit.Proofs.Tree.Induction

namespace JavaRefit

-- ================================================================== sorts

namespace Node

/-- The node is a single word, a name or a written type. -/
def isName : Node → Bool
  | ident _ | name _ | typeTree _ => true
  | _ => false

/-- The node is of a sort that has no statements below it. -/
def isBelowStmt : Node → Bool
  | ident _ | name _ | typeTree _ | expr _ | modifier _ | declarator
      _ | declaration _
  | condition _ | parameter _ | package _ | importDecl _ => true
  | _ => false

/-- A name is below statements. -/
theorem isBelowStmt_of_isName {n : Node} (h : n.isName = true) :
    n.isBelowStmt = true := by
  cases n <;> first | rfl | cases h

/-- The `try` statement that a node is. -/
def asTry : Node → Option (Try Stmt)
  | .stmt (.tryCatch t) => some t
  | _ => none

/-- Below statements there is no try. -/
theorem asTry_of_isBelowStmt {n : Node} (h : n.isBelowStmt = true) :
    n.asTry = none := by
  cases n <;> first | rfl | cases h

end Node

/-- On a name only names are met. -/
theorem Name.isName_walk (n : Name) : ∀ x ∈ n.walk, x.isName = true := by
  induction n with
  | simple i type => simp [walk, Node.isName]
  | qualified lead outer last type ih =>
      simpa [walk, Node.isName, or_imp, forall_and] using ih

/-- On a type only names are met. -/
theorem TypeTree.isName_walk (t : TypeTree) :
    ∀ x ∈ t.walk, x.isName = true := by
  induction t using TypeTree.induction_on with
  | named n => exact n.isName_walk
  | generic lead base args type ih =>
      simp only [walk, walkAll_eq, List.forall_mem_cons, List.forall_mem_append,
        List.forall_mem_flatMap]
      exact ⟨rfl, base.isName_walk, ih⟩
  | primitive lead keyword type => simp [walk, Node.isName]
  | array lead element dimension type ih => simpa [walk, Node.isName] using ih
  | union lead alternatives ih =>
      simp only [walk, walkAll_eq, List.forall_mem_cons,
        List.forall_mem_flatMap]
      exact ⟨rfl, ih⟩

/-- On an expression only nodes below statements are met. -/
theorem Expr.isBelowStmt_walk (e : Expr) :
    ∀ x ∈ e.walk, x.isBelowStmt = true := by
  induction e using Expr.induction_on with
  | ident i type => simp [walk, Node.isBelowStmt]
  | literal lead text type => simp [walk, Node.isBelowStmt]
  | access lead target name type ih =>
      simpa [walk, Node.isBelowStmt, or_imp, forall_and] using ih
  | call lead select name args method ihs iha =>
      have hs : ∀ x ∈ walkSelect select, x.isBelowStmt = true := by
        cases select with
        | none => simp [walkSelect]
        | some p => exact ihs p rfl
      simp only [walk, walkAll_eq, List.forall_mem_cons, List.forall_mem_append,
        List.forall_mem_flatMap]
      exact ⟨rfl, hs, rfl, iha⟩
  | new lead base args constructor type ih =>
      simp only [walk, walkAll_eq, List.forall_mem_cons, List.forall_mem_append,
        List.forall_mem_flatMap]
      exact ⟨rfl, fun x hx =>
        Node.isBelowStmt_of_isName (base.isName_walk x hx), ih⟩
  | assign lead target value type iht ihv =>
      simp only [walk, List.forall_mem_cons, List.forall_mem_append]
      exact ⟨rfl, iht, ihv⟩
  | binary lead left operator right type ihl ihr =>
      simp only [walk, List.forall_mem_cons, List.forall_mem_append]
      exact ⟨rfl, ihl, ihr⟩
  | unary lead operator operand type ih =>
      simp only [walk, List.forall_mem_cons]
      exact ⟨rfl, ih⟩
  | parens lead inner type ih =>
      simp only [walk, List.forall_mem_cons]
      exact ⟨rfl, ih⟩

theorem Name.isBelowStmt_walk (n : Name) : ∀ x ∈ n.walk, x.isBelowStmt = true :=
  fun x hx => Node.isBelowStmt_of_isName (n.isName_walk x hx)

theorem TypeTree.isBelowStmt_walk (t : TypeTree) :
    ∀ x ∈ t.walk, x.isBelowStmt = true :=
  fun x hx => Node.isBelowStmt_of_isName (t.isName_walk x hx)

theorem TypeTree.isBelowStmt_walkList (o : Option (Container TypeTree)) :
    ∀ x ∈ walkList o, x.isBelowStmt = true := by
  cases o with
  | none => simp [walkList]
  | some c =>
      simp only [walkList, walkAll_eq, List.forall_mem_flatMap]
      exact fun p _ => p.element.isBelowStmt_walk

/-- On an annotation only nodes below statements are met. -/
theorem Modifier.isBelowStmt_walk (m : Modifier) :
    ∀ x ∈ m.walk, x.isBelowStmt = true := by
  cases m with
  | keyword lead word => simp [walk, Node.isBelowStmt]
  | annotated lead name args =>
      cases args with
      | none => simpa [walk, Node.isBelowStmt] using name.isBelowStmt_walk
      | some c =>
          simp only [walk, Expr.walkAll_eq, List.forall_mem_cons,
            List.forall_mem_append, List.forall_mem_flatMap]
          exact ⟨rfl, name.isBelowStmt_walk, fun p _ =>
            p.element.isBelowStmt_walk⟩

theorem Variable.isBelowStmt_walk (v : Variable) :
    ∀ x ∈ v.walk, x.isBelowStmt = true := by
  obtain ⟨lead, name, initializer, type⟩ := v
  simp only [walk, List.forall_mem_cons, List.forall_mem_append]
  refine ⟨rfl, name.isBelowStmt_walk, ?_⟩
  cases initializer with
  | none => simp
  | some i => exact i.element.isBelowStmt_walk

/-- On a declaration only nodes below statements are met. -/
theorem Variables.isBelowStmt_walk (d : Variables) :
    ∀ x ∈ d.walk, x.isBelowStmt = true := by
  simp only [walk, List.forall_mem_cons, List.forall_mem_append,
    List.forall_mem_flatMap]
  exact ⟨rfl, ⟨fun m _ => m.isBelowStmt_walk, d.typeTree.isBelowStmt_walk⟩,
    fun p _ => p.element.isBelowStmt_walk⟩

theorem Expr.isBelowStmt_walkCondition (c : Parens Expr) :
    ∀ x ∈ walkCondition c, x.isBelowStmt = true := by
  simp only [walkCondition, List.forall_mem_cons]
  exact ⟨rfl, c.inner.element.isBelowStmt_walk⟩

theorem Variables.isBelowStmt_walkParameter (c : Parens Variables) :
    ∀ x ∈ walkParameter c, x.isBelowStmt = true := by
  simp only [walkParameter, List.forall_mem_cons]
  exact ⟨rfl, c.inner.element.isBelowStmt_walk⟩

-- ========================================================= try statements

/-- The `try` statements among some nodes. -/
def Node.tries (ns : List Node) : List (Try Stmt) :=
  ns.filterMap asTry

/-- The `try` statements of a file, each before those inside it. -/
def CompilationUnit.tries (cu : CompilationUnit) : List (Try Stmt) :=
  Node.tries cu.walk

namespace Node

@[simp] theorem tries_nil : tries [] = [] := rfl

theorem tries_cons (n : Node) (ns : List Node) :
    tries (n :: ns) = n.asTry.toList ++ tries ns := by
  cases h : n.asTry <;> simp [tries, h]

@[simp] theorem tries_append (ns ms : List Node) :
    tries (ns ++ ms) = tries ns ++ tries ms := by
  simp [tries]

/-- The trys of all are those of each. -/
theorem tries_flatMap {α : Type} (l : List α) (f : α → List Node) :
    tries (l.flatMap f) = l.flatMap fun a => tries (f a) := by
  simp [tries, List.filterMap_flatMap]

/-- Below statements there are no `try` statements. -/
theorem tries_eq_nil {ns : List Node} (h : ∀ n ∈ ns, n.isBelowStmt = true) :
    tries ns = [] := by
  simp only [tries, List.filterMap_eq_nil_iff]
  exact fun n hn => asTry_of_isBelowStmt (h n hn)

/-- Among the nodes are those in the body of each `try` among them. -/
def HoldsBodies (ns : List Node) : Prop :=
  ∀ t ∈ tries ns, ∀ n ∈ Stmt.walkBlock t.body, n ∈ ns

namespace HoldsBodies

/-- Nodes below statements hold every body there is. -/
theorem of_isBelowStmt {ns : List Node} (h : ∀ n ∈ ns, n.isBelowStmt = true) :
    HoldsBodies ns := by
  simp [HoldsBodies, tries_eq_nil h]

theorem nil : HoldsBodies [] := by
  simp [HoldsBodies]

/-- Two runs hold the bodies of their trys. -/
theorem append {ns ms : List Node} (hn : HoldsBodies ns) (hm : HoldsBodies ms) :
    HoldsBodies (ns ++ ms) := by
  intro t ht n h
  rw [tries_append, List.mem_append] at ht
  rcases ht with ht | ht
  · exact List.mem_append_left ms (hn t ht n h)
  · exact List.mem_append_right ns (hm t ht n h)

/-- Nodes of all hold the bodies if those of each do. -/
theorem flatMap {α : Type} {l : List α} {f : α → List Node}
    (h : ∀ a ∈ l, HoldsBodies (f a)) : HoldsBodies (l.flatMap f) := by
  induction l with
  | nil => exact nil
  | cons a l ih =>
      obtain ⟨ha, hl⟩ := List.forall_mem_cons.1 h
      exact append ha (ih hl)

/-- A node that is no try may be added. -/
theorem cons {n : Node} {ns : List Node} (hn : n.asTry = none)
    (h : HoldsBodies ns) : HoldsBodies (n :: ns) := by
  intro t ht m hm
  rw [tries_cons, hn] at ht
  exact List.mem_cons_of_mem n (h t ht m hm)

/-- A try may be added where the nodes of its body are. -/
theorem consTry {t : Try Stmt} {ns : List Node}
    (hb : ∀ n ∈ Stmt.walkBlock t.body, n ∈ ns) (h : HoldsBodies ns) :
    HoldsBodies (.stmt (.tryCatch t) :: ns) := by
  intro t' ht m hm
  rw [tries_cons] at ht
  rcases List.mem_cons.1 ht with rfl | ht
  · exact List.mem_cons_of_mem _ (hb m hm)
  · exact List.mem_cons_of_mem _ (h t' ht m hm)

end HoldsBodies

end Node

open Node

-- ========================================== try statements inside others

/-- A `try` statement comes before those in its body, in its clauses and in its
`finally`. -/
theorem Try.tries_walk (t : Try Stmt) :
    tries t.walk = t :: (tries (Stmt.walkBlock t.body) ++
      (t.catches.flatMap fun c => tries (Stmt.walkBlock c.body)) ++
      tries (Stmt.walkFinally t.finally?)) := by
  have hc (c : Catch Stmt) : tries c.walk = tries (Stmt.walkBlock c.body) := by
    rw [Catch.walk, tries_cons, tries_append,
      tries_eq_nil (Variables.isBelowStmt_walkParameter c.parameter)]
    rfl
  rw [Try.walk, tries_cons, tries_append, tries_append, Catch.walkAll_eq,
    tries_flatMap, funext hc]
  rfl

/-- The trys of a block are those of its statements. -/
theorem Stmt.tries_walkBlock (b : Block Stmt) :
    tries (Stmt.walkBlock b) = b.statements.flatMap fun p =>
      tries p.element.walk := by
  rw [Stmt.walkBlock, Stmt.walkAll_eq, tries_cons, tries_flatMap]
  rfl

/-- The trys of a condition are those of its two branches. -/
theorem Stmt.tries_walk_ifElse (lead : Trivia) (condition : Parens Expr)
    (p : RightPadded Stmt) (e : Option (Else Stmt)) :
    tries (Stmt.ifElse lead condition p e).walk =
      tries p.element.walk ++ e.toList.flatMap fun g =>
        tries g.body.element.walk := by
  rw [walk, tries_cons, tries_append, tries_append,
    tries_eq_nil (Expr.isBelowStmt_walkCondition condition)]
  cases e with
  | none => rfl
  | some g =>
      rw [walkElse, Else.walk, tries_cons, Option.toList_some,
        List.flatMap_singleton]
      rfl

theorem Stmt.tries_walk_whileLoop (lead : Trivia) (condition : Parens Expr)
    (p : RightPadded Stmt) :
    tries (Stmt.whileLoop lead condition p).walk = tries p.element.walk := by
  rw [walk, tries_cons, tries_append,
    tries_eq_nil (Expr.isBelowStmt_walkCondition condition)]
  rfl

theorem Stmt.tries_walk_throwing (lead : Trivia) (e : Expr) :
    tries (Stmt.throwing lead e).walk = [] :=
  (tries_cons _ _).trans (tries_eq_nil e.isBelowStmt_walk)

theorem Stmt.tries_walk_returning (lead : Trivia) (e : Option Expr) :
    tries (Stmt.returning lead e).walk = [] := by
  cases e with
  | none => rfl
  | some e => exact (tries_cons _ _).trans (tries_eq_nil e.isBelowStmt_walk)

/-- The `try` statements of a method are those of its body. -/
theorem Method.tries_walk (m : Method) :
    tries m.walk = m.body.toList.flatMap fun b => tries (Stmt.walkBlock b) := by
  have hm : tries (m.modifiers.flatMap Modifier.walk) = [] :=
    tries_eq_nil (List.forall_mem_flatMap.2 fun m _ => m.isBelowStmt_walk)
  have hp : tries (m.parameters.elements.flatMap fun p =>
      p.element.walk) = [] :=
    tries_eq_nil (List.forall_mem_flatMap.2 fun p _ =>
      p.element.isBelowStmt_walk)
  rw [Method.walk, tries_cons, tries_append, tries_append, tries_cons,
    tries_append, tries_append, hm, hp,
    tries_eq_nil (TypeTree.isBelowStmt_walkList m.throws)]
  cases m.returnType with
  | none =>
      cases m.body with
      | none => rfl
      | some b => exact (List.append_nil _).symm
  | some t =>
      rw [tries_eq_nil t.isBelowStmt_walk]
      cases m.body with
      | none => rfl
      | some b => exact (List.append_nil _).symm

/-- The `try` statements of a class are those of its members. -/
theorem ClassDecl.tries_walk (c : JavaClass) :
    tries c.walk = c.body.statements.flatMap fun p => tries p.element.walk := by
  have hm : tries (c.modifiers.flatMap Modifier.walk) = [] :=
    tries_eq_nil (List.forall_mem_flatMap.2 fun m _ => m.isBelowStmt_walk)
  rw [ClassDecl.walk, Member.walkBlock, Member.walkAll_eq, tries_cons,
    tries_append, tries_append, tries_append, tries_append, hm,
    tries_eq_nil c.name.isBelowStmt_walk,
    tries_eq_nil (TypeTree.isBelowStmt_walkList c.extends?),
    tries_eq_nil (TypeTree.isBelowStmt_walkList c.implements?), tries_cons,
    tries_flatMap]
  rfl

/-- The `try` statements of a file are those of its classes. -/
theorem CompilationUnit.tries_eq (cu : CompilationUnit) :
    cu.tries = cu.classes.flatMap fun c => Node.tries c.walk := by
  have hn (m : Node) (n : Name) (h : m.isBelowStmt = true) :
      Node.tries (m :: n.walk) = [] :=
    Node.tries_eq_nil (List.forall_mem_cons.2 ⟨h, n.isBelowStmt_walk⟩)
  have hi : Node.tries (cu.imports.flatMap fun p =>
      .importDecl p.element :: p.element.name.walk) = [] := by
    rw [tries_flatMap, List.flatMap_eq_nil_iff]
    exact fun p _ => hn _ _ rfl
  obtain ⟨lead, package?, imports, classes, close, path⟩ := cu
  rw [CompilationUnit.tries, CompilationUnit.walk, tries_cons, tries_append,
    tries_append, hi, tries_flatMap]
  cases package? with
  | none => rfl
  | some p =>
      rw [hn (.package p.element) p.element.name rfl]
      rfl

-- =============================================================== bodies

/-- Blocks hold the bodies in them if their statements do. -/
theorem Stmt.holdsBodies_block {b : Block Stmt}
    (h : ∀ p ∈ b.statements, HoldsBodies p.element.walk) :
    HoldsBodies (walkBlock b) := by
  rw [walkBlock, walkAll_eq]
  exact .cons rfl (.flatMap h)

/-- The nodes of a statement hold the bodies of its trys. -/
theorem Stmt.holdsBodies (s : Stmt) : HoldsBodies s.walk := by
  induction s using Stmt.induction_on with
  | block b ih => exact holdsBodies_block ih
  | declaration d => exact .of_isBelowStmt d.isBelowStmt_walk
  | expr e => exact .of_isBelowStmt e.isBelowStmt_walk
  | empty lead => exact .cons rfl .nil
  | tryCatch t ihb ihc ihf =>
      have hf : HoldsBodies (walkFinally t.finally?) := by
        cases hf : t.finally? with
        | none => exact .nil
        | some f => exact holdsBodies_block (ihf f hf)
      have hc : HoldsBodies (Catch.walkAll t.catches) := by
        rw [Catch.walkAll_eq]
        refine .flatMap fun c hc => ?_
        rw [Catch.walk]
        refine .cons rfl (.append ?_ (holdsBodies_block (ihc c hc)))
        exact .of_isBelowStmt (Variables.isBelowStmt_walkParameter c.parameter)
      rw [walk, Try.walk]
      refine .consTry (fun n hn => ?_)
        (.append (.append (holdsBodies_block ihb) hc) hf)
      exact List.mem_append_left _ (List.mem_append_left _ hn)
  | throwing lead exception =>
      exact .cons rfl (.of_isBelowStmt exception.isBelowStmt_walk)
  | returning lead value =>
      cases value with
      | none => exact .cons rfl .nil
      | some e => exact .cons rfl (.of_isBelowStmt e.isBelowStmt_walk)
  | ifElse lead condition thenPart elsePart iht ihe =>
      have he : HoldsBodies (walkElse elsePart) := by
        cases elsePart with
        | none => exact .nil
        | some e =>
            rw [walkElse, Else.walk]
            exact .cons rfl (ihe e rfl)
      exact .cons rfl
        (.append (.append (.of_isBelowStmt (Expr.isBelowStmt_walkCondition _))
          iht) he)
  | whileLoop lead condition body ih =>
      exact .cons rfl
        (.append (.of_isBelowStmt (Expr.isBelowStmt_walkCondition _)) ih)

/-- The nodes of a method hold the bodies of its trys. -/
theorem Method.holdsBodies (m : Method) : HoldsBodies m.walk := by
  refine .cons rfl (.append
    (.append (.flatMap fun m _ => .of_isBelowStmt m.isBelowStmt_walk) ?_)
    (.cons rfl (.append (.append (.flatMap fun p _ => ?_) ?_) ?_)))
  · cases m.returnType with
    | none => exact .nil
    | some t => exact .of_isBelowStmt t.isBelowStmt_walk
  · exact .of_isBelowStmt p.element.isBelowStmt_walk
  · exact .of_isBelowStmt (TypeTree.isBelowStmt_walkList _)
  · cases m.body with
    | none => exact .nil
    | some b => exact Stmt.holdsBodies_block fun p _ => p.element.holdsBodies

/-- The nodes of a class hold the bodies of its trys, if this holds of its
members. -/
theorem ClassDecl.holdsBodies_of_members {c : JavaClass}
    (h : ∀ p ∈ c.body.statements, HoldsBodies p.element.walk) :
    HoldsBodies c.walk := by
  have hb : HoldsBodies (Member.walkBlock c.body) := by
    rw [Member.walkBlock, Member.walkAll_eq]
    exact .cons rfl (.flatMap h)
  rw [ClassDecl.walk]
  refine .cons rfl
    (.append (.append (.append (.append (.flatMap fun m _ => ?_) ?_) ?_) ?_) hb)
  · exact .of_isBelowStmt m.isBelowStmt_walk
  · exact .of_isBelowStmt c.name.isBelowStmt_walk
  · exact .of_isBelowStmt (TypeTree.isBelowStmt_walkList _)
  · exact .of_isBelowStmt (TypeTree.isBelowStmt_walkList _)

/-- The nodes of a member hold the bodies of its trys. -/
theorem Member.holdsBodies (m : Member) : HoldsBodies m.walk := by
  induction m using Member.induction_on with
  | field d => exact .of_isBelowStmt d.isBelowStmt_walk
  | method m => exact m.holdsBodies
  | nested c ih => exact ClassDecl.holdsBodies_of_members ih

/-- The walk of a file meets the bodies of the `try` statements it meets. -/
theorem CompilationUnit.holdsBodies (cu : CompilationUnit) :
    HoldsBodies cu.walk := by
  refine .cons rfl (.append (.append ?_ (.flatMap fun p _ => ?_))
    (.flatMap fun c _ => ?_))
  · split
    · exact .nil
    · exact .cons rfl (.of_isBelowStmt (Name.isBelowStmt_walk _))
  · exact .cons rfl (.of_isBelowStmt p.element.name.isBelowStmt_walk)
  · exact ClassDecl.holdsBodies_of_members fun p _ => p.element.holdsBodies

end JavaRefit
