/-
Induction over trees.

Trees hold lists of trees, optional trees and padded trees, and the
recursors Lean derives have a motive for each of these. Here every sort
of tree gets one induction principle with one motive, which asks for the
trees inside the lists by membership. The functions that walk, show or
edit a list come down to `flatMap` and `map` over it, so that a proof by
these principles never goes through a list by hand.

Chain: first of the proofs about trees; read by every proof about walks,
texts and edits.
-/
import JavaRefit.Tree.Edit
import JavaRefit.Tree.Pieces
import JavaRefit.Tree.Walk

namespace JavaRefit

open Piece

-- ================================================== induction principles

-- Not `induct`: names with that ending are kept for principles that Lean
-- derives, and whoever looks one up waits for every proof before it.

/-- Induction over written types. -/
@[elab_as_elim]
theorem TypeTree.induction_on {motive : TypeTree → Prop}
    (named : ∀ name, motive (.named name))
    (generic : ∀ lead base args type, (∀ p ∈ args.elements, motive p.element) →
      motive (.generic lead base args type))
    (primitive : ∀ lead keyword type, motive (.primitive lead keyword type))
    (array : ∀ lead element dimension type, motive element →
      motive (.array lead element dimension type))
    (union : ∀ lead alternatives, (∀ p ∈ alternatives, motive p.element) →
      motive (.union lead alternatives)) :
    ∀ t, motive t :=
  @TypeTree.rec motive (fun c => ∀ p ∈ c.elements, motive p.element)
    (fun ps => ∀ p ∈ ps, motive p.element) (fun p => motive p.element)
    named (fun _ _ _ _ => generic _ _ _ _) primitive
      (fun _ _ _ _ => array _ _ _ _)
    (fun _ _ => union _ _)
    (fun _ _ _ ih => ih)
    (List.forall_mem_nil _) (fun _ _ h hs => List.forall_mem_cons.2 ⟨h, hs⟩)
    (fun _ _ ih => ih)

/-- Induction over expressions. -/
@[elab_as_elim]
theorem Expr.induction_on {motive : Expr → Prop}
    (ident : ∀ i type, motive (.ident i type))
    (access : ∀ lead target name type, motive target →
      motive (.access lead target name type))
    (call : ∀ lead select name args method, (∀ p ∈ select, motive p.element) →
      (∀ p ∈ args.elements, motive p.element) →
      motive (.call lead select name args method))
    (new : ∀ lead base args constructor type,
      (∀ p ∈ args.elements, motive p.element) →
      motive (.new lead base args constructor type))
    (literal : ∀ lead text type, motive (.literal lead text type))
    (assign : ∀ lead target value type, motive target → motive value.element →
      motive (.assign lead target value type))
    (binary : ∀ lead left operator right type, motive left → motive right →
      motive (.binary lead left operator right type))
    (unary : ∀ lead operator operand type, motive operand →
      motive (.unary lead operator operand type))
    (parens : ∀ lead inner type, motive inner.element →
      motive (.parens lead inner type)) :
    ∀ e, motive e :=
  @Expr.rec motive (fun o => ∀ p ∈ o, motive p.element)
    (fun c => ∀ p ∈ c.elements, motive p.element)
    (fun p => motive p.element) (fun p => motive p.element)
      (fun ps => ∀ p ∈ ps, motive p.element)
    ident (fun _ _ _ _ => access _ _ _ _) (fun _ _ _ _ _ => call _ _ _ _ _)
    (fun _ _ _ _ _ => new _ _ _ _ _) literal (fun _ _ _ _ => assign _ _ _ _)
    (fun _ _ _ _ _ => binary _ _ _ _ _) (fun _ _ _ _ => unary _ _ _ _)
    (fun _ _ _ => parens _ _ _)
    (fun _ h => nomatch h) (fun _ ih _ h => Option.mem_some.1 h ▸ ih)
    (fun _ _ _ ih => ih) (fun _ _ ih => ih) (fun _ _ ih => ih)
    (List.forall_mem_nil _) (fun _ _ h hs => List.forall_mem_cons.2 ⟨h, hs⟩)

/-- Induction over statements. Clauses and blocks are met through the
statements in them. -/
@[elab_as_elim]
theorem Stmt.induction_on {motive : Stmt → Prop}
    (block : ∀ b, (∀ p ∈ b.statements, motive p.element) → motive (.block b))
    (declaration : ∀ d, motive (.declaration d))
    (expr : ∀ e, motive (.expr e))
    (empty : ∀ lead, motive (.empty lead))
    (tryCatch : ∀ t, (∀ p ∈ t.body.statements, motive p.element) →
      (∀ c ∈ t.catches, ∀ p ∈ c.body.statements, motive p.element) →
      (∀ f ∈ t.finally?, ∀ p ∈ f.element.statements, motive p.element) →
      motive (.tryCatch t)) (throwing :
      ∀ lead exception, motive (.throwing lead exception))
    (returning : ∀ lead value, motive (.returning lead value))
    (ifElse : ∀ lead condition thenPart elsePart, motive thenPart.element →
      (∀ e ∈ elsePart, motive e.body.element) →
      motive (.ifElse lead condition thenPart elsePart))
    (whileLoop : ∀ lead condition body, motive body.element →
      motive (.whileLoop lead condition body)) :
    ∀ s, motive s :=
  @Stmt.rec motive (fun b => ∀ p ∈ b.statements, motive p.element)
    (fun t => motive (.tryCatch t))
    (fun p => motive p.element) (fun o => ∀ e ∈ o, motive e.body.element)
    (fun ps => ∀ p ∈ ps, motive p.element)
    (fun cs => ∀ c ∈ cs, ∀ p ∈ c.body.statements, motive p.element)
    (fun o => ∀ f ∈ o, ∀ p ∈ f.element.statements, motive p.element)
    (fun e => motive e.body.element) (fun c => ∀ p ∈ c.body.statements,
      motive p.element)
    (fun f => ∀ p ∈ f.element.statements, motive p.element)
    (fun _ => block _) declaration expr empty (fun _ ih => ih)
      throwing returning
    (fun _ _ _ _ => ifElse _ _ _ _) (fun _ _ _ => whileLoop _ _ _)
    (fun _ _ _ ih => ih)
    (fun lead body catches finally? => tryCatch ⟨lead, body, catches, finally?⟩)
    (fun _ _ ih => ih)
    (fun _ h => nomatch h) (fun _ ih _ h => Option.mem_some.1 h ▸ ih)
    (List.forall_mem_nil _) (fun _ _ h hs => List.forall_mem_cons.2 ⟨h, hs⟩)
    (List.forall_mem_nil _) (fun _ _ h hs => List.forall_mem_cons.2 ⟨h, hs⟩)
    (fun _ h => nomatch h) (fun _ ih _ h => Option.mem_some.1 h ▸ ih)
    (fun _ _ ih => ih) (fun _ _ _ ih => ih) (fun _ _ ih => ih)

/-- Induction over members of classes. -/
@[elab_as_elim]
theorem Member.induction_on {motive : Member → Prop}
    (field : ∀ d, motive (.field d)) (method : ∀ m, motive (.method m))
    (nested : ∀ c, (∀ p ∈ c.body.statements, motive p.element) →
      motive (.nested c)) :
    ∀ m, motive m :=
  @Member.rec motive (fun c => motive (.nested c))
    (fun b => ∀ p ∈ b.statements, motive p.element)
    (fun ps => ∀ p ∈ ps, motive p.element) (fun p => motive p.element)
    field method (fun _ ih => ih)
    (fun lead modifiers kindLead kind name extends? implements? body type =>
      nested ⟨lead, modifiers, kindLead, kind, name, extends?, implements?,
        body, type⟩)
    (fun _ _ _ ih => ih)
    (List.forall_mem_nil _) (fun _ _ h hs => List.forall_mem_cons.2 ⟨h, hs⟩)
    (fun _ _ ih => ih)

-- ========================================================== lists walked

/-- A function that takes a list apart item by item and puts the results in a
row. -/
theorem eq_flatMap {α β : Type} {g : List α → List β} {f : α → List β}
    (nil : g [] = []) (cons : ∀ a as, g (a :: as) = f a ++ g as) (as : List α) :
    g as = as.flatMap f := by
  induction as with
  | nil => simp [nil]
  | cons a as ih => simp [cons, ih]

/-- The nodes of types in a row are those of each. -/
theorem TypeTree.walkAll_eq (ps : List (RightPadded TypeTree)) :
    TypeTree.walkAll ps = ps.flatMap fun p => p.element.walk :=
  eq_flatMap rfl (fun _ _ => rfl) ps

theorem Expr.walkAll_eq (ps : List (RightPadded Expr)) :
    Expr.walkAll ps = ps.flatMap fun p => p.element.walk :=
  eq_flatMap rfl (fun _ _ => rfl) ps

/-- The nodes of statements in a row are those of each. -/
theorem Stmt.walkAll_eq (ps : List (RightPadded Stmt)) :
    Stmt.walkAll ps = ps.flatMap fun p => p.element.walk :=
  eq_flatMap rfl (fun _ _ => rfl) ps

theorem Catch.walkAll_eq (cs : List (Catch Stmt)) :
    Catch.walkAll cs = cs.flatMap Catch.walk :=
  eq_flatMap rfl (fun _ _ => rfl) cs

theorem Member.walkAll_eq (ps : List (RightPadded Member)) :
    Member.walkAll ps = ps.flatMap fun p => p.element.walk :=
  eq_flatMap rfl (fun _ _ => rfl) ps

/-- The node of a package and those below it. -/
def Package.walk (p : Package) : List Node :=
  .package p :: p.name.walk

/-- The node of an import and those below it. -/
def Import.walk (i : Import) : List Node :=
  .importDecl i :: i.name.walk

/-- The walk of a file, its parts taken one by one. -/
theorem CompilationUnit.walk_eq (cu : CompilationUnit) :
    cu.walk =
      .unit cu :: (cu.package?.toList.flatMap (fun p => p.element.walk) ++
      cu.imports.flatMap (fun p => p.element.walk) ++
        cu.classes.flatMap ClassDecl.walk) := by
  obtain ⟨lead, p, imports, classes, close, path⟩ := cu
  cases p <;> simp [walk, Package.walk, Import.walk]

-- =========================================================== lists shown

theorem TypeTree.runs_eq_map (ps : List (RightPadded TypeTree)) :
    TypeTree.runs ps = ps.map fun p =>
      p.element.pieces ++ [trivia p.after] := by
  induction ps with
  | nil => rfl
  | cons p ps ih => rw [TypeTree.runs, ih, List.map_cons]

theorem Expr.runs_eq_map (ps : List (RightPadded Expr)) :
    Expr.runs ps = ps.map fun p => p.element.pieces ++ [trivia p.after] := by
  induction ps with
  | nil => rfl
  | cons p ps ih => rw [Expr.runs, ih, List.map_cons]

/-- The pieces of statements in a row are those of each. -/
theorem Stmt.allPieces_eq_flatMap (ps : List (RightPadded Stmt)) :
    Stmt.allPieces ps = ps.flatMap Stmt.paddedPieces := by
  induction ps with
  | nil => rfl
  | cons p ps ih => rw [Stmt.allPieces, ih, List.flatMap_cons]

/-- The pieces of clauses in a row are those of each. -/
theorem Catch.allPieces_eq_flatMap (cs : List (Catch Stmt)) :
    Catch.allPieces cs = cs.flatMap Catch.pieces := by
  induction cs with
  | nil => rfl
  | cons c cs ih => rw [Catch.allPieces, ih, List.flatMap_cons]

/-- The pieces of a padded member, with its semicolon where it needs one. -/
def Member.paddedPieces (p : RightPadded Member) : List Piece :=
  p.element.pieces ++ trivia p.after :: semicolonIf p.element.needsSemicolon

/-- The pieces of members in a row are those of each. -/
theorem Member.allPieces_eq_flatMap (ps : List (RightPadded Member)) :
    Member.allPieces ps = ps.flatMap Member.paddedPieces := by
  induction ps with
  | nil => rfl
  | cons p ps ih => simp [Member.allPieces, Member.paddedPieces, ih]

-- ========================================================== lists edited

/-- The element changed, the trivia behind it kept. -/
def RightPadded.map {α β : Type} (f : α → β) (p : RightPadded α) :
    RightPadded β :=
  ⟨f p.element, p.after⟩

variable {ω : Type}

/-- A function that edits a list item by item. -/
theorem value_eq_map {α β : Type} {g : List α → Edited ω (List β)} {f : α → β}
    (nil : (g []).value = []) (cons : ∀ a as, (g (a :: as)).value =
      f a :: (g as).value) (as : List α) : (g as).value = as.map f := by
  induction as with
  | nil => simp [nil]
  | cons a as ih => simp [cons, ih]

/-- Such a list is new when one of its items is. -/
theorem isNew_eq_any {α β : Type} {g : List α → Edited ω (List β)}
    {f : α → Bool} (nil : (g []).isNew = false)
    (cons : ∀ a as, (g (a :: as)).isNew = (f a || (g as).isNew)) (as : List α) :
    (g as).isNew = as.any f := by
  induction as with
  | nil => simp [nil]
  | cons a as ih => simp [cons, ih]

variable (r : Editor ω)

theorem TypeTree.editAll_value (ps : List (RightPadded TypeTree)) :
    (TypeTree.editAll r ps).value = ps.map (.map fun t => (t.edit r).value) :=
  value_eq_map rfl (fun _ _ => rfl) ps

theorem TypeTree.isNew_editAll (ps : List (RightPadded TypeTree)) :
    (TypeTree.editAll r ps).isNew = ps.any fun p => (p.element.edit r).isNew :=
  isNew_eq_any rfl (fun _ _ => rfl) ps

theorem Expr.editAll_value (ps : List (RightPadded Expr)) :
    (Expr.editAll r ps).value = ps.map (.map fun e => (e.edit r).value) :=
  value_eq_map rfl (fun _ _ => rfl) ps

theorem Modifier.editAll_value (ms : List Modifier) :
    (Modifier.editAll r ms).value = ms.map fun m => (m.edit r).value :=
  value_eq_map rfl (fun _ _ => rfl) ms

theorem Variable.editAll_value (ps : List (RightPadded Variable)) :
    (Variable.editAll r ps).value = ps.map (.map fun v => (v.edit r).value) :=
  value_eq_map rfl (fun _ _ => rfl) ps

theorem Variables.editAll_value (ps : List (RightPadded Variables)) :
    (Variables.editAll r ps).value = ps.map (.map fun d => (d.edit r).value) :=
  value_eq_map rfl (fun _ _ => rfl) ps

/-- Statements in a row are edited one by one. -/
theorem Stmt.editAll_value (ps : List (RightPadded Stmt)) :
    (Stmt.editAll r ps).value = ps.map (.map fun s => (s.edit r).value) :=
  value_eq_map rfl (fun _ _ => rfl) ps

/-- Statements in a row are new iff one of them is. -/
theorem Stmt.isNew_editAll (ps : List (RightPadded Stmt)) :
    (Stmt.editAll r ps).isNew = ps.any fun p => (p.element.edit r).isNew :=
  isNew_eq_any rfl (fun _ _ => rfl) ps

/-- Clauses in a row are edited one by one. -/
theorem Catch.editAll_value (cs : List (Catch Stmt)) :
    (Catch.editAll r cs).value = cs.map fun c => (c.edit r).value :=
  value_eq_map rfl (fun _ _ => rfl) cs

/-- Clauses in a row are new iff one of them is. -/
theorem Catch.isNew_editAll (cs : List (Catch Stmt)) :
    (Catch.editAll r cs).isNew = cs.any fun c => (c.edit r).isNew :=
  isNew_eq_any rfl (fun _ _ => rfl) cs

/-- Members in a row are edited one by one. -/
theorem Member.editAll_value (ps : List (RightPadded Member)) :
    (Member.editAll r ps).value = ps.map (.map fun m => (m.edit r).value) :=
  value_eq_map rfl (fun _ _ => rfl) ps

/-- Members in a row are new iff one of them is. -/
theorem Member.isNew_editAll (ps : List (RightPadded Member)) :
    (Member.editAll r ps).isNew = ps.any fun p => (p.element.edit r).isNew :=
  isNew_eq_any rfl (fun _ _ => rfl) ps

theorem ClassDecl.editAll_value (cs : List JavaClass) :
    (ClassDecl.editAll r cs).value = cs.map fun c => (c.edit r).value :=
  value_eq_map rfl (fun _ _ => rfl) cs

theorem ClassDecl.isNew_editAll (cs : List JavaClass) :
    (ClassDecl.editAll r cs).isNew = cs.any fun c => (c.edit r).isNew :=
  isNew_eq_any rfl (fun _ _ => rfl) cs

end JavaRefit
