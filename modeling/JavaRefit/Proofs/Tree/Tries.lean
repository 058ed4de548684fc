/-
The `try` statements of a tree that was changed throughout.

A change of statements that goes into their parts (`Stmt.GoesInto`) takes
the `try` statements of a tree to those of the changed tree, one by one
and in order. Taking types away is such a change, and so is what an editor
does that is told about `try` statements only, if it leaves their blocks
as they are.

Chain: after `Walk`, `Untyped` and `Edit`; read where the clauses of a
rewritten file are compared with those of the file.
-/
import JavaRefit.Proofs.Tree.Edit
import JavaRefit.Proofs.Tree.Untyped
import JavaRefit.Proofs.Tree.Walk

namespace JavaRefit

open Node

-- ============================================================== the change

/-- A change of statements that goes into their parts, and what it makes of a
`try`. -/
structure Stmt.GoesInto (g : Stmt → Stmt) (h : Try Stmt → Try Stmt) : Prop where
  block : ∀ b, g (.block b) = .block (b.map g)
  tryCatch : ∀ t, g (.tryCatch t) = .tryCatch (h t)
  body : ∀ t, (h t).body = t.body.map g
  catches : ∀ t, (h t).catches.map Catch.body = t.catches.map fun c =>
    c.body.map g
  finally? : ∀ t, (h t).finally?.map LeftPadded.element =
    t.finally?.map fun f => f.element.map g
  ifElse : ∀ lead c p e, ∃ c',
    g (.ifElse lead c p e) = .ifElse lead c' (p.map g)
      (e.map fun e => ⟨e.lead, e.body.map g⟩)
  whileLoop : ∀ lead c p, ∃ c', g (.whileLoop lead c p) =
    .whileLoop lead c' (p.map g)
  declaration : ∀ d, ∃ d', g (.declaration d) = .declaration d'
  expr : ∀ e, ∃ e', g (.expr e) = .expr e'
  empty : ∀ lead, g (.empty lead) = .empty lead
  throwing : ∀ lead e, ∃ e', g (.throwing lead e) = .throwing lead e'
  returning : ∀ lead e, ∃ e', g (.returning lead e) = .returning lead e'

namespace Stmt

variable {g : Stmt → Stmt} {h : Try Stmt → Try Stmt}

/-- The trys of a block that is changed statement by statement. -/
theorem tries_map_block {b : Block Stmt}
    (ih : ∀ p ∈ b.statements, tries (g p.element).walk =
      (tries p.element.walk).map h) :
    tries (walkBlock (b.map g)) = (tries (walkBlock b)).map h := by
  rw [tries_walkBlock, tries_walkBlock, Block.map, List.flatMap_map,
    List.map_flatMap]
  exact List.flatMap_congr ih

/-- A change that goes into the parts of statements changes the `try`
statements in them. -/
theorem GoesInto.tries_walk (hg : GoesInto g h) (s : Stmt) :
    tries (g s).walk = (tries s.walk).map h := by
  induction s using Stmt.induction_on with
  | block b ih =>
      rw [hg.block]
      exact tries_map_block ih
  | tryCatch t ihb ihc ihf =>
      have hcs : ((h t).catches.flatMap fun c => tries (walkBlock c.body)) =
          (t.catches.flatMap fun c => tries (walkBlock c.body)).map h := by
        calc (h t).catches.flatMap (fun c => tries (walkBlock c.body))
            = ((h t).catches.map Catch.body).flatMap fun b =>
              tries (walkBlock b) := by
              rw [List.flatMap_map]
          _ = t.catches.flatMap fun c => tries (walkBlock (c.body.map g)) := by
              rw [hg.catches, List.flatMap_map]
          _ = (t.catches.flatMap fun c => tries (walkBlock c.body)).map h := by
              rw [List.map_flatMap]
              exact List.flatMap_congr fun c hc => tries_map_block (ihc c hc)
      have hf : tries (walkFinally (h t).finally?) =
          (tries (walkFinally t.finally?)).map h := by
        have hfinally := hg.finally? t
        cases ht : t.finally? with
        | none =>
            rw [ht, Option.map_none, Option.map_eq_none_iff] at hfinally
            rw [hfinally]
            rfl
        | some f =>
            rw [ht, Option.map_some, Option.map_eq_some_iff] at hfinally
            obtain ⟨f', hf', helement⟩ := hfinally
            rw [hf', walkFinally, walkFinally, helement]
            exact tries_map_block (ihf f ht)
      rw [hg.tryCatch, walk, walk, Try.tries_walk, Try.tries_walk,
        List.map_cons, List.map_append, List.map_append, hg.body,
        tries_map_block ihb, hcs, hf]
  | ifElse lead c p e ihp ihe =>
      obtain ⟨c', hc⟩ := hg.ifElse lead c p e
      rw [hc, tries_walk_ifElse, tries_walk_ifElse, List.map_append]
      refine congrArg₂ _ ihp ?_
      cases e with
      | none => rfl
      | some e => simpa [RightPadded.map] using ihe e rfl
  | whileLoop lead c p ih =>
      obtain ⟨c', hc⟩ := hg.whileLoop lead c p
      rw [hc, tries_walk_whileLoop, tries_walk_whileLoop]
      exact ih
  | declaration d =>
      obtain ⟨d', hd⟩ := hg.declaration d
      rw [hd, walk, walk, tries_eq_nil d.isBelowStmt_walk,
        tries_eq_nil d'.isBelowStmt_walk]
      rfl
  | expr e =>
      obtain ⟨e', he⟩ := hg.expr e
      rw [he, walk, walk, tries_eq_nil e.isBelowStmt_walk,
        tries_eq_nil e'.isBelowStmt_walk]
      rfl
  | empty lead => rw [hg.empty]; rfl
  | throwing lead e =>
      obtain ⟨e', he⟩ := hg.throwing lead e
      rw [he, tries_walk_throwing, tries_walk_throwing]
      rfl
  | returning lead e =>
      obtain ⟨e', he⟩ := hg.returning lead e
      rw [he, tries_walk_returning, tries_walk_returning]
      rfl

end Stmt

section

variable {g : Stmt → Stmt} {h : Try Stmt → Try Stmt}

/-- The `try` statements of a method with its body changed. -/
theorem Method.tries_walk_map (hg : Stmt.GoesInto g h) {m m' : Method}
    (hbody : m'.body = m.body.map (.map g)) :
    tries m'.walk = (tries m.walk).map h := by
  rw [tries_walk, tries_walk, hbody]
  cases m.body with
  | none => rfl
  | some b =>
      rw [Option.map_some, Option.toList_some, Option.toList_some,
        List.flatMap_singleton, List.flatMap_singleton]
      exact Stmt.tries_map_block fun p _ => hg.tries_walk p.element

/-- The `try` statements of a class with its members changed. -/
theorem ClassDecl.tries_walk_map {g : Member → Member} {c c' : JavaClass}
    (hbody : c'.body.statements = c.body.statements.map (.map g))
    (ih : ∀ p ∈ c.body.statements, tries (g p.element).walk =
      (tries p.element.walk).map h) :
    tries c'.walk = (tries c.walk).map h := by
  rw [tries_walk, tries_walk, hbody, List.flatMap_map, List.map_flatMap]
  exact List.flatMap_congr ih

end

-- ========================================================== without types

/-- To drop types reaches every try. -/
theorem Stmt.goesInto_untyped : Stmt.GoesInto Stmt.untyped Try.untyped where
  block := untyped_block
  tryCatch := untyped_tryCatch
  body _ := rfl
  catches t := by rw [Try.untyped, List.map_map]; rfl
  finally? t := by rw [Try.untyped, Option.map_map]; rfl
  ifElse lead c p e := ⟨_, untyped_ifElse lead c p e⟩
  whileLoop _ _ _ := ⟨_, rfl⟩
  declaration _ := ⟨_, rfl⟩
  expr _ := ⟨_, rfl⟩
  empty _ := rfl
  throwing _ _ := ⟨_, rfl⟩
  returning lead e := ⟨_, untyped_returning lead e⟩

theorem Member.tries_untyped (m : Member) :
    tries m.untyped.walk = (tries m.walk).map Try.untyped := by
  induction m using Member.induction_on with
  | field d =>
      have hfield : (Member.field d).untyped = .field d.untyped := rfl
      rw [hfield, walk, walk, tries_eq_nil d.isBelowStmt_walk,
        tries_eq_nil d.untyped.isBelowStmt_walk]
      rfl
  | method m =>
      exact Method.tries_walk_map Stmt.goesInto_untyped
        (congrArg Method.body m.untyped_eq)
  | nested c ih =>
      have hbody := congrArg (fun c : JavaClass => c.body.statements)
        c.untyped_eq
      exact ClassDecl.tries_walk_map hbody ih

/-- The `try` statements of a class without types are its `try` statements
without types. -/
theorem ClassDecl.tries_untyped (c : JavaClass) :
    tries c.untyped.walk = (tries c.walk).map Try.untyped :=
  Member.tries_untyped (.nested c)

/-- The trys of a file without types are its trys without types. -/
theorem CompilationUnit.tries_untyped (cu : CompilationUnit) :
    cu.untyped.tries = cu.tries.map Try.untyped := by
  rw [tries_eq, tries_eq, untyped_eq, List.flatMap_map, List.map_flatMap]
  exact List.flatMap_congr fun c _ => c.tries_untyped

-- ========================================================== edited clauses

variable {ω : Type} {f : Try Stmt → Edited ω (Try Stmt)}

/-- The edit changes a `try` in nothing but the parameters of its clauses. -/
structure KeepsBlocks (f : Try Stmt → Edited ω (Try Stmt)) : Prop where
  body : ∀ t, (f t).value.body = t.body
  catches : ∀ t, (f t).value.catches.map Catch.body = t.catches.map Catch.body
  finally? : ∀ t, (f t).value.finally? = t.finally?

/-- To edit trys reaches every try. -/
theorem Stmt.goesInto_edit (hf : KeepsBlocks f) :
    Stmt.GoesInto (fun s => (s.edit (.ofTry f)).value)
      (fun t => (f (Try.editParts (.ofTry f) t).value).value) where
  block b := by rw [Stmt.edit, Edited.value_map, editBlock_value]; rfl
  tryCatch t := rfl
  body t := by rw [hf.body, Try.editParts_value, editBlock_value]; rfl
  catches t := by
    rw [hf.catches, Try.editParts_value, List.map_map]
    exact List.map_congr_left fun c _ => editBlock_value f c.body
  finally? t := by
    rw [hf.finally?, Try.editParts_value]
    cases t.finally? with
    | none => rfl
    | some g => exact congrArg some (editBlock_value f g.element)
  ifElse lead c p e := by
    rw [Stmt.edit, Expr.editCondition_ofTry]
    cases e with
    | none => exact ⟨_, rfl⟩
    | some e => exact ⟨c, congrArg (Stmt.ifElse lead c _) (editElse_some f e)⟩
  whileLoop lead c p := ⟨_, rfl⟩
  declaration d := ⟨_, rfl⟩
  expr e := ⟨_, rfl⟩
  empty lead := rfl
  throwing lead e := ⟨_, rfl⟩
  returning lead e := by cases e <;> exact ⟨_, rfl⟩

/-- What becomes of a `try` whose parts are edited before it is. -/
def Try.edited (f : Try Stmt → Edited ω (Try Stmt)) (t : Try Stmt) : Try Stmt :=
  (f (Try.editParts (.ofTry f) t).value).value

theorem Member.tries_edit (hf : KeepsBlocks f) (m : Member) :
    tries (m.edit (.ofTry f)).value.walk =
      (tries m.walk).map (Try.edited f) := by
  induction m using Member.induction_on with
  | field d =>
      rw [Member.edit, Variables.edit_ofTry]
      show tries d.walk = (tries d.walk).map _
      rw [tries_eq_nil d.isBelowStmt_walk]
      rfl
  | method m =>
      refine Method.tries_walk_map (Stmt.goesInto_edit hf) (m := m) ?_
      show (m.edit (.ofTry f)).value.body = _
      rw [Method.edit_value]
      cases m.body with
      | none => rfl
      | some b => exact congrArg some (Stmt.editBlock_value f b)
  | nested c ih =>
      refine ClassDecl.tries_walk_map (c := c)
        (g := fun m => (m.edit (.ofTry f)).value) ?_ ih
      show (c.edit (.ofTry f)).value.body.statements = _
      rw [ClassDecl.edit_value]

/-- The `try` statements of an edited file are those of the file, each
edited. -/
theorem CompilationUnit.tries_edit (hf : KeepsBlocks f) (cu : CompilationUnit) :
    (cu.edit (.ofTry f)).value.tries = cu.tries.map (Try.edited f) := by
  rw [tries_eq, tries_eq, CompilationUnit.edit_value, List.flatMap_map,
    List.map_flatMap]
  exact List.flatMap_congr fun c _ => Member.tries_edit hf (.nested c)

end JavaRefit
