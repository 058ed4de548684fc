/-
What the catch rule leaves of a statement.

Everything but the declarations of its catch clauses, and those are what
the plan of their `try` statement in the file makes of them, although the
rule plans when the statements inside have been rewritten.

Chain: after `Run`; the rereading of rewritten files rests on it.
-/
import JavaRefit.Proofs.CatchRule.Run
import JavaRefit.Proofs.Tree.Recaught
import JavaRefit.Proofs.Tree.Tries

namespace JavaRefit

namespace CatchRule

variable {P : Variables → Variables → Prop} (r : CatchRule) (qualified : Bool)

/-- What the clauses of some `try` statements declare and what they come to
declare is related. -/
def Redeclares (P : Variables → Variables → Prop)
    (ts : List (Try Stmt)) : Prop :=
  ∀ t ∈ ts, ∀ c ∈ t.catches,
    P c.declaration (r.newDeclaration qualified (r.plan t) c.declaration)

variable {r qualified}

theorem Redeclares.mono {ts us : List (Try Stmt)}
    (h : r.Redeclares qualified P us) (hs : ts ⊆ us) :
    r.Redeclares qualified P ts :=
  fun t ht => h t (hs ht)

theorem redeclares_append {ts us : List (Try Stmt)} :
    r.Redeclares qualified P (ts ++ us) ↔
      r.Redeclares qualified P ts ∧ r.Redeclares qualified P us :=
  List.forall_mem_append

theorem redeclares_flatMap {α : Type} {l : List α} {f : α → List (Try Stmt)} :
    r.Redeclares qualified P (l.flatMap f) ↔ ∀ a ∈ l,
      r.Redeclares qualified P (f a) :=
  List.forall_mem_flatMap

-- ============================================================= statements

/-- A block edited by the rule is recaught if its statements are. -/
theorem recaught_editBlock {b : Block Stmt}
    (ih : ∀ p ∈ b.statements,
      r.Redeclares qualified P (Node.tries p.element.walk) →
      Stmt.Recaught P p.element
        (p.element.edit (.ofTry (r.retarget qualified))).value)
    (h : r.Redeclares qualified P (Node.tries (Stmt.walkBlock b))) :
    Stmt.Recaught P (.block b)
      (.block (Stmt.editBlock (.ofTry (r.retarget qualified)) b).value) := by
  rw [Stmt.tries_walkBlock, redeclares_flatMap] at h
  rw [Stmt.editBlock_value]
  refine .block ?_ ?_
  · rw [List.forall₂_map_right_iff]
    exact List.forall₂_same.2 fun p hp => ih p hp (h p hp)
  · rw [List.map_map]
    rfl

variable (hne : r.legacy ≠ r.replacement.fqn)
include hne

/-- The plan of a `try` statement whose parts were edited by the rule is the
one it had. -/
theorem plan_editParts (t : Try Stmt) :
    r.plan (Try.editParts (.ofTry (r.retarget qualified)) t).value =
      r.plan t := by
  rw [Try.editParts_value]
  refine plan_congr ?_ ?_
  · exact (follows_editBlock fun p _ => follows_editStmt hne p.element).sites
  · rw [Try.caught, Try.caught, List.map_map]
    rfl

/-- A statement edited by the rule is the statement but for what its clauses
declare. -/
theorem recaught_editStmt (s : Stmt)
    (h : r.Redeclares qualified P (Node.tries s.walk)) :
    Stmt.Recaught P s (s.edit (.ofTry (r.retarget qualified))).value := by
  induction s using Stmt.induction_on with
  | block b ih => exact recaught_editBlock ih h
  | tryCatch t ihb ihc ihf =>
      have hv :
          (Stmt.edit (.ofTry (r.retarget qualified)) (.tryCatch t)).value =
          .tryCatch (r.retarget qualified
            (Try.editParts (.ofTry (r.retarget qualified)) t).value).value :=
              rfl
      obtain ⟨hvalue, -⟩ := r.retarget_isRetargeted qualified
        (Try.editParts (.ofTry (r.retarget qualified)) t).value
      rw [hv, hvalue, plan_editParts hne, Try.editParts_value]
      rw [Stmt.walk, Try.tries_walk, ← List.singleton_append, redeclares_append,
        redeclares_append, redeclares_append, redeclares_flatMap] at h
      obtain ⟨ht, ⟨hb, hcs⟩, hf⟩ := h
      have ht := ht t List.mem_cons_self
      obtain ⟨lead, b, cs, f⟩ := t
      dsimp only at ht hcs hf ⊢
      rw [List.map_map]
      refine .tryCatch (recaught_editBlock ihb hb) ?_ ?_ ?_ ?_
      · rw [List.forall₂_map_right_iff]
        exact List.forall₂_same.2 fun c hc =>
          recaught_editBlock (ihc c hc) (hcs c hc)
      · rw [List.forall₂_map_right_iff]
        exact List.forall₂_same.2 fun c hc => ⟨rfl, rfl, rfl, ht c hc⟩
      · cases f with
        | none => exact .none
        | some g => exact .some (recaught_editBlock (ihf g rfl) hf)
      · cases f <;> rfl
  | ifElse lead condition thenPart elsePart iht ihe =>
      rw [Stmt.tries_walk_ifElse, redeclares_append, redeclares_flatMap] at h
      rw [Stmt.edit, Expr.editCondition_ofTry]
      refine .ifElse (iht h.1) rfl ?_ ?_
      · cases elsePart with
        | none => exact .none
        | some e =>
            rw [Stmt.editElse_some]
            exact .some (ihe e rfl (h.2 e List.mem_cons_self))
      · cases elsePart with
        | none => rfl
        | some e => rw [Stmt.editElse_some]; rfl
  | whileLoop lead condition body ih =>
      rw [Stmt.tries_walk_whileLoop] at h
      rw [Stmt.edit, Expr.editCondition_ofTry]
      exact .whileLoop (ih h) rfl
  | throwing lead exception =>
      rw [Stmt.edit, Expr.edit_ofTry]
      exact .same _
  | returning lead value =>
      cases value with
      | none => exact .same _
      | some e =>
          rw [Stmt.edit, Expr.edit_ofTry]
          exact .same _
  | declaration d =>
      rw [Stmt.edit, Variables.edit_ofTry]
      exact .same _
  | expr e =>
      rw [Stmt.edit, Expr.edit_ofTry]
      exact .same _
  | empty lead => exact .same _

-- =================================================== classes and files

theorem recaught_editMethod (m : Method)
    (h : r.Redeclares qualified P (Node.tries m.walk)) :
    Member.Recaught P (.method m)
      (.method (m.edit (.ofTry (r.retarget qualified))).value) := by
  rw [Method.tries_walk, redeclares_flatMap] at h
  rw [Method.edit_value]
  cases hm : m.body with
  | none =>
      have hsame : { m with body := (none : Option (Block Stmt)) } =
          m := by rw [← hm]
      show Member.Recaught P _ (.method { m with body := none })
      rw [hsame]
      exact .same _
  | some b =>
      refine .method hm (recaught_editBlock
        (fun p _ => recaught_editStmt hne p.element) ?_)
      exact h b (by rw [hm]; exact List.mem_cons_self)

omit hne in
/-- A class edited by the rule is recaught if its members are. -/
theorem recaught_editClass {c : JavaClass}
    (ih : ∀ p ∈ c.body.statements,
      r.Redeclares qualified P (Node.tries p.element.walk) →
      Member.Recaught P p.element
        (p.element.edit (.ofTry (r.retarget qualified))).value)
    (h : r.Redeclares qualified P (Node.tries c.walk)) :
    ClassDecl.Recaught P c (c.edit (.ofTry (r.retarget qualified))).value := by
  rw [ClassDecl.tries_walk, redeclares_flatMap] at h
  rw [ClassDecl.edit_value]
  refine .nested ?_ ?_
  · rw [List.forall₂_map_right_iff]
    exact List.forall₂_same.2 fun p hp => ih p hp (h p hp)
  · rw [List.map_map]
    rfl

theorem recaught_editMember (m : Member)
    (h : r.Redeclares qualified P (Node.tries m.walk)) :
    Member.Recaught P m (m.edit (.ofTry (r.retarget qualified))).value := by
  induction m using Member.induction_on with
  | field d =>
      rw [Member.edit, Variables.edit_ofTry]
      exact .same _
  | method m => exact recaught_editMethod hne m h
  | nested c ih => exact recaught_editClass ih h

/-- The classes of a file edited by the rule are those of the file but for what
their clauses declare. -/
theorem recaught_edit {cu : CompilationUnit}
    (h : r.Redeclares qualified P cu.tries) :
    List.Forall₂ (ClassDecl.Recaught P) cu.classes
      (cu.edit (r.editor qualified)).value.classes := by
  rw [CompilationUnit.tries_eq, redeclares_flatMap] at h
  rw [editor_eq, CompilationUnit.edit_value, List.forall₂_map_right_iff]
  exact List.forall₂_same.2 fun c hc =>
    recaught_editClass (fun p _ => recaught_editMember hne p.element) (h c hc)

/-- The classes of a file edited by the rule are those of the file, whatever
clauses come to declare. -/
theorem recaught_edit_any (qualified : Bool) (cu : CompilationUnit) :
    List.Forall₂ (ClassDecl.Recaught fun _ _ => True) cu.classes
      (cu.edit (r.editor qualified)).value.classes :=
  recaught_edit hne fun _ _ _ _ => trivial

-- ================================================================ clauses

omit hne in
theorem keepsBlocks_retarget (r : CatchRule) (qualified : Bool) :
    KeepsBlocks (r.retarget qualified) where
  body t := by rw [(r.retarget_isRetargeted qualified t).1]
  catches t := by
    rw [(r.retarget_isRetargeted qualified t).1, List.map_map]
    exact List.map_congr_left fun c _ => rfl
  finally? t := by rw [(r.retarget_isRetargeted qualified t).1]

/-- The clauses of a `try` in an edited file declare what its plan has them
declare. -/
theorem declarations_edited (t : Try Stmt) :
    (t.edited (r.retarget qualified)).catches.map Catch.declaration =
      t.catches.map fun c =>
        r.newDeclaration qualified (r.plan t) c.declaration := by
  rw [Try.edited, (r.retarget_isRetargeted qualified _).1, plan_editParts hne,
    Try.editParts_value, List.map_map, List.map_map]
  rfl

end CatchRule

end JavaRefit
