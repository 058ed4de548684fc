/-
Edits of `try` statements.

An editor that is told about `try` statements only keeps everything below
statements (names, written types, expressions, declarations) as it is,
notes nothing there and calls nothing new. Of a file it changes no more
than the bodies of methods.

Chain: after `Induction`; read by the proofs about the catch rule, which
is such an editor.
-/
import Mathlib.Tactic.Simps.Basic
import JavaRefit.Proofs.Tree.Induction

namespace JavaRefit

-- ============================================================ kept values

namespace Edited

variable {ω α β : Type}

@[simp] theorem pure_eq_keep (a : α) : (pure a : Edited ω α) = .keep a := rfl

@[simp] theorem map_keep (f : α → β) (a : α) :
    f <$> (.keep a : Edited ω α) = .keep (f a) := rfl

@[simp] theorem keep_seq (f : α → β) (a : α) :
    (.keep f : Edited ω (α → β)) <*> .keep a = .keep (f a) := rfl

@[simp] theorem keep_andThen (a : α) (f : α → Edited ω α) :
    (Edited.keep a).andThen f = f a := rfl

@[simp] theorem andThen_keep (e : Edited ω α) : e.andThen .keep = e := by
  simp [andThen, keep]

@[simp] theorem value_keep (a : α) : (.keep a : Edited ω α).value = a := rfl

@[simp] theorem isNew_keep (a : α) : (.keep a : Edited ω α).isNew = false := rfl

@[simp] theorem value_replace (a : α) :
    (.replace a : Edited ω α).value = a := rfl

@[simp] theorem isNew_replace (a : α) :
    (.replace a : Edited ω α).isNew = true := rfl

@[simp] theorem value_andThen (e : Edited ω α) (f : α → Edited ω α) :
    (e.andThen f).value = (f e.value).value := rfl

@[simp] theorem isNew_andThen (e : Edited ω α) (f : α → Edited ω α) :
    (e.andThen f).isNew = (e.isNew || (f e.value).isNew) := rfl

/-- What is new after the second edit is new. -/
theorem isNew_andThen_of_right {e : Edited ω α} {f : α → Edited ω α}
    (h : (f e.value).isNew = true) : (e.andThen f).isNew = true := by
  simp [h]

/-- A function that edits a list item by item and keeps the items `P` holds of
keeps a list where it holds of all. -/
theorem eq_keep_of_forall {α : Type} {g : List α → Edited ω (List α)}
    (nil : g [] = .keep []) {P : α → Prop}
    (cons : ∀ a as, P a → g as = .keep as → g (a :: as) = .keep (a :: as))
    {as : List α} (h : ∀ a ∈ as, P a) : g as = .keep as := by
  induction as with
  | nil => exact nil
  | cons a as ih =>
      obtain ⟨ha, has⟩ := List.forall_mem_cons.1 h
      exact cons a as ha (ih has)

/-- A function that edits a list item by item and keeps every item. -/
theorem eq_keep {α : Type} {g : List α → Edited ω (List α)}
    (nil : g [] = .keep []) (cons : ∀ a as, g as = .keep as →
      g (a :: as) = .keep (a :: as)) (as : List α) :
    g as = .keep as :=
  eq_keep_of_forall nil (fun a as _ => cons a as) (fun _ _ => trivial)

end Edited

-- ====================================================== below statements

/-- The editor that is told about `try` statements only. -/
@[simps -fullyApplied]
def Editor.ofTry {ω : Type} (f : Try Stmt → Edited ω (Try Stmt)) : Editor ω :=
  { stmt := fun s => match s with
      | .tryCatch t => Stmt.tryCatch <$> f t
      | s => .keep s }

variable {ω : Type} (f : Try Stmt → Edited ω (Try Stmt))

/-- To edit the trys is to keep names. -/
@[simp] theorem Name.edit_ofTry (n : Name) : n.edit (.ofTry f) = .keep n := by
  induction n with
  | simple i type => rfl
  | qualified lead outer last type ih =>
      simp [Name.edit, ih, LeftPadded.editIdent]

theorem TypeTree.editAll_ofTry {ps : List (RightPadded TypeTree)}
    (h : ∀ p ∈ ps, p.element.edit (.ofTry f) = .keep p.element) :
    TypeTree.editAll (.ofTry f) ps = .keep ps := by
  refine Edited.eq_keep_of_forall (g := TypeTree.editAll _) rfl
    (fun p ps hp hps => ?_) h
  simp [TypeTree.editAll, hp, hps]

/-- To edit the trys is to keep types. -/
@[simp] theorem TypeTree.edit_ofTry (t : TypeTree) :
    t.edit (.ofTry f) = .keep t := by
  induction t using TypeTree.induction_on with
  | named n => simp [TypeTree.edit]
  | generic lead base args type ih => simp [TypeTree.edit, editAll_ofTry f ih]
  | primitive lead keyword type => rfl
  | array lead element dimension type ih => simp [TypeTree.edit, ih]
  | union lead alternatives ih => simp [TypeTree.edit, editAll_ofTry f ih]

theorem Expr.editAll_ofTry {ps : List (RightPadded Expr)}
    (h : ∀ p ∈ ps, p.element.edit (.ofTry f) = .keep p.element) :
    Expr.editAll (.ofTry f) ps = .keep ps := by
  refine Edited.eq_keep_of_forall (g := Expr.editAll _) rfl
    (fun p ps hp hps => ?_) h
  simp [Expr.editAll, hp, hps]

/-- To edit the trys is to keep expressions: no try stands in one. -/
@[simp] theorem Expr.edit_ofTry (e : Expr) : e.edit (.ofTry f) = .keep e := by
  induction e using Expr.induction_on with
  | call lead select name args method ihs iha =>
      have hs : Expr.editSelect (.ofTry f) select = .keep select := by
        cases select with
        | none => rfl
        | some p => simp [Expr.editSelect, ihs p rfl]
      simp [Expr.edit, hs, editAll_ofTry f iha]
  | access lead target name type ih =>
      simp [Expr.edit, ih, LeftPadded.editIdent]
  | new lead base args constructor type ih =>
      simp [Expr.edit, editAll_ofTry f ih]
  | assign lead target value type iht ihv => simp [Expr.edit, iht, ihv]
  | binary lead left operator right type ihl ihr => simp [Expr.edit, ihl, ihr]
  | unary lead operator operand type ih => simp [Expr.edit, ih]
  | parens lead inner type ih => simp [Expr.edit, ih]
  | ident i type => rfl
  | literal lead text type => rfl

/-- To edit the trys is to keep annotations. -/
@[simp] theorem Modifier.edit_ofTry (m : Modifier) :
    m.edit (.ofTry f) = .keep m := by
  cases m with
  | keyword lead word => rfl
  | annotated lead name args =>
      cases args with
      | none => simp [Modifier.edit]
      | some c =>
          simp [Modifier.edit,
            Expr.editAll_ofTry f fun p _ => p.element.edit_ofTry f]

theorem Modifier.editAll_ofTry (ms : List Modifier) :
    Modifier.editAll (.ofTry f) ms = .keep ms :=
  Edited.eq_keep (g := Modifier.editAll _) rfl
    (fun _ _ h => by simp [Modifier.editAll, h]) ms

@[simp] theorem Variable.edit_ofTry (v : Variable) :
    v.edit (.ofTry f) = .keep v := by
  have hi : LeftPadded.editExpr (.ofTry f) v.initializer =
      .keep v.initializer := by
    cases v.initializer <;> simp [LeftPadded.editExpr]
  simp [Variable.edit, hi]

theorem Variable.editAll_ofTry (ps : List (RightPadded Variable)) :
    Variable.editAll (.ofTry f) ps = .keep ps :=
  Edited.eq_keep (g := Variable.editAll _) rfl
    (fun _ _ h => by simp [Variable.editAll, h]) ps

/-- To edit the trys is to keep declarations. -/
@[simp] theorem Variables.edit_ofTry (d : Variables) :
    d.edit (.ofTry f) = .keep d := by
  simp [Variables.edit, Modifier.editAll_ofTry, Variable.editAll_ofTry]

theorem Variables.editAll_ofTry (ps : List (RightPadded Variables)) :
    Variables.editAll (.ofTry f) ps = .keep ps :=
  Edited.eq_keep (g := Variables.editAll _) rfl
    (fun _ _ h => by simp [Variables.editAll, h]) ps

@[simp] theorem Expr.editCondition_ofTry (c : Parens Expr) :
    Expr.editCondition (.ofTry f) c = .keep c := by
  simp [Expr.editCondition]

@[simp] theorem Variables.editParameter_ofTry (c : Parens Variables) :
    Variables.editParameter (.ofTry f) c = .keep c := by
  simp [Variables.editParameter]

theorem TypeTree.editList_ofTry (o : Option (Container TypeTree)) :
    TypeTree.editList (.ofTry f) o = .keep o := by
  cases o with
  | none => rfl
  | some c => simp [TypeTree.editList,
        editAll_ofTry f fun p _ => p.element.edit_ofTry f]

theorem TypeTree.editOption_ofTry (o : Option TypeTree) :
    TypeTree.editOption (.ofTry f) o = .keep o := by
  cases o <;> simp [TypeTree.editOption]

theorem Package.edit_ofTry (o : Option (RightPadded Package)) :
    Package.edit (.ofTry f) o = .keep o := by
  cases o <;> simp [Package.edit]

theorem Import.editAll_ofTry (ps : List (RightPadded Import)) :
    Import.editAll (.ofTry f) ps = .keep ps :=
  Edited.eq_keep (g := Import.editAll _) rfl
    (fun _ _ h => by simp [Import.editAll, h]) ps

-- ============================================================ statements

/-- The trys of a block are edited statement by statement. -/
theorem Stmt.editBlock_value (b : Block Stmt) :
    (Stmt.editBlock (.ofTry f) b).value =
      { b with statements :=
        b.statements.map (.map fun s => (s.edit (.ofTry f)).value) } := by
  simp [Stmt.editBlock, Stmt.editAll_value]

/-- The trys of a branch are edited in its statement. -/
theorem Stmt.editElse_some (e : Else Stmt) :
    (Stmt.editElse (.ofTry f) (some e)).value =
      some { e with body := e.body.map fun s =>
        (s.edit (.ofTry f)).value } := by
  simp [Stmt.editElse, Else.edit, RightPadded.map]

/-- An edited clause has another body and the same parameter. -/
theorem Catch.edit_value (c : Catch Stmt) :
    (c.edit (.ofTry f)).value =
      { c with body := (Stmt.editBlock (.ofTry f) c.body).value } := by
  simp [Catch.edit]

/-- The parts of a `try` statement edited: its blocks, and the bodies of its
clauses. -/
theorem Try.editParts_value (t : Try Stmt) :
    (Try.editParts (.ofTry f) t).value =
      { t with
        body := (Stmt.editBlock (.ofTry f) t.body).value
        catches := t.catches.map fun c =>
          { c with body := (Stmt.editBlock (.ofTry f) c.body).value }
        finally? := (Stmt.editFinally (.ofTry f) t.finally?).value } := by
  simp [Try.editParts, Catch.editAll_value, Catch.edit_value]

/-- An edited method has another body, and nothing else. -/
theorem Method.edit_value (m : Method) :
    (m.edit (.ofTry f)).value =
      { m with body := (Stmt.editBody (.ofTry f) m.body).value } := by
  have hi : (Editor.ofTry f).ident m.name = .keep m.name := by simp
  simp [Method.edit, Modifier.editAll_ofTry, Variables.editAll_ofTry,
    TypeTree.editOption_ofTry, TypeTree.editList_ofTry, hi]

/-- An edited class has another body, and nothing else. -/
theorem ClassDecl.edit_value (c : JavaClass) :
    (c.edit (.ofTry f)).value =
      { c with
        body.statements :=
  c.body.statements.map (.map fun m => (m.edit (.ofTry f)).value) } := by
  simp [ClassDecl.edit, Member.editBlock, Member.editAll_value,
    Modifier.editAll_ofTry, TypeTree.editList_ofTry]

/-- An edited file has other classes, and nothing else. -/
theorem CompilationUnit.edit_value (cu : CompilationUnit) :
    (cu.edit (.ofTry f)).value =
      { cu with classes := cu.classes.map fun c =>
        (c.edit (.ofTry f)).value } := by
  simp [CompilationUnit.edit, Package.edit_ofTry, Import.editAll_ofTry,
    ClassDecl.editAll_value]

end JavaRefit
