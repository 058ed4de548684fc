/-
Edits that tell the truth about being new.

An edit of a thing may only say that it is not new where it gives back
the thing itself. Editors all of whose functions keep to this keep to it
on whole trees: the combinators that rebuild a node from its children
pass the property on, and so does every sort of node.

Chain: after `Edit`; read by the proofs about what is kept in an edit.
-/
import JavaRefit.Proofs.Tree.Edit

namespace JavaRefit

namespace Edited

variable {ω α β : Type}

/-- An edit of `a` that gives back `a` if it is not new. -/
def Honest (a : α) (e : Edited ω α) : Prop :=
  e.isNew = false → e.value = a

/-- To keep is honest. -/
theorem Honest.keep (a : α) : Honest a (.keep a : Edited ω α) :=
  fun _ => rfl

/-- An edit stays honest under a function. -/
theorem Honest.map {a : α} {e : Edited ω α} (f : α → β) (h : Honest a e) :
    Honest (f a) (f <$> e) := by
  intro hn
  rw [value_map, h hn]

/-- An honest edit of a function may be applied to an honest edit. -/
theorem Honest.seq {f : α → β} {a : α} {g : Edited ω (α → β)} {e : Edited ω α}
    (hg : Honest f g) (he : Honest a e) : Honest (f a) (g <*> e) := by
  intro hn
  obtain ⟨hn₁, hn₂⟩ := Bool.or_eq_false_iff.1 hn
  rw [value_seq, hg hn₁, he hn₂]

/-- Honest edits may follow one another. -/
theorem Honest.andThen {a : α} {e : Edited ω α} {f : α → Edited ω α}
    (he : Honest a e) (hf : ∀ b, Honest b (f b)) : Honest a (e.andThen f) := by
  intro hn
  obtain ⟨hn₁, hn₂⟩ := Bool.or_eq_false_iff.1 hn
  show (f e.value).value = a
  rw [hf e.value hn₂, he hn₁]

/-- A function that edits a list item by item is honest about a list if it is
about its items. -/
theorem Honest.all {g : List α → Edited ω (List α)} (nil : Honest [] (g []))
    {P : α → Prop} (cons : ∀ a as, P a → Honest as (g as) → Honest (a :: as)
      (g (a :: as))) {as : List α} (h : ∀ a ∈ as, P a) : Honest as (g as) := by
  induction as with
  | nil => exact nil
  | cons a as ih =>
      obtain ⟨ha, has⟩ := List.forall_mem_cons.1 h
      exact cons a as ha (ih has)

end Edited

open Edited

/-- All functions of an editor are honest. -/
structure Editor.Honest {ω : Type} (r : Editor ω) : Prop where
  ident : ∀ a, Edited.Honest a (r.ident a)
  name : ∀ a, Edited.Honest a (r.name a)
  typeTree : ∀ a, Edited.Honest a (r.typeTree a)
  expr : ∀ a, Edited.Honest a (r.expr a)
  modifier : ∀ a, Edited.Honest a (r.modifier a)
  declarator : ∀ a, Edited.Honest a (r.declarator a)
  declaration : ∀ a, Edited.Honest a (r.declaration a)
  condition : ∀ a, Edited.Honest a (r.condition a)
  parameter : ∀ a, Edited.Honest a (r.parameter a)
  catchClause : ∀ a, Edited.Honest a (r.catchClause a)
  elseBranch : ∀ a, Edited.Honest a (r.elseBranch a)
  block : ∀ a, Edited.Honest a (r.block a)
  stmt : ∀ a, Edited.Honest a (r.stmt a)
  method : ∀ a, Edited.Honest a (r.method a)
  classBody : ∀ a, Edited.Honest a (r.classBody a)
  classDecl : ∀ a, Edited.Honest a (r.classDecl a)
  package : ∀ a, Edited.Honest a (r.package a)
  importDecl : ∀ a, Edited.Honest a (r.importDecl a)
  unit : ∀ a, Edited.Honest a (r.unit a)

section Trees

variable {ω : Type} {r : Editor ω} (hr : r.Honest)
include hr

-- ======================================================= names and types

theorem LeftPadded.honest_editIdent (p : LeftPadded Ident) :
    Edited.Honest p (p.editIdent r) :=
  (hr.ident p.element).map fun i => (⟨p.before, i⟩ : LeftPadded Ident)

/-- An honest editor edits names honestly. -/
theorem Name.honest_edit (n : Name) : Edited.Honest n (n.edit r) := by
  induction n with
  | simple i type => exact hr.name _
  | qualified lead outer last type ih =>
      exact ((ih.map fun outer last => Name.qualified lead outer last type).seq
        (last.honest_editIdent hr)).andThen hr.name

omit hr in

/-- Types in a row are edited honestly if each is. -/
theorem TypeTree.honest_editAll {ps : List (RightPadded TypeTree)}
    (h : ∀ p ∈ ps, Edited.Honest p.element (p.element.edit r)) :
    Edited.Honest ps (TypeTree.editAll r ps) := by
  refine .all (g := TypeTree.editAll r) (.keep []) (fun p ps hp hps => ?_) h
  exact (hp.map fun t ts =>
    (⟨t, p.after⟩ :: ts : List (RightPadded TypeTree))).seq hps

/-- An honest editor edits types honestly: by induction on the type. -/
theorem TypeTree.honest_edit (t : TypeTree) : Edited.Honest t (t.edit r) := by
  induction t using TypeTree.induction_on with
  | named n => exact (n.honest_edit hr).map TypeTree.named
  | generic lead base args type ih =>
      exact (((base.honest_edit hr).map fun base elements =>
        TypeTree.generic lead base ⟨args.before, elements, args.close⟩ type).seq
          (honest_editAll ih)).andThen hr.typeTree
  | primitive lead keyword type => exact hr.typeTree _
  | array lead element dimension type ih =>
      exact (ih.map fun element =>
        TypeTree.array lead element dimension type).andThen hr.typeTree
  | union lead alternatives ih =>
      exact ((honest_editAll ih).map fun ps =>
        TypeTree.union lead ps).andThen hr.typeTree

theorem TypeTree.honest_editList (o : Option (Container TypeTree)) :
    Edited.Honest o (TypeTree.editList r o) := by
  cases o with
  | none => exact .keep none
  | some c =>
      have h : Edited.Honest c.elements (TypeTree.editAll r c.elements) :=
        honest_editAll fun p _ => p.element.honest_edit hr
      exact h.map fun elements =>
        some (⟨c.before, elements, c.close⟩ : Container TypeTree)

theorem TypeTree.honest_editOption (o : Option TypeTree) :
    Edited.Honest o (TypeTree.editOption r o) := by
  cases o with
  | none => exact .keep none
  | some t => exact (t.honest_edit hr).map some

-- =========================================================== expressions

omit hr in
theorem Expr.honest_editAll {ps : List (RightPadded Expr)}
    (h : ∀ p ∈ ps, Edited.Honest p.element (p.element.edit r)) :
    Edited.Honest ps (Expr.editAll r ps) := by
  refine .all (g := Expr.editAll r) (.keep []) (fun p ps hp hps => ?_) h
  exact (hp.map fun e es =>
    (⟨e, p.after⟩ :: es : List (RightPadded Expr))).seq hps

/-- An honest editor edits expressions honestly: by induction on the
expression. -/
theorem Expr.honest_edit (e : Expr) : Edited.Honest e (e.edit r) := by
  induction e using Expr.induction_on with
  | ident i type => exact hr.expr _
  | access lead target name type ih =>
      exact ((ih.map fun target name => Expr.access lead target name type).seq
        (name.honest_editIdent hr)).andThen hr.expr
  | call lead select name args method ihs iha =>
      have hs : Edited.Honest select (Expr.editSelect r select) := by
        cases select with
        | none => exact .keep none
        | some p =>
            exact (ihs p rfl).map fun e =>
              some (⟨e, p.after⟩ : RightPadded Expr)
      exact (((hs.map fun select name elements =>
        Expr.call lead select name ⟨args.before, elements,
          args.close⟩ method).seq
          (hr.ident name)).seq (honest_editAll iha)).andThen hr.expr
  | new lead base args constructor type ih =>
      exact (((base.honest_edit hr).map fun base elements =>
        Expr.new lead base ⟨args.before, elements, args.close⟩
          constructor type).seq
          (honest_editAll ih)).andThen hr.expr
  | literal lead text type => exact hr.expr _
  | assign lead target value type iht ihv =>
      exact ((iht.map fun target v =>
        Expr.assign lead target ⟨value.before, v⟩ type).seq ihv).andThen hr.expr
  | binary lead left operator right type ihl ihr =>
      exact ((ihl.map fun left right =>
        Expr.binary lead left operator right type).seq ihr).andThen hr.expr
  | unary lead operator operand type ih =>
      exact (ih.map fun operand =>
        Expr.unary lead operator operand type).andThen hr.expr
  | parens lead inner type ih =>
      exact (ih.map fun e => Expr.parens lead ⟨e, inner.after⟩ type).andThen
        hr.expr

-- ========================================================== declarations

theorem Modifier.honest_edit (m : Modifier) : Edited.Honest m (m.edit r) := by
  cases m with
  | keyword lead word => exact hr.modifier _
  | annotated lead name args =>
      cases args with
      | none =>
          exact ((name.honest_edit hr).map fun name =>
            Modifier.annotated lead name none).andThen hr.modifier
      | some c =>
          have hc : Edited.Honest c.elements (Expr.editAll r c.elements) :=
            Expr.honest_editAll fun p _ => p.element.honest_edit hr
          exact (((name.honest_edit hr).map fun name elements =>
            Modifier.annotated lead name
              (some ⟨c.before, elements, c.close⟩)).seq
              hc).andThen hr.modifier

theorem Modifier.honest_editAll (ms : List Modifier) :
    Edited.Honest ms (Modifier.editAll r ms) := by
  refine .all (g := Modifier.editAll r) (.keep []) (fun m ms hm hms => ?_)
    fun m _ => m.honest_edit hr
  exact (hm.map (· :: ·)).seq hms

theorem Variable.honest_edit (v : Variable) : Edited.Honest v (v.edit r) := by
  have hi : Edited.Honest v.initializer
      (LeftPadded.editExpr r v.initializer) := by
    cases v.initializer with
    | none => exact .keep none
    | some p =>
        exact (p.element.honest_edit hr).map fun e =>
          some (⟨p.before, e⟩ : LeftPadded Expr)
  exact (((v.name.honest_edit hr).map fun name initializer =>
    (⟨v.lead, name, initializer, v.type⟩ : Variable)).seq hi).andThen
      hr.declarator

theorem Variable.honest_editAll (ps : List (RightPadded Variable)) :
    Edited.Honest ps (Variable.editAll r ps) := by
  refine .all (g := Variable.editAll r) (.keep []) (fun p ps hp hps => ?_)
    fun p _ => p.element.honest_edit hr
  exact (hp.map fun v vs =>
    (⟨v, p.after⟩ :: vs : List (RightPadded Variable))).seq hps

theorem Variables.honest_edit (d : Variables) : Edited.Honest d (d.edit r) :=
  ((((Modifier.honest_editAll hr d.modifiers).map
    fun modifiers typeTree declarators =>
    (⟨d.lead, modifiers, typeTree, declarators⟩ : Variables)).seq
      (d.typeTree.honest_edit hr)).seq
        (Variable.honest_editAll hr d.declarators)).andThen
        hr.declaration

theorem Variables.honest_editAll (ps : List (RightPadded Variables)) :
    Edited.Honest ps (Variables.editAll r ps) := by
  refine .all (g := Variables.editAll r) (.keep []) (fun p ps hp hps => ?_)
    fun p _ => p.element.honest_edit hr
  exact (hp.map fun d ds =>
    (⟨d, p.after⟩ :: ds : List (RightPadded Variables))).seq hps

theorem Expr.honest_editCondition (c : Parens Expr) :
    Edited.Honest c (Expr.editCondition r c) :=
  ((c.inner.element.honest_edit hr).map fun e =>
    (⟨c.lead, ⟨e, c.inner.after⟩⟩ : Parens Expr)).andThen hr.condition

theorem Variables.honest_editParameter (c : Parens Variables) :
    Edited.Honest c (Variables.editParameter r c) :=
  ((c.inner.element.honest_edit hr).map fun d =>
    (⟨c.lead, ⟨d, c.inner.after⟩⟩ : Parens Variables)).andThen hr.parameter

-- ============================================================ statements

/-- A block is edited honestly if its statements are. -/
theorem Stmt.honest_editBlock {b : Block Stmt}
    (h : ∀ p ∈ b.statements, Edited.Honest p.element (p.element.edit r)) :
    Edited.Honest b (Stmt.editBlock r b) := by
  have hs : Edited.Honest b.statements (Stmt.editAll r b.statements) := by
    refine .all (g := Stmt.editAll r) (.keep []) (fun p ps hp hps => ?_) h
    exact (hp.map fun s ss =>
      (⟨s, p.after⟩ :: ss : List (RightPadded Stmt))).seq hps
  rw [Stmt.editBlock]
  exact (hs.map fun statements =>
    (⟨b.lead, statements, b.close⟩ : Block Stmt)).andThen hr.block

/-- A clause is edited honestly if the statements of its body are. -/
theorem Catch.honest_edit_of_statements {c : Catch Stmt}
    (h : ∀ p ∈ c.body.statements, Edited.Honest p.element (p.element.edit r)) :
    Edited.Honest c (c.edit r) := by
  rw [Catch.edit]
  exact (((Variables.honest_editParameter hr c.parameter).map
    fun parameter body =>
    (⟨c.lead, parameter, body⟩ : Catch Stmt)).seq
      (Stmt.honest_editBlock hr h)).andThen
      hr.catchClause

/-- The parts of a try are edited honestly if its statements are. -/
theorem Try.honest_editParts_of_statements {t : Try Stmt}
    (hb : ∀ p ∈ t.body.statements, Edited.Honest p.element (p.element.edit r))
    (hc : ∀ c ∈ t.catches, ∀ p ∈ c.body.statements,
      Edited.Honest p.element (p.element.edit r))
    (hf : ∀ f ∈ t.finally?, ∀ p ∈ f.element.statements,
      Edited.Honest p.element (p.element.edit r)) :
    Edited.Honest t (Try.editParts r t) := by
  have hone : ∀ c ∈ t.catches, Edited.Honest c (c.edit r) := fun c h =>
    Catch.honest_edit_of_statements hr (hc c h)
  have hcs : Edited.Honest t.catches (Catch.editAll r t.catches) := by
    refine .all (g := Catch.editAll r) (.keep []) (fun c cs hc hcs => ?_) hone
    exact (hc.map (· :: ·)).seq hcs
  have hfs : Edited.Honest t.finally? (Stmt.editFinally r t.finally?) := by
    cases h : t.finally? with
    | none => exact .keep none
    | some f =>
        exact (Stmt.honest_editBlock hr (hf f h)).map fun b =>
          some (⟨f.before, b⟩ : LeftPadded (Block Stmt))
  rw [Try.editParts]
  exact (((Stmt.honest_editBlock hr hb).map fun body catches finally? =>
    (⟨t.lead, body, catches, finally?⟩ : Try Stmt)).seq hcs).seq hfs

/-- An honest editor edits statements honestly: by induction on the
statement. -/
theorem Stmt.honest_edit (s : Stmt) : Edited.Honest s (s.edit r) := by
  induction s using Stmt.induction_on with
  | block b ih => exact (honest_editBlock hr ih).map Stmt.block
  | declaration d => exact (d.honest_edit hr).map Stmt.declaration
  | expr e => exact (e.honest_edit hr).map Stmt.expr
  | empty lead => exact hr.stmt _
  | tryCatch t ihb ihc ihf =>
      exact ((Try.honest_editParts_of_statements hr ihb ihc ihf).map
        Stmt.tryCatch).andThen hr.stmt
  | throwing lead exception =>
      exact ((exception.honest_edit hr).map fun e =>
        Stmt.throwing lead e).andThen hr.stmt
  | returning lead value =>
      cases value with
      | none => exact hr.stmt _
      | some e =>
          exact ((e.honest_edit hr).map fun e =>
            Stmt.returning lead (some e)).andThen hr.stmt
  | ifElse lead condition thenPart elsePart iht ihe =>
      have he : Edited.Honest elsePart (Stmt.editElse r elsePart) := by
        cases elsePart with
        | none => exact .keep none
        | some e =>
            rw [Stmt.editElse, Else.edit]
            exact (((ihe e rfl).map fun s =>
              (⟨e.lead, ⟨s, e.body.after⟩⟩ : Else Stmt)).andThen
                hr.elseBranch).map some
      exact ((((Expr.honest_editCondition hr condition).map
        fun condition s elsePart =>
        Stmt.ifElse lead condition ⟨s, thenPart.after⟩ elsePart).seq iht).seq
          he).andThen hr.stmt
  | whileLoop lead condition body ih =>
      exact (((Expr.honest_editCondition hr condition).map fun condition s =>
        Stmt.whileLoop lead condition ⟨s, body.after⟩).seq ih).andThen hr.stmt

-- =================================================== classes and files

theorem Method.honest_edit (m : Method) : Edited.Honest m (m.edit r) := by
  have hb : Edited.Honest m.body (Stmt.editBody r m.body) := by
    cases m.body with
    | none => exact .keep none
    | some b =>
        exact (Stmt.honest_editBlock hr fun p _ =>
          p.element.honest_edit hr).map some
  exact (((((((Modifier.honest_editAll hr m.modifiers).map
    fun modifiers returnType name elements throws body =>
      (⟨m.lead, modifiers, returnType, name,
        ⟨m.parameters.before, elements, m.parameters.close⟩, throws, body,
        m.type⟩ : Method)).seq
    (TypeTree.honest_editOption hr m.returnType)).seq (hr.ident m.name)).seq
    (Variables.honest_editAll hr m.parameters.elements)).seq
    (TypeTree.honest_editList hr m.throws)).seq hb).andThen hr.method

/-- A class body is edited honestly if its members are. -/
theorem Member.honest_editBlock {b : Block Member}
    (h : ∀ p ∈ b.statements, Edited.Honest p.element (p.element.edit r)) :
    Edited.Honest b (Member.editBlock r b) := by
  have hm : Edited.Honest b.statements (Member.editAll r b.statements) := by
    refine .all (g := Member.editAll r) (.keep []) (fun p ps hp hps => ?_) h
    exact (hp.map fun m ms =>
      (⟨m, p.after⟩ :: ms : List (RightPadded Member))).seq hps
  rw [Member.editBlock]
  exact (hm.map fun members =>
    (⟨b.lead, members, b.close⟩ : Block Member)).andThen hr.classBody

/-- A class is edited honestly if its members are. -/
theorem ClassDecl.honest_edit_of_members {c : JavaClass}
    (h : ∀ p ∈ c.body.statements, Edited.Honest p.element (p.element.edit r)) :
    Edited.Honest c (c.edit r) := by
  rw [ClassDecl.edit]
  exact ((((((Modifier.honest_editAll hr c.modifiers).map
    fun modifiers name extends? implements? body =>
      (⟨c.lead, modifiers, c.kindLead, c.kind, name, extends?, implements?,
        body, c.type⟩ : JavaClass)).seq (c.name.honest_edit hr)).seq
    (TypeTree.honest_editList hr c.extends?)).seq
    (TypeTree.honest_editList hr c.implements?)).seq
    (Member.honest_editBlock hr h)).andThen hr.classDecl

/-- An honest editor edits members honestly: by induction on the member. -/
theorem Member.honest_edit (m : Member) : Edited.Honest m (m.edit r) := by
  induction m using Member.induction_on with
  | field d => exact (d.honest_edit hr).map Member.field
  | method m => exact (m.honest_edit hr).map Member.method
  | nested c ih =>
      exact (ClassDecl.honest_edit_of_members hr ih).map Member.nested

theorem Package.honest_edit (o : Option (RightPadded Package)) :
    Edited.Honest o (Package.edit r o) := by
  cases o with
  | none => exact .keep none
  | some p =>
      exact (((p.element.name.honest_edit hr).map fun name =>
        (⟨p.element.lead, name⟩ : Package)).andThen hr.package).map fun q =>
          some (⟨q, p.after⟩ : RightPadded Package)

theorem Import.honest_editAll (ps : List (RightPadded Import)) :
    Edited.Honest ps (Import.editAll r ps) := by
  have hone : ∀ p ∈ ps, Edited.Honest p.element
      (((fun name => (⟨p.element.lead, p.element.static?, name⟩ : Import)) <$>
        p.element.name.edit r).andThen r.importDecl) := fun p _ =>
    ((p.element.name.honest_edit hr).map fun name =>
      (⟨p.element.lead, p.element.static?, name⟩ : Import)).andThen
        hr.importDecl
  refine .all (g := Import.editAll r) (.keep []) (fun p ps hp hps => ?_) hone
  exact (hp.map fun i is =>
    (⟨i, p.after⟩ :: is : List (RightPadded Import))).seq hps

/-- A file edited by an honest editor is the file itself unless it is new. -/
theorem CompilationUnit.honest_edit (cu : CompilationUnit) :
    Edited.Honest cu (cu.edit r) := by
  have hone : ∀ c ∈ cu.classes, Edited.Honest c (c.edit r) := fun c _ =>
    ClassDecl.honest_edit_of_members hr fun p _ => p.element.honest_edit hr
  have hc : Edited.Honest cu.classes (ClassDecl.editAll r cu.classes) := by
    refine .all (g := ClassDecl.editAll r) (.keep [])
      (fun c cs hc hcs => ?_) hone
    exact (hc.map (· :: ·)).seq hcs
  exact ((((Package.honest_edit hr cu.package?).map
    fun package? imports classes =>
    (⟨cu.lead, package?, imports, classes, cu.close, cu.path⟩ :
      CompilationUnit)).seq
      (Import.honest_editAll hr cu.imports)).seq hc).andThen hr.unit

end Trees

-- ========================================================= try statements

variable {ω : Type} {f : Try Stmt → Edited ω (Try Stmt)}

/-- An honest edit of trys makes an honest editor. -/
theorem Editor.honest_ofTry (hf : ∀ t, Edited.Honest t (f t)) :
    (Editor.ofTry f).Honest where
  ident := .keep
  name := .keep
  typeTree := .keep
  expr := .keep
  modifier := .keep
  declarator := .keep
  declaration := .keep
  condition := .keep
  parameter := .keep
  catchClause := .keep
  elseBranch := .keep
  block := .keep
  stmt s := by
    cases s with
    | tryCatch t => exact (hf t).map Stmt.tryCatch
    | _ => exact .keep _
  method := .keep
  classBody := .keep
  classDecl := .keep
  package := .keep
  importDecl := .keep
  unit := .keep

end JavaRefit
