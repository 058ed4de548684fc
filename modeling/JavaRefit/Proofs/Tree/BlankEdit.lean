/-
Edits that do not look at trivia.

An editor ignores trivia when what it does to a node is, up to trivia,
what it does to any node that is the same without trivia. Such an editor
does the same to a tree and to the tree without its trivia: results that
are the same without trivia, new or kept alike, with the same notes.

Chain: after `Blank`; the catch rule is such an editor, and so is the
renaming that it uses.
-/
import JavaRefit.Proofs.Tree.Blank
import JavaRefit.Proofs.Tree.Edit

namespace JavaRefit

-- ========================================================== edited alike

namespace Edited

variable {ω α α' β β' : Type}

/-- Two edited values that are related, both new or both kept, with the same
notes. -/
structure Related (R : α → α' → Prop) (e : Edited ω α)
    (e' : Edited ω α') : Prop where
  value : R e.value e'.value
  isNew : e.isNew = e'.isNew
  notes : e.notes = e'.notes

namespace Related

variable {R : α → α' → Prop} {S : β → β' → Prop} {e : Edited ω α}
  {e' : Edited ω α'}

/-- Related values are kept alike. -/
theorem keep {a : α} {a' : α'} (h : R a a') :
    Related R (.keep a : Edited ω α) (.keep a') :=
  ⟨h, rfl, rfl⟩

/-- Related values replace alike. -/
theorem replace {a : α} {a' : α'} (h : R a a') :
    Related R (.replace a : Edited ω α) (.replace a') :=
  ⟨h, rfl, rfl⟩

/-- Functions that respect the relations carry related edits along. -/
theorem map {f : α → β} {f' : α' → β'} (hf : ∀ a a', R a a' → S (f a) (f' a'))
    (h : Related R e e') : Related S (f <$> e) (f' <$> e') :=
  ⟨hf _ _ h.value, h.isNew, h.notes⟩

/-- Related edits of functions are applied to related edits. -/
theorem seq {f : Edited ω (α → β)} {f' : Edited ω (α' → β')}
    (hf : Related (fun g g' => ∀ a a', R a a' → S (g a) (g' a')) f f')
    (h : Related R e e') :
    Related S (f <*> e) (f' <*> e') :=
  ⟨hf.value _ _ h.value, congrArg₂ or hf.isNew h.isNew,
    congrArg₂ (· ++ ·) hf.notes h.notes⟩

/-- A second edit that is related on related values may follow. -/
theorem andThen {f : α → Edited ω α} {f' : α' → Edited ω α'}
    (h : Related R e e') (hf : ∀ a a', R a a' → Related R (f a) (f' a')) :
    Related R (e.andThen f) (e'.andThen f') :=
  have hnext := hf _ _ h.value
  ⟨hnext.value, congrArg₂ or h.isNew hnext.isNew,
    congrArg₂ (· ++ ·) h.notes hnext.notes⟩

end Related

end Edited

/-- The same without trivia. -/
abbrev Alike {α : Type} (blank : α → α) (a a' : α) : Prop :=
  blank a = blank a'

/-- What is asked of blank things and answered for all is answered alike for
things alike. -/
theorem Alike.answer_eq {α β : Type} {blank : α → α} {q : α → β}
    (hq : ∀ a, q (blank a) = q a) {a a' : α} (h : Alike blank a a') :
    q a = q a' := by
  rw [← hq, show blank a = blank a' from h, hq]

/-- Something that is done to nodes does not depend on their trivia. -/
def Ignores {ω α : Type} (blank : α → α) (f : α → Edited ω α) : Prop :=
  ∀ a a', Alike blank a a' → (f a).Related (Alike blank) (f a')

/-- To keep everything is to ignore trivia. -/
theorem Ignores.keep {ω α : Type} {blank : α → α} :
    Ignores blank (Edited.keep : α → Edited ω α) :=
  fun _ _ h => .keep h

/-- What is done to a thing is done to the blank thing. -/
theorem Ignores.of_blank {ω α : Type} {blank : α → α} {f : α → Edited ω α}
    (h : ∀ a, (f (blank a)).Related (Alike blank) (f a)) : Ignores blank f := by
  intro a a' haa'
  have ha := h a
  have ha' := h a'
  rw [show blank a = blank a' from haa'] at ha
  exact ⟨ha.value.symm.trans ha'.value, ha.isNew.symm.trans ha'.isNew,
    ha.notes.symm.trans ha'.notes⟩

/-- One thing after another is done. -/
theorem Ignores.foldl {ω α β : Type} {blank : α → α} {f : β → α → Edited ω α}
    (hf : ∀ b, Ignores blank (f b)) (bs : List β) :
    Ignores blank fun a => bs.foldl (fun e b => e.andThen (f b)) (.keep a) := by
  have hfoldl (bs : List β) {e e' : Edited ω α}
      (h : e.Related (Alike blank) e') :
      (bs.foldl (fun e b => e.andThen (f b)) e).Related (Alike blank)
        (bs.foldl (fun e b => e.andThen (f b)) e') := by
    induction bs generalizing e e' with
    | nil => exact h
    | cons b bs ih => exact ih (.andThen h (hf b))
  exact fun a a' h => hfoldl bs (.keep h)

/-- What is done to a blank node is, made blank, what is done to the node. -/
def Commutes {ω α : Type} (blank : α → α) (f : α → Edited ω α) : Prop :=
  ∀ a, f (blank a) = blank <$> f a

/-- An edit that commutes with blanking does not look at trivia. -/
theorem Commutes.ignores {ω α : Type} {blank : α → α} {f : α → Edited ω α}
    (h : Commutes blank f) : Ignores blank f := by
  intro a a' ha
  have heq : blank <$> f a = blank <$> f a' := by
    rw [← h, ← h, show blank a = blank a' from ha]
  exact ⟨congrArg (·.value) heq, congrArg (·.isNew) heq, congrArg (·.notes) heq⟩

/-- Nothing the editor does depends on trivia. -/
structure Editor.IgnoresTrivia {ω : Type} (r : Editor ω) : Prop where
  ident : Ignores Ident.blank r.ident := by exact .keep
  name : Ignores Name.blank r.name := by exact .keep
  typeTree : Ignores TypeTree.blank r.typeTree := by exact .keep
  expr : Ignores Expr.blank r.expr := by exact .keep
  modifier : Ignores Modifier.blank r.modifier := by exact .keep
  declarator : Ignores Variable.blank r.declarator := by exact .keep
  declaration : Ignores Variables.blank r.declaration := by exact .keep
  condition : Ignores (Parens.blank Expr.blank) r.condition := by exact .keep
  parameter : Ignores (Parens.blank Variables.blank)
    r.parameter := by exact .keep
  catchClause : Ignores Catch.blank r.catchClause := by exact .keep
  elseBranch : Ignores Else.blank r.elseBranch := by exact .keep
  block : Ignores (Block.blank Stmt.blank) r.block := by exact .keep
  stmt : Ignores Stmt.blank r.stmt := by exact .keep
  method : Ignores Method.blank r.method := by exact .keep
  classBody : Ignores (Block.blank Member.blank) r.classBody := by exact .keep
  classDecl : Ignores ClassDecl.blank r.classDecl := by exact .keep
  package : Ignores Package.blank r.package := by exact .keep
  importDecl : Ignores Import.blank r.importDecl := by exact .keep
  unit : Ignores CompilationUnit.blank r.unit := by exact .keep

section

variable {ω : Type} {r : Editor ω} (hr : r.IgnoresTrivia)

/-- A list edited item by item. -/
theorem related_editAll {α : Type} {blank : α → α}
    {g : List (RightPadded α) → Edited ω (List (RightPadded α))}
    {f : α → Edited ω α} (nil : g [] = .keep [])
    (cons : ∀ p ps, g (p :: ps) = (fun a as => ⟨a, p.after⟩ :: as) <$>
      f p.element <*> g ps) {ps : List (RightPadded α)}
    (h : ∀ p ∈ ps, (f (blank p.element)).Related (Alike blank) (f p.element)) :
    (g (ps.map (.blank blank))).Related
      (Alike (List.map (RightPadded.blank blank))) (g ps) := by
  induction ps with
  | nil =>
      rw [List.map_nil, nil]
      exact .keep rfl
  | cons p ps ih =>
      obtain ⟨hp, hps⟩ := List.forall_mem_cons.1 h
      rw [List.map_cons, cons, cons]
      refine .seq (.map ?_ hp) (ih hps)
      intro a a' ha as as' has
      exact congrArg₂ (fun b bs => ⟨b, ""⟩ :: bs) ha has

/-- The same for a list without padding. -/
theorem related_editList {α : Type} {blank : α → α}
    {g : List α → Edited ω (List α)} {f : α → Edited ω α}
    (nil : g [] = .keep [])
    (cons : ∀ a as, g (a :: as) = (· :: ·) <$> f a <*> g as) {as : List α}
    (h : ∀ a ∈ as, (f (blank a)).Related (Alike blank) (f a)) :
    (g (as.map blank)).Related (Alike (List.map blank)) (g as) := by
  induction as with
  | nil =>
      rw [List.map_nil, nil]
      exact .keep rfl
  | cons a as ih =>
      obtain ⟨ha, has⟩ := List.forall_mem_cons.1 h
      rw [List.map_cons, cons, cons]
      refine .seq (.map ?_ ha) (ih has)
      intro b b' hb bs bs' hbs
      exact congrArg₂ List.cons hb hbs

include hr

-- ======================================================= names and types

/-- The name behind a dot is edited alike without trivia. -/
theorem LeftPadded.related_editIdent (p : LeftPadded Ident) :
    ((p.blank Ident.blank).editIdent r).Related
      (Alike (LeftPadded.blank Ident.blank)) (p.editIdent r) :=
  .map (fun _ _ h => congrArg (LeftPadded.mk "") h) (hr.ident _ _ rfl)

/-- A name is edited alike without trivia. -/
theorem Name.related_edit (n : Name) :
    (n.blank.edit r).Related (Alike Name.blank) (n.edit r) := by
  induction n with
  | simple i type => exact hr.name _ _ rfl
  | qualified lead outer last type ih =>
      rw [blank_qualified, edit, edit]
      refine .andThen (.seq (.map ?_ ih) (last.related_editIdent hr)) hr.name
      intro o o' ho l l' hl
      rw [Alike, blank_qualified, blank_qualified, ho, hl]

/-- A type is edited alike without trivia: by induction on the type. -/
theorem TypeTree.related_edit (t : TypeTree) :
    (t.blank.edit r).Related (Alike TypeTree.blank) (t.edit r) := by
  induction t using TypeTree.induction_on with
  | named n =>
      exact .map (fun _ _ h => congrArg TypeTree.named h) (n.related_edit hr)
  | generic lead base args type ih =>
      rw [blank_generic, edit, edit]
      refine .andThen (.seq (.map ?_ (base.related_edit hr))
        (related_editAll (g := editAll r) rfl (fun _ _ => rfl) ih)) hr.typeTree
      intro b b' hb ts ts' hts
      rw [Alike, blank_generic, blank_generic, hb]
      exact congrArg (fun es =>
        TypeTree.generic "" b'.blank ⟨"", es, ""⟩ type) hts
  | primitive lead keyword type => exact hr.typeTree _ _ rfl
  | array lead element dimension type ih =>
      rw [blank_array, edit, edit]
      refine .andThen (.map ?_ ih) hr.typeTree
      intro t t' ht
      rw [Alike, blank_array, blank_array, ht]
  | union lead alternatives ih =>
      rw [blank_union, edit, edit]
      refine .andThen (.map ?_
        (related_editAll (g := editAll r) rfl (fun _ _ => rfl) ih)) hr.typeTree
      intro ts ts' hts
      rw [Alike, blank_union, blank_union]
      exact congrArg (TypeTree.union "") hts

/-- Types in a row are edited alike without trivia. -/
theorem TypeTree.related_editList (o : Option (Container TypeTree)) :
    (TypeTree.editList r (o.map (.blank TypeTree.blank))).Related
      (Alike (Option.map (Container.blank TypeTree.blank)))
        (TypeTree.editList r o) := by
  cases o with
  | none => exact .keep rfl
  | some c =>
      rw [Option.map_some, editList, editList]
      refine .map ?_ (related_editAll (g := editAll r) rfl (fun _ _ => rfl)
        fun p _ => p.element.related_edit hr)
      intro ts ts' hts
      exact congrArg (fun es => some (⟨"", es, ""⟩ : Container TypeTree)) hts

theorem TypeTree.related_editOption (o : Option TypeTree) :
    (TypeTree.editOption r (o.map TypeTree.blank)).Related
      (Alike (Option.map TypeTree.blank)) (TypeTree.editOption r o) := by
  cases o with
  | none => exact .keep rfl
  | some t => exact .map (fun _ _ h => congrArg some h) (t.related_edit hr)

-- =========================================================== expressions

/-- An expression is edited alike without trivia: by induction on the
expression. -/
theorem Expr.related_edit (e : Expr) :
    (e.blank.edit r).Related (Alike Expr.blank) (e.edit r) := by
  induction e using Expr.induction_on with
  | ident i type => exact hr.expr _ _ rfl
  | access lead target name type ih =>
      rw [blank_access, edit, edit]
      refine .andThen (.seq (.map ?_ ih) (name.related_editIdent hr)) hr.expr
      intro t t' ht n n' hn
      rw [Alike, blank_access, blank_access, ht, hn]
  | call lead select name args method ihs iha =>
      have hselect : (editSelect r (select.map (.blank Expr.blank))).Related
          (Alike (Option.map (RightPadded.blank Expr.blank)))
            (editSelect r select) := by
        cases select with
        | none => exact .keep rfl
        | some p =>
            exact .map (fun _ _ h =>
              congrArg (fun e => some (⟨e, ""⟩ : RightPadded Expr)) h)
              (ihs p rfl)
      rw [blank_call, edit, edit]
      refine .andThen (.seq (.seq (.map ?_ hselect) (hr.ident _ _ rfl))
        (related_editAll (g := editAll r) rfl (fun _ _ => rfl) iha)) hr.expr
      intro s s' hs n n' hn es es' hes
      rw [Alike, blank_call, blank_call, hs, hn]
      exact congrArg (fun es => Expr.call "" _ n'.blank ⟨"", es, ""⟩ method) hes
  | new lead base args constructor type ih =>
      rw [blank_new, edit, edit]
      refine .andThen (.seq (.map ?_ (base.related_edit hr))
        (related_editAll (g := editAll r) rfl (fun _ _ => rfl) ih)) hr.expr
      intro b b' hb es es' hes
      rw [Alike, blank_new, blank_new, hb]
      exact congrArg (fun es =>
        Expr.new "" b'.blank ⟨"", es, ""⟩ constructor type) hes
  | literal lead text type => exact hr.expr _ _ rfl
  | assign lead target value type iht ihv =>
      rw [blank_assign, edit, edit]
      refine .andThen (.seq (.map ?_ iht) ihv) hr.expr
      intro t t' ht v v' hv
      rw [Alike, blank_assign, blank_assign, ht]
      exact congrArg (fun e => Expr.assign "" t'.blank ⟨"", e⟩ type) hv
  | binary lead left operator right type ihl ihr =>
      rw [blank_binary, edit, edit]
      refine .andThen (.seq (.map ?_ ihl) ihr) hr.expr
      intro a a' ha b b' hb
      rw [Alike, blank_binary, blank_binary, ha, hb]
      rfl
  | unary lead operator operand type ih =>
      rw [blank_unary, edit, edit]
      refine .andThen (.map ?_ ih) hr.expr
      intro e e' he
      rw [Alike, blank_unary, blank_unary, he]
  | parens lead inner type ih =>
      rw [blank_parens, edit, edit]
      refine .andThen (.map ?_ ih) hr.expr
      intro e e' he
      rw [Alike, blank_parens, blank_parens]
      exact congrArg (fun e => Expr.parens "" ⟨e, ""⟩ type) he

-- ========================================================== declarations

/-- An annotation is edited alike without trivia. -/
theorem Modifier.related_edit (m : Modifier) :
    (m.blank.edit r).Related (Alike Modifier.blank) (m.edit r) := by
  cases m with
  | keyword lead word => exact hr.modifier _ _ rfl
  | annotated lead name args =>
      cases args with
      | none =>
          rw [blank_annotated, Option.map_none, edit, edit]
          refine .andThen (.map ?_ (name.related_edit hr)) hr.modifier
          intro n n' hn
          rw [Alike, blank_annotated, blank_annotated, hn]
      | some c =>
          rw [blank_annotated, Option.map_some, edit, edit]
          refine .andThen (.seq (.map ?_ (name.related_edit hr))
            (related_editAll
            (g := Expr.editAll r) rfl (fun _ _ => rfl) fun p _ =>
              p.element.related_edit hr))
            hr.modifier
          intro n n' hn es es' hes
          rw [Alike, blank_annotated, blank_annotated, hn]
          exact congrArg (fun es =>
            Modifier.annotated "" n'.blank (some ⟨"", es, ""⟩)) hes

/-- A declared variable is edited alike without trivia. -/
theorem Variable.related_edit (v : Variable) :
    (v.blank.edit r).Related (Alike Variable.blank) (v.edit r) := by
  have hvalue :
      (LeftPadded.editExpr r (v.initializer.map (.blank Expr.blank))).Related
      (Alike (Option.map (LeftPadded.blank Expr.blank)))
        (LeftPadded.editExpr r v.initializer) := by
    cases v.initializer with
    | none => exact .keep rfl
    | some i =>
        exact .map (fun _ _ h =>
          congrArg (fun e => some (⟨"", e⟩ : LeftPadded Expr)) h)
          (i.element.related_edit hr)
  rw [blank_eq, edit, edit]
  refine .andThen (.seq (.map ?_ (v.name.related_edit hr)) hvalue) hr.declarator
  intro n n' hn i i' hi
  rw [Alike, blank_eq, blank_eq, hn, hi]

/-- A declaration is edited alike without trivia. -/
theorem Variables.related_edit (d : Variables) :
    (d.blank.edit r).Related (Alike Variables.blank) (d.edit r) := by
  rw [blank_eq, edit, edit]
  refine .andThen
    (.seq (.seq (.map ?_ (related_editList (g := Modifier.editAll r) rfl
    (fun _ _ => rfl) fun m _ => m.related_edit hr))
      (d.typeTree.related_edit hr))
    (related_editAll (g := Variable.editAll r) rfl (fun _ _ => rfl)
      fun p _ => p.element.related_edit hr)) hr.declaration
  intro ms ms' hms t t' ht ds ds' hds
  rw [Alike, blank_eq, blank_eq, hms, ht, hds]

theorem Expr.related_editCondition (c : Parens Expr) :
    (Expr.editCondition r (c.blank Expr.blank)).Related
      (Alike (Parens.blank Expr.blank)) (Expr.editCondition r c) :=
  .andThen
    (.map (fun _ _ h => congrArg (fun e => (⟨"", ⟨e, ""⟩⟩ : Parens Expr)) h)
    (c.inner.element.related_edit hr)) hr.condition

theorem Variables.related_editParameter (c : Parens Variables) :
    (Variables.editParameter r (c.blank Variables.blank)).Related
      (Alike (Parens.blank Variables.blank)) (Variables.editParameter r c) :=
  .andThen (.map (fun _ _ h =>
    congrArg (fun d => (⟨"", ⟨d, ""⟩⟩ : Parens Variables)) h)
    (c.inner.element.related_edit hr)) hr.parameter

-- ============================================================ statements

/-- A block is edited alike if its statements are. -/
theorem Stmt.related_editBlock {b : Block Stmt} (h : ∀ p ∈ b.statements,
      (p.element.blank.edit r).Related (Alike Stmt.blank) (p.element.edit r)) :
    (Stmt.editBlock r (b.blank Stmt.blank)).Related
      (Alike (Block.blank Stmt.blank)) (Stmt.editBlock r b) := by
  rw [editBlock, editBlock]
  refine .andThen
    (.map ?_ (related_editAll (g := editAll r) rfl (fun _ _ => rfl) h)) hr.block
  intro ss ss' hss
  exact congrArg (fun ss => (⟨"", ss, ""⟩ : Block Stmt)) hss

/-- A clause is edited alike if the statements of its body are. -/
theorem Catch.related_edit {c : Catch Stmt} (h : ∀ p ∈ c.body.statements,
      (p.element.blank.edit r).Related (Alike Stmt.blank) (p.element.edit r)) :
    (c.blank.edit r).Related (Alike Catch.blank) (c.edit r) := by
  rw [edit, edit]
  refine .andThen
    (.seq (.map ?_ (Variables.related_editParameter hr c.parameter))
    (Stmt.related_editBlock hr h)) hr.catchClause
  intro p p' hp b b' hb
  exact congrArg₂ (Catch.mk "") hp hb

/-- A statement is edited alike without trivia: by induction on the
statement. -/
theorem Stmt.related_edit (s : Stmt) :
    (s.blank.edit r).Related (Alike Stmt.blank) (s.edit r) := by
  induction s using Stmt.induction_on with
  | block b ih =>
      rw [blank_block, edit, edit]
      refine .map (fun b b' hb => ?_) (related_editBlock hr ih)
      rw [Alike, blank_block, blank_block, hb]
  | declaration d =>
      exact .map (fun _ _ h => congrArg Stmt.declaration h) (d.related_edit hr)
  | expr e => exact .map (fun _ _ h => congrArg Stmt.expr h) (e.related_edit hr)
  | empty lead => exact hr.stmt _ _ rfl
  | tryCatch t ihb ihc ihf =>
      have hfinally :
          (editFinally r (t.finally?.map (.blank (.blank Stmt.blank)))).Related
          (Alike (Option.map (LeftPadded.blank (Block.blank Stmt.blank))))
          (editFinally r t.finally?) := by
        cases hf : t.finally? with
        | none => exact .keep rfl
        | some f =>
            rw [Option.map_some, editFinally, editFinally]
            exact .map (fun _ _ h =>
              congrArg (fun b => some (⟨"", b⟩ : LeftPadded (Block Stmt))) h)
              (related_editBlock hr (ihf f hf))
      have hparts : (Try.editParts r t.blank).Related (Alike Try.blank)
          (Try.editParts r t) := by
        rw [Try.editParts, Try.editParts]
        refine .seq (.seq (.map ?_ (related_editBlock hr ihb)) (related_editList
          (g := Catch.editAll r) rfl (fun _ _ => rfl) fun c hc =>
            Catch.related_edit hr (ihc c hc)))
          hfinally
        intro b b' hb cs cs' hcs f f' hf
        rw [Alike, Try.blank, Try.blank]
        exact congr (congrArg₂ (Try.mk "") hb hcs) hf
      rw [blank_tryCatch, edit, edit]
      refine .andThen (.map (fun t t' ht => ?_) hparts) hr.stmt
      rw [Alike, blank_tryCatch, blank_tryCatch, ht]
  | throwing lead exception =>
      rw [blank_throwing, edit, edit]
      refine .andThen (.map (fun e e' he => ?_) (exception.related_edit hr))
        hr.stmt
      rw [Alike, blank_throwing, blank_throwing, he]
  | returning lead value =>
      cases value with
      | none => exact hr.stmt _ _ rfl
      | some e =>
          rw [blank_returning, Option.map_some, edit, edit]
          refine .andThen (.map (fun e e' he => ?_) (e.related_edit hr)) hr.stmt
          rw [Alike, blank_returning, blank_returning, Option.map_some,
            Option.map_some, he]
  | ifElse lead condition thenPart elsePart iht ihe =>
      have helse : (editElse r (elsePart.map Else.blank)).Related
          (Alike (Option.map Else.blank))
          (editElse r elsePart) := by
        cases elsePart with
        | none => exact .keep rfl
        | some e =>
            rw [Option.map_some, editElse, editElse, Else.edit, Else.edit]
            refine .map (fun _ _ h => congrArg some h)
              (.andThen (.map ?_ (ihe e rfl)) hr.elseBranch)
            intro s s' hs
            exact congrArg (fun s => (⟨"", ⟨s, ""⟩⟩ : Else Stmt)) hs
      rw [blank_ifElse, edit, edit]
      refine .andThen
        (.seq (.seq (.map ?_ (Expr.related_editCondition hr condition)) iht)
          helse)
        hr.stmt
      intro c c' hc s s' hs e e' he
      rw [Alike, blank_ifElse, blank_ifElse, hc, he]
      exact congrArg (fun s => Stmt.ifElse "" _ ⟨s, ""⟩ _) hs
  | whileLoop lead condition body ih =>
      rw [blank_whileLoop, edit, edit]
      refine .andThen (.seq (.map ?_ (Expr.related_editCondition hr condition))
        ih) hr.stmt
      intro c c' hc s s' hs
      rw [Alike, blank_whileLoop, blank_whileLoop, hc]
      exact congrArg (fun s => Stmt.whileLoop "" _ ⟨s, ""⟩) hs

-- =================================================== classes and files

/-- A method is edited alike without trivia. -/
theorem Method.related_edit (m : Method) :
    (m.blank.edit r).Related (Alike Method.blank) (m.edit r) := by
  have hbody : (Stmt.editBody r (m.body.map (.blank Stmt.blank))).Related
      (Alike (Option.map (Block.blank Stmt.blank)))
        (Stmt.editBody r m.body) := by
    cases m.body with
    | none => exact .keep rfl
    | some b =>
        exact .map (fun _ _ h => congrArg some h)
          (Stmt.related_editBlock hr fun p _ => p.element.related_edit hr)
  rw [blank_eq, edit, edit]
  refine .andThen (.seq (.seq (.seq (.seq (.seq (.map ?_ (related_editList
    (g := Modifier.editAll r) rfl (fun _ _ => rfl) fun m _ =>
      m.related_edit hr))
    (TypeTree.related_editOption hr m.returnType)) (hr.ident _ _ rfl))
      (related_editAll
      (g := Variables.editAll r) rfl (fun _ _ => rfl) fun p _ =>
        p.element.related_edit hr))
    (TypeTree.related_editList hr m.throws)) hbody) hr.method
  intro ms ms' hms t t' ht n n' hn ds ds' hds ts ts' hts b b' hb
  rw [Alike, blank_eq, blank_eq, hms, ht, hn, hts, hb]
  exact congrArg (fun ds =>
    (⟨"", _, _, _, ⟨"", ds, ""⟩, _, _, m.type⟩ : Method)) hds

/-- A class is edited alike if its members are. -/
theorem ClassDecl.related_edit_of {c : JavaClass} (h : ∀ p ∈ c.body.statements,
      (p.element.blank.edit r).Related (Alike Member.blank)
        (p.element.edit r)) :
    (c.blank.edit r).Related (Alike ClassDecl.blank) (c.edit r) := by
  have hbody : (Member.editBlock r (c.body.blank Member.blank)).Related
      (Alike (Block.blank Member.blank)) (Member.editBlock r c.body) := by
    rw [Member.editBlock, Member.editBlock]
    refine .andThen
      (.map ?_ (related_editAll (g := Member.editAll r) rfl (fun _ _ => rfl) h))
      hr.classBody
    intro ps ps' hps
    exact congrArg (fun ps => (⟨"", ps, ""⟩ : Block Member)) hps
  rw [blank_eq, edit, edit]
  refine .andThen
    (.seq
      (.seq (.seq (.seq (.map ?_ (related_editList (g := Modifier.editAll r) rfl
    (fun _ _ => rfl) fun m _ => m.related_edit hr)) (c.name.related_edit hr))
    (TypeTree.related_editList hr c.extends?))
      (TypeTree.related_editList hr c.implements?)) hbody)
    hr.classDecl
  intro ms ms' hms n n' hn e e' he i i' hi b b' hb
  rw [Alike, blank_eq, blank_eq, hms, hn, he, hi, hb]

/-- A member is edited alike without trivia: by induction on the member. -/
theorem Member.related_edit (m : Member) :
    (m.blank.edit r).Related (Alike Member.blank) (m.edit r) := by
  induction m using Member.induction_on with
  | field d =>
      exact .map (fun _ _ h => congrArg Member.field h) (d.related_edit hr)
  | method m =>
      exact .map (fun _ _ h => congrArg Member.method h) (m.related_edit hr)
  | nested c ih =>
      rw [blank_nested, edit, edit]
      exact .map (fun _ _ h => congrArg Member.nested h)
        (ClassDecl.related_edit_of hr ih)

/-- An editor that ignores trivia does the same to a file and to the file
without its trivia. -/
theorem CompilationUnit.related_edit (cu : CompilationUnit) :
    (cu.blank.edit r).Related (Alike CompilationUnit.blank) (cu.edit r) := by
  have hpackage :
      (Package.edit r (cu.package?.map (.blank Package.blank))).Related
      (Alike (Option.map (RightPadded.blank Package.blank)))
        (Package.edit r cu.package?) := by
    cases cu.package? with
    | none => exact .keep rfl
    | some p =>
        refine .map (fun q q' hq => ?_) (.andThen (.map (fun n n' hn => ?_)
          (p.element.name.related_edit hr)) hr.package)
        · exact congrArg (fun q => some (⟨q, ""⟩ : RightPadded Package)) hq
        · exact congrArg (Package.mk "") hn
  have himport (i : Import) :
      (((fun name => (⟨i.blank.lead, i.blank.static?, name⟩ : Import)) <$>
          i.blank.name.edit r).andThen r.importDecl).Related
            (Alike Import.blank)
        (((fun name => (⟨i.lead, i.static?, name⟩ : Import)) <$>
          i.name.edit r).andThen r.importDecl) := by
    refine .andThen (.map (fun n n' hn => ?_) (i.name.related_edit hr))
      hr.importDecl
    rw [Alike, Import.blank, Import.blank]
    dsimp only
    rw [hn, Import.blank, Option.map_map]
    rfl
  rw [blank_eq, edit, edit]
  refine .andThen
    (.seq (.seq (.map ?_ hpackage) (related_editAll (g := Import.editAll r)
    (f := fun i => ((fun name => (⟨i.lead, i.static?, name⟩ : Import)) <$>
      i.name.edit r).andThen r.importDecl) rfl (fun _ _ => rfl) fun p _ =>
        himport p.element))
    (related_editList (g := ClassDecl.editAll r) rfl (fun _ _ => rfl) fun c _ =>
      ClassDecl.related_edit_of hr fun p _ => p.element.related_edit hr))
        hr.unit
  intro p p' hp is is' his cs cs' hcs
  rw [Alike, blank_eq, blank_eq, hp, his, hcs]

end

end JavaRefit
