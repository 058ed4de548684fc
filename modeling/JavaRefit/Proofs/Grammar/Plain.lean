/-
What is spelled has no types.

Types are found when a file is attributed and are nowhere in its text, so
taking the types away changes nothing in a tree that was spelled
(`untyped_unit`).

Chain: after the rules; reading a file again gives the tree without its
types.
-/
import JavaRefit.Proofs.Grammar.Rules
import JavaRefit.Proofs.Reading.Conditional
import JavaRefit.Proofs.Tree.Lead
import JavaRefit.Proofs.Tree.Untyped

namespace JavaRefit

open Spelling

/-- The function changes nothing that is spelled. -/
def Spelling.Keeps {α : Type} (R : Spelling α) (f : α → α) : Prop :=
  ∀ ⦃us a⦄, R us a → f a = a

-- ================================================================= lists

section

variable {α : Type} {R : Spelling α} {f : α → α} (hR : R.Keeps f)
include hR

/-- Elements between separators have no types if each has none. -/
theorem keeps_padded {separator : String} :
    (Padded R separator).Keeps (List.map (.map f)) := by
  intro us ps h
  induction h with
  | last ha => rw [List.map_singleton, RightPadded.map, hR ha]
  | cons ha _ ih => rw [List.map_cons, ih, RightPadded.map, hR ha]

/-- Elements in a row have no types if each has none. -/
theorem keeps_many : (Many R).Keeps (List.map f) := by
  intro us as h
  induction h with
  | nil => rfl
  | cons ha _ ih => rw [List.map_cons, ih, hR ha]

/-- Elements between delimiters have no types if each has none. -/
theorem keeps_delimited {opening closing : String} :
    (Delimited R opening closing).Keeps (Container.map f) := by
  intro us c h
  cases h with
  | none => rfl
  | some hps => rw [Container.map, RightPadded.map_closeLast,
        keeps_padded hR hps]

/-- What a keyword introduces has no types if its elements have none. -/
theorem keeps_afterKeyword {word : String} :
    (AfterKeyword R word).Keeps (Option.map (Container.map f)) := by
  intro us o h
  cases h with
  | none => rfl
  | some hps => rw [Option.map_some, Container.map, keeps_padded hR hps]

end

/-- What holds of all that is spelled holds of each element in a row. -/
theorem forall_of_many {α : Type} {R : Spelling α} {P : α → Prop}
    (hR : ∀ ⦃us a⦄, R us a → P a) {us : List Token} {as : List α}
    (h : Many R us as) : ∀ a ∈ as, P a := by
  induction h with
  | nil => exact List.forall_mem_nil _
  | cons ha _ ih => exact List.forall_mem_cons.2 ⟨hR ha, ih⟩

/-- A block has no types if its elements have none. -/
theorem keeps_braced {α : Type} {R : Spelling (RightPadded α)} {f : α → α}
    (hR : R.Keeps (.map f)) : (Braced R).Keeps (Block.map f) := by
  intro us b h
  cases h with
  | mk hps => rw [Block.map, keeps_many hR hps]

-- ================================================================= names

theorem keeps_name : SpellsName.Keeps Name.untyped := by
  intro us n h
  induction h with
  | simple i => rfl
  | dot dot i _ ih =>
      rw [Parser.extendName, Name.untyped_qualified, Name.untyped_withLead, ih]

theorem keeps_importName : SpellsImportName.Keeps Name.untyped := by
  intro us n h
  cases h with
  | named h => exact keeps_name h
  | star dot lead h =>
      rw [Parser.extendName, Name.untyped_qualified, Name.untyped_withLead,
        keeps_name h]

-- ================================================================= types

/-- A class type has no type of its own, nor have its arguments. -/
theorem keeps_classTypeWith {R : Spelling TypeTree}
    (hR : R.Keeps TypeTree.untyped) :
    (ClassTypeWith R).Keeps TypeTree.untyped := by
  intro us t h
  cases h with
  | named h => exact congrArg TypeTree.named (keeps_name h)
  | generic h hargs =>
      rw [TypeTree.untyped_generic, Name.untyped_withLead, keeps_name h,
        keeps_delimited hR hargs]

/-- A type has no type of its own, nor has what it is made of. -/
theorem keeps_typeWith {R : Spelling TypeTree} (hR : R.Keeps TypeTree.untyped) :
    (TypeWith R).Keeps TypeTree.untyped := by
  intro us t h
  induction h with
  | primitive h =>
      unfold Parser.asPrimitive at h
      split at h
      · split at h
        · obtain ⟨p, -, rfl⟩ := Option.map_eq_some_iff.1 h
          rfl
        · cases h
      · cases h
  | classType h => exact keeps_classTypeWith hR h
  | array _ ih => rw [TypeTree.untyped_array, TypeTree.untyped_withLead, ih]

theorem keeps_type : SpellsType.Keeps TypeTree.untyped := by
  rintro us t ⟨n, h⟩
  induction n generalizing us t with
  | zero => cases h
  | succ n ih => exact keeps_typeWith (fun us t h => ih h) h

theorem keeps_classType : SpellsClassType.Keeps TypeTree.untyped :=
  keeps_classTypeWith keeps_type

theorem keeps_catchType : SpellsCatchType.Keeps TypeTree.untyped := by
  intro us t h
  cases h with
  | single h => exact keeps_classType h
  | union h =>
      have hps := keeps_padded keeps_classType h
      rw [List.map_cons, List.cons.injEq] at hps
      obtain ⟨hfirst, hps⟩ := hps
      have helement := congrArg RightPadded.element hfirst
      rw [TypeTree.untyped_union, List.map_cons, hps, RightPadded.map,
        TypeTree.untyped_withLead]
      exact congrArg (fun t : TypeTree =>
        TypeTree.union _ (⟨t.withLead "", _⟩ :: _)) helement

-- =========================================================== expressions

/-- A selection has no type if its target has none. -/
theorem untyped_access {e : Expr} (h : e.untyped = e)
    {name : LeftPadded Ident} :
    (Expr.access e.lead (e.withLead "") name none).untyped =
      .access e.lead (e.withLead "") name none := by
  have htarget : (e.withLead "").untyped = e.withLead "" := by
    rw [Expr.untyped_withLead, h]
  exact congrArg (fun e' => Expr.access e.lead e' name none) htarget

section

variable {R : Spelling Expr} (hR : R.Keeps Expr.untyped)
include hR

/-- A postfix expression has no types if what it nests has none. -/
theorem keeps_postfixWith : (PostfixWith R).Keeps Expr.untyped := by
  intro us e h
  induction h with
  | literal h =>
      unfold Parser.asLiteral at h
      split at h
      · cases h
        rfl
      · split at h <;> cases h
        rfl
      · cases h
  | this => rfl
  | name i => rfl
  | parens h => exact congrArg (fun e => Expr.parens _ ⟨e, _⟩ none) (hR h)
  | new ht hargs =>
      rw [Expr.untyped_new, keeps_classType ht, keeps_delimited hR hargs]
  | bareCall i hargs => rw [Expr.untyped_call, keeps_delimited hR hargs]; rfl
  | classLiteral _ ih => exact untyped_access ih
  | access i _ ih => exact untyped_access ih
  | call i _ hargs ih =>
      rw [Expr.untyped_call, keeps_delimited hR hargs, Option.map_some,
        RightPadded.map, Expr.untyped_withLead, ih]

/-- An operand has no types if what it nests has none. -/
theorem keeps_operand : (OperandWith R).Keeps Expr.untyped := by
  intro us e h
  induction h with
  | bare h => exact keeps_postfixWith hR h
  | unary _ _ ih => exact congrArg (fun e => Expr.unary _ _ e none) ih

/-- A binary expression has no types if its operands have none. -/
theorem keeps_binary {level : Nat} :
    (BinaryWith R level).Keeps Expr.untyped := by
  intro us e h
  induction h with
  | operand h => exact keeps_operand hR h
  | @binary level t op us left vs right _ _ _ _ ihl ihr =>
      have hleft : (left.withLead "").untyped = left.withLead "" := by
        rw [Expr.untyped_withLead, ihl]
      exact congrArg₂ (fun e e' => Expr.binary left.lead e op e' none) hleft ihr

/-- An expression has no types if what it nests has none. -/
theorem keeps_expressionWith : (ExpressionWith R).Keeps Expr.untyped := by
  intro us e h
  cases h with
  | binary h => exact keeps_binary hR h
  | @assign us e before vs value h hvalue =>
      have htarget : (e.withLead "").untyped = e.withLead "" := by
        rw [Expr.untyped_withLead, keeps_postfixWith hR h]
      exact congrArg₂ (fun t v => Expr.assign e.lead t ⟨before, v⟩ none)
        htarget (hR hvalue)

end

theorem keeps_expr : SpellsExpr.Keeps Expr.untyped := by
  rintro us e ⟨n, h⟩
  induction n generalizing us e with
  | zero => cases h
  | succ n ih => exact keeps_expressionWith (fun us e h => ih h) h

-- ========================================================== declarations

theorem keeps_modifier : SpellsModifier.Keeps Modifier.untyped := by
  intro us m h
  cases h with
  | word h =>
      unfold Parser.asModifierWord at h
      split at h
      · split at h <;> cases h
        rfl
      · cases h
  | marker hn => rw [Modifier.untyped_annotated, keeps_name hn]; rfl
  | called hn hargs =>
      rw [Modifier.untyped_annotated, keeps_name hn, Option.map_some,
        keeps_delimited keeps_expr hargs]

theorem keeps_declarator : SpellsDeclarator.Keeps Variable.untyped := by
  intro us v h
  cases h with
  | bare i => rfl
  | initialized i he =>
      rw [Variable.untyped_eq, Option.map_some, LeftPadded.map, keeps_expr he]
      rfl

theorem keeps_declaration : SpellsDeclaration.Keeps Variables.untyped := by
  intro us d h
  cases h with
  | mk hms ht hds _ =>
      rw [Variables.untyped_eq, keeps_many keeps_modifier hms, keeps_type ht,
        keeps_padded keeps_declarator hds]

/-- A parameter has no types if its type tree has none. -/
theorem keeps_parameter {R : Spelling TypeTree}
    (hR : R.Keeps TypeTree.untyped) :
    (ParameterWith R).Keeps Variables.untyped := by
  intro us d h
  cases h with
  | mk i hms ht _ =>
      rw [Variables.untyped_eq, keeps_many keeps_modifier hms, hR ht]
      rfl

-- ============================================================ statements

theorem keeps_condition : SpellsCondition.Keeps (Parens.map Expr.untyped) := by
  intro us c h
  cases h with
  | mk he => rw [Parens.map, RightPadded.map, keeps_expr he]

section

variable {R : Spelling (RightPadded Stmt)} (hR : R.Keeps (.map Stmt.untyped))
include hR

/-- A clause has no types if its body has none. -/
theorem keeps_catch : (CatchWith R).Keeps Catch.untyped := by
  intro us c h
  cases h with
  | mk hd hb =>
      rw [Catch.untyped, keeps_braced hR hb, Parens.map, RightPadded.map,
        keeps_parameter keeps_catchType hd]

/-- The last block has no types if its statements have none. -/
theorem keeps_finally : (FinallyWith R).Keeps
    (Option.map (LeftPadded.map (Block.map Stmt.untyped))) := by
  intro us f h
  cases h with
  | none => rfl
  | some hb => rw [Option.map_some, LeftPadded.map, keeps_braced hR hb]

/-- A statement without branches has no types if what it nests has none. -/
theorem keeps_plain : (PlainWith R).Keeps (.map Stmt.untyped) := by
  intro us s h
  rw [RightPadded.map]
  cases h with
  | block hb => rw [Stmt.untyped_block, keeps_braced hR hb]
  | empty => rfl
  | tryCatch hb hcs hf =>
      rw [Stmt.untyped_tryCatch, Try.untyped, keeps_braced hR hb,
        keeps_many (keeps_catch hR) hcs, keeps_finally hR hf]
  | throwing he =>
      exact congrArg (fun e => RightPadded.mk (Stmt.throwing _ e) _)
        (keeps_expr he)
  | returningNone => rfl
  | returning he => rw [Stmt.untyped_returning, Option.map_some, keeps_expr he]
  | declaration hd =>
      exact congrArg (fun d => RightPadded.mk (Stmt.declaration d) _)
        (keeps_declaration hd)
  | expr he _ =>
      exact congrArg (fun e => RightPadded.mk (Stmt.expr e) _) (keeps_expr he)

end

theorem keeps_head ⦃us : List Token⦄ ⦃h : Head⦄ (hspells : SpellsHead us h) :
    h.condition.map Expr.untyped = h.condition := by
  cases hspells with
  | whileLoop hc => exact keeps_condition hc
  | ifElse hc => exact keeps_condition hc

/-- A statement has no types if what it nests has none. -/
theorem keeps_statementWith {R : Spelling (RightPadded Stmt)}
    (hR : R.Keeps (.map Stmt.untyped)) :
    (StatementWith R).Keeps (.map Stmt.untyped) := by
  intro us s h
  cases h with
  | @mk us heads vs body ws branches hheads hbody hbranches _ =>
      refine Branch.shape_induction (H :=
        fun h => h.condition.map Expr.untyped = h.condition)
        (Q := fun p => p.map Stmt.untyped = p) ?_ ?_ ?_
          (forall_of_many keeps_head hheads)
        (keeps_plain hR hbody) (forall_of_many ?_ hbranches)
      · intro h p hc hp
        exact congrArg₂ (fun c p =>
          RightPadded.mk (Stmt.whileLoop h.lead c p) "") hc hp
      · intro h p hc hp
        rw [RightPadded.map, Stmt.untyped_ifElse, hc, hp]
        rfl
      · intro h p lead q hc hp hq
        rw [RightPadded.map, Stmt.untyped_ifElse, hc, hp, Option.map_some,
          Else.untyped, hq]
      · rintro us b ⟨hheads, hbody⟩
        exact ⟨forall_of_many keeps_head hheads, keeps_plain hR hbody⟩

theorem keeps_stmt : SpellsStmt.Keeps (.map Stmt.untyped) := by
  rintro us s ⟨n, h⟩
  induction n generalizing us s with
  | zero => cases h
  | succ n ih => exact keeps_statementWith (fun us s h => ih h) h

-- =============================================================== members

/-- A class has no types if its members have none. -/
theorem keeps_class {R : Spelling (RightPadded Member)}
    (hR : R.Keeps (.map Member.untyped)) {lead : Trivia} {ms : List Modifier}
    (hms : ms.map Modifier.untyped = ms) {kind : LeftPadded ClassKind} :
    (ClassWith R lead ms kind).Keeps ClassDecl.untyped := by
  intro us c h
  cases h with
  | mk i hextends himplements hbody =>
      rw [ClassDecl.untyped_eq, hms,
        keeps_afterKeyword keeps_classType hextends,
        keeps_afterKeyword keeps_classType himplements, keeps_braced hR hbody]
      rfl

theorem keeps_method {lead : Trivia} {ms : List Modifier}
    (hms : ms.map Modifier.untyped = ms) {returnType : Option TypeTree}
    (hreturn : returnType.map TypeTree.untyped = returnType) {i : Ident}
    {mayLackBody : Bool} :
    (MethodWith lead ms returnType i mayLackBody).Keeps
      (.map Member.untyped) := by
  intro us m h
  have hmember (m : Method) :
      (Member.method m).untyped = .method m.untyped := rfl
  cases h with
  | bodied hparams hthrows hbody =>
      rw [RightPadded.map, hmember, Method.untyped_eq, hms, hreturn,
        keeps_delimited (keeps_parameter keeps_type) hparams,
        keeps_afterKeyword keeps_classType hthrows, Option.map_some,
        keeps_braced keeps_stmt hbody]
  | abstract _ hparams hthrows =>
      rw [RightPadded.map, hmember, Method.untyped_eq, hms, hreturn,
        keeps_delimited (keeps_parameter keeps_type) hparams,
        keeps_afterKeyword keeps_classType hthrows]
      rfl

/-- A member has no types if what it nests has none. -/
theorem keeps_memberWith {R : Spelling (RightPadded Member)}
    (hR : R.Keeps (.map Member.untyped)) :
    (MemberWith R).Keeps (.map Member.untyped) := by
  intro us m h
  cases h with
  | mk hms hm _ =>
      replace hms := keeps_many keeps_modifier hms
      cases hm with
      | nested _ hc =>
          exact congrArg (fun c => RightPadded.mk (Member.nested c) "")
            (keeps_class hR hms hc)
      | void i hm => exact keeps_method hms rfl hm
      | constructor i hm => exact keeps_method hms rfl hm
      | @method us t vs m i ht hm =>
          have hreturn : (some t).map TypeTree.untyped = some t :=
            congrArg some (keeps_type ht)
          exact keeps_method hms hreturn hm
      | field ht hds =>
          refine congrArg (fun d => RightPadded.mk (Member.field d) _) ?_
          refine (Variables.untyped_eq _).trans ?_
          rw [hms, keeps_type ht, keeps_padded keeps_declarator hds]

theorem keeps_member : SpellsMember.Keeps (.map Member.untyped) := by
  rintro us m ⟨n, h⟩
  induction n generalizing us m with
  | zero => cases h
  | succ n ih => exact keeps_memberWith (fun us s h => ih h) h

-- ================================================================= files

theorem keeps_topClass : SpellsTopClass.Keeps ClassDecl.untyped := by
  intro us c h
  cases h with
  | mk hms _ hc _ =>
      exact keeps_class keeps_member (keeps_many keeps_modifier hms) hc

/-- A package declaration without the types of its name. -/
def Package.untyped (p : Package) : Package :=
  { p with name := p.name.untyped }

/-- An import without the types of its name. -/
def Import.untyped (i : Import) : Import :=
  { i with name := i.name.untyped }

theorem keeps_package :
    SpellsPackage.Keeps (Option.map (.map Package.untyped)) := by
  intro us p h
  cases h with
  | none => rfl
  | some hn => rw [Option.map_some, RightPadded.map, Package.untyped,
        keeps_name hn]

theorem keeps_import : SpellsImport.Keeps (.map Import.untyped) := by
  intro us p h
  cases h with
  | mk _ hn => rw [RightPadded.map, Import.untyped, keeps_importName hn]

/-- A file that is spelled has no types. -/
theorem keeps_unit {close : Trivia} {path : Option String} :
    (SpellsUnit close path).Keeps CompilationUnit.untyped := by
  intro ts cu h
  cases h with
  | empty => rfl
  | @mk lead us p imports classes _ hparts _ =>
      obtain ⟨hp, hi, hc⟩ : p.map (.map Package.untyped) = p ∧
          imports.map (.map Import.untyped) = imports ∧
          classes.map ClassDecl.untyped = classes := by
        cases hparts with
        | mk hp hi hc =>
            exact ⟨keeps_package hp, keeps_many keeps_import hi,
              keeps_many keeps_topClass hc⟩
      calc CompilationUnit.untyped ⟨lead, p, imports, classes, close, path⟩
          = ⟨lead, p.map (.map Package.untyped),
            imports.map (.map Import.untyped),
              classes.map ClassDecl.untyped, close, path⟩ :=
                CompilationUnit.untyped_eq _
        _ = ⟨lead, p, imports, classes, close, path⟩ := by rw [hp, hi, hc]

end JavaRefit
