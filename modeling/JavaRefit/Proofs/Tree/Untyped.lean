/-
Trees without their types.

Attribution is to put types into a tree and to change nothing else. To say
so the types are taken away again: `untyping` empties that field of every
node that has one. What is left of a tree has the text of the tree, so two
trees that are one tree without their types are one text.

Chain: after `Induction`; read by the proofs about attribution.
-/
import Mathlib.Data.List.Basic
import JavaRefit.Proofs.Tree.Induction

namespace JavaRefit

open Piece

-- ============================================================== wrappers

section Wrappers

variable {α β : Type}

/-- A function applied behind the trivia. -/
def LeftPadded.map (f : α → β) (p : LeftPadded α) : LeftPadded β :=
  ⟨p.before, f p.element⟩

/-- A function applied in parentheses. -/
def Parens.map (f : α → β) (p : Parens α) : Parens β :=
  ⟨p.lead, p.inner.map f⟩

/-- A function applied to each element between delimiters. -/
def Container.map (f : α → β) (c : Container α) : Container β :=
  ⟨c.before, c.elements.map (.map f), c.close⟩

/-- A function applied to each element of a block. -/
def Block.map (f : α → β) (b : Block α) : Block β :=
  ⟨b.lead, b.statements.map (.map f), b.close⟩

end Wrappers

-- ============================================================ definitions

/-- A written type without the type it was found to mean. -/
def TypeTree.withoutType : TypeTree → TypeTree
  | .named name => .named name
  | .generic lead base args _ => .generic lead base args none
  | .primitive lead keyword _ => .primitive lead keyword none
  | .array lead element dimension _ => .array lead element dimension none
  | .union lead alternatives => .union lead alternatives

/-- An expression without its type and without the method or constructor it
calls. -/
def Expr.withoutType : Expr → Expr
  | .ident i _ => .ident i none
  | .access lead target name _ => .access lead target name none
  | .call lead select name args _ => .call lead select name args none
  | .new lead base args _ _ => .new lead base args none none
  | .literal lead text _ => .literal lead text none
  | .assign lead target value _ => .assign lead target value none
  | .binary lead left operator right _ => .binary lead left operator right none
  | .unary lead operator operand _ => .unary lead operator operand none
  | .parens lead inner _ => .parens lead inner none

/-- Every node without its type. -/
def untyping : Editor Empty :=
  { name := fun n => .replace (n.withType none)
    typeTree := fun t => .replace t.withoutType
    expr := fun e => .replace e.withoutType
    declarator := fun v => .replace { v with type := none }
    method := fun m => .replace { m with type := none }
    classDecl := fun c => .replace { c with type := none } }

/-- A name without types. -/
def Name.untyped (n : Name) : Name := (n.edit untyping).value

/-- A type tree without types. -/
def TypeTree.untyped (t : TypeTree) : TypeTree := (t.edit untyping).value

/-- An expression without types. -/
def Expr.untyped (e : Expr) : Expr := (e.edit untyping).value

def Modifier.untyped (m : Modifier) : Modifier := (m.edit untyping).value

def Variable.untyped (v : Variable) : Variable := (v.edit untyping).value

def Variables.untyped (d : Variables) : Variables := (d.edit untyping).value

/-- A statement without types. -/
def Stmt.untyped (s : Stmt) : Stmt := (s.edit untyping).value

/-- A clause without types. -/
def Catch.untyped (c : Catch Stmt) : Catch Stmt :=
  ⟨c.lead, c.parameter.map Variables.untyped, c.body.map Stmt.untyped⟩

/-- A try without types. -/
def Try.untyped (t : Try Stmt) : Try Stmt :=
  ⟨t.lead, t.body.map Stmt.untyped, t.catches.map Catch.untyped,
    t.finally?.map (.map (.map Stmt.untyped))⟩

def Else.untyped (e : Else Stmt) : Else Stmt :=
  ⟨e.lead, e.body.map Stmt.untyped⟩

def Method.untyped (m : Method) : Method := (m.edit untyping).value

/-- A member without types. -/
def Member.untyped (m : Member) : Member := (m.edit untyping).value

/-- A class without types. -/
def ClassDecl.untyped (c : JavaClass) : JavaClass := (c.edit untyping).value

/-- The file without its types. -/
def CompilationUnit.untyped (cu : CompilationUnit) : CompilationUnit :=
  (cu.edit untyping).value

-- ======================================================= names and types

theorem Name.untyped_qualified (lead : Trivia) (outer : Name)
    (last : LeftPadded Ident) (type : Option JavaType) :
    (Name.qualified lead outer last type).untyped =
      .qualified lead outer.untyped last none := rfl

theorem Name.untyped_withType (n : Name) (type : Option JavaType) :
    (n.withType type).untyped = n.untyped := by
  cases n <;> rfl

theorem TypeTree.untyped_generic (lead : Trivia) (base : Name)
    (args : Container TypeTree) (type : Option JavaType) :
    (TypeTree.generic lead base args type).untyped =
      .generic lead base.untyped (args.map TypeTree.untyped) none :=
  congrArg (fun es =>
    TypeTree.generic lead base.untyped ⟨args.before, es, args.close⟩ none)
    (TypeTree.editAll_value untyping args.elements)

theorem TypeTree.untyped_array (lead : Trivia) (element : TypeTree)
    (dimension : LeftPadded Trivia) (type : Option JavaType) :
    (TypeTree.array lead element dimension type).untyped =
      .array lead element.untyped dimension none := rfl

theorem TypeTree.untyped_union (lead : Trivia)
    (alternatives : List (RightPadded TypeTree)) :
    (TypeTree.union lead alternatives).untyped =
      .union lead (alternatives.map (.map TypeTree.untyped)) :=
  congrArg (TypeTree.union lead) (TypeTree.editAll_value untyping alternatives)

theorem TypeTree.editList_untyping (o : Option (Container TypeTree)) :
    (TypeTree.editList untyping o).value = o.map (.map TypeTree.untyped) := by
  cases o with
  | none => rfl
  | some c =>
      exact congrArg (fun es =>
        some (⟨c.before, es, c.close⟩ : Container TypeTree))
        (TypeTree.editAll_value untyping c.elements)

theorem TypeTree.editOption_untyping (o : Option TypeTree) :
    (TypeTree.editOption untyping o).value = o.map TypeTree.untyped := by
  cases o <;> rfl

-- =========================================================== expressions

theorem Expr.untyped_call (lead : Trivia) (select : Option (RightPadded Expr))
    (name : Ident) (args : Container Expr) (method : Option MethodType) :
    (Expr.call lead select name args method).untyped =
      .call lead (select.map (.map Expr.untyped)) name
        (args.map Expr.untyped) none := by
  have hs : (Expr.editSelect untyping select).value =
      select.map (.map Expr.untyped) := by
    cases select <;> rfl
  show Expr.call lead (Expr.editSelect untyping select).value name
    ⟨args.before, (Expr.editAll untyping args.elements).value,
      args.close⟩ none = _
  rw [hs, Expr.editAll_value]
  rfl

theorem Expr.untyped_new (lead : Trivia) (base : TypeTree)
    (args : Container Expr) (constructor : Option MethodType)
    (type : Option JavaType) :
    (Expr.new lead base args constructor type).untyped =
      .new lead base.untyped (args.map Expr.untyped) none none :=
  congrArg (fun es =>
    Expr.new lead base.untyped ⟨args.before, es, args.close⟩ none none)
    (Expr.editAll_value untyping args.elements)

theorem Name.dotted_untyped (n : Name) : n.untyped.dotted = n.dotted := by
  induction n with
  | simple i type => rfl
  | qualified lead outer last type ih =>
      rw [untyped_qualified, dotted, dotted, ih]

theorem Name.last_untyped (n : Name) : n.untyped.last = n.last := by
  cases n with
  | simple i type => rfl
  | qualified lead outer last type =>
      rw [Name.untyped_qualified, Name.last, Name.last]

/-- The words of a chain are no matter of types. -/
theorem Expr.dotted?_untyped (e : Expr) : e.untyped.dotted? = e.dotted? := by
  induction e using Expr.induction_on with
  | access lead target name type ih => exact congrArg (Option.map _) ih
  | _ => rfl

/-- Whether an expression is a chain is no matter of types. -/
theorem Expr.isNameChain_untyped (e : Expr) :
    e.untyped.isNameChain = e.isNameChain := by
  induction e using Expr.induction_on with
  | access lead target name type ih => exact ih
  | _ => rfl

-- ========================================================== declarations

theorem Modifier.untyped_annotated (lead : Trivia) (name : Name)
    (args : Option (Container Expr)) :
    (Modifier.annotated lead name args).untyped =
      .annotated lead name.untyped (args.map (.map Expr.untyped)) := by
  cases args with
  | none => rfl
  | some c =>
      exact congrArg (fun es =>
        Modifier.annotated lead name.untyped (some ⟨c.before, es, c.close⟩))
        (Expr.editAll_value untyping c.elements)

/-- A declared variable without types, part by part. -/
theorem Variable.untyped_eq (v : Variable) :
    v.untyped = ⟨v.lead, v.name.untyped,
      v.initializer.map (.map Expr.untyped), none⟩ := by
  have hi : (LeftPadded.editExpr untyping v.initializer).value =
      v.initializer.map (.map Expr.untyped) := by
    cases v.initializer <;> rfl
  exact congrArg (fun i => (⟨v.lead, v.name.untyped, i, none⟩ : Variable)) hi

/-- A declaration without types, part by part. -/
theorem Variables.untyped_eq (d : Variables) :
    d.untyped = ⟨d.lead, d.modifiers.map Modifier.untyped, d.typeTree.untyped,
      d.declarators.map (.map Variable.untyped)⟩ := by
  show (⟨d.lead, (Modifier.editAll untyping d.modifiers).value,
    d.typeTree.untyped,
    (Variable.editAll untyping d.declarators).value⟩ : Variables) = _
  rw [Modifier.editAll_value, Variable.editAll_value]
  rfl

-- ============================================================ statements

/-- A block loses its types statement by statement. -/
theorem Stmt.editBlock_untyping (b : Block Stmt) :
    (Stmt.editBlock untyping b).value = b.map Stmt.untyped := by
  rw [Stmt.editBlock]
  exact congrArg (fun ss => (⟨b.lead, ss, b.close⟩ : Block Stmt))
    (Stmt.editAll_value untyping b.statements)

/-- A clause loses its types as a part of a try. -/
theorem Catch.edit_untyping (c : Catch Stmt) :
    (c.edit untyping).value = c.untyped := by
  rw [Catch.edit]
  exact congrArg (fun b =>
    (⟨c.lead, c.parameter.map Variables.untyped, b⟩ : Catch Stmt))
    (Stmt.editBlock_untyping c.body)

theorem Stmt.untyped_block (b : Block Stmt) :
    (Stmt.block b).untyped = .block (b.map Stmt.untyped) :=
  congrArg Stmt.block (editBlock_untyping b)

theorem Stmt.untyped_tryCatch (t : Try Stmt) :
    (Stmt.tryCatch t).untyped = .tryCatch t.untyped := by
  have hc : (Catch.editAll untyping t.catches).value =
      t.catches.map Catch.untyped := by
    rw [Catch.editAll_value]
    exact List.map_congr_left fun c _ => c.edit_untyping
  have hf : (Stmt.editFinally untyping t.finally?).value =
      t.finally?.map (.map (.map Stmt.untyped)) := by
    cases t.finally? with
    | none => rfl
    | some f =>
        exact congrArg (fun b => some (⟨f.before, b⟩ : LeftPadded (Block Stmt)))
          (editBlock_untyping f.element)
  have ht : (Try.editParts untyping t).value = t.untyped := by
    rw [Try.editParts]
    show (⟨t.lead, (Stmt.editBlock untyping t.body).value, _, _⟩ : Try Stmt) = _
    rw [editBlock_untyping, hc, hf]
    rfl
  exact congrArg Stmt.tryCatch ht

theorem Stmt.untyped_returning (lead : Trivia) (value : Option Expr) :
    (Stmt.returning lead value).untyped =
      .returning lead (value.map Expr.untyped) := by
  cases value <;> rfl

theorem Stmt.untyped_ifElse (lead : Trivia) (condition : Parens Expr)
    (thenPart : RightPadded Stmt) (elsePart : Option (Else Stmt)) :
    (Stmt.ifElse lead condition thenPart elsePart).untyped =
      .ifElse lead (condition.map Expr.untyped) (thenPart.map Stmt.untyped)
        (elsePart.map Else.untyped) := by
  have he : (Stmt.editElse untyping elsePart).value =
      elsePart.map Else.untyped := by
    cases elsePart with
    | none => rfl
    | some e =>
        rw [Stmt.editElse, Else.edit]
        rfl
  exact congrArg (Stmt.ifElse lead _ (thenPart.map Stmt.untyped)) he

-- =================================================== classes and files

/-- A method without types, part by part. -/
theorem Method.untyped_eq (m : Method) :
    m.untyped = ⟨m.lead, m.modifiers.map Modifier.untyped,
      m.returnType.map TypeTree.untyped,
      m.name, m.parameters.map Variables.untyped,
      m.throws.map (.map TypeTree.untyped),
      m.body.map (.map Stmt.untyped), none⟩ := by
  have hb : (Stmt.editBody untyping m.body).value =
      m.body.map (.map Stmt.untyped) := by
    cases m.body with
    | none => rfl
    | some b => exact congrArg some (Stmt.editBlock_untyping b)
  show (⟨m.lead, (Modifier.editAll untyping m.modifiers).value,
    (TypeTree.editOption untyping m.returnType).value, m.name,
    ⟨m.parameters.before,
      (Variables.editAll untyping m.parameters.elements).value,
      m.parameters.close⟩, (TypeTree.editList untyping m.throws).value,
    (Stmt.editBody untyping m.body).value, none⟩ : Method) = _
  rw [Modifier.editAll_value, TypeTree.editOption_untyping,
    Variables.editAll_value, TypeTree.editList_untyping, hb]
  rfl

/-- A class without types, part by part. -/
theorem ClassDecl.untyped_eq (c : JavaClass) :
    c.untyped = ⟨c.lead, c.modifiers.map Modifier.untyped, c.kindLead, c.kind,
      c.name.untyped,
      c.extends?.map (.map TypeTree.untyped),
      c.implements?.map (.map TypeTree.untyped),
      c.body.map Member.untyped, none⟩ := by
  rw [ClassDecl.untyped, ClassDecl.edit, Member.editBlock]
  show (⟨c.lead, (Modifier.editAll untyping c.modifiers).value,
    c.kindLead, c.kind,
    c.name.untyped, (TypeTree.editList untyping c.extends?).value,
    (TypeTree.editList untyping c.implements?).value,
    ⟨c.body.lead, (Member.editAll untyping c.body.statements).value,
      c.body.close⟩, none⟩ : JavaClass) = _
  rw [Modifier.editAll_value, TypeTree.editList_untyping,
    TypeTree.editList_untyping, Member.editAll_value]
  rfl

/-- A file without types, part by part. -/
theorem CompilationUnit.untyped_eq (cu : CompilationUnit) :
    cu.untyped = ⟨cu.lead,
      cu.package?.map fun p =>
        ⟨⟨p.element.lead, p.element.name.untyped⟩, p.after⟩,
      cu.imports.map fun p =>
        ⟨⟨p.element.lead, p.element.static?, p.element.name.untyped⟩, p.after⟩,
      cu.classes.map ClassDecl.untyped, cu.close, cu.path⟩ := by
  have hp : (Package.edit untyping cu.package?).value =
      cu.package?.map fun p =>
        ⟨⟨p.element.lead, p.element.name.untyped⟩, p.after⟩ := by
    cases cu.package? <;> rfl
  have hi : (Import.editAll untyping cu.imports).value = cu.imports.map fun p =>
      ⟨⟨p.element.lead, p.element.static?, p.element.name.untyped⟩, p.after⟩ :=
    value_eq_map rfl (fun _ _ => rfl) cu.imports
  show (⟨cu.lead, (Package.edit untyping cu.package?).value,
    (Import.editAll untyping cu.imports).value,
    (ClassDecl.editAll untyping cu.classes).value,
    cu.close, cu.path⟩ : CompilationUnit) = _
  rw [hp, hi, ClassDecl.editAll_value]
  rfl

-- ================================================================= texts

/-- A name is printed the same without types. -/
theorem Name.pieces_untyped (n : Name) : n.untyped.pieces = n.pieces := by
  induction n with
  | simple i type => rfl
  | qualified lead outer last type ih =>
      rw [Name.untyped_qualified, Name.pieces, Name.pieces, ih]

/-- Padded items are shown as those they are made from, if each item is. -/
theorem RightPadded.shown_map {α : Type} {f : α → α} {shown : α → List Piece}
    {ps : List (RightPadded α)}
    (h : ∀ p ∈ ps, shown (f p.element) = shown p.element) :
    ((ps.map (RightPadded.map f)).map fun p =>
      shown p.element ++ [trivia p.after]) =
      ps.map fun p => shown p.element ++ [trivia p.after] := by
  rw [List.map_map]
  exact List.map_congr_left fun p hp =>
    congrArg (· ++ [trivia p.after]) (h p hp)

theorem TypeTree.runs_untyped {ps : List (RightPadded TypeTree)}
    (h : ∀ p ∈ ps, p.element.untyped.pieces = p.element.pieces) :
    TypeTree.runs (ps.map (.map TypeTree.untyped)) = TypeTree.runs ps := by
  rw [TypeTree.runs_eq_map, TypeTree.runs_eq_map]
  exact RightPadded.shown_map h

/-- A type is printed the same without types. -/
theorem TypeTree.pieces_untyped (t : TypeTree) :
    t.untyped.pieces = t.pieces := by
  induction t using TypeTree.induction_on with
  | named n => exact n.pieces_untyped
  | generic lead base args type ih =>
      rw [TypeTree.untyped_generic, TypeTree.pieces, TypeTree.pieces,
        base.pieces_untyped]
      rw [Container.map, runs_untyped ih]
  | primitive lead keyword type => rfl
  | array lead element dimension type ih =>
      rw [TypeTree.untyped_array, TypeTree.pieces, TypeTree.pieces, ih]
  | union lead alternatives ih =>
      rw [TypeTree.untyped_union, TypeTree.pieces, TypeTree.pieces,
        runs_untyped ih]

theorem TypeTree.listPieces_untyped (keyword : String)
    (o : Option (Container TypeTree)) :
    TypeTree.listPieces keyword (o.map (.map TypeTree.untyped)) =
      TypeTree.listPieces keyword o := by
  cases o with
  | none => rfl
  | some c =>
      show afterKeyword c.before keyword
        (TypeTree.runs (c.elements.map (.map _))) = _
      rw [runs_untyped fun p _ => p.element.pieces_untyped]
      rfl

theorem Expr.runs_untyped {ps : List (RightPadded Expr)}
    (h : ∀ p ∈ ps, p.element.untyped.pieces = p.element.pieces) :
    Expr.runs (ps.map (.map Expr.untyped)) = Expr.runs ps := by
  rw [Expr.runs_eq_map, Expr.runs_eq_map]
  exact RightPadded.shown_map h

/-- An expression is printed the same without types. -/
theorem Expr.pieces_untyped (e : Expr) : e.untyped.pieces = e.pieces := by
  induction e using Expr.induction_on with
  | ident i type => rfl
  | access lead target name type ih =>
      show trivia lead :: (target.untyped.pieces ++ _) = _
      rw [ih]
      rfl
  | call lead select name args method ihs iha =>
      have hs : Expr.selectPieces (select.map (.map Expr.untyped)) =
          Expr.selectPieces select := by
        cases select with
        | none => rfl
        | some p => exact congrArg (· ++ [trivia p.after, word "."]) (ihs p rfl)
      rw [Expr.untyped_call, Expr.pieces, Expr.pieces, hs, Container.map,
        runs_untyped iha]
  | new lead base args constructor type ih =>
      rw [Expr.untyped_new, Expr.pieces, Expr.pieces, base.pieces_untyped,
        Container.map, runs_untyped ih]
  | literal lead text type => rfl
  | assign lead target value type iht ihv =>
      show trivia lead :: (target.untyped.pieces ++
        trivia value.before :: word "=" :: value.element.untyped.pieces) = _
      rw [iht, ihv]
      rfl
  | binary lead left operator right type ihl ihr =>
      show trivia lead :: (left.untyped.pieces ++
        trivia operator.before :: word operator.element.text ::
          right.untyped.pieces) = _
      rw [ihl, ihr]
      rfl
  | unary lead operator operand type ih =>
      show trivia lead :: word operator.text :: operand.untyped.pieces = _
      rw [ih]
      rfl
  | parens lead inner type ih =>
      show trivia lead :: word "(" :: (inner.element.untyped.pieces ++ _) = _
      rw [ih]
      rfl

/-- An annotation is printed the same without types. -/
theorem Modifier.pieces_untyped (m : Modifier) :
    m.untyped.pieces = m.pieces := by
  cases m with
  | keyword lead word => rfl
  | annotated lead name args =>
      rw [Modifier.untyped_annotated]
      cases args with
      | none =>
          show trivia lead :: word "@" :: name.untyped.pieces = _
          rw [name.pieces_untyped]
          rfl
      | some c =>
          show trivia lead :: word "@" ::
            (name.untyped.pieces ++ enclosed c.before "("
            (Expr.runs (c.elements.map (.map Expr.untyped))) c.close ")") = _
          rw [name.pieces_untyped,
            Expr.runs_untyped fun p _ => p.element.pieces_untyped]
          rfl

theorem Modifier.listPieces_untyped (ms : List Modifier) :
    Modifier.listPieces (ms.map Modifier.untyped) = Modifier.listPieces ms := by
  rw [Modifier.listPieces, Modifier.listPieces, List.flatMap_map]
  exact congrArg (List.flatMap · ms) (funext Modifier.pieces_untyped)

theorem Variable.pieces_untyped (v : Variable) :
    v.untyped.pieces = v.pieces := by
  rw [Variable.untyped_eq, Variable.pieces, Variable.pieces,
    v.name.pieces_untyped]
  cases v.initializer with
  | none => rfl
  | some i =>
      show _ :: (_ ++ trivia i.before :: word "=" ::
        i.element.untyped.pieces) = _
      rw [i.element.pieces_untyped]

/-- A declaration is printed the same without types. -/
theorem Variables.pieces_untyped (d : Variables) :
    d.untyped.pieces = d.pieces := by
  rw [Variables.untyped_eq, Variables.pieces, Variables.pieces,
    Modifier.listPieces_untyped, d.typeTree.pieces_untyped]
  have hd : ((d.declarators.map (RightPadded.map Variable.untyped)).map fun p =>
      p.element.pieces ++ [trivia p.after]) =
        d.declarators.map fun p => p.element.pieces ++ [trivia p.after] :=
    RightPadded.shown_map fun p _ => p.element.pieces_untyped
  show trivia d.lead :: (_ ++ separated "," _) = _
  rw [hd]

theorem Expr.conditionPieces_untyped (c : Parens Expr) :
    Expr.conditionPieces (c.map Expr.untyped) = Expr.conditionPieces c :=
  congrArg (fun ps =>
    trivia c.lead :: word "(" :: (ps ++ [trivia c.inner.after, word ")"]))
    c.inner.element.pieces_untyped

theorem Stmt.needsSemicolon_untyped (s : Stmt) :
    s.untyped.needsSemicolon = s.needsSemicolon := by
  cases s with
  | returning lead value => cases value <;> rfl
  | _ => rfl

theorem Stmt.paddedPieces_untyped {p : RightPadded Stmt}
    (h : p.element.untyped.pieces = p.element.pieces) :
    Stmt.paddedPieces (p.map Stmt.untyped) = Stmt.paddedPieces p := by
  rw [Stmt.paddedPieces, Stmt.paddedPieces]
  show p.element.untyped.pieces ++ trivia p.after ::
    semicolonIf p.element.untyped.needsSemicolon = _
  rw [h, needsSemicolon_untyped]

/-- A block is printed the same if its statements are. -/
theorem Stmt.blockPieces_untyped {b : Block Stmt}
    (h : ∀ p ∈ b.statements, p.element.untyped.pieces = p.element.pieces) :
    Stmt.blockPieces (b.map Stmt.untyped) = Stmt.blockPieces b := by
  rw [Stmt.blockPieces, Stmt.blockPieces, Stmt.allPieces_eq_flatMap,
    Stmt.allPieces_eq_flatMap, Block.map, List.flatMap_map]
  exact congrArg (bracedPieces b.lead · b.close)
    (List.flatMap_congr fun p hp => Stmt.paddedPieces_untyped (h p hp))

/-- A clause is printed the same if its body is. -/
theorem Catch.pieces_untyped {c : Catch Stmt}
    (h : ∀ p ∈ c.body.statements, p.element.untyped.pieces = p.element.pieces) :
    c.untyped.pieces = c.pieces := by
  rw [Catch.pieces, Catch.pieces]
  show trivia c.lead :: word "catch" :: (trivia c.parameter.lead :: word "(" ::
    (c.parameter.inner.element.untyped.pieces ++ _) ++
      Stmt.blockPieces (c.body.map Stmt.untyped)) = _
  rw [Stmt.blockPieces_untyped h, Variables.pieces_untyped]
  rfl

/-- A statement is printed the same without types. -/
theorem Stmt.pieces_untyped (s : Stmt) : s.untyped.pieces = s.pieces := by
  induction s using Stmt.induction_on with
  | block b ih =>
      rw [Stmt.untyped_block, Stmt.pieces, Stmt.pieces, blockPieces_untyped ih]
  | declaration d => exact d.pieces_untyped
  | expr e => exact e.pieces_untyped
  | empty lead => rfl
  | tryCatch t ihb ihc ihf =>
      have hc : Catch.allPieces (t.catches.map Catch.untyped) =
          Catch.allPieces t.catches := by
        rw [Catch.allPieces_eq_flatMap, Catch.allPieces_eq_flatMap,
          List.flatMap_map]
        exact List.flatMap_congr fun c hc => Catch.pieces_untyped (ihc c hc)
      have hf : Stmt.finallyPieces (t.finally?.map (.map (.map Stmt.untyped))) =
          Stmt.finallyPieces t.finally? := by
        cases hf : t.finally? with
        | none => rfl
        | some f =>
            show trivia f.before :: word "finally" ::
              blockPieces (f.element.map Stmt.untyped) = _
            rw [blockPieces_untyped (ihf f hf)]
            rfl
      rw [Stmt.untyped_tryCatch, Stmt.pieces, Stmt.pieces, Try.pieces,
        Try.pieces, Try.untyped]
      show trivia t.lead :: word "try" ::
        (blockPieces (t.body.map Stmt.untyped) ++ _ ++ _) = _
      rw [blockPieces_untyped ihb, hc, hf]
  | throwing lead exception =>
      show trivia lead :: word "throw" :: exception.untyped.pieces = _
      rw [exception.pieces_untyped]
      rfl
  | returning lead value =>
      rw [Stmt.untyped_returning]
      cases value with
      | none => rfl
      | some e =>
          show trivia lead :: word "return" :: e.untyped.pieces = _
          rw [e.pieces_untyped]
          rfl
  | ifElse lead condition thenPart elsePart iht ihe =>
      have he : Stmt.elsePieces (elsePart.map Else.untyped) =
          Stmt.elsePieces elsePart := by
        cases elsePart with
        | none => rfl
        | some e =>
            rw [Option.map, Stmt.elsePieces, Stmt.elsePieces, Else.pieces,
              Else.pieces, Else.untyped, paddedPieces_untyped (ihe e rfl)]
      rw [Stmt.untyped_ifElse, Stmt.pieces, Stmt.pieces,
        Expr.conditionPieces_untyped, paddedPieces_untyped iht, he]
  | whileLoop lead condition body ih =>
      show trivia lead :: word "while" ::
        (Expr.conditionPieces (condition.map Expr.untyped) ++
          Stmt.paddedPieces (body.map Stmt.untyped)) = _
      rw [Expr.conditionPieces_untyped, paddedPieces_untyped ih]
      rfl

/-- A method is printed the same without types. -/
theorem Method.pieces_untyped (m : Method) : m.untyped.pieces = m.pieces := by
  have hp : ((m.parameters.elements.map (RightPadded.map Variables.untyped)).map
      fun p => p.element.pieces ++ [trivia p.after]) =
        m.parameters.elements.map fun p =>
          p.element.pieces ++ [trivia p.after] :=
    RightPadded.shown_map fun p _ => p.element.pieces_untyped
  have hb (b : Block Stmt) :
      Stmt.blockPieces (b.map Stmt.untyped) = Stmt.blockPieces b :=
    Stmt.blockPieces_untyped fun p _ => p.element.pieces_untyped
  rw [Method.untyped_eq, Method.pieces, Method.pieces]
  dsimp only [Container.map]
  rw [Modifier.listPieces_untyped, TypeTree.listPieces_untyped, hp]
  cases m.returnType <;> cases m.body <;>
    simp only [Option.map_none, Option.map_some, TypeTree.pieces_untyped, hb]

/-- A class shows as without types if its members do. -/
theorem ClassDecl.pieces_untyped_of_members {c : JavaClass}
    (h : ∀ p ∈ c.body.statements, p.element.untyped.pieces = p.element.pieces ∧
      p.element.untyped.needsSemicolon = p.element.needsSemicolon) :
    c.untyped.pieces = c.pieces := by
  have hb : (c.body.statements.map (RightPadded.map Member.untyped)).flatMap
      Member.paddedPieces = c.body.statements.flatMap Member.paddedPieces := by
    rw [List.flatMap_map]
    refine List.flatMap_congr fun p hp => ?_
    show p.element.untyped.pieces ++ trivia p.after ::
      semicolonIf p.element.untyped.needsSemicolon = _
    rw [(h p hp).1, (h p hp).2]
    rfl
  rw [ClassDecl.untyped_eq, ClassDecl.pieces, ClassDecl.pieces,
    Modifier.listPieces_untyped, c.name.pieces_untyped,
    TypeTree.listPieces_untyped, TypeTree.listPieces_untyped,
    Member.blockPieces, Member.blockPieces, Member.allPieces_eq_flatMap,
    Member.allPieces_eq_flatMap]
  dsimp only [Block.map]
  rw [hb]

/-- A member is printed the same without types, its semicolon too. -/
theorem Member.pieces_untyped (m : Member) : m.untyped.pieces = m.pieces ∧
    m.untyped.needsSemicolon = m.needsSemicolon := by
  induction m using Member.induction_on with
  | field d => exact ⟨d.pieces_untyped, rfl⟩
  | method m =>
      refine ⟨m.pieces_untyped, ?_⟩
      show (m.untyped.body).isNone = _
      rw [Method.untyped_eq]
      exact Option.isNone_map
  | nested c ih => exact ⟨ClassDecl.pieces_untyped_of_members ih, rfl⟩

/-- A class is printed the same without types. -/
theorem ClassDecl.pieces_untyped (c : JavaClass) :
    c.untyped.pieces = c.pieces :=
  pieces_untyped_of_members fun p _ => p.element.pieces_untyped

/-- A file without its types shows as it did. -/
theorem CompilationUnit.pieces_untyped (cu : CompilationUnit) :
    cu.untyped.pieces = cu.pieces := by
  rw [untyped_eq, CompilationUnit.pieces, CompilationUnit.pieces]
  dsimp only
  rw [List.flatMap_map, List.flatMap_map, funext ClassDecl.pieces_untyped]
  cases cu.package? <;> simp only [Option.map_none, Option.map_some,
    Import.pieces, Package.pieces, Name.pieces_untyped]

/-- A file without its types is the same text. -/
theorem CompilationUnit.print_untyped (cu : CompilationUnit) :
    cu.untyped.print = cu.print :=
  congrArg textAll cu.pieces_untyped

end JavaRefit
