/-
Trees without their trivia.

Two texts with the same words differ in the blanks and comments between
them, and so do their trees. `blanking` empties the trivia of every node:
what is left of a tree is its words and its types. It goes through a tree
as any editor does, and the equations here say what it comes to at each
node.

Chain: after `Induction`; read by the proofs that formatting is
irrelevant, from reading through attribution to the rule.
-/
import Mathlib.Data.List.Basic
import JavaRefit.Proofs.Tree.Untyped

namespace JavaRefit

-- ============================================================== wrappers

section Wrappers

variable {α : Type} (f : α → α)

/-- An element without the trivia behind it. -/
def RightPadded.blank (p : RightPadded α) : RightPadded α :=
  ⟨f p.element, ""⟩

/-- An element without the trivia before it. -/
def LeftPadded.blank (p : LeftPadded α) : LeftPadded α :=
  ⟨"", f p.element⟩

/-- Elements between delimiters without any trivia. -/
def Container.blank (c : Container α) : Container α :=
  ⟨"", c.elements.map (.blank f), ""⟩

/-- What stands in parentheses, without trivia. -/
def Parens.blank (p : Parens α) : Parens α :=
  ⟨"", p.inner.blank f⟩

/-- A block without trivia. -/
def Block.blank (b : Block α) : Block α :=
  ⟨"", b.statements.map (.blank f), ""⟩

/-- The trivia behind the last element is blank like all others. -/
theorem RightPadded.blank_closeLast (close : Trivia)
    (ps : List (RightPadded α)) :
    (closeLast close ps).map (blank f) = ps.map (blank f) := by
  induction ps with
  | nil => rfl
  | cons p ps ih =>
      cases ps with
      | nil => rfl
      | cons q ps => exact congrArg (p.blank f :: ·) ih

end Wrappers

-- ============================================================ definitions

/-- An identifier without its trivia. -/
def Ident.blank (i : Ident) : Ident :=
  ⟨"", i.name⟩

/-- A name whose parts are blank, blank itself. -/
def Name.bare : Name → Name
  | .simple i type => .simple i.blank type
  | .qualified _ outer last type => .qualified "" outer (last.blank id) type

/-- A written type whose parts are blank, blank itself. -/
def TypeTree.bare : TypeTree → TypeTree
  | .named name => .named name
  | .generic _ base args type => .generic "" base (args.blank id) type
  | .primitive _ keyword type => .primitive "" keyword type
  | .array _ element _ type => .array "" element ⟨"", ""⟩ type
  | .union _ alternatives => .union "" (alternatives.map (.blank id))

/-- An expression whose parts are blank, blank itself. -/
def Expr.bare : Expr → Expr
  | .ident i type => .ident i.blank type
  | .access _ target name type => .access "" target (name.blank id) type
  | .call _ select name args method =>
      .call "" (select.map (.blank id)) name (args.blank id) method
  | .new _ base args constructor type =>
      .new "" base (args.blank id) constructor type
  | .literal _ text type => .literal "" text type
  | .assign _ target value type => .assign "" target (value.blank id) type
  | .binary _ left operator right type =>
      .binary "" left (operator.blank id) right type
  | .unary _ operator operand type => .unary "" operator operand type
  | .parens _ inner type => .parens "" (inner.blank id) type

/-- A modifier whose parts are blank, blank itself. -/
def Modifier.bare : Modifier → Modifier
  | .keyword _ word => .keyword "" word
  | .annotated _ name args => .annotated "" name (args.map (.blank id))

/-- A statement whose parts are blank, blank itself. -/
def Stmt.bare : Stmt → Stmt
  | .tryCatch t => .tryCatch ⟨"", t.body, t.catches, t.finally?.map (.blank id)⟩
  | .throwing _ exception => .throwing "" exception
  | .returning _ value => .returning "" value
  | .ifElse _ condition thenPart elsePart =>
      .ifElse "" condition (thenPart.blank id) elsePart
  | .whileLoop _ condition body => .whileLoop "" condition (body.blank id)
  | .empty _ => .empty ""
  | s => s

/-- Every node without its trivia. -/
def blanking : Editor Empty :=
  { ident := fun i => .replace i.blank
    name := fun n => .replace n.bare
    typeTree := fun t => .replace t.bare
    expr := fun e => .replace e.bare
    modifier := fun m => .replace m.bare
    declarator := fun v =>
      .replace ⟨"", v.name, v.initializer.map (.blank id), v.type⟩
    declaration := fun d =>
      .replace ⟨"", d.modifiers, d.typeTree, d.declarators.map (.blank id)⟩
    condition := fun c => .replace (c.blank id)
    parameter := fun c => .replace (c.blank id)
    catchClause := fun c => .replace ⟨"", c.parameter, c.body⟩
    elseBranch := fun e => .replace ⟨"", e.body.blank id⟩
    block := fun b => .replace (b.blank id)
    stmt := fun s => .replace s.bare
    method := fun m => .replace
      { m with
        lead := ""
        parameters := m.parameters.blank id
        throws := m.throws.map (.blank id) }
    classBody := fun b => .replace (b.blank id)
    classDecl := fun c => .replace
      { c with
        lead := ""
        kindLead := ""
        extends? := c.extends?.map (.blank id)
        implements? := c.implements?.map (.blank id) }
    package := fun p => .replace ⟨"", p.name⟩
    importDecl := fun i => .replace ⟨"", i.static?.map fun _ => "", i.name⟩
    unit := fun cu => .replace
      { cu with
        lead := ""
        package? := cu.package?.map (.blank id)
        imports := cu.imports.map (.blank id)
        close := "" } }

/-- A name without trivia. -/
def Name.blank (n : Name) : Name := (n.edit blanking).value

/-- A type without trivia. -/
def TypeTree.blank (t : TypeTree) : TypeTree := (t.edit blanking).value

/-- An expression without trivia. -/
def Expr.blank (e : Expr) : Expr := (e.edit blanking).value

def Modifier.blank (m : Modifier) : Modifier := (m.edit blanking).value

def Variable.blank (v : Variable) : Variable := (v.edit blanking).value

def Variables.blank (d : Variables) : Variables := (d.edit blanking).value

/-- A statement without trivia. -/
def Stmt.blank (s : Stmt) : Stmt := (s.edit blanking).value

/-- A clause without trivia. -/
def Catch.blank (c : Catch Stmt) : Catch Stmt :=
  ⟨"", c.parameter.blank Variables.blank, c.body.blank Stmt.blank⟩

/-- A try without trivia. -/
def Try.blank (t : Try Stmt) : Try Stmt :=
  ⟨"", t.body.blank Stmt.blank, t.catches.map Catch.blank,
    t.finally?.map (.blank (.blank Stmt.blank))⟩

def Else.blank (e : Else Stmt) : Else Stmt :=
  ⟨"", e.body.blank Stmt.blank⟩

def Method.blank (m : Method) : Method := (m.edit blanking).value

/-- A member without trivia. -/
def Member.blank (m : Member) : Member := (m.edit blanking).value

/-- A class without trivia. -/
def ClassDecl.blank (c : JavaClass) : JavaClass := (c.edit blanking).value

def Package.blank (p : Package) : Package := ⟨"", p.name.blank⟩

/-- An import without trivia: only that it is static stays. -/
def Import.blank (i : Import) : Import :=
  ⟨"", i.static?.map fun _ => "", i.name.blank⟩

/-- The file without its trivia. -/
def CompilationUnit.blank (cu : CompilationUnit) : CompilationUnit :=
  (cu.edit blanking).value

-- ======================================================= names and types

/-- Blanking an element and what is behind it are one. -/
theorem RightPadded.blank_map {α : Type} (f : α → α)
    (ps : List (RightPadded α)) :
    (ps.map (RightPadded.map f)).map (RightPadded.blank id) =
      ps.map (RightPadded.blank f) := by
  rw [List.map_map]
  rfl

theorem Name.blank_qualified (lead : Trivia) (outer : Name)
    (last : LeftPadded Ident) (type : Option JavaType) :
    (Name.qualified lead outer last type).blank =
      .qualified "" outer.blank (last.blank Ident.blank) type := rfl

theorem TypeTree.blank_named (name : Name) :
    (TypeTree.named name).blank = .named name.blank := rfl

theorem TypeTree.blank_generic (lead : Trivia) (base : Name)
    (args : Container TypeTree) (type : Option JavaType) :
    (TypeTree.generic lead base args type).blank =
      .generic "" base.blank (args.blank TypeTree.blank) type := by
  show TypeTree.generic "" base.blank ⟨"",
    (editAll blanking args.elements).value.map _, ""⟩ type = _
  rw [editAll_value, RightPadded.blank_map]
  rfl

theorem TypeTree.blank_array (lead : Trivia) (element : TypeTree)
    (dimension : LeftPadded Trivia) (type : Option JavaType) :
    (TypeTree.array lead element dimension type).blank =
      .array "" element.blank ⟨"", ""⟩ type := rfl

theorem TypeTree.blank_union (lead : Trivia)
    (alternatives : List (RightPadded TypeTree)) :
    (TypeTree.union lead alternatives).blank =
      .union "" (alternatives.map (.blank TypeTree.blank)) := by
  show TypeTree.union "" ((editAll blanking alternatives).value.map _) = _
  rw [editAll_value, RightPadded.blank_map]
  rfl

/-- What a keyword introduces is blanked element by element. -/
theorem TypeTree.editList_blanking (o : Option (Container TypeTree)) :
    (TypeTree.editList blanking o).value.map (Container.blank id) =
      o.map (Container.blank TypeTree.blank) := by
  cases o with
  | none => rfl
  | some c =>
      show some (⟨"", (editAll blanking c.elements).value.map _, ""⟩ :
        Container TypeTree) = _
      rw [editAll_value, RightPadded.blank_map]
      rfl

-- =========================================================== expressions

theorem Expr.blank_ident (i : Ident) (type : Option JavaType) :
    (Expr.ident i type).blank = .ident i.blank type := rfl

theorem Expr.blank_access (lead : Trivia) (target : Expr)
    (name : LeftPadded Ident) (type : Option JavaType) :
    (Expr.access lead target name type).blank =
      .access "" target.blank (name.blank Ident.blank) type := rfl

theorem Expr.blank_call (lead : Trivia) (select : Option (RightPadded Expr))
    (name : Ident) (args : Container Expr) (method : Option MethodType) :
    (Expr.call lead select name args method).blank =
      .call "" (select.map (.blank Expr.blank)) name.blank
        (args.blank Expr.blank) method := by
  have hs : (editSelect blanking select).value.map (RightPadded.blank id) =
      select.map (RightPadded.blank Expr.blank) := by
    cases select <;> rfl
  show Expr.call "" ((editSelect blanking select).value.map (.blank id))
    name.blank
    ⟨"", (editAll blanking args.elements).value.map _, ""⟩ method = _
  rw [hs, editAll_value, RightPadded.blank_map]
  rfl

theorem Expr.blank_new (lead : Trivia) (base : TypeTree) (args : Container Expr)
    (constructor : Option MethodType) (type : Option JavaType) :
    (Expr.new lead base args constructor type).blank =
      .new "" base.blank (args.blank Expr.blank) constructor type := by
  show Expr.new "" base.blank ⟨"", (editAll blanking args.elements).value.map _,
    ""⟩ constructor
    type = _
  rw [editAll_value, RightPadded.blank_map]
  rfl

theorem Expr.blank_literal (lead : Trivia) (text : String)
    (type : Option JavaType) :
    (Expr.literal lead text type).blank = .literal "" text type := rfl

theorem Expr.blank_assign (lead : Trivia) (target : Expr)
    (value : LeftPadded Expr) (type : Option JavaType) :
    (Expr.assign lead target value type).blank =
      .assign "" target.blank (value.blank Expr.blank) type := rfl

theorem Expr.blank_binary (lead : Trivia) (left : Expr)
    (operator : LeftPadded BinaryOp) (right : Expr) (type : Option JavaType) :
    (Expr.binary lead left operator right type).blank =
      .binary "" left.blank (operator.blank id) right.blank type := rfl

theorem Expr.blank_unary (lead : Trivia) (operator : UnaryOp) (operand : Expr)
    (type : Option JavaType) :
    (Expr.unary lead operator operand type).blank =
      .unary "" operator operand.blank type := rfl

theorem Expr.blank_parens (lead : Trivia) (inner : RightPadded Expr)
    (type : Option JavaType) :
    (Expr.parens lead inner type).blank =
      .parens "" (inner.blank Expr.blank) type := rfl

-- ========================================================== declarations

theorem Modifier.blank_annotated (lead : Trivia) (name : Name)
    (args : Option (Container Expr)) :
    (Modifier.annotated lead name args).blank =
      .annotated "" name.blank (args.map (.blank Expr.blank)) := by
  cases args with
  | none => rfl
  | some c =>
      show Modifier.annotated "" name.blank
        (some ⟨"", (Expr.editAll blanking c.elements).value.map _, ""⟩) = _
      rw [Expr.editAll_value, RightPadded.blank_map]
      rfl

/-- A declared variable without trivia, part by part. -/
theorem Variable.blank_eq (v : Variable) :
    v.blank = ⟨"", v.name.blank, v.initializer.map (.blank Expr.blank),
      v.type⟩ := by
  have hi : (LeftPadded.editExpr blanking v.initializer).value.map
      (LeftPadded.blank id) =
      v.initializer.map (LeftPadded.blank Expr.blank) := by
    cases v.initializer <;> rfl
  exact congrArg (fun i => (⟨"", v.name.blank, i, v.type⟩ : Variable)) hi

/-- A declaration without trivia, part by part. -/
theorem Variables.blank_eq (d : Variables) :
    d.blank = ⟨"", d.modifiers.map Modifier.blank, d.typeTree.blank,
      d.declarators.map (.blank Variable.blank)⟩ := by
  show (⟨"", (Modifier.editAll blanking d.modifiers).value, d.typeTree.blank,
    (Variable.editAll blanking d.declarators).value.map (.blank id)⟩ :
    Variables) = _
  rw [Modifier.editAll_value, Variable.editAll_value, RightPadded.blank_map]
  rfl

-- ============================================================ statements

/-- A block is blanked statement by statement. -/
theorem Stmt.editBlock_blanking (b : Block Stmt) :
    (Stmt.editBlock blanking b).value = b.blank Stmt.blank := by
  rw [Stmt.editBlock]
  show (⟨"", (Stmt.editAll blanking b.statements).value.map _, ""⟩ :
    Block Stmt) = _
  rw [Stmt.editAll_value, RightPadded.blank_map]
  rfl

/-- A clause is blanked as a part of a try. -/
theorem Catch.edit_blanking (c : Catch Stmt) :
    (c.edit blanking).value = c.blank := by
  rw [Catch.edit]
  exact congrArg (fun b =>
    (⟨"", c.parameter.blank Variables.blank, b⟩ : Catch Stmt))
    (Stmt.editBlock_blanking c.body)

theorem Stmt.blank_block (b : Block Stmt) :
    (Stmt.block b).blank = .block (b.blank Stmt.blank) :=
  congrArg Stmt.block (editBlock_blanking b)

theorem Stmt.blank_declaration (d : Variables) :
    (Stmt.declaration d).blank = .declaration d.blank := rfl

theorem Stmt.blank_expr (e : Expr) : (Stmt.expr e).blank = .expr e.blank := rfl

theorem Stmt.blank_tryCatch (t : Try Stmt) :
    (Stmt.tryCatch t).blank = .tryCatch t.blank := by
  have hc : (Catch.editAll blanking t.catches).value =
      t.catches.map Catch.blank := by
    rw [Catch.editAll_value]
    exact List.map_congr_left fun c _ => c.edit_blanking
  have hf : (Stmt.editFinally blanking t.finally?).value.map
      (LeftPadded.blank id) =
      t.finally?.map (LeftPadded.blank (Block.blank Stmt.blank)) := by
    cases t.finally? with
    | none => rfl
    | some f =>
        exact congrArg (fun b => some (⟨"", b⟩ : LeftPadded (Block Stmt)))
          (editBlock_blanking f.element)
  show Stmt.bare (.tryCatch (Try.editParts blanking t).value) = _
  rw [Try.editParts]
  show Stmt.tryCatch ⟨"", (Stmt.editBlock blanking t.body).value,
    (Catch.editAll blanking t.catches).value,
    (Stmt.editFinally blanking t.finally?).value.map (.blank id)⟩ = _
  rw [editBlock_blanking, hc, hf]
  rfl

theorem Stmt.blank_throwing (lead : Trivia) (exception : Expr) :
    (Stmt.throwing lead exception).blank = .throwing "" exception.blank := rfl

theorem Stmt.blank_returning (lead : Trivia) (value : Option Expr) :
    (Stmt.returning lead value).blank =
      .returning "" (value.map Expr.blank) := by
  cases value <;> rfl

theorem Stmt.blank_ifElse (lead : Trivia) (condition : Parens Expr)
    (thenPart : RightPadded Stmt) (elsePart : Option (Else Stmt)) :
    (Stmt.ifElse lead condition thenPart elsePart).blank =
      .ifElse "" (condition.blank Expr.blank) (thenPart.blank Stmt.blank)
        (elsePart.map Else.blank) := by
  have he : (Stmt.editElse blanking elsePart).value =
      elsePart.map Else.blank := by
    cases elsePart with
    | none => rfl
    | some e =>
        rw [Stmt.editElse, Else.edit]
        rfl
  exact congrArg (Stmt.ifElse "" _ (thenPart.blank Stmt.blank)) he

theorem Stmt.blank_whileLoop (lead : Trivia) (condition : Parens Expr)
    (body : RightPadded Stmt) : (Stmt.whileLoop lead condition body).blank =
      .whileLoop "" (condition.blank Expr.blank) (body.blank Stmt.blank) := rfl

-- =================================================== classes and files

/-- A method without trivia, part by part. -/
theorem Method.blank_eq (m : Method) :
    m.blank = ⟨"", m.modifiers.map Modifier.blank,
      m.returnType.map TypeTree.blank, m.name.blank,
      m.parameters.blank Variables.blank, m.throws.map (.blank TypeTree.blank),
      m.body.map (.blank Stmt.blank), m.type⟩ := by
  have hr : (TypeTree.editOption blanking m.returnType).value =
      m.returnType.map TypeTree.blank := by
    cases m.returnType <;> rfl
  have hb : (Stmt.editBody blanking m.body).value =
      m.body.map (.blank Stmt.blank) := by
    cases m.body with
    | none => rfl
    | some b => exact congrArg some (Stmt.editBlock_blanking b)
  show (⟨"", (Modifier.editAll blanking m.modifiers).value,
    (TypeTree.editOption blanking m.returnType).value, m.name.blank,
    ⟨"", (Variables.editAll blanking m.parameters.elements).value.map _, ""⟩,
    (TypeTree.editList blanking m.throws).value.map (.blank id),
    (Stmt.editBody blanking m.body).value, m.type⟩ : Method) = _
  rw [Modifier.editAll_value, hr, Variables.editAll_value,
    RightPadded.blank_map, TypeTree.editList_blanking, hb]
  rfl

theorem Member.blank_field (d : Variables) :
    (Member.field d).blank = .field d.blank := rfl

theorem Member.blank_method (m : Method) :
    (Member.method m).blank = .method m.blank := rfl

theorem Member.blank_nested (c : JavaClass) :
    (Member.nested c).blank = .nested c.blank := rfl

/-- A class without trivia, part by part. -/
theorem ClassDecl.blank_eq (c : JavaClass) :
    c.blank = ⟨"", c.modifiers.map Modifier.blank, "", c.kind, c.name.blank,
      c.extends?.map (.blank TypeTree.blank),
      c.implements?.map (.blank TypeTree.blank),
      c.body.blank Member.blank, c.type⟩ := by
  rw [ClassDecl.blank, ClassDecl.edit, Member.editBlock]
  show (⟨"", (Modifier.editAll blanking c.modifiers).value, "", c.kind,
    c.name.blank, (TypeTree.editList blanking c.extends?).value.map (.blank id),
    (TypeTree.editList blanking c.implements?).value.map (.blank id),
    ⟨"", (Member.editAll blanking c.body.statements).value.map _, ""⟩, c.type⟩ :
    JavaClass) = _
  rw [Modifier.editAll_value, TypeTree.editList_blanking,
    TypeTree.editList_blanking, Member.editAll_value, RightPadded.blank_map]
  rfl

/-- A file without trivia, part by part. -/
theorem CompilationUnit.blank_eq (cu : CompilationUnit) :
    cu.blank = ⟨"", cu.package?.map (.blank Package.blank),
      cu.imports.map (.blank Import.blank),
      cu.classes.map ClassDecl.blank, "", cu.path⟩ := by
  have hp : (Package.edit blanking cu.package?).value.map
      (RightPadded.blank id) =
      cu.package?.map (RightPadded.blank Package.blank) := by
    cases cu.package? <;> rfl
  have hi : (Import.editAll blanking cu.imports).value =
      cu.imports.map (RightPadded.map Import.blank) :=
    value_eq_map rfl (fun _ _ => rfl) cu.imports
  show (⟨"", (Package.edit blanking cu.package?).value.map (.blank id),
    (Import.editAll blanking cu.imports).value.map _,
    (ClassDecl.editAll blanking cu.classes).value, "", cu.path⟩ :
    CompilationUnit) = _
  rw [hp, hi, ClassDecl.editAll_value, RightPadded.blank_map]
  rfl

-- ================================================================= leads

/-- A blank name does not show the trivia it is given. -/
@[simp] theorem Name.blank_withLead (lead : Trivia) (n : Name) :
    (n.withLead lead).blank = n.blank := by
  cases n <;> rfl

@[simp] theorem TypeTree.blank_withLead (lead : Trivia) (t : TypeTree) :
    (t.withLead lead).blank = t.blank := by
  cases t with
  | named n => exact congrArg TypeTree.named (n.blank_withLead lead)
  | generic => simp only [TypeTree.withLead, blank_generic]
  | union => simp only [TypeTree.withLead, blank_union]
  | primitive | array => rfl

@[simp] theorem Expr.blank_withLead (lead : Trivia) (e : Expr) :
    (e.withLead lead).blank = e.blank := by
  cases e with
  | call => simp only [Expr.withLead, blank_call]
  | new => simp only [Expr.withLead, blank_new]
  | _ => rfl

end JavaRefit
