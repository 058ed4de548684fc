/-
Editing a tree from the leaves up.

An editor has one function for each sort of node. A node is first
rebuilt from its edited children and then handed to the function of
its sort. The tree is new as soon as some call gave another node, and the
notes come in the order of the calls.

Chain: tree layer, after `Edited`; read by renaming and by the catch
rule.
-/
import JavaRefit.Tree.Edited
import JavaRefit.Tree.Unit

namespace JavaRefit

/-- What is done to the nodes of each sort; nothing, unless it is said. Names
are the chains of packages, imports, annotations, written types and declared
variables and classes; identifiers are the single words after a dot, of a call
or of a method. -/
structure Editor (ω : Type) where
  ident : Ident → Edited ω Ident := Edited.keep
  name : Name → Edited ω Name := Edited.keep
  typeTree : TypeTree → Edited ω TypeTree := Edited.keep
  expr : Expr → Edited ω Expr := Edited.keep
  modifier : Modifier → Edited ω Modifier := Edited.keep
  declarator : Variable → Edited ω Variable := Edited.keep
  declaration : Variables → Edited ω Variables := Edited.keep
  condition : Parens Expr → Edited ω (Parens Expr) := Edited.keep
  parameter : Parens Variables → Edited ω (Parens Variables) := Edited.keep
  catchClause : Catch Stmt → Edited ω (Catch Stmt) := Edited.keep
  elseBranch : Else Stmt → Edited ω (Else Stmt) := Edited.keep
  block : Block Stmt → Edited ω (Block Stmt) := Edited.keep
  stmt : Stmt → Edited ω Stmt := Edited.keep
  method : Method → Edited ω Method := Edited.keep
  classBody : Block Member → Edited ω (Block Member) := Edited.keep
  classDecl : JavaClass → Edited ω JavaClass := Edited.keep
  package : Package → Edited ω Package := Edited.keep
  importDecl : Import → Edited ω Import := Edited.keep
  unit : CompilationUnit → Edited ω CompilationUnit := Edited.keep

variable {ω : Type}

-- ======================================================= names and types

def LeftPadded.editIdent (r : Editor ω) (p : LeftPadded Ident) :
    Edited ω (LeftPadded Ident) :=
  (⟨p.before, ·⟩) <$> r.ident p.element

def Name.edit (r : Editor ω) : Name → Edited ω Name
  | .simple i type => r.name (.simple i type)
  | .qualified lead outer last type =>
    ((fun outer last => Name.qualified lead outer last type) <$>
      outer.edit r <*> last.editIdent r).andThen r.name

mutual
def TypeTree.edit (r : Editor ω) : TypeTree → Edited ω TypeTree
  | .named name => .named <$> name.edit r
  | .generic lead base args type =>
    ((fun base elements =>
      TypeTree.generic lead base ⟨args.before, elements, args.close⟩ type) <$>
      base.edit r <*> TypeTree.editAll r args.elements).andThen r.typeTree
  | .primitive lead keyword type => r.typeTree (.primitive lead keyword type)
  | .array lead element dimension type =>
    ((fun element => TypeTree.array lead element dimension type) <$>
      element.edit r).andThen r.typeTree
  | .union lead alternatives =>
    ((fun alternatives => TypeTree.union lead alternatives) <$>
      TypeTree.editAll r alternatives).andThen r.typeTree

def TypeTree.editAll (r : Editor ω) :
    List (RightPadded TypeTree) → Edited ω (List (RightPadded TypeTree))
  | [] => pure []
  | p :: ps =>
    (fun t ts => ⟨t, p.after⟩ :: ts) <$> p.element.edit r <*>
      TypeTree.editAll r ps
end

def TypeTree.editList (r : Editor ω) :
    Option (Container TypeTree) → Edited ω (Option (Container TypeTree))
  | none => pure none
  | some c =>
    (fun elements => some ⟨c.before, elements, c.close⟩) <$>
      TypeTree.editAll r c.elements

-- =========================================================== expressions

mutual
def Expr.edit (r : Editor ω) : Expr → Edited ω Expr
  | .ident i type => r.expr (.ident i type)
  | .access lead target name type =>
    ((fun target name => Expr.access lead target name type) <$>
      target.edit r <*> name.editIdent r).andThen r.expr
  | .call lead select name args method =>
    ((fun select name elements =>
        Expr.call lead select name ⟨args.before, elements,
          args.close⟩ method) <$>
      Expr.editSelect r select <*> r.ident name <*>
      Expr.editAll r args.elements).andThen r.expr
  | .new lead base args constructor type =>
    ((fun base elements =>
        Expr.new lead base ⟨args.before, elements, args.close⟩
          constructor type) <$>
      base.edit r <*> Expr.editAll r args.elements).andThen r.expr
  | .literal lead text type => r.expr (.literal lead text type)
  | .assign lead target value type =>
    ((fun target v => Expr.assign lead target ⟨value.before, v⟩ type) <$>
      target.edit r <*> value.element.edit r).andThen r.expr
  | .binary lead left operator right type =>
    ((fun left right => Expr.binary lead left operator right type) <$>
      left.edit r <*> right.edit r).andThen r.expr
  | .unary lead operator operand type =>
    ((fun operand => Expr.unary lead operator operand type) <$>
      operand.edit r).andThen r.expr
  | .parens lead inner type =>
    ((fun e => Expr.parens lead ⟨e, inner.after⟩ type) <$>
      inner.element.edit r).andThen r.expr

def Expr.editSelect (r : Editor ω) :
    Option (RightPadded Expr) → Edited ω (Option (RightPadded Expr))
  | none => pure none
  | some p => (fun e => some ⟨e, p.after⟩) <$> p.element.edit r

def Expr.editAll (r : Editor ω) :
    List (RightPadded Expr) → Edited ω (List (RightPadded Expr))
  | [] => pure []
  | p :: ps =>
    (fun e es => ⟨e, p.after⟩ :: es) <$> p.element.edit r <*> Expr.editAll r ps
end

-- ========================================================== declarations

def Modifier.edit (r : Editor ω) : Modifier → Edited ω Modifier
  | .keyword lead word => r.modifier (.keyword lead word)
  | .annotated lead name none =>
    ((fun name => Modifier.annotated lead name none) <$> name.edit r).andThen
      r.modifier
  | .annotated lead name (some args) =>
    ((fun name elements =>
        Modifier.annotated lead name
          (some ⟨args.before, elements, args.close⟩)) <$>
      name.edit r <*> Expr.editAll r args.elements).andThen r.modifier

def Modifier.editAll (r : Editor ω) : List Modifier → Edited ω (List Modifier)
  | [] => pure []
  | m :: ms => (· :: ·) <$> m.edit r <*> Modifier.editAll r ms

def LeftPadded.editExpr (r : Editor ω) :
    Option (LeftPadded Expr) → Edited ω (Option (LeftPadded Expr))
  | none => pure none
  | some p => (fun e => some ⟨p.before, e⟩) <$> p.element.edit r

def Variable.edit (r : Editor ω) (v : Variable) : Edited ω Variable :=
  ((fun name initializer =>
    (⟨v.lead, name, initializer, v.type⟩ : Variable)) <$>
    v.name.edit r <*> LeftPadded.editExpr r v.initializer).andThen r.declarator

def Variable.editAll (r : Editor ω) :
    List (RightPadded Variable) → Edited ω (List (RightPadded Variable))
  | [] => pure []
  | p :: ps =>
    (fun v vs => ⟨v, p.after⟩ :: vs) <$> p.element.edit r <*>
      Variable.editAll r ps

def Variables.edit (r : Editor ω) (d : Variables) : Edited ω Variables :=
  ((fun modifiers typeTree declarators =>
      (⟨d.lead, modifiers, typeTree, declarators⟩ : Variables)) <$>
    Modifier.editAll r d.modifiers <*> d.typeTree.edit r <*>
    Variable.editAll r d.declarators).andThen r.declaration

def Variables.editAll (r : Editor ω) :
    List (RightPadded Variables) → Edited ω (List (RightPadded Variables))
  | [] => pure []
  | p :: ps =>
    (fun d ds => ⟨d, p.after⟩ :: ds) <$> p.element.edit r <*>
      Variables.editAll r ps

def Expr.editCondition (r : Editor ω) (c : Parens Expr) :
    Edited ω (Parens Expr) :=
  ((fun e => (⟨c.lead, ⟨e, c.inner.after⟩⟩ : Parens Expr)) <$>
    c.inner.element.edit r).andThen r.condition

def Variables.editParameter (r : Editor ω) (c : Parens Variables) :
    Edited ω (Parens Variables) :=
  ((fun d => (⟨c.lead, ⟨d, c.inner.after⟩⟩ : Parens Variables)) <$>
    c.inner.element.edit r).andThen r.parameter

-- ============================================================ statements

mutual
def Stmt.edit (r : Editor ω) : Stmt → Edited ω Stmt
  | .block b => .block <$> Stmt.editBlock r b
  | .declaration d => .declaration <$> d.edit r
  | .expr e => .expr <$> e.edit r
  | .empty lead => r.stmt (.empty lead)
  | .tryCatch t => (Stmt.tryCatch <$> Try.editParts r t).andThen r.stmt
  | .throwing lead exception =>
    ((fun e => Stmt.throwing lead e) <$> exception.edit r).andThen r.stmt
  | .returning lead none => r.stmt (.returning lead none)
  | .returning lead (some value) =>
    ((fun e => Stmt.returning lead (some e)) <$> value.edit r).andThen r.stmt
  | .ifElse lead condition thenPart elsePart =>
    ((fun condition s elsePart =>
      Stmt.ifElse lead condition ⟨s, thenPart.after⟩ elsePart) <$>
      Expr.editCondition r condition <*> thenPart.element.edit r <*>
      Stmt.editElse r elsePart).andThen r.stmt
  | .whileLoop lead condition body =>
    ((fun condition s => Stmt.whileLoop lead condition ⟨s, body.after⟩) <$>
      Expr.editCondition r condition <*> body.element.edit r).andThen r.stmt

def Stmt.editAll (r : Editor ω) :
    List (RightPadded Stmt) → Edited ω (List (RightPadded Stmt))
  | [] => pure []
  | p :: ps =>
    (fun s ss => ⟨s, p.after⟩ :: ss) <$> p.element.edit r <*> Stmt.editAll r ps

def Stmt.editBlock (r : Editor ω) (b : Block Stmt) : Edited ω (Block Stmt) :=
  ((fun statements => (⟨b.lead, statements, b.close⟩ : Block Stmt)) <$>
    Stmt.editAll r b.statements).andThen r.block

/-- The parts of a `try` statement edited; the statement itself is still to
come. -/
def Try.editParts (r : Editor ω) (t : Try Stmt) : Edited ω (Try Stmt) :=
  (fun body catches finally? =>
    (⟨t.lead, body, catches, finally?⟩ : Try Stmt)) <$>
    Stmt.editBlock r t.body <*> Catch.editAll r t.catches <*>
    Stmt.editFinally r t.finally?

def Catch.edit (r : Editor ω) (c : Catch Stmt) : Edited ω (Catch Stmt) :=
  ((fun parameter body => (⟨c.lead, parameter, body⟩ : Catch Stmt)) <$>
    Variables.editParameter r c.parameter <*>
    Stmt.editBlock r c.body).andThen r.catchClause

def Catch.editAll (r : Editor ω) : List (Catch Stmt) →
    Edited ω (List (Catch Stmt))
  | [] => pure []
  | c :: cs => (· :: ·) <$> c.edit r <*> Catch.editAll r cs

def Stmt.editFinally (r : Editor ω) :
    Option (LeftPadded (Block Stmt)) →
    Edited ω (Option (LeftPadded (Block Stmt)))
  | none => pure none
  | some f => (fun b => some ⟨f.before, b⟩) <$> Stmt.editBlock r f.element

def Else.edit (r : Editor ω) (e : Else Stmt) : Edited ω (Else Stmt) :=
  ((fun s => (⟨e.lead, ⟨s, e.body.after⟩⟩ : Else Stmt)) <$>
    e.body.element.edit r).andThen r.elseBranch

def Stmt.editElse (r : Editor ω) : Option (Else Stmt) →
    Edited ω (Option (Else Stmt))
  | none => pure none
  | some e => some <$> e.edit r
end

-- =================================================== classes and files

def TypeTree.editOption (r : Editor ω) :
    Option TypeTree → Edited ω (Option TypeTree)
  | none => pure none
  | some t => some <$> t.edit r

def Stmt.editBody (r : Editor ω) : Option (Block Stmt) →
    Edited ω (Option (Block Stmt))
  | none => pure none
  | some b => some <$> Stmt.editBlock r b

def Method.edit (r : Editor ω) (m : Method) : Edited ω Method :=
  ((fun modifiers returnType name elements throws body =>
      (⟨m.lead, modifiers, returnType, name,
        ⟨m.parameters.before, elements, m.parameters.close⟩, throws, body,
        m.type⟩ : Method)) <$>
    Modifier.editAll r m.modifiers <*> TypeTree.editOption r m.returnType <*>
    r.ident m.name <*> Variables.editAll r m.parameters.elements <*>
    TypeTree.editList r m.throws <*> Stmt.editBody r m.body).andThen r.method

mutual
def Member.edit (r : Editor ω) : Member → Edited ω Member
  | .field d => .field <$> d.edit r
  | .method m => .method <$> m.edit r
  | .nested c => .nested <$> c.edit r

def ClassDecl.edit (r : Editor ω) (c : ClassDecl Member) :
    Edited ω (ClassDecl Member) :=
  ((fun modifiers name extends? implements? body =>
      (⟨c.lead, modifiers, c.kindLead, c.kind, name, extends?, implements?,
        body, c.type⟩ : JavaClass)) <$>
    Modifier.editAll r c.modifiers <*> c.name.edit r <*>
    TypeTree.editList r c.extends? <*> TypeTree.editList r c.implements? <*>
    Member.editBlock r c.body).andThen r.classDecl

def Member.editBlock (r : Editor ω) (b : Block Member) :
    Edited ω (Block Member) :=
  ((fun members => (⟨b.lead, members, b.close⟩ : Block Member)) <$>
    Member.editAll r b.statements).andThen r.classBody

def Member.editAll (r : Editor ω) :
    List (RightPadded Member) → Edited ω (List (RightPadded Member))
  | [] => pure []
  | p :: ps =>
    (fun m ms => ⟨m, p.after⟩ :: ms) <$> p.element.edit r <*>
      Member.editAll r ps
end

def ClassDecl.editAll (r : Editor ω) :
    List JavaClass → Edited ω (List JavaClass)
  | [] => pure []
  | c :: cs => (· :: ·) <$> c.edit r <*> ClassDecl.editAll r cs

def Package.edit (r : Editor ω) :
    Option (RightPadded Package) → Edited ω (Option (RightPadded Package))
  | none => pure none
  | some p =>
    (fun q => some ⟨q, p.after⟩) <$>
      ((fun name => (⟨p.element.lead, name⟩ : Package)) <$>
        p.element.name.edit r).andThen r.package

def Import.editAll (r : Editor ω) :
    List (RightPadded Import) → Edited ω (List (RightPadded Import))
  | [] => pure []
  | p :: ps =>
    (fun i is => ⟨i, p.after⟩ :: is) <$>
      ((fun name => (⟨p.element.lead, p.element.static?, name⟩ : Import)) <$>
        p.element.name.edit r).andThen r.importDecl <*>
      Import.editAll r ps

/-- The file edited from the leaves up. -/
def CompilationUnit.edit (r : Editor ω) (cu : CompilationUnit) :
    Edited ω CompilationUnit :=
  ((fun package? imports classes =>
      (⟨cu.lead, package?, imports, classes, cu.close, cu.path⟩ :
        CompilationUnit)) <$>
    Package.edit r cu.package? <*> Import.editAll r cu.imports <*>
    ClassDecl.editAll r cu.classes).andThen r.unit

end JavaRefit
