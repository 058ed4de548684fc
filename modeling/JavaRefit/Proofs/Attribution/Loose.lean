/-
Trees in which any node may stand anywhere.

The sorts of trees (names, written types, expressions, statements,
members) are told apart by their types. Here all of them are one type, as
they are where a node is known by its class at run time only, and every
tree is such a tree too.

Chain: after the tree layer; `Dispatch` attributes these trees.
-/
import JavaRefit.Tree.Node

namespace JavaRefit

-- ================================================================== nodes

/-- A node over nodes of any kind. -/
inductive Loose where
  | ident (ident : Ident) (type : Option JavaType)
  | access (lead : Trivia) (target : Loose) (name : LeftPadded Ident)
      (type : Option JavaType)
  | generic (lead : Trivia) (base : Loose) (args : Container Loose)
      (type : Option JavaType)
  | primitive (lead : Trivia) (keyword : Primitive) (type : Option JavaType)
  | array (lead : Trivia) (element : Loose) (dimension : LeftPadded Trivia)
    (type : Option JavaType)
  | union (lead : Trivia) (alternatives : List (RightPadded Loose))
  | call (lead : Trivia) (select : Option (RightPadded Loose)) (name : Ident)
    (args : Container Loose) (method : Option MethodType)
  | new (lead : Trivia) (base : Loose) (args : Container Loose)
    (constructor : Option MethodType) (type : Option JavaType)
  | literal (lead : Trivia) (text : String) (type : Option JavaType)
  | assign (lead : Trivia) (target : Loose) (value : LeftPadded Loose)
      (type : Option JavaType)
  | binary (lead : Trivia) (left : Loose) (operator : LeftPadded BinaryOp)
      (right : Loose)
    (type : Option JavaType)
  | unary (lead : Trivia) (operator : UnaryOp) (operand : Loose)
      (type : Option JavaType)
  | parens (lead : Trivia) (inner : RightPadded Loose) (type : Option JavaType)
  | keyword (lead : Trivia) (word : String)
  | annotated (lead : Trivia) (name : Loose) (args : Option (Container Loose))
  | declarator (lead : Trivia) (name : Loose)
      (initializer : Option (LeftPadded Loose))
    (type : Option JavaType)
  | declaration (lead : Trivia) (modifiers : List Loose) (typeTree : Loose)
    (declarators : List (RightPadded Loose))
  | block (block : Block Loose)
  | empty (lead : Trivia)
  | tryCatch (lead : Trivia) (body : Loose) (catches : List Loose)
    (finally? : Option (LeftPadded Loose))
  | clause (lead : Trivia) (parameter : Parens Loose) (body : Loose)
  | throwing (lead : Trivia) (exception : Loose)
  | returning (lead : Trivia) (value : Option Loose)
  | ifElse (lead : Trivia) (condition : Parens Loose)
      (thenPart : RightPadded Loose)
    (elsePart : Option (Else Loose))
  | whileLoop (lead : Trivia) (condition : Parens Loose)
      (body : RightPadded Loose)
  | method (lead : Trivia) (modifiers : List Loose) (returnType : Option Loose)
      (name : Ident)
    (parameters : Container Loose) (throws : Option (Container Loose))
      (body : Option Loose)
    (type : Option MethodType)
  | classDecl (lead : Trivia) (modifiers : List Loose) (kindLead : Trivia)
      (kind : ClassKind)
    (name : Loose) (extends? : Option (Container Loose))
      (implements? : Option (Container Loose))
    (body : Block Loose) (type : Option JavaType)

namespace Loose

/-- What a node is. -/
def kind : Loose → NodeKind
  | ident .. => .identifier
  | access .. => .fieldAccess
  | generic .. => .parameterizedType
  | primitive .. => .primitive
  | array .. => .arrayType
  | union .. => .multiCatch
  | call .. => .methodInvocation
  | new .. => .newClass
  | literal .. => .literal
  | assign .. => .assignment
  | binary .. => .binary
  | unary .. => .unary
  | parens .. => .parentheses
  | keyword .. => .modifier
  | annotated .. => .annotated
  | declarator .. => .namedVariable
  | declaration .. => .variableDeclarations
  | block _ => .block
  | empty _ => .empty
  | tryCatch .. => .tryStatement
  | clause .. => .catchClause
  | throwing .. => .throwStatement
  | returning .. => .returnStatement
  | ifElse .. => .ifStatement
  | whileLoop .. => .whileLoop
  | method .. => .methodDeclaration
  | classDecl .. => .classDeclaration

/-- The type of a node, where it has one. -/
def type : Loose → Option JavaType
  | ident _ type => type
  | access _ _ _ type => type
  | generic _ _ _ type => type
  | primitive _ _ type => type
  | array _ _ _ type => type
  | call _ _ _ _ m => m.bind MethodType.returns
  | new _ _ _ _ type => type
  | literal _ _ type => type
  | assign _ _ _ type => type
  | binary _ _ _ _ type => type
  | unary _ _ _ type => type
  | parens _ _ type => type
  | declarator _ _ _ type => type
  | declaration _ _ typeTree _ => typeTree.type
  | classDecl _ _ _ _ _ _ _ _ type => type
  | _ => none

end Loose

/-- The package of a file, with any node for its name. -/
structure LoosePackage where
  lead : Trivia
  name : Loose

/-- An import, with any node for its name. -/
structure LooseImport where
  lead : Trivia
  static? : Option Trivia
  name : Loose

/-- A whole file over nodes of any kind. -/
structure LooseUnit where
  lead : Trivia
  package? : Option (RightPadded LoosePackage)
  imports : List (RightPadded LooseImport)
  classes : List Loose
  close : Trivia
  path : Option String

-- ======================================================= names and types

/-- A name as a node of any kind. -/
def Name.loose : Name → Loose
  | .simple i type => .ident i type
  | .qualified lead outer last type => .access lead outer.loose last type

mutual

/-- A written type as a node of any kind. -/
def TypeTree.loose : TypeTree → Loose
  | .named name => name.loose
  | .generic lead base args type =>
    .generic lead base.loose ⟨args.before, TypeTree.looseAll args.elements,
      args.close⟩ type
  | .primitive lead keyword type => .primitive lead keyword type
  | .array lead element dimension type =>
      .array lead element.loose dimension type
  | .union lead alternatives => .union lead (TypeTree.looseAll alternatives)

def TypeTree.looseAll : List (RightPadded TypeTree) → List (RightPadded Loose)
  | [] => []
  | p :: ps => ⟨p.element.loose, p.after⟩ :: TypeTree.looseAll ps
end

/-- A list of types after a keyword. -/
def TypeTree.looseList : Option (Container TypeTree) → Option (Container Loose)
  | none => none
  | some c => some ⟨c.before, TypeTree.looseAll c.elements, c.close⟩

-- =========================================================== expressions

mutual

/-- An expression as a node of any kind. -/
def Expr.loose : Expr → Loose
  | .ident i type => .ident i type
  | .access lead target name type => .access lead target.loose name type
  | .call lead select name args m =>
    .call lead (Expr.looseSelect select) name
      ⟨args.before, Expr.looseAll args.elements, args.close⟩ m
  | .new lead base args constructor type =>
    .new lead base.loose ⟨args.before, Expr.looseAll args.elements, args.close⟩
      constructor type
  | .literal lead text type => .literal lead text type
  | .assign lead target value type =>
    .assign lead target.loose ⟨value.before, value.element.loose⟩ type
  | .binary lead left operator right type =>
      .binary lead left.loose operator right.loose type
  | .unary lead operator operand type => .unary lead operator operand.loose type
  | .parens lead inner type =>
      .parens lead ⟨inner.element.loose, inner.after⟩ type

/-- The target of a call. -/
def Expr.looseSelect : Option (RightPadded Expr) → Option (RightPadded Loose)
  | none => none
  | some p => some ⟨p.element.loose, p.after⟩

def Expr.looseAll : List (RightPadded Expr) → List (RightPadded Loose)
  | [] => []
  | p :: ps => ⟨p.element.loose, p.after⟩ :: Expr.looseAll ps
end

-- ========================================================== declarations

/-- A modifier as a node of any kind. -/
def Modifier.loose : Modifier → Loose
  | .keyword lead word => .keyword lead word
  | .annotated lead name args =>
    .annotated lead name.loose
      (args.map fun c => ⟨c.before, Expr.looseAll c.elements, c.close⟩)

/-- A variable as a node of any kind. -/
def Variable.loose (v : Variable) : Loose :=
  .declarator v.lead v.name.loose (v.initializer.map fun i =>
    ⟨i.before, i.element.loose⟩) v.type

def Variable.looseAll : List (RightPadded Variable) → List (RightPadded Loose)
  | [] => []
  | p :: ps => ⟨p.element.loose, p.after⟩ :: Variable.looseAll ps

/-- A declaration as a node of any kind. -/
def Variables.loose (d : Variables) : Loose :=
  .declaration d.lead (d.modifiers.map Modifier.loose) d.typeTree.loose
    (Variable.looseAll d.declarators)

def Variables.looseAll : List (RightPadded Variables) → List (RightPadded Loose)
  | [] => []
  | p :: ps => ⟨p.element.loose, p.after⟩ :: Variables.looseAll ps

/-- A condition with any node in the parentheses. -/
def Expr.looseCondition (c : Parens Expr) : Parens Loose :=
  ⟨c.lead, ⟨c.inner.element.loose, c.inner.after⟩⟩

-- ============================================================ statements

mutual

/-- A statement as a node of any kind. -/
def Stmt.loose : Stmt → Loose
  | .block b => .block (Stmt.looseBlock b)
  | .declaration d => d.loose
  | .expr e => e.loose
  | .empty lead => .empty lead
  | .tryCatch t => Try.loose t
  | .throwing lead exception => .throwing lead exception.loose
  | .returning lead value => .returning lead (value.map Expr.loose)
  | .ifElse lead condition thenPart elsePart =>
    .ifElse lead (Expr.looseCondition condition)
      ⟨thenPart.element.loose, thenPart.after⟩
      (Stmt.looseElse elsePart)
  | .whileLoop lead condition body =>
    .whileLoop lead (Expr.looseCondition condition)
      ⟨body.element.loose, body.after⟩

def Stmt.looseAll : List (RightPadded Stmt) → List (RightPadded Loose)
  | [] => []
  | p :: ps => ⟨p.element.loose, p.after⟩ :: Stmt.looseAll ps

/-- A block of any nodes. -/
def Stmt.looseBlock (b : Block Stmt) : Block Loose :=
  ⟨b.lead, Stmt.looseAll b.statements, b.close⟩

/-- A `try` as a node of any kind. -/
def Try.loose (t : Try Stmt) : Loose :=
  .tryCatch t.lead (.block (Stmt.looseBlock t.body)) (Catch.looseAll t.catches)
    (Stmt.looseFinally t.finally?)

/-- A catch clause as a node of any kind. -/
def Catch.loose (c : Catch Stmt) : Loose :=
  .clause c.lead ⟨c.parameter.lead,
    ⟨c.parameter.inner.element.loose, c.parameter.inner.after⟩⟩
    (.block (Stmt.looseBlock c.body))

def Catch.looseAll : List (Catch Stmt) → List Loose
  | [] => []
  | c :: cs => c.loose :: Catch.looseAll cs

def Stmt.looseFinally : Option (LeftPadded (Block Stmt)) →
    Option (LeftPadded Loose)
  | none => none
  | some f => some ⟨f.before, .block (Stmt.looseBlock f.element)⟩

def Stmt.looseElse : Option (Else Stmt) → Option (Else Loose)
  | none => none
  | some e => some (Else.loose e)

/-- An alternative with any node for its body. -/
def Else.loose (e : Else Stmt) : Else Loose :=
  ⟨e.lead, ⟨e.body.element.loose, e.body.after⟩⟩
end

-- ====================================================== classes and files

/-- A method as a node of any kind. -/
def Method.loose (m : Method) : Loose :=
  .method m.lead (m.modifiers.map Modifier.loose)
    (m.returnType.map TypeTree.loose) m.name
    ⟨m.parameters.before, Variables.looseAll m.parameters.elements,
      m.parameters.close⟩
    (TypeTree.looseList m.throws) (m.body.map fun b =>
      .block (Stmt.looseBlock b)) m.type

mutual

/-- A member as a node of any kind. -/
def Member.loose : Member → Loose
  | .field d => d.loose
  | .method m => m.loose
  | .nested c => ClassDecl.loose c

/-- A class as a node of any kind. -/
def ClassDecl.loose (c : ClassDecl Member) : Loose :=
  .classDecl c.lead (c.modifiers.map Modifier.loose)
    c.kindLead c.kind c.name.loose
    (TypeTree.looseList c.extends?) (TypeTree.looseList c.implements?)
      (Member.looseBlock c.body)
    c.type

def Member.looseBlock (b : Block Member) : Block Loose :=
  ⟨b.lead, Member.looseAll b.statements, b.close⟩

def Member.looseAll : List (RightPadded Member) → List (RightPadded Loose)
  | [] => []
  | p :: ps => ⟨p.element.loose, p.after⟩ :: Member.looseAll ps
end

/-- The package of a file with its name as any node. -/
def Package.loose (p : Package) : LoosePackage :=
  ⟨p.lead, p.name.loose⟩

/-- An import with its name as any node. -/
def Import.loose (i : Import) : LooseImport :=
  ⟨i.lead, i.static?, i.name.loose⟩

/-- A file of nodes of any kind. -/
def CompilationUnit.loose (cu : CompilationUnit) : LooseUnit :=
  { lead := cu.lead
    package? := cu.package?.map fun p => ⟨p.element.loose, p.after⟩
    imports := cu.imports.map fun p => ⟨p.element.loose, p.after⟩
    classes := cu.classes.map ClassDecl.loose
    close := cu.close
    path := cu.path }

end JavaRefit
