/-
The nodes of a tree, all in one type.

A node is any part of a tree that has trivia in front of it. Its children
are the nodes right below it, in the order of the text; the walk of a
node is the node itself and then the walks of its children.

Chain: tree layer, after `Pieces`; read by every search.
-/
import JavaRefit.Tree.Pieces

namespace JavaRefit

/-- A node. Where a part only wraps another (a type that is a name, a statement
that is an expression), the node is the inner one. -/
inductive Node where
  | ident (ident : Ident)
  | name (name : Name)
  | typeTree (tree : TypeTree)
  | expr (expr : Expr)
  | modifier (modifier : Modifier)
  | declarator (v : Variable)
  | declaration (d : Variables)
  | condition (parens : Parens Expr)
  | parameter (parens : Parens Variables)
  | catchClause (clause : Catch Stmt)
  | elseBranch (branch : Else Stmt)
  | block (block : Block Stmt)
  | stmt (statement : Stmt)
  | method (method : Method)
  | classBody (block : Block Member)
  | classDecl (declaration : JavaClass)
  | package (package : Package)
  | importDecl (i : Import)
  | unit (unit : CompilationUnit)

/-- What a node is. -/
inductive NodeKind where
  | identifier | fieldAccess
  | parameterizedType | primitive | arrayType | multiCatch
  | package | importDecl | modifier | annotated | block
  | classDeclaration | methodDeclaration
  | namedVariable | variableDeclarations | compilationUnit
  | controlParentheses | catchClause
  | tryStatement | throwStatement | returnStatement
  | elseBranch | ifStatement | whileLoop | empty
  | methodInvocation | newClass | literal | assignment
  | binary | unary | parentheses
deriving DecidableEq, Repr

namespace NodeKind

/-- Nodes of the kind can be expressions. -/
def isExpression : NodeKind → Bool
  | identifier | fieldAccess | empty | methodInvocation | newClass | literal
  | assignment | binary | unary | parentheses => true
  | _ => false

/-- Nodes of the kind can be statements or members. -/
def isStatement : NodeKind → Bool
  | block | classDeclaration | methodDeclaration | variableDeclarations
  | tryStatement | throwStatement | returnStatement | ifStatement | whileLoop
  | empty | methodInvocation | newClass | assignment => true
  | _ => false

/-- Nodes of the kind can be written types. -/
def isTypeTree : NodeKind → Bool
  | identifier | fieldAccess
  | parameterizedType | primitive | arrayType | multiCatch => true
  | _ => false

end NodeKind

-- ========================================================= parts as nodes

/-- A written type as a node. -/
def TypeTree.node : TypeTree → Node
  | .named n => .name n
  | t => .typeTree t

/-- A statement as a node. -/
def Stmt.node : Stmt → Node
  | .block b => .block b
  | .declaration d => .declaration d
  | .expr e => .expr e
  | s => .stmt s

/-- A member as a node. -/
def Member.node : Member → Node
  | .field d => .declaration d
  | .method m => .method m
  | .nested c => .classDecl c

/-- The nodes of a list of types after a keyword. -/
def TypeTree.listNodes : Option (Container TypeTree) → List Node
  | none => []
  | some c => c.items.map TypeTree.node

namespace Node

-- ================================================================== kinds

/-- What a name is. -/
def nameKind : Name → NodeKind
  | .simple _ _ => .identifier
  | .qualified .. => .fieldAccess

/-- What a written type is. -/
def typeTreeKind : TypeTree → NodeKind
  | .named n => nameKind n
  | .generic .. => .parameterizedType
  | .primitive .. => .primitive
  | .array .. => .arrayType
  | .union .. => .multiCatch

/-- What an expression is. -/
def exprKind : Expr → NodeKind
  | .ident _ _ => .identifier
  | .access .. => .fieldAccess
  | .call .. => .methodInvocation
  | .new .. => .newClass
  | .literal .. => .literal
  | .assign .. => .assignment
  | .binary .. => .binary
  | .unary .. => .unary
  | .parens .. => .parentheses

/-- What a modifier is. -/
def modifierKind : Modifier → NodeKind
  | .keyword .. => .modifier
  | .annotated .. => .annotated

/-- What a statement is. -/
def stmtKind : Stmt → NodeKind
  | .block _ => .block
  | .declaration _ => .variableDeclarations
  | .expr e => exprKind e
  | .empty _ => .empty
  | .tryCatch _ => .tryStatement
  | .throwing .. => .throwStatement
  | .returning .. => .returnStatement
  | .ifElse .. => .ifStatement
  | .whileLoop .. => .whileLoop

/-- What a node is. -/
def kind : Node → NodeKind
  | ident _ => .identifier
  | name n => nameKind n
  | typeTree t => typeTreeKind t
  | expr e => exprKind e
  | modifier m => modifierKind m
  | declarator _ => .namedVariable
  | declaration _ => .variableDeclarations
  | condition _ => .controlParentheses
  | parameter _ => .controlParentheses
  | catchClause _ => .catchClause
  | elseBranch _ => .elseBranch
  | block _ => .block
  | stmt s => stmtKind s
  | method _ => .methodDeclaration
  | classBody _ => .block
  | classDecl _ => .classDeclaration
  | package _ => .package
  | importDecl _ => .importDecl
  | unit _ => .compilationUnit

-- ====================================================== text and types

/-- The text of a node, with the trivia in front of it. -/
def pieces : Node → List Piece
  | ident i => i.pieces
  | name n => n.pieces
  | typeTree t => t.pieces
  | expr e => e.pieces
  | modifier m => m.pieces
  | declarator v => v.pieces
  | declaration d => d.pieces
  | condition c => Expr.conditionPieces c
  | parameter c => Variables.parameterPieces c
  | catchClause c => c.pieces
  | elseBranch e => e.pieces
  | block b => Stmt.blockPieces b
  | stmt s => s.pieces
  | method m => m.pieces
  | classBody b => Member.blockPieces b
  | classDecl c => c.pieces
  | package p => p.pieces
  | importDecl i => i.pieces
  | unit cu => cu.pieces

/-- The text of a node as it is written. -/
def print (n : Node) : String :=
  Piece.textAll n.pieces

/-- The type found for a node; a declaration has that of its written type. -/
def type : Node → Option JavaType
  | name n => n.type
  | typeTree t => t.type
  | expr e => e.type
  | declarator v => v.type
  | declaration d => d.typeTree.type
  | classDecl c => c.type
  | stmt (.declaration d) => d.typeTree.type
  | stmt (.expr e) => e.type
  | _ => none

/-- As a statement or member, the node ends in a semicolon. -/
def needsSemicolon : Node → Bool
  | stmt s => s.needsSemicolon
  | method m => m.body.isNone
  | block _ => false
  | classBody _ => false
  | classDecl _ => false
  | _ => true

-- =============================================================== children

/-- The nodes in a name. -/
def nameChildren : Name → List Node
  | .simple _ _ => []
  | .qualified _ outer last _ => [name outer, ident last.element]

/-- The nodes in a written type. -/
def typeTreeChildren : TypeTree → List Node
  | .named n => nameChildren n
  | .generic _ base args _ => name base :: args.items.map TypeTree.node
  | .primitive .. => []
  | .array _ element _ _ => [element.node]
  | .union _ alternatives => alternatives.map fun p => p.element.node

/-- The nodes in an expression. -/
def exprChildren : Expr → List Node
  | .ident _ _ => []
  | .access _ target last _ => [expr target, ident last.element]
  | .call _ select callee args _ =>
    (select.toList.map fun p => expr p.element) ++ ident callee ::
      args.items.map expr
  | .new _ base args _ _ => base.node :: args.items.map expr
  | .literal .. => []
  | .assign _ target value _ => [expr target, expr value.element]
  | .binary _ left _ right _ => [expr left, expr right]
  | .unary _ _ operand _ => [expr operand]
  | .parens _ inner _ => [expr inner.element]

/-- The nodes in a modifier. -/
def modifierChildren : Modifier → List Node
  | .keyword .. => []
  | .annotated _ type args =>
    name type :: (args.toList.flatMap fun c => c.items.map expr)

/-- The nodes in a declaration. -/
def variablesChildren (d : Variables) : List Node :=
  d.modifiers.map modifier ++ d.typeTree.node :: d.declarators.map fun p =>
    declarator p.element

/-- The nodes in a `try` statement. -/
def tryChildren (t : Try Stmt) : List Node :=
  block t.body :: (t.catches.map catchClause ++ t.finally?.toList.map fun f =>
    block f.element)

/-- The nodes in a statement. -/
def stmtChildren : Stmt → List Node
  | .block b => b.statements.map fun p => p.element.node
  | .declaration d => variablesChildren d
  | .expr e => exprChildren e
  | .empty _ => []
  | .tryCatch t => tryChildren t
  | .throwing _ exception => [expr exception]
  | .returning _ value => value.toList.map expr
  | .ifElse _ c thenPart elsePart =>
    condition c :: thenPart.element.node :: elsePart.toList.map elseBranch
  | .whileLoop _ c body => [condition c, body.element.node]

/-- The nodes right below a node, in the order of the text. -/
def children : Node → List Node
  | ident _ => []
  | name n => nameChildren n
  | typeTree t => typeTreeChildren t
  | expr e => exprChildren e
  | modifier m => modifierChildren m
  | declarator v =>
      name v.name :: v.initializer.toList.map fun i => expr i.element
  | declaration d => variablesChildren d
  | condition c => [expr c.inner.element]
  | parameter c => [declaration c.inner.element]
  | catchClause c => [parameter c.parameter, block c.body]
  | elseBranch e => [e.body.element.node]
  | block b => b.statements.map fun p => p.element.node
  | stmt s => stmtChildren s
  | method m =>
    m.modifiers.map modifier ++ m.returnType.toList.map TypeTree.node ++
      ident m.name ::
      (m.parameters.items.map declaration ++ TypeTree.listNodes m.throws ++
        m.body.toList.map block)
  | classBody b => b.statements.map fun p => p.element.node
  | classDecl c =>
    c.modifiers.map modifier ++ name c.name ::
      (TypeTree.listNodes c.extends? ++ TypeTree.listNodes c.implements? ++
        [classBody c.body])
  | package p => [name p.name]
  | importDecl i => [name i.name]
  | unit cu =>
    (cu.package?.toList.map fun p => package p.element) ++
      (cu.imports.map fun p => importDecl p.element) ++ cu.classes.map classDecl

end Node

end JavaRefit
