/-
All nodes of a tree, each before the nodes below it, in the order of the
text.

Chain: tree layer, after `Node`; read by every search.
-/
import JavaRefit.Tree.Node

namespace JavaRefit

-- ======================================================= names and types

def Name.walk : Name → List Node
  | .simple i type => [.name (.simple i type)]
  | .qualified lead outer last type =>
    .name (.qualified lead outer last type) ::
      (outer.walk ++ [.ident last.element])

mutual
def TypeTree.walk : TypeTree → List Node
  | .named n => n.walk
  | .generic lead base args type =>
    .typeTree (.generic lead base args type) ::
      (base.walk ++ TypeTree.walkAll args.elements)
  | .primitive lead keyword type => [.typeTree (.primitive lead keyword type)]
  | .array lead element dimension type =>
    .typeTree (.array lead element dimension type) :: element.walk
  | .union lead alternatives =>
    .typeTree (.union lead alternatives) :: TypeTree.walkAll alternatives

def TypeTree.walkAll : List (RightPadded TypeTree) → List Node
  | [] => []
  | p :: ps => p.element.walk ++ TypeTree.walkAll ps
end

def TypeTree.walkList : Option (Container TypeTree) → List Node
  | none => []
  | some c => TypeTree.walkAll c.elements

-- =========================================================== expressions

mutual
def Expr.walk : Expr → List Node
  | .ident i type => [.expr (.ident i type)]
  | .access lead target name type =>
    .expr (.access lead target name type) ::
      (target.walk ++ [.ident name.element])
  | .call lead select name args method =>
    .expr (.call lead select name args method) ::
      (Expr.walkSelect select ++ .ident name :: Expr.walkAll args.elements)
  | .new lead base args constructor type =>
    .expr (.new lead base args constructor type) ::
      (base.walk ++ Expr.walkAll args.elements)
  | .literal lead text type => [.expr (.literal lead text type)]
  | .assign lead target value type =>
    .expr (.assign lead target value type) ::
      (target.walk ++ value.element.walk)
  | .binary lead left operator right type =>
    .expr (.binary lead left operator right type) :: (left.walk ++ right.walk)
  | .unary lead operator operand type =>
      .expr (.unary lead operator operand type) :: operand.walk
  | .parens lead inner type =>
      .expr (.parens lead inner type) :: inner.element.walk

def Expr.walkSelect : Option (RightPadded Expr) → List Node
  | none => []
  | some p => p.element.walk

def Expr.walkAll : List (RightPadded Expr) → List Node
  | [] => []
  | p :: ps => p.element.walk ++ Expr.walkAll ps
end

-- ========================================================== declarations

def Modifier.walk : Modifier → List Node
  | .keyword lead word => [.modifier (.keyword lead word)]
  | .annotated lead name none =>
      .modifier (.annotated lead name none) :: name.walk
  | .annotated lead name (some args) =>
    .modifier (.annotated lead name (some args)) ::
      (name.walk ++ Expr.walkAll args.elements)

def Variable.walk (v : Variable) : List Node :=
  .declarator v :: (v.name.walk ++
    match v.initializer with
    | none => []
    | some i => i.element.walk)

def Variables.walk (d : Variables) : List Node :=
  .declaration d :: (d.modifiers.flatMap Modifier.walk ++ d.typeTree.walk ++
    d.declarators.flatMap fun p => p.element.walk)

def Expr.walkCondition (c : Parens Expr) : List Node :=
  .condition c :: c.inner.element.walk

def Variables.walkParameter (c : Parens Variables) : List Node :=
  .parameter c :: c.inner.element.walk

-- ============================================================ statements

mutual
def Stmt.walk : Stmt → List Node
  | .block b => Stmt.walkBlock b
  | .declaration d => d.walk
  | .expr e => e.walk
  | .empty lead => [.stmt (.empty lead)]
  | .tryCatch t => t.walk
  | .throwing lead exception =>
      .stmt (.throwing lead exception) :: exception.walk
  | .returning lead none => [.stmt (.returning lead none)]
  | .returning lead (some value) =>
      .stmt (.returning lead (some value)) :: value.walk
  | .ifElse lead condition thenPart elsePart =>
    .stmt (.ifElse lead condition thenPart elsePart) ::
      (Expr.walkCondition condition ++
      thenPart.element.walk ++ Stmt.walkElse elsePart)
  | .whileLoop lead condition body =>
    .stmt (.whileLoop lead condition body) ::
      (Expr.walkCondition condition ++ body.element.walk)

def Stmt.walkAll : List (RightPadded Stmt) → List Node
  | [] => []
  | p :: ps => p.element.walk ++ Stmt.walkAll ps

def Stmt.walkBlock (b : Block Stmt) : List Node :=
  .block b :: Stmt.walkAll b.statements

def Try.walk (t : Try Stmt) : List Node :=
  .stmt (.tryCatch t) ::
    (Stmt.walkBlock t.body ++ Catch.walkAll t.catches ++
      Stmt.walkFinally t.finally?)

def Catch.walk (c : Catch Stmt) : List Node :=
  .catchClause c :: (Variables.walkParameter c.parameter ++
    Stmt.walkBlock c.body)

def Catch.walkAll : List (Catch Stmt) → List Node
  | [] => []
  | c :: cs => c.walk ++ Catch.walkAll cs

def Stmt.walkFinally : Option (LeftPadded (Block Stmt)) → List Node
  | none => []
  | some f => Stmt.walkBlock f.element

def Else.walk (e : Else Stmt) : List Node :=
  .elseBranch e :: e.body.element.walk

def Stmt.walkElse : Option (Else Stmt) → List Node
  | none => []
  | some e => e.walk
end

-- =================================================== classes and files

def Method.walk (m : Method) : List Node :=
  .method m :: (m.modifiers.flatMap Modifier.walk ++
    (match m.returnType with | none => [] | some t => t.walk) ++
      .ident m.name ::
    (m.parameters.elements.flatMap (fun p => p.element.walk) ++
      TypeTree.walkList m.throws ++
      (match m.body with | none => [] | some b => Stmt.walkBlock b)))

mutual
def Member.walk : Member → List Node
  | .field d => d.walk
  | .method m => m.walk
  | .nested c => c.walk

def ClassDecl.walk (c : ClassDecl Member) : List Node :=
  .classDecl c :: (c.modifiers.flatMap Modifier.walk ++ c.name.walk ++
    TypeTree.walkList c.extends? ++ TypeTree.walkList c.implements? ++
      Member.walkBlock c.body)

def Member.walkBlock (b : Block Member) : List Node :=
  .classBody b :: Member.walkAll b.statements

def Member.walkAll : List (RightPadded Member) → List Node
  | [] => []
  | p :: ps => p.element.walk ++ Member.walkAll ps
end

def CompilationUnit.walk (cu : CompilationUnit) : List Node :=
  .unit cu :: ((match cu.package? with
    | none => []
    | some p => .package p.element :: p.element.name.walk) ++
    cu.imports.flatMap (fun p =>
      .importDecl p.element :: p.element.name.walk) ++
    cu.classes.flatMap ClassDecl.walk)

end JavaRefit
