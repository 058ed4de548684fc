/-
Renaming one class wherever a tree refers to it.

A node that has the class as its type gets the new one. A single word
that is the simple name of the old class becomes the simple name of the
new one, or its full name where simple names are not to be trusted; a
chain that spells the old class becomes the chain that spells the new
one. The trivia in front stays. Imports have no types and stay as they
are.

Chain: after the tree layer; the catch rule renames parameters with it.
-/
import JavaRefit.Tree.Node
import JavaRefit.Tree.Edit

namespace JavaRefit

/-- A class to rename, the class it becomes, and whether that is always written
in full. -/
structure Renaming where
  old : String
  new : ClassType
  qualified : Bool

namespace Renaming

variable {ω : Type}

/-- The type of the renamed class. -/
def newType (r : Renaming) : Option JavaType := some (.reference r.new)

/-- The type is the class to rename. -/
def concerns (r : Renaming) (type : Option JavaType) : Bool :=
  isClassNamed r.old type

/-- The new class written in full. -/
def fullName (r : Renaming) (lead : Trivia) : Name :=
  ((Name.ofDotted r.new.fqn).withLead lead).withType r.newType

/-- What is written for a single word that has the type. -/
def simple (r : Renaming) (i : Ident) : Name :=
  if i.name = Text.simpleName r.old then
    if r.qualified then r.fullName i.lead else .simple
      ⟨i.lead, r.new.simpleName⟩ r.newType
  else .simple i r.newType

/-- A name with the new class in the place of the old one. -/
def name (r : Renaming) (n : Name) : Edited ω Name :=
  if r.concerns n.type then
    .replace (match n with
      | .simple i _ => r.simple i
      | .qualified lead outer last type =>
        if (Name.qualified lead outer last type).dotted = r.old
          then r.fullName lead
        else .qualified lead outer last r.newType)
  else .keep n

/-- A written type that is no plain name, with the new class in the place of
the old one. -/
def typeTree (r : Renaming) (t : TypeTree) : Edited ω TypeTree :=
  if r.concerns t.type then
    .replace (match t with
      | .generic lead base args _ => .generic lead base args r.newType
      | .primitive lead keyword _ => .primitive lead keyword r.newType
      | .array lead element dimension _ =>
          .array lead element dimension r.newType
      | .named name => .named name
      | .union lead alternatives => .union lead alternatives)
  else .keep t

/-- An expression with the new class in the place of the old one. Calls have no
type of their own. -/
def expr (r : Renaming) (e : Expr) : Edited ω Expr :=
  match e with
  | .call .. => .keep e
  | _ =>
    if r.concerns e.type then
      .replace (match e with
        | .ident i _ => Expr.ofName (r.simple i)
        | .access lead target name type =>
          if (Expr.access lead target name type).dotted? = some r.old then
            Expr.ofName (r.fullName lead)
          else .access lead target name r.newType
        | .call lead select name args method =>
            .call lead select name args method
        | .new lead base args constructor _ =>
            .new lead base args constructor r.newType
        | .literal lead text _ => .literal lead text r.newType
        | .assign lead target value _ => .assign lead target value r.newType
        | .binary lead left operator right _ =>
            .binary lead left operator right r.newType
        | .unary lead operator operand _ =>
            .unary lead operator operand r.newType
        | .parens lead inner _ => .parens lead inner r.newType)
    else .keep e

def declarator (r : Renaming) (v : Variable) : Edited ω Variable :=
  if r.concerns v.type then .replace { v with type := r.newType } else .keep v

def classDecl (r : Renaming) (c : JavaClass) : Edited ω JavaClass :=
  if r.concerns c.type then .replace { c with type := r.newType } else .keep c

/-- The renaming as what is done to each node. -/
def editor (r : Renaming) : Editor ω :=
  { name := r.name
    typeTree := r.typeTree
    expr := r.expr
    declarator := r.declarator
    classDecl := r.classDecl }

/-- What is done to each node when only nodes of some kinds, and what is below
them, are to be renamed. -/
def editorAt (r : Renaming) (kinds : NodeKind → Bool) : Editor ω :=
  let within {α : Type} (node : α → Node) (f : α → Edited ω α) (a : α) :
      Edited ω α :=
    if kinds (node a).kind then f a else .keep a
  let all : Editor ω := r.editor
  { name := within .name (Name.edit all)
    typeTree := within .typeTree (TypeTree.edit all)
    expr := within .expr (Expr.edit all)
    modifier := within .modifier (Modifier.edit all)
    declarator := within .declarator (Variable.edit all)
    declaration := within .declaration (Variables.edit all)
    condition := within .condition (Expr.editCondition all)
    parameter := within .parameter (Variables.editParameter all)
    catchClause := within .catchClause (Catch.edit all)
    elseBranch := within .elseBranch (Else.edit all)
    block := within .block (Stmt.editBlock all)
    stmt := within .stmt (Stmt.edit all)
    method := within .method (Method.edit all)
    classBody := within .classBody (Member.editBlock all)
    classDecl := within .classDecl (ClassDecl.edit all)
    unit := within .unit (CompilationUnit.edit all) }

end Renaming

end JavaRefit
