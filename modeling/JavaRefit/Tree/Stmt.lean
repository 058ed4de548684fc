/-
Modifiers, variable declarations and statements.

Statements hold no declarations of methods or classes; those are members
(`Unit`).

Chain: tree layer, after `Expr`; read by `Unit` and by the passes over
`try` statements.
-/
import JavaRefit.Tree.Expr

namespace JavaRefit

-- ========================================================== declarations

/-- A modifier keyword or an annotation. -/
inductive Modifier where
  | keyword (lead : Trivia) (word : String)
  | annotated (lead : Trivia) (name : Name) (args : Option (Container Expr))

/-- One declared variable. The trivia in front is kept here and not by its
name. -/
structure Variable where
  lead : Trivia
  name : Name
  initializer : Option (LeftPadded Expr)
  type : Option JavaType

/-- A declaration of fields, locals or a parameter: modifiers, a type and the
variables. -/
structure Variables where
  lead : Trivia
  modifiers : List Modifier
  typeTree : TypeTree
  declarators : List (RightPadded Variable)

-- ============================================================ statements

/-- A catch clause over statements of some kind. -/
structure Catch (σ : Type) where
  lead : Trivia
  parameter : Parens Variables
  body : Block σ

/-- A `try` statement; neither clauses nor `finally` are needed. -/
structure Try (σ : Type) where
  lead : Trivia
  body : Block σ
  catches : List (Catch σ)
  finally? : Option (LeftPadded (Block σ))

/-- An `else` with its statement. -/
structure Else (σ : Type) where
  lead : Trivia
  body : RightPadded σ

/-- A statement. The trivia in front of its semicolon, where it has one, is
kept by the padding around it. -/
inductive Stmt where
  | block (block : Block Stmt)
  | declaration (d : Variables)
  | expr (expr : Expr)
  | empty (lead : Trivia)
  | tryCatch (statement : Try Stmt)
  | throwing (lead : Trivia) (exception : Expr)
  | returning (lead : Trivia) (value : Option Expr)
  | ifElse (lead : Trivia) (condition : Parens Expr)
      (thenPart : RightPadded Stmt)
    (elsePart : Option (Else Stmt))
  | whileLoop (lead : Trivia) (condition : Parens Expr)
      (body : RightPadded Stmt)

namespace Catch

/-- The declaration between the parentheses. -/
def declaration {σ : Type} (c : Catch σ) : Variables :=
  c.parameter.inner.element

/-- The clause with another declaration between its parentheses. -/
def withDeclaration {σ : Type} (c : Catch σ) (d : Variables) : Catch σ :=
  { c with parameter :=
    { c.parameter with inner := { c.parameter.inner with element := d } } }

/-- The types named by the parameter: each of the alternatives, or the only
one. -/
def caughtTypes {σ : Type} (c : Catch σ) : List (Option JavaType) :=
  match c.declaration.typeTree with
  | .union _ alternatives => alternatives.map fun p => p.element.type
  | t => [t.type]

end Catch

/-- The statement ends in a semicolon. -/
def Stmt.needsSemicolon : Stmt → Bool
  | block _ => false
  | tryCatch _ => false
  | ifElse .. => false
  | whileLoop .. => false
  | _ => true

end JavaRefit
