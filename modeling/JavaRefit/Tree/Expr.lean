/-
Expressions.

Chain: tree layer, after `TypeTree`; read by statements and by every pass
over calls.
-/
import JavaRefit.Tree.TypeTree

namespace JavaRefit

-- ============================================================= operators

/-- The operators between two operands. -/
inductive BinaryOp where
  | or | and | eq | ne | le | ge | lt | gt | add | sub | mul | div | rem
deriving DecidableEq, Repr

namespace BinaryOp

/-- The symbol. -/
def text : BinaryOp → String
  | or => "||"
  | and => "&&"
  | eq => "=="
  | ne => "!="
  | le => "<="
  | ge => ">="
  | lt => "<"
  | gt => ">"
  | add => "+"
  | sub => "-"
  | mul => "*"
  | div => "/"
  | rem => "%"

/-- How tightly the operator binds; a greater level binds tighter, and
operators of one level group to the left. -/
def level : BinaryOp → Nat
  | or => 0
  | and => 1
  | eq | ne => 2
  | le | ge | lt | gt => 3
  | add | sub => 4
  | mul | div | rem => 5

/-- The result is a truth value. -/
def isLogical (op : BinaryOp) : Bool :=
  decide (op.level < 4)

/-- All of them. -/
def all : List BinaryOp :=
  [or, and, eq, ne, le, ge, lt, gt, add, sub, mul, div, rem]

/-- The operator of a symbol. -/
def ofText? (s : String) : Option BinaryOp :=
  all.find? fun op => op.text == s

end BinaryOp

/-- The operators in front of an operand. -/
inductive UnaryOp where
  | not | negate
deriving DecidableEq, Repr

/-- The symbol. -/
def UnaryOp.text : UnaryOp → String
  | not => "!"
  | negate => "-"

/-- The operator of a symbol. -/
def UnaryOp.ofText? (s : String) : Option UnaryOp :=
  if s = "!" then some not else if s = "-" then some negate else none

-- =========================================================== expressions

/-- An expression. In `access` the last word may be `class`; an identifier may
be `this`. -/
inductive Expr where
  | ident (ident : Ident) (type : Option JavaType)
  | access (lead : Trivia) (target : Expr) (name : LeftPadded Ident)
      (type : Option JavaType)
  | call (lead : Trivia) (select : Option (RightPadded Expr)) (name : Ident)
    (args : Container Expr) (method : Option MethodType)
  | new (lead : Trivia) (base : TypeTree) (args : Container Expr)
    (constructor : Option MethodType) (type : Option JavaType)
  | literal (lead : Trivia) (text : String) (type : Option JavaType)
  | assign (lead : Trivia) (target : Expr) (value : LeftPadded Expr)
      (type : Option JavaType)
  | binary (lead : Trivia) (left : Expr) (operator : LeftPadded BinaryOp)
      (right : Expr)
    (type : Option JavaType)
  | unary (lead : Trivia) (operator : UnaryOp) (operand : Expr)
      (type : Option JavaType)
  | parens (lead : Trivia) (inner : RightPadded Expr) (type : Option JavaType)

namespace Expr

/-- The trivia in front. -/
def lead : Expr → Trivia
  | ident i _ => i.lead
  | access lead _ _ _ => lead
  | call lead _ _ _ _ => lead
  | new lead _ _ _ _ => lead
  | literal lead _ _ => lead
  | assign lead _ _ _ => lead
  | binary lead _ _ _ _ => lead
  | unary lead _ _ _ => lead
  | parens lead _ _ => lead

/-- The expression with other trivia in front. -/
def withLead (lead : Trivia) : Expr → Expr
  | ident i type => ident ⟨lead, i.name⟩ type
  | access _ target name type => access lead target name type
  | call _ select name args method => call lead select name args method
  | new _ base args constructor type => new lead base args constructor type
  | literal _ text type => literal lead text type
  | assign _ target value type => assign lead target value type
  | binary _ left operator right type => binary lead left operator right type
  | unary _ operator operand type => unary lead operator operand type
  | parens _ inner type => parens lead inner type

/-- The type found for the value; that of a call is what its method returns. -/
def type : Expr → Option JavaType
  | ident _ type => type
  | access _ _ _ type => type
  | call _ _ _ _ method => method.bind MethodType.returns
  | new _ _ _ _ type => type
  | literal _ _ type => type
  | assign _ _ _ type => type
  | binary _ _ _ _ type => type
  | unary _ _ _ type => type
  | parens _ _ type => type

/-- The signature found for a call or a construction. -/
def method? : Expr → Option MethodType
  | call _ _ _ _ method => method
  | new _ _ _ constructor _ => constructor
  | _ => none

/-- The dotted text of a chain of words. -/
def dotted? : Expr → Option String
  | ident i _ => some i.name
  | access _ target name _ =>
      target.dotted?.map fun outer => outer ++ "." ++ name.element.name
  | _ => none

/-- A chain of words that could name a package or class: its first word is not
`this`. -/
def isNameChain : Expr → Bool
  | ident i _ => i.name != "this"
  | access _ target _ _ => target.isNameChain
  | _ => false

/-- A dotted name as an expression. -/
def ofName : Name → Expr
  | .simple i type => ident i type
  | .qualified lead outer last type => access lead (ofName outer) last type

end Expr

end JavaRefit
