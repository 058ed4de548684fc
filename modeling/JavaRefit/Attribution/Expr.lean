/-
The types of names, written types and expressions.

A chain of words that spells a class of the class path is that class as a
whole, and its parts have no type. The words in front of `.class` are
read as a class name. Otherwise the parts of an access are expressions,
and only on `this` does the last word get a type: that of the variable
so called.

Chain: attribution layer, after `Env`.
-/
import JavaRefit.Attribution.Env

namespace JavaRefit

open ClassPath (Query)

-- ======================================================= names and types

/-- A class name with the class it means. -/
def Name.typed (env : Env) (n : Name) : Query Name := do
  return n.withType (← env.classOf (env.names.resolveName? env.classPath n))

mutual
/-- A written type with the type it means. -/
def TypeTree.typed (env : Env) : TypeTree → Query TypeTree
  | .named name => do return .named (← name.typed env)
  | .generic lead base args _ => do
    let base ← base.typed env
    let elements ← TypeTree.typedAll env args.elements
    return .generic lead base ⟨args.before, elements, args.close⟩ base.type
  | .primitive lead keyword _ =>
      return .primitive lead keyword (some (.primitive keyword))
  | .array lead element dimension _ => do
    let element ← element.typed env
    return .array lead element dimension (some (.array element.type))
  | .union lead alternatives => do
    return .union lead (← TypeTree.typedAll env alternatives)

def TypeTree.typedAll (env : Env) :
    List (RightPadded TypeTree) → Query (List (RightPadded TypeTree))
  | [] => return []
  | p :: ps => do
    let t ← p.element.typed env
    return ⟨t, p.after⟩ :: (← TypeTree.typedAll env ps)
end

/-- A list of types after a keyword, with the types they mean. -/
def TypeTree.typedList (env : Env) :
    Option (Container TypeTree) → Query (Option (Container TypeTree))
  | none => return none
  | some c =>
      do return some ⟨c.before, ← TypeTree.typedAll env c.elements, c.close⟩

-- =========================================================== expressions

/-- The class of all strings. -/
def stringName : String := "java.lang.String"

/-- The type of a literal that is no string. -/
def literalType (text : String) : Option JavaType :=
  let cs := text.toList
  let ends (a b : Char) : Bool := cs.getLast? == some a || cs.getLast? == some b
  if cs.head? = some '\'' then some (.primitive .char)
  else if text = "true" ∨ text = "false" then some (.primitive .boolean)
  else if text = "null" then none
  else if ends 'l' 'L' then some (.primitive .long)
  else if ends 'f' 'F' then some (.primitive .float)
  else if ends 'd' 'D' || cs.contains '.' then some (.primitive .double)
  else some (.primitive .int)

/-- The method a call without a target means: that of the nearest class around
it that has one. -/
def findEnclosingMethod (cp : ClassPath) (name : String) (arity : Nat) :
    List ClassType → Query (Option MethodType)
  | [] => return none
  | c :: cs => do
    match ← cp.findMethod (some (.reference c)) name arity with
    | some m => return some m
    | none => findEnclosingMethod cp name arity cs

/-- The type of two operands together. -/
def binaryType (env : Env) (op : BinaryOp) (left right : Option JavaType) :
    Query (Option JavaType) := do
  if op.isLogical then return some (.primitive .boolean)
  else if op = .add ∧
    (isClassNamed stringName left || isClassNamed stringName right) then
    return some (.reference (← env.classPath.typeOf stringName))
  else return left

/-- The type of a single word that is an expression: of the object itself, of
the variable so called, else the class. -/
def identType (env : Env) (name : String) : Query (Option JavaType) := do
  if name = "this" then return env.this?
  match env.lookup? name with
  | some type => return type
  | none => env.classOf (env.names.resolve? env.classPath name)

/-- The dotted text of an access, when it could name a class. -/
def Expr.chainText? (target : Expr) (name : LeftPadded Ident) : Option String :=
  if target.isNameChain then target.dotted?.map fun outer =>
    outer ++ "." ++ name.element.name
  else none

/-- The words in front of `.class` as a class name. -/
def Expr.typedAsClass (env : Env) : Expr → Query Expr
  | .ident i _ => do
    return .ident i (← env.classOf (env.names.resolve? env.classPath i.name))
  | .access lead target name type => do
    match Expr.chainText? target name with
    | some dotted =>
      return .access lead target name
        (← env.classOf (some (env.names.resolveDotted env.classPath dotted)))
    | none => return .access lead target name type
  | e => return e

/-- The access names the class object of its target. -/
def isClassLiteral (name : LeftPadded Ident) : Bool :=
  name.element.name == "class"

/-- The type of an access on an expression that has its type. -/
def accessType (env : Env) (target : Expr) (name : LeftPadded Ident) :
    Option JavaType :=
  match target with
  | .ident i _ =>
      if i.name = "this" then (env.lookup? name.element.name).join else none
  | _ => none

mutual
/-- An expression with its types. -/
def Expr.typed (env : Env) : Expr → Query Expr
  | .ident i _ => do return .ident i (← identType env i.name)
  | .access lead target name _ => do
    if isClassLiteral name then
      let target' ←
        if target.isNameChain then target.typedAsClass env else target.typed env
      return .access lead target' name
        (some (.reference (← env.classPath.typeOf "java.lang.Class")))
    else
      match (Expr.chainText? target name).filter env.classPath.contains with
      | some dotted =>
        return .access lead target name
          (some (.reference (← env.classPath.typeOf dotted)))
      | none =>
        let target' ← target.typed env
        return .access lead target' name (accessType env target' name)
  | .call lead none name args _ => do
    let elements ← Expr.typedAll env args.elements
    let method ← findEnclosingMethod env.classPath name.name elements.length
        env.enclosing
    return .call lead none name ⟨args.before, elements, args.close⟩ method
  | .call lead (some select) name args _ => do
    let elements ← Expr.typedAll env args.elements
    let target ← select.element.typed env
    let method ← env.classPath.findMethod target.type name.name elements.length
    return .call lead (some ⟨target, select.after⟩) name
      ⟨args.before, elements, args.close⟩ method
  | .new lead base args _ _ => do
    let base ← base.typed env
    let elements ← Expr.typedAll env args.elements
    let constructor ← env.classPath.findConstructor base.type elements.length
    return .new lead base ⟨args.before, elements, args.close⟩
      constructor base.type
  | .literal lead text _ => do
    if text.toList.head? = some '"' then
      return .literal lead text
        (some (.reference (← env.classPath.typeOf stringName)))
    else return .literal lead text (literalType text)
  | .assign lead target value _ => do
    let target ← target.typed env
    let value' ← value.element.typed env
    return .assign lead target ⟨value.before, value'⟩ target.type
  | .binary lead left operator right _ => do
    let left ← left.typed env
    let right ← right.typed env
    return .binary lead left operator right
      (← binaryType env operator.element left.type right.type)
  | .unary lead operator operand _ => do
    let operand ← operand.typed env
    return .unary lead operator operand
      (match operator with
        | .not => some (.primitive .boolean)
        | .negate => operand.type)
  | .parens lead inner _ => do
    let e ← inner.element.typed env
    return .parens lead ⟨e, inner.after⟩ e.type

def Expr.typedAll (env : Env) :
    List (RightPadded Expr) → Query (List (RightPadded Expr))
  | [] => return []
  | p :: ps => do
    let e ← p.element.typed env
    return ⟨e, p.after⟩ :: (← Expr.typedAll env ps)
end

end JavaRefit
