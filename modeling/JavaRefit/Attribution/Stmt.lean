/-
The types in declarations and statements.

A declaration counts from its own value on: the value of a variable is
read before the variable is declared, and what follows in the same scope
after. Blocks, catch clauses and parameter lists open scopes.

Chain: attribution layer, after `Expr`.
-/
import JavaRefit.Attribution.Expr

namespace JavaRefit

open ClassPath (Query)

-- ========================================================== declarations

def Modifier.typed (env : Env) : Modifier → Query Modifier
  | .keyword lead word => return .keyword lead word
  | .annotated lead name none =>
      do return .annotated lead (← name.typed env) none
  | .annotated lead name (some args) => do
    let name ← name.typed env
    let elements ← Expr.typedAll env args.elements
    return .annotated lead name (some ⟨args.before, elements, args.close⟩)

def Modifier.typedAll (env : Env) (ms : List Modifier) :
    Query (List Modifier) :=
  ms.mapM (Modifier.typed env)

/-- The variables of a declaration of that type, and the place after them. -/
def Variable.typedAll (type : Option JavaType) (env : Env) :
    List (RightPadded Variable) → Query (List (RightPadded Variable) × Env)
  | [] => return ([], env)
  | p :: ps => do
    let v := p.element
    let initializer ← match v.initializer with
      | none => pure none
      | some i => do pure (some ⟨i.before, ← i.element.typed env⟩)
    let (rest, env) ← Variable.typedAll type (env.declare v.name.last type) ps
    return (⟨⟨v.lead, v.name.withType type, initializer, type⟩,
      p.after⟩ :: rest, env)

/-- A declaration, and the place after it. Its modifiers are read there. -/
def Variables.typed (env : Env) (d : Variables) : Query (Variables × Env) := do
  let typeTree ← d.typeTree.typed env
  let (declarators, env) ← Variable.typedAll typeTree.type env d.declarators
  let modifiers ← Modifier.typedAll env d.modifiers
  return (⟨d.lead, modifiers, typeTree, declarators⟩, env)

/-- Parameters, and the place after them. -/
def Variables.typedAll (env : Env) :
    List (RightPadded Variables) → Query (List (RightPadded Variables) × Env)
  | [] => return ([], env)
  | p :: ps => do
    let (d, env) ← p.element.typed env
    let (rest, env) ← Variables.typedAll env ps
    return (⟨d, p.after⟩ :: rest, env)

def Expr.typedCondition (env : Env) (c : Parens Expr) :
    Query (Parens Expr) := do
  let e ← c.inner.element.typed env
  return ⟨c.lead, ⟨e, c.inner.after⟩⟩

-- ============================================================ statements

mutual
/-- A statement with its types, and the place after it. -/
def Stmt.typed (env : Env) : Stmt → Query (Stmt × Env)
  | .block b => do return (.block (← Stmt.typedBlock env b), env)
  | .declaration d => do
    let (d, env) ← d.typed env
    return (.declaration d, env)
  | .expr e => do return (.expr (← e.typed env), env)
  | .empty lead => return (.empty lead, env)
  | .tryCatch t => do return (.tryCatch (← t.typed env), env)
  | .throwing lead exception =>
      do return (.throwing lead (← exception.typed env), env)
  | .returning lead none => return (.returning lead none, env)
  | .returning lead (some value) => do
    return (.returning lead (some (← value.typed env)), env)
  | .ifElse lead condition thenPart elsePart => do
    let condition ← Expr.typedCondition env condition
    let (s, env) ← thenPart.element.typed env
    let (elsePart, env) ← Stmt.typedElse env elsePart
    return (.ifElse lead condition ⟨s, thenPart.after⟩ elsePart, env)
  | .whileLoop lead condition body => do
    let condition ← Expr.typedCondition env condition
    let (s, env) ← body.element.typed env
    return (.whileLoop lead condition ⟨s, body.after⟩, env)

/-- Statements one after the other, each at the place after the one before. -/
def Stmt.typedAll (env : Env) : List (RightPadded Stmt) →
    Query (List (RightPadded Stmt))
  | [] => return []
  | p :: ps => do
    let (s, env) ← p.element.typed env
    return ⟨s, p.after⟩ :: (← Stmt.typedAll env ps)

/-- A block, which is a scope of its own. -/
def Stmt.typedBlock (env : Env) (b : Block Stmt) : Query (Block Stmt) := do
  return ⟨b.lead, ← Stmt.typedAll (env.push []) b.statements, b.close⟩

def Try.typed (env : Env) (t : Try Stmt) : Query (Try Stmt) := do
  let body ← Stmt.typedBlock env t.body
  let catches ← Catch.typedAll env t.catches
  let finally? ← Stmt.typedFinally env t.finally?
  return ⟨t.lead, body, catches, finally?⟩

/-- A catch clause; its parameter has a scope around that of its body. -/
def Catch.typed (env : Env) (c : Catch Stmt) : Query (Catch Stmt) := do
  let (d, inner) ← c.declaration.typed (env.push [])
  let body ← Stmt.typedBlock inner c.body
  return ⟨c.lead, ⟨c.parameter.lead, ⟨d, c.parameter.inner.after⟩⟩, body⟩

def Catch.typedAll (env : Env) : List (Catch Stmt) → Query (List (Catch Stmt))
  | [] => return []
  | c :: cs => do
    let c ← c.typed env
    return c :: (← Catch.typedAll env cs)

def Stmt.typedFinally (env : Env) :
    Option (LeftPadded (Block Stmt)) → Query (Option (LeftPadded (Block Stmt)))
  | none => return none
  | some f => do return some ⟨f.before, ← Stmt.typedBlock env f.element⟩

def Else.typed (env : Env) (e : Else Stmt) : Query (Else Stmt × Env) := do
  let (s, env) ← e.body.element.typed env
  return (⟨e.lead, ⟨s, e.body.after⟩⟩, env)

def Stmt.typedElse (env : Env) : Option (Else Stmt) →
    Query (Option (Else Stmt) × Env)
  | none => return (none, env)
  | some e => do
    let (e, env) ← e.typed env
    return (some e, env)
end

end JavaRefit
