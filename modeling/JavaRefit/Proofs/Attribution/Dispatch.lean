/-
Attribution that looks at what every node is.

The steps are those of attribution, but a node of any kind may come, and
each step tells by the kind what to do. A written type, a statement, an
expression or a name that is of a kind the step does not know is a fault,
and so is a part that is read off a node that has no such part
(`typedType_eq_error`, `typedExpr_eq_error`, `typedStatement_eq_error`).

Chain: after `Loose` and attribution; `Total` shows that on the trees of
files there are no faults.
-/
import JavaRefit.Attribution.Unit
import JavaRefit.Proofs.Attribution.Loose

namespace JavaRefit

open ClassPath (Memo Query)

-- ================================================================ faults

/-- Why a tree cannot be attributed. -/
inductive Fault where
  /-- A node of the kind is no written type. -/
  | notTypeTree (kind : NodeKind)
  /-- A node of the kind is no statement. -/
  | unhandledStatement (kind : NodeKind)
  /-- A node of the kind is no expression. -/
  | unhandledExpression (kind : NodeKind)
  /-- A node of the kind is no name. -/
  | notName (kind : NodeKind)
  /-- A part is read off a node of the kind, which has no such part. -/
  | noPart (kind : NodeKind)
deriving DecidableEq, Repr

/-- A question to a class path that can end in a fault. -/
abbrev Attempt (α : Type) := StateT Memo (Except Fault) α

/-- The question without a fault. -/
def Attempt.ask {α : Type} (q : Query α) : Attempt α :=
  fun memo => .ok (q memo)

/-- A result or a fault, whatever is remembered. -/
def Attempt.part {α : Type} (r : Except Fault α) : Attempt α :=
  fun memo => r.map (·, memo)

open Attempt (ask part)

namespace Loose

-- ================================================================== names

/-- The words of a name with dots between them and nothing else. -/
def dotted : Loose → Except Fault String
  | .ident i _ => .ok i.name
  | .access _ target name _ =>
      do return (← dotted target) ++ "." ++ name.element.name
  | .generic _ base _ _ => dotted base
  | n => .error (.notName n.kind)

/-- The last word of a name. -/
def last : Loose → Except Fault String
  | .ident i _ => .ok i.name
  | .access _ _ name _ => .ok name.element.name
  | n => .error (.noPart n.kind)

/-- What the last word of a name stands after. -/
def outer : Loose → Except Fault Loose
  | .access _ target _ _ => .ok target
  | n => .error (.noPart n.kind)

/-- A name with another type. -/
def withType (type : Option JavaType) : Loose → Except Fault Loose
  | .ident i _ => .ok (.ident i type)
  | .access lead target name _ => .ok (.access lead target name type)
  | n => .error (.noPart n.kind)

/-- A chain of words that could name a package or class: its first word is not
`this`. -/
def isNameChain : Loose → Bool
  | .ident i _ => i.name != "this"
  | .access _ target _ _ => isNameChain target
  | _ => false

/-- The full name of a written class name, where one is found. -/
def resolveName? (f : FileNames) (cp : ClassPath) :
    Loose → Except Fault (Option String)
  | .ident i _ => .ok (f.resolve? cp i.name)
  | .generic _ base _ _ => resolveName? f cp base
  | .access lead target name type => do
    return some (f.resolveDotted cp (← dotted (.access lead target name type)))
  | _ => .ok none

/-- The spelling of a written type in a declaration; empty when its class is
not found. -/
def typeText (f : FileNames) (cp : ClassPath) : Loose → Except Fault String
  | .primitive _ word _ => .ok word.text
  | .array _ element _ _ => do return (← typeText f cp element) ++ "[]"
  | n => do return (← resolveName? f cp n).getD ""

-- ========================================================== written types

mutual
/-- A written type with the type it means. -/
def typedType (env : Env) : Loose → Attempt Loose
  | .primitive lead word _ =>
      return .primitive lead word (some (.primitive word))
  | .array lead element dimension _ => do
    let element ← typedType env element
    return .array lead element dimension (some (.array element.type))
  | .generic lead base args _ => do
    let base ← typedType env base
    let elements ← typedTypes env args.elements
    return .generic lead base ⟨args.before, elements, args.close⟩ base.type
  | .union lead alternatives => do
    return .union lead (← typedTypes env alternatives)
  | .ident i type => do
    let fqn? ← part (resolveName? env.names env.classPath (.ident i type))
    return .ident i (← ask (env.classOf fqn?))
  | .access lead target name type => do
    let fqn? ← part (resolveName? env.names env.classPath
        (.access lead target name type))
    return .access lead target name (← ask (env.classOf fqn?))
  | n => throw (.notTypeTree n.kind)

/-- Written types in a row. -/
def typedTypes (env : Env) : List (RightPadded Loose) →
    Attempt (List (RightPadded Loose))
  | [] => return []
  | p :: ps => do
    let t ← typedType env p.element
    return ⟨t, p.after⟩ :: (← typedTypes env ps)
end

/-- A list of types after a keyword, with the types they mean. -/
def typedList (env : Env) : Option (Container Loose) →
    Attempt (Option (Container Loose))
  | none => return none
  | some c => do return some ⟨c.before, ← typedTypes env c.elements, c.close⟩

-- =========================================================== expressions

/-- The type of an access on an expression that has its type. -/
def accessType (env : Env) (target : Loose) (name : LeftPadded Ident) :
    Option JavaType :=
  match target with
  | .ident i _ =>
      if i.name = "this" then (env.lookup? name.element.name).join else none
  | _ => none

/-- The dotted text of an access, when it could name a class. -/
def chainText? (target : Loose) (name : LeftPadded Ident) :
    Except Fault (Option String) :=
  if isNameChain target then some <$> dotted (.access "" target name none)
    else .ok none

mutual
/-- An expression with its types. -/
def typedExpr (env : Env) : Loose → Attempt Loose
  | .literal lead text _ => do
    if text.toList.head? = some '"' then
      return .literal lead text
        (some (.reference (← ask (env.classPath.typeOf stringName))))
    else return .literal lead text (literalType text)
  | .ident i _ => do return .ident i (← ask (identType env i.name))
  | .access lead target name _ => do
    if isClassLiteral name then
      let target' ← if isNameChain target then typedType env target
          else typedExpr env target
      return .access lead target' name
        (some (.reference (← ask (env.classPath.typeOf "java.lang.Class"))))
    else
      match (← part (chainText? target name)).filter env.classPath.contains with
      | some dotted =>
        return .access lead target name
          (some (.reference (← ask (env.classPath.typeOf dotted))))
      | none =>
        let target' ← typedExpr env target
        return .access lead target' name (accessType env target' name)
  | .call lead none name args _ => do
    let elements ← typedExprs env args.elements
    let method ← ask (findEnclosingMethod env.classPath name.name
        elements.length env.enclosing)
    return .call lead none name ⟨args.before, elements, args.close⟩ method
  | .call lead (some select) name args _ => do
    let elements ← typedExprs env args.elements
    let target ← typedExpr env select.element
    let method ← ask (env.classPath.findMethod target.type name.name
        elements.length)
    return .call lead (some ⟨target, select.after⟩) name
      ⟨args.before, elements, args.close⟩ method
  | .new lead base args _ _ => do
    let base ← typedType env base
    let elements ← typedExprs env args.elements
    let constructor ← ask (env.classPath.findConstructor base.type
        elements.length)
    return .new lead base ⟨args.before, elements, args.close⟩
      constructor base.type
  | .assign lead target value _ => do
    let target ← typedExpr env target
    let value' ← typedExpr env value.element
    return .assign lead target ⟨value.before, value'⟩ target.type
  | .binary lead left operator right _ => do
    let left ← typedExpr env left
    let right ← typedExpr env right
    return .binary lead left operator right
      (← ask (binaryType env operator.element left.type right.type))
  | .unary lead operator operand _ => do
    let operand ← typedExpr env operand
    return .unary lead operator operand
      (match operator with
        | .not => some (.primitive .boolean)
        | .negate => operand.type)
  | .parens lead inner _ => do
    let e ← typedExpr env inner.element
    return .parens lead ⟨e, inner.after⟩ e.type
  | n => throw (.unhandledExpression n.kind)

/-- Expressions in a row. -/
def typedExprs (env : Env) :
    List (RightPadded Loose) → Attempt (List (RightPadded Loose))
  | [] => return []
  | p :: ps => do
    let e ← typedExpr env p.element
    return ⟨e, p.after⟩ :: (← typedExprs env ps)
end

-- ========================================================== declarations

/-- A modifier with its types; only annotations have any. -/
def typedModifier (env : Env) : Loose → Attempt Loose
  | .annotated lead name none =>
      do return .annotated lead (← typedType env name) none
  | .annotated lead name (some args) => do
    let name ← typedType env name
    let elements ← typedExprs env args.elements
    return .annotated lead name (some ⟨args.before, elements, args.close⟩)
  | n => return n

/-- Modifiers in a row. -/
def typedModifiers (env : Env) (ms : List Loose) : Attempt (List Loose) :=
  ms.mapM (typedModifier env)

/-- The variables of a declaration of that type, and the place after them. -/
def typedDeclarators (type : Option JavaType) (env : Env) :
    List (RightPadded Loose) → Attempt (List (RightPadded Loose) × Env)
  | [] => return ([], env)
  | ⟨.declarator lead name initializer _, after⟩ :: ps => do
    let initializer : Option (LeftPadded Loose) ← match initializer with
      | none => pure none
      | some i => do pure (some ⟨i.before, ← typedExpr env i.element⟩)
    let word ← part (last name)
    let name ← part (withType type name)
    let (rest, env) ← typedDeclarators type (env.declare word type) ps
    return (⟨.declarator lead name initializer type, after⟩ :: rest, env)
  | p :: _ => throw (.noPart p.element.kind)

/-- A declaration, and the place after it. -/
def typedVariables (env : Env) : Loose → Attempt (Loose × Env)
  | .declaration lead ms t ds => do
    let t ← typedType env t
    let (ds, env) ← typedDeclarators t.type env ds
    let ms ← typedModifiers env ms
    return (.declaration lead ms t ds, env)
  | n => throw (.noPart n.kind)

/-- Parameters, and the place after them. -/
def typedParameters (env : Env) :
    List (RightPadded Loose) → Attempt (List (RightPadded Loose) × Env)
  | [] => return ([], env)
  | p :: ps => do
    let (d, env) ← typedVariables env p.element
    let (rest, env) ← typedParameters env ps
    return (⟨d, p.after⟩ :: rest, env)

/-- A condition in its parentheses. -/
def typedCondition (env : Env) (c : Parens Loose) : Attempt (Parens Loose) := do
  let e ← typedExpr env c.inner.element
  return ⟨c.lead, ⟨e, c.inner.after⟩⟩

/-- The last words of the names of some variables. -/
def declaredNames : List (RightPadded Loose) → Except Fault (List String)
  | [] => .ok []
  | ⟨.declarator _ name _ _, _⟩ :: ps =>
      do return (← last name) :: (← declaredNames ps)
  | p :: _ => .error (.noPart p.element.kind)

/-- The fields among some members with their types, the latest first, before
those given. -/
def fieldScope (env : Env) (scope : Scope) : List (RightPadded Loose) →
    Attempt Scope
  | [] => return scope
  | ⟨.declaration _ _ t ds, _⟩ :: ps => do
    let type := (← typedType env t).type
    let names ← part (declaredNames ds)
    fieldScope env ((names.map fun name => (name, type)).reverse ++ scope) ps
  | _ :: ps => fieldScope env scope ps

-- ============================================================ statements

mutual
/-- A statement or member with its types, and the place after it. What is
declared in the class or package `outer` has its name in front. -/
def typedStatement (env : Env) (outer : String) : Loose → Attempt (Loose × Env)
  | .block b => do
    let statements ← typedStatements (env.push []) outer b.statements
    return (.block ⟨b.lead, statements, b.close⟩, env)
  | .declaration lead ms t ds => typedVariables env (.declaration lead ms t ds)
  | .method lead ms returnType name ps throws body _ => do
    let arity := ps.elements.length
    let type ← match returnType with
      | none => ask (env.classPath.findConstructor env.this? arity)
      | some _ => ask (env.classPath.findMethod env.this? name.name arity)
    let (elements, inner) ← typedParameters (env.push []) ps.elements
    let body ← match body with
      | none => pure none
      | some b => do
        let (b, _) ← typedStatement inner outer b
        pure (some b)
    let ms ← typedModifiers env ms
    let returnType ← match returnType with
      | none => pure none
      | some t => some <$> typedType env t
    let throws ← typedList env throws
    return (.method lead ms returnType name ⟨ps.before, elements, ps.close⟩
      throws body type, env)
  | .classDecl lead ms kindLead kind name extends? implements? body _ => do
    let fqn := Text.qualify outer (← part (last name))
    let type ← ask (env.classPath.typeOf fqn)
    let fields ← fieldScope env [] body.statements
    let members ← typedStatements (env.enter type fields) fqn body.statements
    let ms ← typedModifiers env ms
    let extends? ← typedList env extends?
    let implements? ← typedList env implements?
    let name ← part (withType (some (.reference type)) name)
    return (.classDecl lead ms kindLead kind name extends? implements?
      ⟨body.lead, members, body.close⟩ (some (.reference type)), env)
  | .tryCatch lead body catches finally? => do
    let (body, _) ← typedStatement env outer body
    let catches ← typedClauses env outer catches
    let finally? ← match finally? with
      | none => pure none
      | some f => do
        let (b, _) ← typedStatement env outer f.element
        pure (some ⟨f.before, b⟩)
    return (.tryCatch lead body catches finally?, env)
  | .throwing lead exception =>
      do return (.throwing lead (← typedExpr env exception), env)
  | .returning lead none => return (.returning lead none, env)
  | .returning lead (some value) =>
      do return (.returning lead (some (← typedExpr env value)), env)
  | .ifElse lead c thenPart elsePart => do
    let c ← typedCondition env c
    let (s, env) ← typedStatement env outer thenPart.element
    match elsePart with
    | none => return (.ifElse lead c ⟨s, thenPart.after⟩ none, env)
    | some e =>
      let (s', env) ← typedStatement env outer e.body.element
      return (.ifElse lead c ⟨s, thenPart.after⟩
        (some ⟨e.lead, ⟨s', e.body.after⟩⟩), env)
  | .whileLoop lead c body => do
    let c ← typedCondition env c
    let (s, env) ← typedStatement env outer body.element
    return (.whileLoop lead c ⟨s, body.after⟩, env)
  | .empty lead => return (.empty lead, env)
  | n =>
    if n.kind.isExpression then do return (← typedExpr env n, env)
    else throw (.unhandledStatement n.kind)

/-- Statements or members one after the other, each at the place after the one
before. -/
def typedStatements (env : Env) (outer : String) :
    List (RightPadded Loose) → Attempt (List (RightPadded Loose))
  | [] => return []
  | p :: ps => do
    let (s, env) ← typedStatement env outer p.element
    return ⟨s, p.after⟩ :: (← typedStatements env outer ps)

/-- Catch clauses; the parameter of each has a scope around that of its body. -/
def typedClauses (env : Env) (outer : String) :
    List Loose → Attempt (List Loose)
  | [] => return []
  | .clause lead parameter body :: cs => do
    let (d, inner) ← typedVariables (env.push []) parameter.inner.element
    let (body, _) ← typedStatement inner outer body
    return .clause lead ⟨parameter.lead, ⟨d, parameter.inner.after⟩⟩ body ::
      (← typedClauses env outer cs)
  | n :: _ => throw (.noPart n.kind)
end

-- ========================================================== declarations

/-- The spellings of the types in a list after a keyword; none without the
keyword. -/
def typeTexts (f : FileNames) (cp : ClassPath) :
    Option (Container Loose) → Except Fault (List String)
  | none => .ok []
  | some c => c.elements.mapM fun p => typeText f cp p.element

/-- The spelling of the type of a parameter. -/
def parameterText (f : FileNames) (cp : ClassPath) : Loose → Except Fault String
  | .declaration _ _ t _ => typeText f cp t
  | n => .error (.noPart n.kind)

/-- The declaration of a method of the file. -/
def methodInfo (f : FileNames) (cp : ClassPath) (returnType : Option Loose)
    (name : Ident) (ps : Container Loose) (throws : Option (Container Loose)) :
    Except Fault MethodInfo := do
  let params ← ps.elements.mapM fun p => parameterText f cp p.element
  let returns ← match returnType with
    | none => pure none
    | some t => some <$> typeText f cp t
  let throws ← typeTexts f cp throws
  return {
    name := if returnType.isNone then constructorName else name.name
    params := params
    returns := returns.filter (· != "")
    throws := throws.filter (· != "") }

/-- The declarations of the methods among some members, or of the
constructors. -/
def methodInfos (f : FileNames) (cp : ClassPath) (constructors : Bool) :
    List (RightPadded Loose) → Except Fault (List MethodInfo)
  | [] => .ok []
  | ⟨.method _ _ returnType name ps throws _ _, _⟩ :: rest => do
    let info ← methodInfo f cp returnType name ps throws
    let infos ← methodInfos f cp constructors rest
    return if returnType.isNone = constructors then info :: infos else infos
  | _ :: rest => methodInfos f cp constructors rest

/-- The declaration of a class of the file. -/
def classInfo (f : FileNames) (cp : ClassPath) (fqn : String) :
    Loose → Except Fault ClassInfo
  | .classDecl _ _ _ kind _ extends? implements? body _ => do
    let supers ← typeTexts f cp extends?
    let interfaces ← typeTexts f cp implements?
    let methods ← methodInfos f cp false body.statements
    let constructors ← methodInfos f cp true body.statements
    return {
      fqn
      kind
      supertype := match kind with
        | .interface => none
        | .ordinary => match supers with
          | [] => some objectName
          | t :: _ => some (if t = "" then objectName else t)
      interfaces := match kind with
        | .interface => supers.filter (· != "")
        | .ordinary => interfaces.filter (· != "")
      methods
      constructors }
  | n => .error (.noPart n.kind)

mutual
/-- The classes that a member declares, with their words and full names, outer
ones first. -/
def declared (outer : String) : Loose →
    Except Fault (List (Loose × String × String))
  | .classDecl lead ms kindLead kind name extends? implements? body type => do
    let word ← last name
    let fqn := Text.qualify outer word
    return (.classDecl lead ms kindLead kind name extends? implements? body
      type, word, fqn) :: (← declaredIn fqn body.statements)
  | _ => .ok []

/-- The classes that some members declare. -/
def declaredIn (outer : String) :
    List (RightPadded Loose) → Except Fault (List (Loose × String × String))
  | [] => .ok []
  | p :: ps => do return (← declared outer p.element) ++ (← declaredIn outer ps)
end

-- ================================================================= files

/-- The imports of single classes and the packages imported as a whole, in
order. -/
def importedNames :
    List (RightPadded LooseImport) →
    Except Fault (List (String × String) × List String)
  | [] => .ok ([], [])
  | ⟨i, _⟩ :: ps =>
    if i.static?.isSome then importedNames ps
    else do
      let word ← last i.name
      if word = "*" then
        let package ← dotted (← outer i.name)
        let (imported, wildcards) ← importedNames ps
        return (imported, package :: wildcards)
      else
        let full ← dotted i.name
        let (imported, wildcards) ← importedNames ps
        return ((word, full) :: imported, wildcards)

/-- The name of a file's package; empty when it has none. -/
def packageName (u : LooseUnit) : Except Fault String :=
  match u.package? with
  | none => .ok ""
  | some p => dotted p.element.name

/-- A class inside a package with its types. -/
def typedClass (env : Env) (outer : String) (n : Loose) : Attempt Loose :=
  if n.kind = .classDeclaration then Prod.fst <$> typedStatement env outer n
  else throw (.noPart n.kind)

/-- The place outside of all classes of a file. -/
def unitEnv (cp : ClassPath) (u : LooseUnit) (package : String) :
    Except Fault Env := do
  let (imported, wildcards) ← importedNames u.imports
  let classes ← u.classes.mapM (declared package)
  let names : FileNames :=
    ⟨package, classes.flatten.map Prod.snd, imported, wildcards⟩
  let infos ← classes.flatten.mapM fun d => classInfo names cp d.2.2 d.1
  return ⟨cp.extend infos, names, [], []⟩

/-- The file with its types. -/
def typedUnit (cp : ClassPath) (u : LooseUnit) : Except Fault LooseUnit := do
  let package ← packageName u
  let env ← unitEnv cp u package
  let (classes, _) ← u.classes.mapM (typedClass env package) []
  return { u with classes }

-- ============================================================= other kinds

section

variable {env : Env} {n : Loose} (memo : Memo)

/-- A node whose kind is none of written types is a fault in the place of
one. -/
theorem typedType_eq_error (h : n.kind.isTypeTree = false) :
    typedType env n memo = .error (.notTypeTree n.kind) := by
  cases n <;> first
    | rfl
    | exact absurd h.symm Bool.false_ne_true

/-- A node whose kind is none of expressions is a fault in the place of one. -/
theorem typedExpr_eq_error (h : n.kind.isExpression = false) :
    typedExpr env n memo = .error (.unhandledExpression n.kind) := by
  cases n <;> first
    | rfl
    | exact absurd h.symm Bool.false_ne_true

/-- A node whose kind is none of statements, members or expressions is a fault
in the place of a statement. -/
theorem typedStatement_eq_error {outer : String}
    (hs : n.kind.isStatement = false) (he : n.kind.isExpression = false) :
    typedStatement env outer n memo = .error (.unhandledStatement n.kind) := by
  cases n <;> first
    | rfl
    | exact absurd he.symm Bool.false_ne_true
    | exact absurd hs.symm Bool.false_ne_true

end

end Loose

end JavaRefit
