/-
The types in members, classes and whole files.

The fields of a class are in scope in all of it, wherever they are
declared. A file is read against the class path with its own classes
added, so that calls of its own methods are found like any others.

Chain: attribution layer, after `Stmt`; read by every pass over typed
files.
-/
import JavaRefit.Attribution.Stmt
import JavaRefit.Parser.Unit

namespace JavaRefit

open ClassPath (Query)

/-- A method or constructor with its types. Its modifiers and the types around
its parameters are read outside of the scope of those. -/
def Method.typed (env : Env) (m : Method) : Query Method := do
  let arity := m.parameters.elements.length
  let type ← match m.returnType with
    | none => env.classPath.findConstructor env.this? arity
    | some _ => env.classPath.findMethod env.this? m.name.name arity
  let (parameters, inner) ← Variables.typedAll (env.push [])
      m.parameters.elements
  let body ← match m.body with
    | none => pure none
    | some b => some <$> Stmt.typedBlock inner b
  let modifiers ← Modifier.typedAll env m.modifiers
  let returnType ← match m.returnType with
    | none => pure none
    | some t => some <$> t.typed env
  let throws ← TypeTree.typedList env m.throws
  return ⟨m.lead, modifiers, returnType, m.name,
    ⟨m.parameters.before, parameters, m.parameters.close⟩, throws, body, type⟩

/-- The fields among some members with their types, the latest first, before
those given. -/
def Member.fieldScope (env : Env) (scope : Scope) :
    List (RightPadded Member) → Query Scope
  | [] => return scope
  | p :: ps => do
    match p.element with
    | .field d =>
      let type := (← d.typeTree.typed env).type
      let declared := d.declarators.map fun v => (v.element.name.last, type)
      Member.fieldScope env (declared.reverse ++ scope) ps
    | _ => Member.fieldScope env scope ps

mutual
/-- A member of a class with its types, and the place after it. -/
def Member.typed (env : Env) (outer : String) : Member → Query (Member × Env)
  | .field d => do
    let (d, env) ← d.typed env
    return (.field d, env)
  | .method m => do return (.method (← m.typed env), env)
  | .nested c => do return (.nested (← c.typed env outer), env)

/-- A class inside the package or class `outer`, with its types. What stands in
front of its body is read outside of it. -/
def ClassDecl.typed (env : Env) (outer : String) (c : ClassDecl Member) :
    Query (ClassDecl Member) := do
  let fqn := Text.qualify outer c.name.last
  let type ← env.classPath.typeOf fqn
  let fields ← Member.fieldScope env [] c.body.statements
  let body ← Member.typedBlock (env.enter type fields) fqn c.body
  let modifiers ← Modifier.typedAll env c.modifiers
  let extends? ← TypeTree.typedList env c.extends?
  let implements? ← TypeTree.typedList env c.implements?
  return ⟨c.lead, modifiers, c.kindLead, c.kind,
    c.name.withType (some (.reference type)),
    extends?, implements?, body, some (.reference type)⟩

def Member.typedBlock (env : Env) (outer : String) (b : Block Member) :
    Query (Block Member) := do
  return ⟨b.lead, ← Member.typedAll env outer b.statements, b.close⟩

/-- Members one after the other, each at the place after the one before. -/
def Member.typedAll (env : Env) (outer : String) :
    List (RightPadded Member) → Query (List (RightPadded Member))
  | [] => return []
  | p :: ps => do
    let (m, env) ← p.element.typed env outer
    return ⟨m, p.after⟩ :: (← Member.typedAll env outer ps)
end

namespace CompilationUnit

/-- The place outside of all classes of a file. -/
def env (cu : CompilationUnit) (cp : ClassPath) : Env :=
  ⟨cu.extendClassPath cp, cu.fileNames, [], []⟩

/-- The file with its types, and the types that were made on the way. -/
def typedQuery (cu : CompilationUnit) (cp : ClassPath) :
    Query CompilationUnit := do
  let classes ← cu.classes.mapM (ClassDecl.typed (cu.env cp) cu.packageName)
  return { cu with classes }

/-- The file with its types. -/
def typed (cu : CompilationUnit) (cp : ClassPath) : CompilationUnit :=
  (cu.typedQuery cp []).1

end CompilationUnit

/-- The tree of a text with its types. -/
def parseUnit (source : String) (cp : ClassPath) (path : Option String) :
    Except ParseError CompilationUnit :=
  (·.typed cp) <$> parseTree source path

end JavaRefit
