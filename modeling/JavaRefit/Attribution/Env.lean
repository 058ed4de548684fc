/-
What a name can mean at some place of a file.

A simple class name is looked for among the classes declared in the
file, its imports of single classes, its own package, `java.lang`, and
then the packages it imports as a whole, in order. A dotted name is the
class it spells if there is one, else a class inside the one its first
word names, else what it spells.

A variable is looked for in the scopes around the place, from the inside
out; in a scope the latest declaration counts.

Chain: attribution layer, after the class path and the tree; `Expr`,
`Stmt` and `Unit` follow.
-/
import JavaRefit.ClassPath.Types
import JavaRefit.Tree.Unit

namespace JavaRefit

-- ================================================================= files

/-- The meanings a file gives to simple class names. -/
structure FileNames where
  package : String
  /-- The classes declared in the file, outer ones before those nested in them;
  the first of a name counts. -/
  declared : List (String × String)
  /-- The imports of single classes; the last of a name counts. -/
  imported : List (String × String)
  /-- The packages imported as a whole, in order. -/
  wildcards : List String
deriving DecidableEq, Repr

namespace FileNames

/-- The full name of a simple class name, where one is found. -/
def resolve? (f : FileNames) (cp : ClassPath) (name : String) : Option String :=
  (f.declared.lookup name).or <|
  (f.imported.reverse.lookup name).or <|
  if cp.packageHas f.package name then some (Text.qualify f.package name)
  else if cp.contains ("java.lang." ++ name) then some ("java.lang." ++ name)
  else (f.wildcards.find? fun p => cp.contains (p ++ "." ++ name)).map fun p =>
    p ++ "." ++ name

/-- The full name of a dotted class name. -/
def resolveDotted (f : FileNames) (cp : ClassPath) (dotted : String) : String :=
  if cp.contains dotted then dotted
  else match f.resolve? cp (Text.headSegment dotted) with
    | some outer => outer ++ "." ++ Text.tailSegments dotted
    | none => dotted

/-- The full name of a written class name, where one is found. -/
def resolveName? (f : FileNames) (cp : ClassPath) : Name → Option String
  | .simple i _ => f.resolve? cp i.name
  | .qualified lead outer last type =>
    some (f.resolveDotted cp (Name.qualified lead outer last type).dotted)

/-- The spelling of a written type in a declaration; empty when its class is
not found. -/
def typeText (f : FileNames) (cp : ClassPath) : TypeTree → String
  | .named name => (f.resolveName? cp name).getD ""
  | .generic _ base _ _ => (f.resolveName? cp base).getD ""
  | .primitive _ keyword _ => keyword.text
  | .array _ element _ _ => f.typeText cp element ++ "[]"
  | .union _ _ => ""

end FileNames

mutual
/-- The classes that a member declares, with their full names, outer ones
first. -/
def Member.declared (outer : String) : Member → List (JavaClass × String)
  | .field _ => []
  | .method _ => []
  | .nested c => ClassDecl.declared outer c

/-- A class and the classes nested in it, with their full names, outer ones
first. -/
def ClassDecl.declared (outer : String) (c : ClassDecl Member) :
    List (JavaClass × String) :=
  (c, Text.qualify outer c.name.last) ::
    Member.declaredBlock (Text.qualify outer c.name.last) c.body

def Member.declaredBlock (outer : String) (b : Block Member) :
    List (JavaClass × String) :=
  Member.declaredAll outer b.statements

def Member.declaredAll (outer : String) : List (RightPadded Member) →
    List (JavaClass × String)
  | [] => []
  | p :: ps => Member.declared outer p.element ++ Member.declaredAll outer ps
end

namespace CompilationUnit

/-- The classes of a file with their full names. -/
def declaredClasses (cu : CompilationUnit) : List (JavaClass × String) :=
  cu.classes.flatMap (ClassDecl.declared cu.packageName)

/-- The meanings a file gives to simple class names. -/
def fileNames (cu : CompilationUnit) : FileNames :=
  let imports := (cu.imports.map RightPadded.element).filter
    fun i => !i.isStatic
  { package := cu.packageName
    declared := cu.declaredClasses.map fun d => (d.1.name.last, d.2)
    imported := (imports.filter fun i => !i.isWildcard).map fun i =>
      (i.className, i.typeName)
    wildcards := (imports.filter Import.isWildcard).filterMap
      Import.packageName? }

end CompilationUnit

-- ============================================================== variables

/-- The variables declared in one scope, the latest first. -/
abbrev Scope := List (String × Option JavaType)

/-- What is known at a place of a file. -/
structure Env where
  classPath : ClassPath
  names : FileNames
  /-- The classes around the place, the innermost first. -/
  enclosing : List ClassType
  /-- The scopes around the place, the innermost first. -/
  scopes : List Scope

namespace Env

/-- The declared type of a variable, where there is such a variable. -/
def lookup? (env : Env) (name : String) : Option (Option JavaType) :=
  env.scopes.findSome? fun scope => scope.lookup name

/-- The place after a declaration in the innermost scope. -/
def declare (env : Env) (name : String) (type : Option JavaType) : Env :=
  match env.scopes with
  | [] => env
  | scope :: outer => { env with scopes := ((name, type) :: scope) :: outer }

/-- A place inside a new scope. -/
def push (env : Env) (scope : Scope) : Env :=
  { env with scopes := scope :: env.scopes }

/-- A place inside a class with such fields. -/
def enter (env : Env) (c : ClassType) (fields : Scope) : Env :=
  { env.push fields with enclosing := c :: env.enclosing }

/-- The class around the place, as a type. -/
def this? (env : Env) : Option JavaType :=
  env.enclosing.head?.map .reference

/-- The class of a full name, if there is a name. -/
def classOf (env : Env) : Option String → ClassPath.Query (Option JavaType)
  | none => pure none
  | some fqn =>
    if fqn = "" then pure none
      else do return some (.reference (← env.classPath.typeOf fqn))

end Env

-- ========================================================== declarations

/-- The declaration of a method of the file. -/
def Method.info (f : FileNames) (cp : ClassPath) (m : Method) : MethodInfo :=
  let named (ts : List String) := ts.filter (· != "")
  { name := if m.returnType.isNone then constructorName else m.name.name
    params := m.parameters.items.map fun d => f.typeText cp d.typeTree
    returns := (m.returnType.map (f.typeText cp)).filter (· != "")
    throws := match m.throws with
      | none => []
      | some ts => named (ts.items.map (f.typeText cp)) }

/-- The declaration of a class of the file. An interface extends interfaces;
the first class a class extends counts, and an unknown one as none. -/
def ClassDecl.info (f : FileNames) (cp : ClassPath) (c : JavaClass)
    (fqn : String) : ClassInfo :=
  let texts (ts : Option (Container TypeTree)) : List String :=
    match ts with
    | none => []
    | some ts => ts.items.map (f.typeText cp)
  let named (ts : List String) := ts.filter (· != "")
  let methods := c.body.statements.filterMap fun p => match p.element with
    | .method m => some m
    | _ => none
  { fqn
    kind := c.kind
    supertype := match c.kind with
      | .interface => none
      | .ordinary => match texts c.extends? with
        | [] => some objectName
        | t :: _ => some (if t = "" then objectName else t)
    interfaces := match c.kind with
      | .interface => named (texts c.extends?)
      | .ordinary => named (texts c.implements?)
    methods := (methods.filter fun m => m.returnType.isSome).map
      (Method.info f cp)
    constructors := (methods.filter fun m => m.returnType.isNone).map
      (Method.info f cp) }

/-- The class path with the classes of a file, which count before all others. -/
def CompilationUnit.extendClassPath (cu : CompilationUnit) (cp : ClassPath) :
    ClassPath :=
  cp.extend (cu.declaredClasses.map fun d => d.1.info cu.fileNames cp d.2)

end JavaRefit
