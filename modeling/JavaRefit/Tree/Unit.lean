/-
Methods, classes and whole files.

Chain: tree layer, after `Stmt`; the passes over a whole file start here.
-/
import JavaRefit.Tree.Stmt

namespace JavaRefit

-- ========================================================= class members

/-- A method, or a constructor when it has no return type. -/
structure Method where
  lead : Trivia
  modifiers : List Modifier
  returnType : Option TypeTree
  name : Ident
  parameters : Container Variables
  throws : Option (Container TypeTree)
  body : Option (Block Stmt)
  type : Option MethodType

/-- A class or interface over members of some kind. The containers after
`extends` and `implements` keep the trivia in front of the keyword. -/
structure ClassDecl (μ : Type) where
  lead : Trivia
  modifiers : List Modifier
  kindLead : Trivia
  kind : ClassKind
  name : Name
  extends? : Option (Container TypeTree)
  implements? : Option (Container TypeTree)
  body : Block μ
  type : Option JavaType

/-- A member of a class. -/
inductive Member where
  | field (declaration : Variables)
  | method (method : Method)
  | nested (declaration : ClassDecl Member)

/-- A class with its members. -/
abbrev JavaClass := ClassDecl Member

/-- A member ends in a semicolon: fields do, and methods without a body. -/
def Member.needsSemicolon : Member → Bool
  | field _ => true
  | method m => m.body.isNone
  | nested _ => false

/-- The classes among some members. -/
def Member.nestedClasses (members : List (RightPadded Member)) :
    List JavaClass :=
  members.filterMap fun p => match p.element with
    | .nested c => some c
    | _ => none

-- =========================================================== whole files

/-- The package a file belongs to. -/
structure Package where
  lead : Trivia
  name : Name

/-- An import; `static?` is the trivia in front of that keyword. -/
structure Import where
  lead : Trivia
  static? : Option Trivia
  name : Name

namespace Import

/-- The full name, with `*` as its last word in an import of a whole package. -/
def typeName (i : Import) : String :=
  i.name.dotted

/-- The last word. -/
def className (i : Import) : String :=
  i.name.last

/-- The name without its last word; none when there is a single word. -/
def packageName? (i : Import) : Option String :=
  i.name.outer?.map Name.dotted

/-- The import is of every class of a package. -/
def isWildcard (i : Import) : Bool :=
  i.name.last == "*"

/-- The import is of a member and not of a class. -/
def isStatic (i : Import) : Bool :=
  i.static?.isSome

end Import

/-- A whole file. `close` is the trivia after its last word. -/
structure CompilationUnit where
  lead : Trivia
  package? : Option (RightPadded Package)
  imports : List (RightPadded Import)
  classes : List JavaClass
  close : Trivia
  path : Option String

/-- The name of the file's package; empty when it has none. -/
def CompilationUnit.packageName (cu : CompilationUnit) : String :=
  match cu.package? with
  | none => ""
  | some p => p.element.name.dotted

end JavaRefit
