/-
What is known of classes: their kind, supertypes and signatures, all by
name.

A class path is a list of such declarations, the ones that count first;
a declaration hides every later one of its name.

Chain: after `JavaType`; `Types` makes class types of declarations,
`Stub` reads declarations from documents.
-/
import JavaRefit.JavaType

namespace JavaRefit

/-- The declared signature of a method or constructor. Types are fully
qualified names, keywords, or such with `[]` after them. -/
structure MethodInfo where
  name : String
  params : List String
  returns : Option String
  throws : List String
deriving DecidableEq, Repr

/-- A declared class or interface. -/
structure ClassInfo where
  fqn : String
  kind : ClassKind
  supertype : Option String
  interfaces : List String
  methods : List MethodInfo
  constructors : List MethodInfo
deriving DecidableEq, Repr

/-- The class every class without another superclass extends. -/
def objectName : String := "java.lang.Object"

/-- The declared classes, those that count first. -/
structure ClassPath where
  infos : List ClassInfo

namespace ClassPath

/-- The class path of a list of declarations, of which the later count before
the earlier. -/
def ofList (infos : List ClassInfo) : ClassPath := ⟨infos.reverse⟩

/-- The class path with more declarations, which count before those it has. -/
def extend (cp : ClassPath) (infos : List ClassInfo) : ClassPath :=
  ⟨infos.reverse ++ cp.infos⟩

/-- The declaration of a name. -/
def info? (cp : ClassPath) (fqn : String) : Option ClassInfo :=
  cp.infos.find? fun i => i.fqn == fqn

/-- Some declaration has the name. -/
def contains (cp : ClassPath) (fqn : String) : Bool :=
  cp.infos.any fun i => i.fqn == fqn

/-- Some declaration has the simple name in the package. -/
def packageHas (cp : ClassPath) (package simple : String) : Bool :=
  cp.contains (Text.qualify package simple)

/-- The names declared. -/
def names (cp : ClassPath) : List String :=
  cp.infos.map ClassInfo.fqn

theorem info?_isSome (cp : ClassPath) (fqn : String) :
    (cp.info? fqn).isSome = cp.contains fqn := by
  rw [Bool.eq_iff_iff]
  simp [info?, contains, List.find?_isSome]

@[simp] theorem contains_extend (cp : ClassPath) (infos : List ClassInfo)
    (fqn : String) :
    (cp.extend infos).contains fqn =
      (infos.any (fun i => i.fqn == fqn) || cp.contains fqn) := by
  simp [extend, contains]

end ClassPath

end JavaRefit
