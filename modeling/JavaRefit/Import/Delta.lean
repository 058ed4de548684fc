/-
Which imports a change of a file asks for, and which it gets.

A delta names classes that are referred to now, or may be no longer. One
loses its import only when nothing outside the imports refers to it by
its simple name; it gets one only when something does, when the class is
not visible anyway, and when its simple name is not that of another
imported class.

No file that was read imports a bare `*`, but one that was edited can. It
names no package, so whether it shows a class cannot be told; a change
that comes to ask for that cannot be applied.

Chain: after `List`; read by the catch rule.
-/
import JavaRefit.ClassPath.Basic
import JavaRefit.Import.List
import JavaRefit.Json.Basic

namespace JavaRefit

-- ========================================================== sets of names

/-- A set of names, as a list in the order of their code points without
repetition. -/
abbrev NameSet := List String

namespace NameSet

/-- The set with one name more. -/
def insert (name : String) : NameSet → NameSet
  | [] => [name]
  | n :: ns =>
    if name = n then n :: ns
    else if name < n then name :: n :: ns
    else n :: insert name ns

/-- The set of the names in a list. -/
def ofList (names : List String) : NameSet :=
  names.foldr insert []

/-- The names of both sets. -/
def union (a b : NameSet) : NameSet :=
  a.foldr insert b

theorem mem_insert {name x : String} {s : NameSet} : x ∈ insert name s ↔
    x = name ∨ x ∈ s := by
  induction s with
  | nil => simp [insert]
  | cons n ns ih =>
    simp only [insert]
    split
    · simp_all
    · split <;> simp_all [or_left_comm]

end NameSet

-- ================================================================ deltas

/-- The classes that a change starts to refer to, and those it may have stopped
to. -/
structure ImportDelta where
  added : NameSet
  removed : NameSet
deriving DecidableEq, Repr

namespace ImportDelta

/-- Nothing changes. -/
def empty : ImportDelta := ⟨[], []⟩

/-- The change of some classes by their names. -/
def of (added removed : List String) : ImportDelta :=
  ⟨NameSet.ofList added, NameSet.ofList removed⟩

/-- Both changes. -/
def merge (a b : ImportDelta) : ImportDelta :=
  ⟨NameSet.union a.added b.added, NameSet.union a.removed b.removed⟩

def isEmpty (d : ImportDelta) : Bool :=
  d.added.isEmpty && d.removed.isEmpty

def toJson (d : ImportDelta) : Json :=
  .obj [("added", .ofTexts d.added), ("removed", .ofTexts d.removed)]

end ImportDelta

-- =============================================================== questions

/-- The class that a node refers to by its simple name. -/
def Node.simpleReference? : Node → Option String
  | .name (.simple i (some (.reference c))) =>
      if i.name = c.simpleName then some c.fqn else none
  | .expr (.ident i (some (.reference c))) =>
      if i.name = c.simpleName then some c.fqn else none
  | _ => none

namespace Import

/-- The import lets the class be referred to by its simple name. -/
def shows (fqn : String) (i : Import) : Bool :=
  !i.isStatic &&
    (i.typeName == fqn || (i.isWildcard && i.packageName? ==
      some (Text.packageName fqn)))

/-- The import is of a bare `*`. -/
def isBare (i : Import) : Bool :=
  !i.isStatic && i.isWildcard && i.packageName?.isNone

end Import

namespace CompilationUnit

/-- The classes that a file refers to by their simple names, imports aside. -/
def simpleReferences (cu : CompilationUnit) : NameSet :=
  NameSet.ofList ((cu.classes.flatMap ClassDecl.walk).filterMap
    Node.simpleReference?)

/-- The class belongs to a package that needs no import. -/
def isHome (cu : CompilationUnit) (fqn : String) : Bool :=
  let package := Text.packageName fqn
  package == "java.lang" || package == cu.packageName

/-- The class can be referred to by its simple name without an import of its
own. -/
def sees (cu : CompilationUnit) (fqn : String) : Bool :=
  cu.isHome fqn || cu.imports.any fun p => p.element.shows fqn

/-- Whether the class can be seen cannot be told: an import of a bare `*` comes
before every import that shows it. -/
def asksInVain (cu : CompilationUnit) (fqn : String) : Bool :=
  !cu.isHome fqn &&
    (cu.imports.takeWhile fun p => !p.element.shows fqn).any fun p =>
      p.element.isBare

/-- The simple name of the class is imported as that of another one. -/
def importsOther (cu : CompilationUnit) (fqn : String) : Bool :=
  cu.imports.any fun p =>
    let i := p.element
    !i.isStatic && !i.isWildcard && i.className ==
      Text.simpleName fqn && i.typeName != fqn

/-- The simple name of the class means another one in the file: one that is
imported, one declared in the file, or, where a class path is given, one of the
file's own package. -/
def simpleNameTaken (cu : CompilationUnit) (fqn : String)
    (cp : Option ClassPath) : Bool :=
  let simple := Text.simpleName fqn
  let declares : Node → Bool
    | .classDecl c => c.name.last == simple
    | _ => false
  cu.importsOther fqn || cu.classes.any (fun c => c.walk.any declares) ||
    match cp with
    | none => false
    | some cp =>
      cu.packageName != Text.packageName fqn &&
        cp.packageHas cu.packageName simple

-- ============================================================ application

/-- The file without the imports that a change leaves unused. -/
def dropImports {ω : Type} (cu : CompilationUnit)
    (references removed : NameSet) : Edited ω CompilationUnit :=
  removed.foldl
    (fun e fqn => e.andThen fun cu =>
      if references.contains fqn then .keep cu else cu.removeImport fqn)
    (.keep cu)

/-- The file with the import of a class, if it needs one. -/
def bringImport {ω : Type} (references : NameSet) (fqn : String)
    (cu : CompilationUnit) : Edited ω CompilationUnit :=
  if references.contains fqn && !cu.sees fqn && !cu.importsOther fqn then
    .replace (cu.addImport fqn)
  else .keep cu

/-- The file with the imports that a change needs. -/
def bringImports {ω : Type} (cu : CompilationUnit)
    (references added : NameSet) : Edited ω CompilationUnit :=
  added.foldl (fun e fqn => e.andThen (bringImport references fqn)) (.keep cu)

/-- The file with its imports brought in line with a change that its classes
went through. -/
def applyDelta {ω : Type} (cu : CompilationUnit) (d : ImportDelta) :
    Edited ω CompilationUnit :=
  let references := cu.simpleReferences
  (cu.dropImports references d.removed).andThen fun cu =>
    cu.bringImports references d.added

/-- While its imports are brought, the file comes to be asked in vain whether
it sees a class. -/
def bringsInVain (references : NameSet) : NameSet → CompilationUnit → Bool
  | [], _ => false
  | fqn :: added, cu =>
    (references.contains fqn && cu.asksInVain fqn) ||
      bringsInVain references added
        (bringImport references fqn cu : Edited Empty CompilationUnit).value

/-- Why a change of imports cannot be applied: an import has no package to be
asked for. -/
inductive DeltaError where
  | importWithoutPackage
deriving DecidableEq, Repr

/-- The file brought in line with a change, unless that asks in vain. -/
def applyDelta? {ω : Type} (cu : CompilationUnit) (d : ImportDelta) :
    Except DeltaError (Edited ω CompilationUnit) :=
  let references := cu.simpleReferences
  let dropped : Edited Empty CompilationUnit :=
    cu.dropImports references d.removed
  if bringsInVain references d.added dropped.value
    then .error .importWithoutPackage
  else .ok (cu.applyDelta d)

end CompilationUnit

end JavaRefit
