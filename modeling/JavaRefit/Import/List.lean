/-
Adding imports to a file and taking them away.

A new import comes in front of the first import of a class with a greater
name, on a line of its own. The trivia in front of the first import stays
in front of whatever is first afterwards; in a file without a package
that can be the first class.

Chain: after the tree layer; `Delta` decides which imports a change
needs.
-/
import JavaRefit.Tree.Edited
import JavaRefit.Tree.Walk

namespace JavaRefit

namespace Import

/-- An import of the one class named `fqn`. -/
def isOf (fqn : String) (i : Import) : Bool :=
  !i.isStatic && !i.isWildcard && i.typeName == fqn

/-- An import in front of which an import of `fqn` is put. -/
def isAfter (fqn : String) (i : Import) : Bool :=
  !i.isStatic && decide (fqn < i.typeName)

/-- The import of a class. -/
def ofClass (lead : Trivia) (fqn : String) : Import :=
  ⟨lead, none, (Name.ofDotted fqn).withLead " "⟩

/-- Other trivia in front of the first import of a list. -/
def withFirstLead (lead : Trivia) : List (RightPadded Import) →
    List (RightPadded Import)
  | [] => []
  | p :: ps => { p with element := { p.element with lead } } :: ps

/-- The list with a new import in its place. -/
def insert (fqn : String) (imports : List (RightPadded Import)) :
    List (RightPadded Import) :=
  match imports.findIdx? fun p => p.element.isAfter fqn with
  | none => imports ++ [⟨ofClass "\n" fqn, ""⟩]
  | some 0 =>
    match imports with
    | [] => [⟨ofClass "\n" fqn, ""⟩]
    | p :: ps =>
      ⟨ofClass p.element.lead fqn, ""⟩ ::
        { p with element := { p.element with lead := "\n" } } :: ps
  | some (n + 1) => imports.insertIdx (n + 1) ⟨ofClass "\n" fqn, ""⟩

end Import

namespace CompilationUnit

/-- The file with other trivia in front of its first class. -/
def withFirstClassLead (cu : CompilationUnit) (lead : Trivia → Trivia) :
    CompilationUnit :=
  match cu.classes with
  | [] => cu
  | c :: cs => { cu with classes := { c with lead := lead c.lead } :: cs }

/-- What the first class gets in front when an import comes to stand before
it. -/
def separateFromImport (lead : Trivia) : Trivia :=
  if lead.toList.contains '\n' then lead else "\n\n" ++ lead

/-- The file with an import of a class more. -/
def addImport (cu : CompilationUnit) (fqn : String) : CompilationUnit :=
  match cu.imports, cu.package? with
  | [], some _ => { cu with imports := [⟨.ofClass "\n\n" fqn, ""⟩] }
  | [], none =>
    { cu with imports := [⟨.ofClass "" fqn, ""⟩] }.withFirstClassLead
      separateFromImport
  | imports, _ => { cu with imports := Import.insert fqn imports }

/-- The file without its first import of a class, if it has one. -/
def removeImport? (cu : CompilationUnit) (fqn : String) :
    Option CompilationUnit :=
  match cu.imports.findIdx? fun p => p.element.isOf fqn with
  | none => none
  | some n =>
    let rest := cu.imports.eraseIdx n
    let lead := match cu.imports[n]? with
      | some p => p.element.lead
      | none => ""
    if rest.isEmpty then
      let without := { cu with imports := rest }
      some (if cu.package?.isNone then without.withFirstClassLead fun _ =>
        lead else without)
    else if n =
      0 then some { cu with imports := Import.withFirstLead lead rest }
    else some { cu with imports := rest }

/-- The file without its first import of a class. -/
def removeImport {ω : Type} (cu : CompilationUnit) (fqn : String) :
    Edited ω CompilationUnit :=
  match cu.removeImport? fqn with
  | some cu' => .replace cu'
  | none => .keep cu

end CompilationUnit

end JavaRefit
