/-
Changes of imports do not look at trivia.

They move trivia around: the first import keeps what was in front of the
one before it, and so does the first class. Which import goes, which
comes and where it comes to stand is read off the words and types of the
file, so files that are the same without trivia stay the same.

Chain: after `BlankWalk` and `BlankEdit`; the catch rule changes imports
last.
-/
import Mathlib.Data.List.InsertIdx
import JavaRefit.Import.Delta
import JavaRefit.Proofs.Attribution.Blank
import JavaRefit.Proofs.Tree.BlankEdit
import JavaRefit.Proofs.Tree.BlankWalk

namespace JavaRefit

variable {ω : Type}

-- ========================================================== one import

namespace Import

variable (fqn : String) (i : Import)

@[simp] theorem isOf_blank : i.blank.isOf fqn = i.isOf fqn := by
  simp [isOf]

@[simp] theorem isAfter_blank : i.blank.isAfter fqn = i.isAfter fqn := by
  simp [isAfter]

@[simp] theorem shows_blank : i.blank.shows fqn = i.shows fqn := by
  simp [shows]

@[simp] theorem isBare_blank : i.blank.isBare = i.isBare := by
  simp [isBare]

end Import

-- ============================================================ one node

/-- Whether a node refers to a class is no matter of trivia. -/
theorem Node.simpleReference?_blank (n : Node) :
    n.blank.simpleReference? = n.simpleReference? := by
  cases n with
  | name n =>
      cases n with
      | simple i type =>
          cases type with
          | none => rfl
          | some t => cases t <;> rfl
      | qualified => rfl
  | expr e =>
      cases e with
      | ident i type =>
          cases type with
          | none => rfl
          | some t => cases t <;> rfl
      | call => rw [blank, Expr.blank_call]; rfl
      | new => rw [blank, Expr.blank_new]; rfl
      | access | literal | assign | binary | unary | parens => rfl
  | _ => rfl

/-- The node is the declaration of a class of some simple name. -/
def Node.declares (simple : String) : Node → Bool
  | .classDecl c => c.name.last == simple
  | _ => false

@[simp] theorem Node.declares_blank (simple : String) (n : Node) :
    n.blank.declares simple = n.declares simple := by
  cases n with
  | classDecl c =>
      rw [blank, declares, declares, ClassDecl.blank_eq, Name.last_blank]
  | _ => rfl

-- ========================================================= the imports

/-- Imports that are the same without trivia. -/
abbrev ImportsAlike : List (RightPadded Import) →
    List (RightPadded Import) → Prop :=
  Alike (List.map (RightPadded.blank Import.blank))

namespace ImportsAlike

variable {is is' : List (RightPadded Import)}

/-- Imports that are alike are asked alike. -/
theorem any_eq {q : Import → Bool} (hq : ∀ i, q i.blank = q i)
    (h : ImportsAlike is is') :
    (is.any fun p => q p.element) = is'.any fun p => q p.element := by
  refine h.answer_eq (q := fun is => is.any fun p => q p.element) fun is => ?_
  rw [List.any_map]
  exact congrArg is.any (funext fun p => hq p.element)

/-- The first import that fits is found at the same place. -/
theorem findIdx?_eq {q : Import → Bool} (hq : ∀ i, q i.blank = q i)
    (h : ImportsAlike is is') :
    (is.findIdx? fun p => q p.element) = is'.findIdx? fun p => q p.element := by
  refine h.answer_eq (q := fun is => is.findIdx? fun p => q p.element)
    fun is => ?_
  rw [List.findIdx?_map]
  exact congrArg is.findIdx? (funext fun p => hq p.element)

/-- The imports before it are alike. -/
theorem takeWhile {q : Import → Bool} (hq : ∀ i, q i.blank = q i)
    (h : ImportsAlike is is') :
    ImportsAlike (is.takeWhile fun p => q p.element)
      (is'.takeWhile fun p => q p.element) := by
  have htake (is : List (RightPadded Import)) :
      (is.takeWhile fun p => q p.element).map (RightPadded.blank Import.blank) =
        (is.map (RightPadded.blank Import.blank)).takeWhile fun p =>
          q p.element := by
    rw [List.takeWhile_map]
    exact congrArg (fun q => (is.takeWhile q).map _)
      (funext fun p => (hq p.element).symm)
  rw [ImportsAlike, Alike, htake, htake, h]

/-- An import is put in at the same place. -/
theorem insert (fqn : String) (h : ImportsAlike is is') :
    ImportsAlike (Import.insert fqn is) (Import.insert fqn is') := by
  unfold Import.insert
  rw [findIdx?_eq (Import.isAfter_blank fqn) h]
  cases is'.findIdx? fun p => p.element.isAfter fqn with
  | none =>
      dsimp only
      rw [ImportsAlike, Alike, List.map_append, List.map_append, h]
  | some n =>
      cases n with
      | zero =>
          cases is <;> cases is'
          · rfl
          · cases h
          · cases h
          · obtain ⟨hp, hps⟩ := List.cons.inj h
            exact congrArg₂ (fun p ps => _ :: p :: ps) hp hps
      | succ n =>
          dsimp only
          rw [ImportsAlike, Alike, List.map_insertIdx, List.map_insertIdx, h]

theorem eraseIdx (n : Nat) (h : ImportsAlike is is') :
    ImportsAlike (is.eraseIdx n) (is'.eraseIdx n) := by
  rw [ImportsAlike, Alike, ← List.eraseIdx_map, ← List.eraseIdx_map, h]

theorem withFirstLead (lead lead' : Trivia) (h : ImportsAlike is is') :
    ImportsAlike (Import.withFirstLead lead is)
      (Import.withFirstLead lead' is') := by
  cases is <;> cases is'
  · rfl
  · cases h
  · cases h
  · obtain ⟨hp, hps⟩ := List.cons.inj h
    exact congrArg₂ List.cons hp hps

end ImportsAlike

-- ================================================================ files

namespace CompilationUnit

variable {cu cu' : CompilationUnit}

/-- Files are alike iff their parts are. -/
theorem alike_iff : Alike blank cu cu' ↔
    Alike (Option.map (.blank Package.blank)) cu.package? cu'.package? ∧
      ImportsAlike cu.imports cu'.imports ∧
      Alike (List.map ClassDecl.blank) cu.classes cu'.classes ∧
      cu.path = cu'.path := by
  rw [Alike, blank_eq, blank_eq, mk.injEq]
  tauto

/-- Files that are alike may be given imports that are. -/
theorem alike_withImports {is is' : List (RightPadded Import)}
    (h : Alike blank cu cu') (his : ImportsAlike is is') :
    Alike blank { cu with imports := is } { cu' with imports := is' } := by
  obtain ⟨hpackage, -, hclasses, hpath⟩ := alike_iff.1 h
  exact alike_iff.2 ⟨hpackage, his, hclasses, hpath⟩

/-- The trivia before the first class is no matter. -/
theorem blank_withFirstClassLead (lead : Trivia → Trivia) :
    (cu.withFirstClassLead lead).blank = cu.blank := by
  unfold withFirstClassLead
  split
  · rfl
  · next c cs hclasses =>
    rw [blank_eq, blank_eq, hclasses, List.map_cons, List.map_cons,
      ClassDecl.blank_eq, ClassDecl.blank_eq c]

/-- An import is added to files that are alike. -/
theorem alike_addImport (fqn : String) (h : Alike blank cu cu') :
    Alike blank (cu.addImport fqn) (cu'.addImport fqn) := by
  obtain ⟨hpackage, himports, -⟩ := alike_iff.1 h
  obtain ⟨lead, package?, imports, classes, close, path⟩ := cu
  obtain ⟨lead', package?', imports', classes', close', path'⟩ := cu'
  cases imports <;> cases imports'
  · cases package? <;> cases package?'
    · rw [addImport, addImport, Alike, blank_withFirstClassLead,
        blank_withFirstClassLead]
      exact alike_withImports h rfl
    · cases hpackage
    · cases hpackage
    · exact alike_withImports h rfl
  · cases himports
  · cases himports
  · exact alike_withImports h (himports.insert fqn)

/-- An import is removed from files that are alike. -/
theorem alike_removeImport? (fqn : String) (h : Alike blank cu cu') :
    Alike (Option.map blank) (cu.removeImport? fqn)
      (cu'.removeImport? fqn) := by
  obtain ⟨hpackage, himports, -⟩ := alike_iff.1 h
  have hnone : cu.package?.isNone = cu'.package?.isNone := by
    rw [← Option.isNone_map, show cu.package?.map _ = _ from hpackage,
      Option.isNone_map]
  unfold removeImport?
  rw [himports.findIdx?_eq (Import.isOf_blank fqn), hnone]
  cases cu'.imports.findIdx? fun p => p.element.isOf fqn with
  | none => rfl
  | some n =>
      have hrest := himports.eraseIdx n
      have hempty : (cu.imports.eraseIdx n).isEmpty =
          (cu'.imports.eraseIdx n).isEmpty := by
        rw [← List.isEmpty_map,
          show (cu.imports.eraseIdx n).map _ = _ from hrest, List.isEmpty_map]
      have hwithout := alike_withImports h hrest
      dsimp only
      rw [hempty]
      split
      · split
        · refine congrArg some ?_
          rw [blank_withFirstClassLead, blank_withFirstClassLead]
          exact hwithout
        · exact congrArg some hwithout
      · split
        · exact congrArg some (alike_withImports h (hrest.withFirstLead _ _))
        · exact congrArg some hwithout

/-- Removing an import does not look at trivia. -/
theorem ignores_removeImport (fqn : String) :
    Ignores blank fun cu =>
      (cu.removeImport fqn : Edited ω CompilationUnit) := by
  intro cu cu' h
  have hremove := alike_removeImport? fqn h
  dsimp only
  unfold removeImport
  cases hcu : cu.removeImport? fqn <;> cases hcu' : cu'.removeImport? fqn <;>
    rw [hcu, hcu'] at hremove
  · exact .keep h
  · cases hremove
  · cases hremove
  · exact .replace (Option.some.inj hremove)

-- ============================================================= questions

@[simp] theorem isHome_blank (cu : CompilationUnit) (fqn : String) :
    cu.blank.isHome fqn = cu.isHome fqn := by
  rw [isHome, isHome, packageName_blank]

/-- What a file sees is no matter of trivia. -/
theorem sees_eq (fqn : String) (h : Alike blank cu cu') :
    cu.sees fqn = cu'.sees fqn := by
  rw [sees, sees,
    h.answer_eq (q := fun cu => cu.isHome fqn) (isHome_blank · fqn),
    (alike_iff.1 h).2.1.any_eq (Import.shows_blank fqn)]

/-- What a file asks for in vain is no matter of trivia. -/
theorem asksInVain_eq (fqn : String) (h : Alike blank cu cu') :
    cu.asksInVain fqn = cu'.asksInVain fqn := by
  have himports := (alike_iff.1 h).2.1
  rw [asksInVain, asksInVain,
    h.answer_eq (q := fun cu => cu.isHome fqn) (isHome_blank · fqn),
    (himports.takeWhile (q := fun i => !i.shows fqn) fun i => by simp).any_eq
      Import.isBare_blank]

theorem importsOther_eq (fqn : String) (h : Alike blank cu cu') :
    cu.importsOther fqn = cu'.importsOther fqn :=
  (alike_iff.1 h).2.1.any_eq (q := fun i =>
    !i.isStatic && !i.isWildcard && i.className ==
      Text.simpleName fqn && i.typeName != fqn)
    fun i => by simp

/-- The walks of the classes of a blank file. -/
theorem walks_blank (cu : CompilationUnit) :
    cu.blank.classes.flatMap ClassDecl.walk =
    (cu.classes.flatMap ClassDecl.walk).map Node.blank := by
  rw [blank_eq]
  exact flatMap_blank fun c _ => c.walk_blank

/-- The classes a file refers to are no matter of trivia. -/
theorem simpleReferences_blank (cu : CompilationUnit) :
    cu.blank.simpleReferences = cu.simpleReferences := by
  unfold simpleReferences
  rw [walks_blank, List.filterMap_map]
  exact congrArg (fun f =>
    NameSet.ofList ((cu.classes.flatMap ClassDecl.walk).filterMap f))
    (funext Node.simpleReference?_blank)

/-- The file declares a class of some simple name. -/
def declares (cu : CompilationUnit) (simple : String) : Bool :=
  cu.classes.any fun c => c.walk.any (Node.declares simple)

/-- The names a file declares are no matter of trivia. -/
theorem declares_blank (cu : CompilationUnit) (simple : String) :
    cu.blank.declares simple = cu.declares simple := by
  rw [declares, declares, ← List.any_flatMap, walks_blank, List.any_map,
    ← List.any_flatMap]
  exact congrArg (List.any _) (funext (Node.declares_blank simple))

/-- A simple name is taken by another import, a class of the file or one of its
package. -/
theorem simpleNameTaken_eq_or (cu : CompilationUnit) (fqn : String)
    (cp : Option ClassPath) : cu.simpleNameTaken fqn cp =
      (cu.importsOther fqn || cu.declares (Text.simpleName fqn) ||
        match cp with
        | none => false
        | some cp => cu.packageName != Text.packageName fqn &&
            cp.packageHas cu.packageName (Text.simpleName fqn)) := rfl

/-- Whether a simple name is taken is no matter of trivia. -/
theorem simpleNameTaken_eq (fqn : String) (cp : Option ClassPath)
    (h : Alike blank cu cu') :
    cu.simpleNameTaken fqn cp = cu'.simpleNameTaken fqn cp := by
  have hdeclares :
      cu.declares (Text.simpleName fqn) = cu'.declares (Text.simpleName fqn) :=
    h.answer_eq (q := (declares · (Text.simpleName fqn))) (declares_blank · _)
  rw [simpleNameTaken_eq_or, simpleNameTaken_eq_or, importsOther_eq fqn h,
    h.answer_eq packageName_blank, hdeclares]

-- =============================================================== changes

/-- Bringing an import does not look at trivia. -/
theorem ignores_bringImport (references : NameSet) (fqn : String) :
    Ignores blank (bringImport references fqn : CompilationUnit →
      Edited ω CompilationUnit) := by
  intro cu cu' h
  unfold bringImport
  rw [sees_eq fqn h, importsOther_eq fqn h]
  split
  · exact .replace (alike_addImport fqn h)
  · exact .keep h

/-- Dropping imports does not look at trivia. -/
theorem ignores_dropImports (references removed : NameSet) :
    Ignores blank fun cu =>
      (cu.dropImports references removed : Edited ω CompilationUnit) := by
  refine Ignores.foldl (fun fqn cu cu' h => ?_) removed
  split
  · exact .keep h
  · exact ignores_removeImport fqn cu cu' h

/-- Bringing imports does not look at trivia. -/
theorem ignores_bringImports (references added : NameSet) :
    Ignores blank fun cu =>
      (cu.bringImports references added : Edited ω CompilationUnit) :=
  Ignores.foldl (ignores_bringImport references) added

/-- A change does the same to the imports of files that are the same without
trivia. -/
theorem ignores_applyDelta (d : ImportDelta) :
    Ignores blank fun cu => (cu.applyDelta d : Edited ω CompilationUnit) := by
  intro cu cu' h
  dsimp only
  rw [applyDelta, applyDelta, h.answer_eq simpleReferences_blank]
  exact .andThen (ignores_dropImports _ _ _ _ h) (ignores_bringImports _ _)

/-- Which imports are brought in vain is no matter of trivia. -/
theorem bringsInVain_eq (references added : NameSet) (h : Alike blank cu cu') :
    bringsInVain references added cu = bringsInVain references added cu' := by
  induction added generalizing cu cu' with
  | nil => rfl
  | cons fqn added ih =>
      rw [bringsInVain, bringsInVain, asksInVain_eq fqn h,
        ih (ignores_bringImport references fqn _ _ h).value]

end CompilationUnit

end JavaRefit
