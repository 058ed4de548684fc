/-
Changes of imports in a row.

Imports are put in, taken out and brought in line, one change after the
other. What one import more and one import less leave true of a file, a
whole run does (`changeImports?_induction`). So a file that was read keeps
starting with no trivia in front of its first part, whatever comes to be
that part: this is what it takes that an import that is put in and taken
out again leaves no trace.

Chain: after `Again` and `Layout`; the order of the imports and the text
of the file are followed along runs.
-/
import JavaRefit.Proofs.Grammar.Words
import JavaRefit.Proofs.Import.Again
import JavaRefit.Proofs.Import.Layout

namespace JavaRefit

-- ================================================================== names

theorem Name.getLast?_dotted {n : Name} (h : n.last = "*") :
    n.dotted.toList.getLast? = some '*' := by
  cases n with
  | simple i type =>
      have hi : i.name = "*" := h
      rw [dotted, hi]
      rfl
  | qualified lead outer last type =>
      have hlast : last.element.name = "*" := h
      rw [dotted, hlast, String.toList_append]
      exact List.getLast?_concat

namespace Import

variable {fqn : String}

/-- An import of a name that does not end in a star is of a class. -/
theorem isOf_iff {i : Import} (hfqn : fqn.toList.getLast? ≠ some '*') :
    i.isOf fqn = true ↔ i.isStatic = false ∧ i.typeName = fqn := by
  rw [isOf, Bool.and_eq_true, Bool.and_eq_true, Bool.not_eq_true',
    Bool.not_eq_true', beq_iff_eq, and_assoc]
  refine and_congr_right fun _ => and_iff_right_of_imp fun hname => ?_
  rw [isWildcard, beq_eq_false_iff_ne]
  exact fun hstar => hfqn (hname ▸ Name.getLast?_dotted hstar)

theorem isOf_ofClass_self (hfqn : fqn.toList.getLast? ≠ some '*')
    (lead : Trivia) : (ofClass lead fqn).isOf fqn = true :=
  (isOf_iff hfqn).2 ⟨rfl, typeName_ofClass lead fqn⟩

end Import

-- =================================================================== runs

/-- A change of the imports of a file. -/
inductive ImportChange where
  | add (fqn : String)
  | remove (fqn : String)
  | apply (delta : ImportDelta)
deriving DecidableEq, Repr

open CompilationUnit (DeltaError)

namespace ImportChange

/-- The classes that the change names. -/
def names : ImportChange → List String
  | add fqn => [fqn]
  | remove fqn => [fqn]
  | apply d => d.added ++ d.removed

/-- The file after the change, where that can be made. -/
def make? (cu : CompilationUnit) :
    ImportChange → Except DeltaError CompilationUnit
  | add fqn => .ok (cu.addImport fqn)
  | remove fqn => .ok (cu.removeImport fqn : Edited Empty CompilationUnit).value
  | apply d =>
      (cu.applyDelta? d : Except DeltaError (Edited Empty CompilationUnit)).map
        Edited.value

/-- What a new import and an import less leave true of a file, a change does. -/
theorem make?_induction {P : CompilationUnit → Prop} {c : ImportChange}
    (hadd : ∀ cu, ∀ fqn ∈ c.names, P cu → P (cu.addImport fqn))
    (hremove : ∀ cu cu' fqn, cu.removeImport? fqn = some cu' → P cu → P cu')
    {cu cu' : CompilationUnit} (h : P cu) (hmake : c.make? cu = .ok cu') :
    P cu' := by
  cases c with
  | add fqn =>
      obtain rfl := Except.ok.inj hmake
      exact hadd cu fqn List.mem_cons_self h
  | remove fqn =>
      obtain rfl := Except.ok.inj hmake
      rw [CompilationUnit.removeImport]
      split
      · next hsome => exact hremove cu _ fqn hsome h
      · exact h
  | apply d =>
      rw [make?] at hmake
      cases he : (cu.applyDelta? d :
        Except DeltaError (Edited Empty CompilationUnit)) with
      | error e => rw [he] at hmake; cases hmake
      | ok e =>
          rw [he] at hmake
          obtain rfl := Except.ok.inj hmake
          rw [CompilationUnit.applyDelta?_eq_ok he]
          exact CompilationUnit.applyDelta_induction
            (fun cu fqn hfqn => hadd cu fqn (List.mem_append_left _ hfqn))
              hremove h

end ImportChange

namespace CompilationUnit

/-- The file after some changes of its imports, where they can be made. -/
def changeImports? (cu : CompilationUnit) (changes : List ImportChange) :
    Except DeltaError CompilationUnit :=
  changes.foldlM ImportChange.make? cu

variable {cu cu' : CompilationUnit} {changes : List ImportChange}

theorem changeImports?_cons_eq_ok {c : ImportChange} :
    cu.changeImports? (c :: changes) = .ok cu' ↔
      ∃ next, c.make? cu = .ok next ∧
      next.changeImports? changes = .ok cu' := by
  rw [changeImports?, List.foldlM_cons]
  cases h : c.make? cu with
  | error e => exact iff_of_false nofun fun ⟨_, hmake, _⟩ => nomatch hmake
  | ok next =>
      constructor
      · exact fun hrun => ⟨next, rfl, hrun⟩
      · rintro ⟨_, hmake, hrun⟩
        exact Except.ok.inj hmake ▸ hrun

/-- What a new import and an import less leave true of a file, a run of changes
does. -/
theorem changeImports?_induction {P : CompilationUnit → Prop}
    (hadd : ∀ cu, ∀ c ∈ changes, ∀ fqn ∈ c.names, P cu → P (cu.addImport fqn))
    (hremove : ∀ cu cu' fqn, cu.removeImport? fqn = some cu' → P cu → P cu')
    (h : P cu) (hrun : cu.changeImports? changes = .ok cu') : P cu' := by
  induction changes generalizing cu with
  | nil => exact Except.ok.inj hrun ▸ h
  | cons c changes ih =>
      obtain ⟨next, hmake, hrun⟩ := changeImports?_cons_eq_ok.1 hrun
      refine ih (fun cu c hc => hadd cu c (List.mem_cons_of_mem _ hc)) ?_ hrun
      exact ImportChange.make?_induction (fun cu =>
        hadd cu c List.mem_cons_self) hremove h hmake

-- ====================================================== in and out again

/-- Where no trivia is in front of the first class of a file with no other
part, an import that is put in and taken out again leaves the file that was
there. -/
theorem removeImport?_addImport {fqn : String}
    (hfqn : fqn.toList.getLast? ≠ some '*')
    (hfirst : cu.package? = none → cu.imports = [] → ∀ c ∈ cu.classes.head?,
      c.lead = "") (hnew : ∀ p ∈ cu.imports, p.element.isOf fqn = false) :
    (cu.addImport fqn).removeImport? fqn = some cu := by
  have hof (lead : Trivia) := Import.isOf_ofClass_self hfqn lead
  have hnone := List.forall_mem_nil fun q : RightPadded Import =>
    q.element.isOf fqn = false
  obtain ⟨lead, package?, imports, classes, close, path⟩ := cu
  cases imports with
  | nil =>
      cases package? with
      | some p =>
          rw [addImport, removeImport?_of_split [] rfl hnone (hof _)]; rfl
      | none =>
          cases classes with
          | nil =>
              rw [addImport, removeImport?_of_split [] rfl hnone (hof _)]; rfl
          | cons c cs =>
              obtain ⟨clead, ms, kindLead, kind, name, extends?, implements?,
                  body, type⟩ := c
              obtain rfl : clead = "" := hfirst rfl rfl _ rfl
              rw [addImport, removeImport?_of_split [] rfl hnone (hof _)]
              rfl
  | cons p ps =>
      have hadd : addImport ⟨lead, package?, p :: ps, classes,
          close, path⟩ fqn =
          ⟨lead, package?, Import.insert fqn (p :: ps), classes, close,
            path⟩ := rfl
      rw [hadd]
      rcases Import.insert_cases fqn p ps
        with ⟨-, hinsert⟩ | ⟨before, after, rfl, -, -, hinsert⟩
      · rw [hinsert, removeImport?_of_split [] rfl hnone (hof _)]
        rfl
      · rw [hinsert, removeImport?_of_split (p :: before) rfl ?_ (hof _)]
        · rfl
        · exact fun q hq => hnew q (List.mem_append_left after hq)

/-- A file that was read starts bare, and so it does after any changes of its
imports. -/
theorem startsBare_of_changeImports? {source : String} {path : Option String}
    (h : cu.IsReadFrom source path)
    (hrun : cu.changeImports? changes = .ok cu') : cu'.StartsBare :=
  changeImports?_induction (P := StartsBare)
    (fun _ _ _ fqn _ h => h.addImport fqn)
    (fun _ _ _ hremove h => h.of_removeImport? hremove)
      (isLaidOut_of_parseTree h.untyped).first hrun

/-- In a file that was read and whose imports were changed, an import that is
put in and taken out again leaves the file that was there, if no import of a
class had that name. -/
theorem removeImport_addImport {ω : Type} {source : String}
    {path : Option String} (h : cu.IsReadFrom source path)
    (hrun : cu.changeImports? changes = .ok cu') {fqn : String}
    (hfqn : fqn.toList.getLast? ≠ some '*')
    (hnew : ∀ p ∈ cu'.imports, p.element.isStatic = false →
      p.element.typeName ≠ fqn) :
    ((cu'.addImport fqn).removeImport fqn : Edited ω CompilationUnit) =
      .replace cu' := by
  have hbare := startsBare_of_changeImports? h hrun
  have hgone : (cu'.addImport fqn).removeImport? fqn = some cu' := by
    refine removeImport?_addImport hfqn (fun hpackage himports c hc =>
      hbare c.lead ?_) fun p hp => ?_
    · rw [leads_of_package?_eq_none hpackage, himports, List.map_nil,
        List.nil_append, List.head?_map]
      exact Option.mem_map_of_mem ClassDecl.lead hc
    · rw [← Bool.not_eq_true, Import.isOf_iff hfqn]
      exact fun ⟨hstatic, hname⟩ => hnew p hp hstatic hname
  rw [removeImport, hgone]

/-- A class behind a comment. -/
def sampleBare : String :=
  "/*c*/class A\x7b\x7d"

/-- The file after an import has come and gone. -/
def thereAndBack (cu : CompilationUnit) : CompilationUnit :=
  ((cu.addImport "p.B").removeImport "p.B" : Edited Empty CompilationUnit).value

/-- Where the only import goes and one comes and goes again, the first class
gets blank lines in front and loses them. -/
theorem removeImport_addImport_sample :
    ∃ cu cu' : CompilationUnit, cu.IsReadFrom sampleBare none ∧
      cu.changeImports? [.add "p.B", .remove "p.B"] = .ok cu' ∧
      "p.C".toList.getLast? ≠ some '*' ∧
      (∀ p ∈ cu'.imports, p.element.isStatic = false →
        p.element.typeName ≠ "p.C") ∧
      (cu'.addImport "p.C").print = "/*c*/import p.C;\n\nclass A\x7b\x7d" ∧
      ((cu'.addImport "p.C").removeImport "p.C" :
        Edited Empty CompilationUnit) = .replace cu' := by
  have hfacts : (parseUnit sampleBare sampleClassPath none).isOk = true ∧
      "p.C".toList.getLast? ≠ some '*' ∧
      (∀ p ∈ (sampleUnit sampleBare).thereAndBack.imports,
        p.element.isStatic = false → p.element.typeName ≠ "p.C") ∧
      ((sampleUnit sampleBare).thereAndBack.addImport "p.C").print =
        "/*c*/import p.C;\n\nclass A\x7b\x7d" := by
    decide +kernel
  obtain ⟨hok, hfqn, hnew, hprint⟩ := hfacts
  obtain ⟨cu, hcu⟩ := exists_of_isOk hok
  have hunit : sampleUnit sampleBare = cu := by rw [sampleUnit, hcu]
  rw [hunit] at hnew hprint
  have hread : cu.IsReadFrom sampleBare none := .inr ⟨sampleClassPath, hcu⟩
  have hrun : cu.changeImports? [.add "p.B", .remove "p.B"] =
      .ok cu.thereAndBack := rfl
  exact ⟨cu, cu.thereAndBack, hread, hrun, hfqn, hnew, hprint,
    removeImport_addImport hread hrun hfqn hnew⟩

end CompilationUnit

end JavaRefit
