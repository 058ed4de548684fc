/-
How many imports of a file answer a question.

What is asked of an import (which class it is of, what it shows) does not
hang on trivia. An import that comes adds one to those that answer as it
does, an import that goes takes one from them. So what an import shows or
takes stays shown and taken when another one comes.

Chain: after the proofs about trivia in imports; changes that are made
twice are told apart by the count.
-/
import JavaRefit.Proofs.CatchRule.Total
import JavaRefit.Proofs.Import.Blank
import JavaRefit.Proofs.Tree.Spelled

namespace JavaRefit

-- ===================================================== counting imports

/-- How many imports of a file answer a question. -/
def CompilationUnit.countImports (cu : CompilationUnit)
    (q : Import → Bool) : Nat :=
  cu.imports.countP fun p => q p.element

namespace Import

/-- A new import is of the class it is made for. -/
@[simp] theorem typeName_ofClass (lead : Trivia) (fqn : String) :
    (ofClass lead fqn).typeName = fqn := by
  simp [ofClass, typeName]

/-- A new import is of no other class. -/
theorem isOf_ofClass_of_ne {fqn g : String} (h : g ≠ fqn) (lead : Trivia) :
    (ofClass lead g).isOf fqn = false := by
  simp [isOf, h]

/-- A new import shows its class. -/
theorem shows_ofClass_self (lead : Trivia) (fqn : String) :
    (ofClass lead fqn).shows fqn = true := by
  simp [shows, isStatic, ofClass, typeName]

/-- A new import of a class is not of one word. -/
theorem isBare_ofClass {fqn : String} (h : fqn ≠ "*") (lead : Trivia) :
    (ofClass lead fqn).isBare = false := by
  rcases Name.ofDotted_cases fqn with ⟨hname, -⟩ | ⟨hname, -⟩
  · simp [isBare, isWildcard, ofClass, hname, Name.withLead, Name.last, h]
  · simp [isBare, packageName?, ofClass, hname, Name.withLead, Name.outer?]

/-- An import is of one class at most. -/
theorem isOf_iff_of_isOf {i : Import} {g : String} (h : i.isOf g = true)
    (fqn : String) : i.isOf fqn = true ↔ fqn = g := by
  simp only [isOf, Bool.and_eq_true, beq_iff_eq] at h ⊢
  rw [and_iff_right h.1, h.2]
  exact eq_comm

end Import

namespace CompilationUnit

variable {ω : Type} {cu cu' : CompilationUnit} {q : Import → Bool}

/-- An import fits iff one is counted. -/
theorem any_imports_iff : (cu.imports.any fun p => q p.element) = true ↔
    0 < cu.countImports q := by
  rw [List.any_eq_true, countImports, List.countP_pos_iff]

/-- What does not hang on trivia can be asked of the imports without what is in
front of them. -/
theorem countImports_eq_unled (hq : ∀ i, q i.blank = q i)
    (cu : CompilationUnit) :
    cu.countImports q = (cu.imports.map Import.unled).countP fun p =>
      q p.element := by
  rw [countImports, List.countP_map]
  refine congrArg (cu.imports.countP ·) (funext fun p => ?_)
  show q p.element = q (Import.unled p).element
  rw [← hq, ← hq (Import.unled p).element]
  rfl

/-- With a new import there is one more that answers as it does. -/
theorem countImports_addImport (hq : ∀ i, q i.blank = q i)
    (cu : CompilationUnit) (fqn : String) : (cu.addImport fqn).countImports q =
      cu.countImports q + if q (.ofClass "" fqn) then 1 else 0 := by
  obtain ⟨before, after, hold, hnew⟩ := cu.exists_unled_addImport fqn
  rw [countImports_eq_unled hq, countImports_eq_unled hq, hold, hnew,
    List.countP_append, List.countP_append, List.countP_cons, Nat.add_assoc]

/-- With an import of a class less there is one less that answers as it did. -/
theorem countImports_of_removeImport? (hq : ∀ i, q i.blank = q i) {fqn : String}
    (h : cu.removeImport? fqn = some cu') :
    ∃ i : Import, i.isOf fqn = true ∧
      cu.countImports q = cu'.countImports q + if q i then 1 else 0 := by
  obtain ⟨before, p, after, -, hp, hold, hnew⟩ :=
    exists_unled_of_removeImport? h
  refine ⟨p.element, hp, ?_⟩
  rw [countImports_eq_unled hq, countImports_eq_unled hq, hold, hnew,
    List.countP_append, List.countP_append, List.countP_cons, Nat.add_assoc]

/-- A class is not imported iff no import of it can be removed. -/
theorem countImports_isOf_eq_zero_iff {fqn : String} :
    cu.countImports (Import.isOf fqn) = 0 ↔ cu.removeImport? fqn = none := by
  rw [countImports, List.countP_eq_zero]
  rcases cu.removeImport?_cases fqn with ⟨hnone, hremove⟩ | ⟨before, p, after,
    himports, -, hp, hremove⟩
  · exact iff_of_true (fun p hp => by rw [hnone p hp]; exact Bool.false_ne_true)
      hremove
  · refine iff_of_false (fun h => h p ?_ hp) ?_
    · rw [himports]
      exact List.mem_append_right before List.mem_cons_self
    · rw [hremove]
      exact Option.some_ne_none _

-- ============================================================ one class

/-- A file is kept iff it does not import the class. -/
theorem removeImport_eq_keep_iff {fqn : String} :
    (cu.removeImport fqn : Edited ω CompilationUnit) = .keep cu ↔
      cu.countImports (Import.isOf fqn) = 0 := by
  rw [countImports_isOf_eq_zero_iff, removeImport]
  cases cu.removeImport? fqn with
  | none => exact iff_of_true rfl rfl
  | some cu' =>
      exact iff_of_false (fun h => nomatch congrArg Edited.isNew h) nofun

theorem removeImport_keeps_or_isNew (cu : CompilationUnit) (fqn : String) :
    (cu.removeImport fqn : Edited ω CompilationUnit) = .keep cu ∨
      (cu.removeImport fqn : Edited ω CompilationUnit).isNew = true := by
  unfold removeImport
  cases cu.removeImport? fqn with
  | none => exact .inl rfl
  | some cu' => exact .inr rfl

/-- Of the imports of one class one goes, where there is one. -/
theorem countImports_removeImport (cu : CompilationUnit) (fqn g : String) :
    (cu.removeImport g : Edited ω CompilationUnit).value.countImports
      (Import.isOf fqn) =
      cu.countImports (Import.isOf fqn) - if fqn = g then 1 else 0 := by
  unfold removeImport
  cases h : cu.removeImport? g with
  | none =>
      show cu.countImports _ = _
      split_ifs with heq
      · rw [heq, countImports_isOf_eq_zero_iff.2 h]
      · rfl
  | some cu' =>
      obtain ⟨i, hi, hcount⟩ :=
        countImports_of_removeImport? (Import.isOf_blank fqn) h
      show cu'.countImports _ = _
      simp only [Import.isOf_iff_of_isOf hi fqn] at hcount
      rw [hcount, Nat.add_sub_cancel]

/-- The file needs no import of the class: it sees the class, or has given its
simple name away. -/
def needsNoImport (cu : CompilationUnit) (fqn : String) : Prop :=
  cu.sees fqn = true ∨ cu.importsOther fqn = true

/-- A file is kept iff the class needs no import where it is referred to. -/
theorem bringImport_eq_keep_iff {references : NameSet} {fqn : String} :
    (bringImport references fqn cu : Edited ω CompilationUnit) = .keep cu ↔
      (fqn ∈ references → cu.needsNoImport fqn) := by
  unfold bringImport
  split
  · next h =>
    refine iff_of_false (fun h => nomatch congrArg Edited.isNew h)
      fun hneeds => ?_
    simp only [Bool.and_eq_true, List.contains_iff_mem, Bool.not_eq_true'] at h
    obtain ⟨⟨hmem, hsees⟩, hother⟩ := h
    rcases hneeds hmem with h | h
    · rw [hsees] at h; cases h
    · rw [hother] at h; cases h
  · next h =>
    refine iff_of_true rfl fun hmem => ?_
    simpa [hmem, needsNoImport, or_iff_not_imp_left] using h

theorem bringImport_keeps_or_isNew (references : NameSet) (fqn : String)
    (cu : CompilationUnit) :
    (bringImport references fqn cu : Edited ω CompilationUnit) = .keep cu ∨
      (bringImport references fqn cu : Edited ω CompilationUnit).isNew =
        true := by
  unfold bringImport
  split
  · exact .inr rfl
  · exact .inl rfl

/-- Where a class is at home is no matter of imports. -/
theorem isHome_addImport (cu : CompilationUnit) (fqn g : String) :
    (cu.addImport g).isHome fqn = cu.isHome fqn := by
  rw [isHome, isHome, packageName, packageName, package?_addImport]

/-- What a file needs no import for, it needs none for with an import more. -/
theorem needsNoImport.addImport {fqn : String} (h : cu.needsNoImport fqn)
    (g : String) : (cu.addImport g).needsNoImport fqn := by
  have hany {q : Import → Bool} (hq : ∀ i, q i.blank = q i)
      (h : (cu.imports.any fun p => q p.element) = true) :
      ((cu.addImport g).imports.any fun p => q p.element) = true := by
    rw [any_imports_iff] at h ⊢
    rw [countImports_addImport hq]
    exact Nat.lt_of_lt_of_le h (Nat.le_add_right _ _)
  refine h.imp (fun hsees => ?_) fun hother => ?_
  · rw [sees, Bool.or_eq_true] at hsees ⊢
    rw [isHome_addImport]
    exact hsees.imp_right (hany (Import.shows_blank fqn))
  · exact hany (q := fun i => !i.isStatic && !i.isWildcard && i.className ==
      Text.simpleName fqn && i.typeName != fqn) (fun i => by simp) hother

/-- What is imported needs no import. -/
theorem needsNoImport_addImport_self (cu : CompilationUnit) (fqn : String) :
    (cu.addImport fqn).needsNoImport fqn := by
  refine .inl (Bool.or_eq_true_iff.2 (.inr (any_imports_iff.2 ?_)))
  rw [countImports_addImport (Import.shows_blank fqn),
    Import.shows_ofClass_self]
  exact Nat.succ_pos _

end CompilationUnit

end JavaRefit
