/-
What stands around an import that comes or goes.

A new import comes in front of the first import of a greater class, and
an import that goes is the first of its class. Both cut the list in two,
and so it can be said without indexes what becomes of the two parts
(`Import.insert_cases`, `CompilationUnit.exists_of_removeImport?`): they
stay what they are but for the trivia in front of what comes to be first.
Without the trivia in front of the imports nothing is left to tell but
where an import is put in, or which one is missing (`Import.unled`).

Chain: after `List`; whatever holds along changes of imports is shown to
hold of these two steps first.
-/
import JavaRefit.Import.List

namespace JavaRefit

namespace Import

/-- An import without the trivia in front. -/
def unled (p : RightPadded Import) : RightPadded Import :=
  { p with element := { p.element with lead := "" } }

/-- The first trivia is all that changes. -/
theorem unled_withFirstLead (lead : Trivia) (is : List (RightPadded Import)) :
    (withFirstLead lead is).map unled = is.map unled := by
  cases is <;> rfl

-- ===================================================== an import that comes

/-- Where a new import comes to stand in a list: in front of all, with what was
in front of the first one, or behind some that it does not come in front of. -/
theorem insert_cases (fqn : String) (p : RightPadded Import)
    (ps : List (RightPadded Import)) :
    (p.element.isAfter fqn = true ∧ insert fqn (p :: ps) =
        ⟨ofClass p.element.lead fqn, ""⟩ :: { p with element :=
          { p.element with lead := "\n" } } :: ps) ∨
      ∃ before after, ps = before ++ after ∧
        (∀ q ∈ p :: before, q.element.isAfter fqn = false) ∧
        (∀ q ∈ after.head?, q.element.isAfter fqn = true) ∧
        insert fqn (p :: ps) = p :: before ++
          ⟨ofClass "\n" fqn, ""⟩ :: after := by
  unfold insert
  cases hat : (p :: ps).findIdx? fun p => p.element.isAfter fqn with
  | none =>
      rw [List.findIdx?_eq_none_iff] at hat
      exact .inr ⟨ps, [], (List.append_nil ps).symm, hat, nofun, rfl⟩
  | some n =>
      obtain ⟨hn, hafter, hbefore⟩ := List.findIdx?_eq_some_iff_getElem.1 hat
      cases n with
      | zero => exact .inl ⟨hafter, rfl⟩
      | succ n =>
          obtain ⟨before, after, rfl, rfl, hinsert⟩ :=
            List.exists_of_modifyTailIdx
            (List.cons ⟨ofClass "\n" fqn, ""⟩)
              (Nat.le_of_lt (Nat.succ_lt_succ_iff.1 hn))
          refine .inr ⟨before, after, rfl, fun q hq => ?_, fun q hq => ?_, ?_⟩
          · obtain ⟨j, hj, rfl⟩ := List.getElem_of_mem hq
            have hlong : j < (p :: (before ++ after)).length :=
              Nat.lt_trans hj hn
            have hget : (p :: (before ++ after))[j] = (p :: before)[j] :=
              List.getElem_append_left hj
            rw [← Bool.not_eq_true, ← hget]
            exact hbefore j hj
          · obtain ⟨after, rfl⟩ := List.head?_eq_some_iff.1 hq
            simpa using hafter
          · dsimp only
            rw [List.insertIdx_succ_cons, List.insertIdx, hinsert,
              List.cons_append]

/-- An import is put in somewhere, the others staying in order. -/
theorem exists_unled_insert (fqn : String) (is : List (RightPadded Import)) :
    ∃ before after, is.map unled = before ++ after ∧
      (insert fqn is).map unled = before ++ ⟨ofClass "" fqn, ""⟩ :: after := by
  cases is with
  | nil => exact ⟨[], [], rfl, rfl⟩
  | cons p ps =>
      rcases insert_cases fqn p ps
        with ⟨-, hinsert⟩ | ⟨before, after, rfl, -, -, hinsert⟩
      · rw [hinsert]
        exact ⟨[], (p :: ps).map unled, rfl, rfl⟩
      · rw [hinsert]
        refine ⟨(p :: before).map unled, after.map unled, ?_, List.map_append⟩
        rw [← List.map_append, List.cons_append]

end Import

open Import (unled)

namespace CompilationUnit

variable {cu cu' : CompilationUnit} {fqn : String}

/-- The trivia of the first class is no matter of the imports. -/
theorem imports_withFirstClassLead (cu : CompilationUnit)
    (lead : Trivia → Trivia) :
    (cu.withFirstClassLead lead).imports = cu.imports := by
  unfold withFirstClassLead
  split <;> rfl

/-- The imports after one is added, their trivia aside. -/
theorem unled_addImport (cu : CompilationUnit) (fqn : String) :
    (cu.addImport fqn).imports.map unled =
      (Import.insert fqn cu.imports).map unled := by
  unfold addImport
  split
  · next himports _ =>
    rw [himports]
    rfl
  · next himports _ =>
    rw [imports_withFirstClassLead, himports]
    rfl
  · rfl

/-- Trivia in front aside, a new import is put into the imports of the file. -/
theorem exists_unled_addImport (cu : CompilationUnit) (fqn : String) :
    ∃ before after, cu.imports.map unled = before ++ after ∧
      (cu.addImport fqn).imports.map unled =
        before ++ ⟨.ofClass "" fqn, ""⟩ :: after := by
  rw [unled_addImport]
  exact Import.exists_unled_insert fqn cu.imports

-- ===================================================== an import that goes

/-- The file with the imports on both sides of one that is gone. What was in
front of that one comes to stand in front of the import that comes to be first,
or, without any and without a package, of the first class. -/
def closeGap (cu : CompilationUnit) (before : List (RightPadded Import))
    (lead : Trivia) (after : List (RightPadded Import)) : CompilationUnit :=
  match before, after, cu.package? with
  | [], [], none => { cu with imports := [] }.withFirstClassLead fun _ => lead
  | [], after, _ => { cu with imports := Import.withFirstLead lead after }
  | before, after, _ => { cu with imports := before ++ after }

/-- The first import of a class goes, and the imports on both sides stay. -/
theorem removeImport?_of_split (before : List (RightPadded Import))
    {p : RightPadded Import} {after : List (RightPadded Import)}
    (himports : cu.imports = before ++ p :: after)
    (hbefore : ∀ q ∈ before, q.element.isOf fqn = false)
    (hp : p.element.isOf fqn = true) :
    cu.removeImport? fqn = some (cu.closeGap before p.element.lead after) := by
  have hat : cu.imports.findIdx? (fun p => p.element.isOf fqn) =
      some before.length := by
    rw [himports, List.findIdx?_append, List.findIdx?_eq_none_iff.2 hbefore,
      List.findIdx?_cons, if_pos hp, Option.none_or, Option.map_some,
      Nat.zero_add]
  have hrest : cu.imports.eraseIdx before.length = before ++ after := by
    rw [himports, List.eraseIdx_append_of_length_le (Nat.le_refl _),
      Nat.sub_self, List.eraseIdx_zero, List.tail_cons]
  have hself : cu.imports[before.length]? = some p := by
    rw [himports, List.getElem?_append_right (Nat.le_refl _), Nat.sub_self,
      List.getElem?_cons_zero]
  rw [removeImport?, hat]
  dsimp only
  rw [hrest, hself]
  cases before with
  | cons q qs => rfl
  | nil =>
      cases after with
      | cons q qs => rfl
      | nil => cases hpackage : cu.package? <;>
            simp [closeGap, hpackage, Import.withFirstLead]

/-- Either there is no import of a class, or the first one goes. -/
theorem removeImport?_cases (cu : CompilationUnit) (fqn : String) :
    ((∀ p ∈ cu.imports, p.element.isOf fqn = false) ∧
      cu.removeImport? fqn = none) ∨
      ∃ before p after, cu.imports = before ++ p :: after ∧
        (∀ q ∈ before, q.element.isOf fqn = false) ∧ p.element.isOf fqn = true ∧
        cu.removeImport? fqn =
          some (cu.closeGap before p.element.lead after) := by
  cases hfind : cu.imports.find? fun p => p.element.isOf fqn with
  | none =>
      have hnone : ∀ p ∈ cu.imports, p.element.isOf fqn = false := fun p hp =>
        Bool.eq_false_iff.2 (List.find?_eq_none.1 hfind p hp)
      exact .inl ⟨hnone,
        by rw [removeImport?, List.findIdx?_eq_none_iff.2 hnone]⟩
  | some p =>
      obtain ⟨hp, before, after, himports, hbefore⟩ :=
        List.find?_eq_some_iff_append.1 hfind
      have hbefore : ∀ q ∈ before, q.element.isOf fqn = false := fun q hq => by
        rw [← Bool.not_eq_true', hbefore q hq]
      exact .inr ⟨before, p, after, himports, hbefore, hp,
        removeImport?_of_split before himports hbefore hp⟩

/-- The import that is removed is the first of its class. -/
theorem exists_of_removeImport? (h : cu.removeImport? fqn = some cu') :
    ∃ before p after, cu.imports = before ++ p :: after ∧
      (∀ q ∈ before, q.element.isOf fqn = false) ∧ p.element.isOf fqn = true ∧
      cu' = cu.closeGap before p.element.lead after := by
  rcases cu.removeImport?_cases fqn
    with ⟨-, hnone⟩ | ⟨before, p, after, himports, hbefore, hp, hsome⟩
  · rw [hnone] at h
    cases h
  · exact ⟨before, p, after, himports, hbefore, hp,
      Option.some.inj (h.symm.trans hsome)⟩

/-- Closing the gap changes trivia only. -/
theorem unled_closeGap (cu : CompilationUnit)
    (before : List (RightPadded Import)) (lead : Trivia)
    (after : List (RightPadded Import)) :
    (cu.closeGap before lead after).imports.map unled =
      before.map unled ++ after.map unled := by
  unfold closeGap
  split
  · rw [imports_withFirstClassLead]
    rfl
  · exact Import.unled_withFirstLead lead _
  · exact List.map_append

/-- Trivia in front aside, an import that goes is missing from the imports of
the file. -/
theorem exists_unled_of_removeImport? (h : cu.removeImport? fqn = some cu') :
    ∃ before p after, (∀ q ∈ before, q.element.isOf fqn = false) ∧
    p.element.isOf fqn = true ∧
      cu.imports.map unled = before ++ p :: after ∧
      cu'.imports.map unled = before ++ after := by
  obtain ⟨before, p, after, himports, hbefore, hp, rfl⟩ :=
    exists_of_removeImport? h
  refine ⟨before.map unled, unled p, after.map unled,
    List.forall_mem_map.2 hbefore, hp, ?_,
    cu.unled_closeGap before p.element.lead after⟩
  rw [himports, List.map_append, List.map_cons]

end CompilationUnit

end JavaRefit
