/-
What a change of imports leaves of a file.

Imports come and go; of the rest of a file only the trivia in front of the
first class can change, and that only where no package comes before
(`CompilationUnit.ImportsOnly`). So every `try` statement stays what it
is, and so does what the classes refer to.

Chain: after `Around` and the proofs about walks; read by the proofs about
whole files.
-/
import JavaRefit.Import.Delta
import JavaRefit.Proofs.Import.Around
import JavaRefit.Proofs.Tree.Walk

namespace JavaRefit

namespace CompilationUnit

variable {cu cu' : CompilationUnit}

-- ========================================================= the first class

@[simp] theorem withFirstClassLead_id (cu : CompilationUnit) :
    cu.withFirstClassLead id = cu := by
  unfold withFirstClassLead
  split
  · rfl
  · next c cs h =>
    show { cu with classes := c :: cs } = cu
    rw [← h]

/-- The trivia of the first class is no matter of the trys. -/
theorem tries_withFirstClassLead (cu : CompilationUnit)
    (lead : Trivia → Trivia) :
    (cu.withFirstClassLead lead).tries = cu.tries := by
  unfold withFirstClassLead
  split
  · rfl
  · next c cs h =>
    have hc : Node.tries { c with lead := lead c.lead }.walk =
        Node.tries c.walk := by
      rw [ClassDecl.walk, ClassDecl.walk, Node.tries_cons, Node.tries_cons]
      rfl
    rw [tries_eq, tries_eq, h, List.flatMap_cons, List.flatMap_cons, hc]

/-- The trivia of the first class is no matter of the references. -/
theorem simpleReferences_withFirstClassLead (cu : CompilationUnit)
    (lead : Trivia → Trivia) :
    (cu.withFirstClassLead lead).simpleReferences = cu.simpleReferences := by
  unfold withFirstClassLead
  split
  · rfl
  · next c cs h =>
    have hc : ClassDecl.walk { c with lead := lead c.lead } =
        .classDecl { c with lead := lead c.lead } :: c.walk.tail := by
      rw [ClassDecl.walk, ClassDecl.walk]
      rfl
    have hwalk : c.walk = .classDecl c :: c.walk.tail := by
      rw [ClassDecl.walk]
      rfl
    rw [simpleReferences, simpleReferences, h, List.flatMap_cons,
      List.flatMap_cons, hc, hwalk]
    rfl

-- ======================================================== nothing but imports

/-- The second file is the first with other imports, and with other trivia in
front of its first class if no package comes before. -/
def ImportsOnly (cu cu' : CompilationUnit) : Prop :=
  ∃ imports lead, (cu.package? ≠ none → lead = id) ∧
    cu' = { cu with imports }.withFirstClassLead lead

namespace ImportsOnly

theorem refl : cu.ImportsOnly cu :=
  ⟨cu.imports, id, fun _ => rfl, cu.withFirstClassLead_id.symm⟩

/-- The package stays. -/
theorem package_eq (h : cu.ImportsOnly cu') : cu'.package? = cu.package? := by
  obtain ⟨imports, lead, -, rfl⟩ := h
  unfold withFirstClassLead
  split <;> rfl

theorem path_eq (h : cu.ImportsOnly cu') : cu'.path = cu.path := by
  obtain ⟨imports, lead, -, rfl⟩ := h
  unfold withFirstClassLead
  split <;> rfl

/-- The trys stay. -/
theorem tries_eq (h : cu.ImportsOnly cu') : cu'.tries = cu.tries := by
  obtain ⟨imports, lead, -, rfl⟩ := h
  rw [tries_withFirstClassLead, CompilationUnit.tries_eq,
    CompilationUnit.tries_eq]

/-- The references stay. -/
theorem simpleReferences_eq (h : cu.ImportsOnly cu') :
    cu'.simpleReferences = cu.simpleReferences := by
  obtain ⟨imports, lead, -, rfl⟩ := h
  rw [simpleReferences_withFirstClassLead]
  rfl

/-- Other imports may be given. -/
theorem withImports (h : cu.ImportsOnly cu')
    (imports : List (RightPadded Import)) :
    cu.ImportsOnly { cu' with imports } := by
  obtain ⟨imports', lead, hlead, rfl⟩ := h
  refine ⟨imports, lead, hlead, ?_⟩
  obtain ⟨start, package?, old, classes, close, path⟩ := cu
  cases classes <;> rfl

/-- Where no package stands the trivia of the first class may change. -/
theorem withFirstClassLead (h : cu.ImportsOnly cu') (hp : cu'.package? = none)
    (f : Trivia → Trivia) : cu.ImportsOnly (cu'.withFirstClassLead f) := by
  rw [h.package_eq] at hp
  obtain ⟨imports, lead, -, rfl⟩ := h
  refine ⟨imports, f ∘ lead, fun hsome => absurd hp hsome, ?_⟩
  obtain ⟨start, package?, old, classes, close, path⟩ := cu
  cases classes <;> rfl

/-- Adding an import changes imports and the first trivia only. -/
theorem addImport (h : cu.ImportsOnly cu') (fqn : String) :
    cu.ImportsOnly (cu'.addImport fqn) := by
  unfold CompilationUnit.addImport
  split
  · exact h.withImports _
  next hnone => exact (h.withImports _).withFirstClassLead (by exact hnone) _
  · exact h.withImports _

/-- Removing an import changes imports and the first trivia only. -/
theorem of_removeImport? {fqn : String} {cu'' : CompilationUnit}
    (h : cu.ImportsOnly cu') (hremove : cu'.removeImport? fqn = some cu'') :
    cu.ImportsOnly cu'' := by
  obtain ⟨before, p, after, -, -, -, rfl⟩ := exists_of_removeImport? hremove
  unfold closeGap
  split
  next hnone => exact (h.withImports _).withFirstClassLead (by exact hnone) _
  · exact h.withImports _
  · exact h.withImports _

end ImportsOnly

theorem package?_addImport (cu : CompilationUnit) (fqn : String) :
    (cu.addImport fqn).package? = cu.package? :=
  (ImportsOnly.refl.addImport fqn).package_eq

-- ============================================================== the change

/-- What every new import and every import less leaves true of a file, a change
of imports does. -/
theorem applyDelta_induction {ω : Type} {P : CompilationUnit → Prop}
    {d : ImportDelta} (hadd : ∀ cu, ∀ fqn ∈ d.added, P cu →
      P (cu.addImport fqn)) (hremove :
      ∀ cu cu' fqn, cu.removeImport? fqn = some cu' → P cu → P cu')
    {cu : CompilationUnit} (h : P cu) :
    P (cu.applyDelta d : Edited ω CompilationUnit).value := by
  have hfoldl {l : List String} {f : String → CompilationUnit →
      Edited ω CompilationUnit}
      (hf : ∀ fqn ∈ l, ∀ cu, P cu → P (f fqn cu).value)
        {e : Edited ω CompilationUnit}
      (h : P e.value) :
      P (l.foldl (fun e fqn => e.andThen (f fqn)) e).value := by
    induction l generalizing e with
    | nil => exact h
    | cons fqn l ih =>
        obtain ⟨hfqn, hl⟩ := List.forall_mem_cons.1 hf
        exact ih hl (hfqn e.value h)
  refine hfoldl (fun fqn hfqn cu h => ?_) (hfoldl (fun fqn _ cu h => ?_) h)
  · unfold bringImport
    split
    · exact hadd cu fqn hfqn h
    · exact h
  · split
    · exact h
    · unfold removeImport
      split
      · next hsome => exact hremove cu _ fqn hsome h
      · exact h

variable {ω : Type} (cu) (d : ImportDelta)

/-- A delta changes imports and the first trivia only. -/
theorem importsOnly_applyDelta :
    cu.ImportsOnly (cu.applyDelta d : Edited ω CompilationUnit).value :=
  applyDelta_induction (P := cu.ImportsOnly) (fun _ fqn _ h => h.addImport fqn)
    (fun _ _ _ hremove h => h.of_removeImport? hremove) .refl

/-- A change of imports keeps the `try` statements. -/
theorem tries_applyDelta :
    (cu.applyDelta d : Edited ω CompilationUnit).value.tries = cu.tries :=
  (cu.importsOnly_applyDelta d).tries_eq

/-- A change of imports keeps what the classes refer to. -/
theorem simpleReferences_applyDelta :
    (cu.applyDelta d : Edited ω CompilationUnit).value.simpleReferences =
      cu.simpleReferences :=
  (cu.importsOnly_applyDelta d).simpleReferences_eq

end CompilationUnit

end JavaRefit
