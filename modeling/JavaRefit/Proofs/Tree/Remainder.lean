/-
What is left of a file beside its imports and catch parameters.

Two files are equal but for those when they are equal once those are
blanked out. `uncatching` takes the parameter out of every catch clause,
wherever in a method it is, and leaves everything else with its types;
statements that differ in what their catch clauses declare become one
statement.

Chain: after `Recaught` and the changes of imports; the frame of the catch
rule rests on it.
-/
import JavaRefit.Proofs.Import.Delta
import JavaRefit.Proofs.Tree.Recaught

namespace JavaRefit

-- ============================================================ definitions

/-- Every catch clause without its parameter. -/
def uncatching : Editor Empty :=
  { parameter := fun _ => .replace ⟨"", ⟨⟨"", [], .union "" [], []⟩, ""⟩⟩ }

/-- The file without its imports, the trivia in front of its first class, and
the parameters of its catch clauses. -/
def CompilationUnit.remainder (cu : CompilationUnit) : CompilationUnit :=
  { cu with
    imports := []
    classes := cu.classes.map fun c =>
      (ClassDecl.edit uncatching c).value }.withFirstClassLead
    fun _ => ""

-- ================================================= statements and classes

variable {P : Variables → Variables → Prop}

/-- Padded items become equal when the items do and the padding is the same. -/
theorem RightPadded.map_eq_map {α β : Type} {R : α → α → Prop} (f : α → β)
    {ps qs : List (RightPadded α)}
    (h : ∀ p ∈ ps, ∀ b, R p.element b → f p.element = f b)
    (hpq : List.Forall₂ (fun p q =>
      R (RightPadded.element p) (RightPadded.element q)) ps qs)
        (hafter : qs.map RightPadded.after = ps.map RightPadded.after) :
    ps.map (RightPadded.map f) = qs.map (RightPadded.map f) := by
  induction hpq with
  | nil => rfl
  | @cons p q ps qs hp hps ih =>
      obtain ⟨hfirst, hrest⟩ := List.cons.inj hafter
      have hpadded : p.map f = q.map f := by
        rw [RightPadded.map, RightPadded.map,
          h p List.mem_cons_self _ hp, hfirst]
      rw [List.map_cons, List.map_cons, hpadded,
        ih (fun p hp => h p (List.mem_cons_of_mem _ hp)) hrest]

/-- A block becomes the same when its statements do. -/
theorem Stmt.editBlock_uncatching_eq {b b' : Block Stmt}
    (h : Stmt.Recaught P (.block b) (.block b'))
    (ih : ∀ p ∈ b.statements, ∀ s', Stmt.Recaught P p.element s' →
      (p.element.edit uncatching).value = (s'.edit uncatching).value) :
    (Stmt.editBlock uncatching b).value =
      (Stmt.editBlock uncatching b').value := by
  cases h with
  | same => rfl
  | block hpq hafter =>
      have hstatements :=
        RightPadded.map_eq_map (fun s => (Stmt.edit uncatching s).value)
          ih hpq hafter
      rw [← Stmt.editAll_value, ← Stmt.editAll_value] at hstatements
      rw [Stmt.editBlock, Stmt.editBlock]
      exact congrArg (fun ss => (⟨_, ss, _⟩ : Block Stmt)) hstatements

/-- Of a clause nothing but its body is left. -/
theorem Catch.edit_uncatching (c : Catch Stmt) :
    (c.edit uncatching).value =
      ⟨c.lead, ⟨"", ⟨⟨"", [], .union "" [], []⟩, ""⟩⟩,
        (Stmt.editBlock uncatching c.body).value⟩ := by
  rw [Catch.edit]
  rfl

/-- Of a try its blocks are left, and of its clauses their bodies. -/
theorem Try.editParts_uncatching (t : Try Stmt) :
    (Try.editParts uncatching t).value =
      ⟨t.lead, (Stmt.editBlock uncatching t.body).value,
        (Catch.editAll uncatching t.catches).value,
        (Stmt.editFinally uncatching t.finally?).value⟩ := by
  rw [Try.editParts]
  rfl

/-- Clauses become the same when their bodies do. -/
theorem Catch.editAll_uncatching_eq {cs cs' : List (Catch Stmt)}
    (hbodies : List.Forall₂ (fun c c' =>
      Stmt.Recaught P (.block (Catch.body c)) (.block (Catch.body c'))) cs cs')
        (hheads : List.Forall₂ (Catch.Redeclares P) cs cs') (ih : ∀ c ∈ cs,
          ∀ p ∈ c.body.statements, ∀ s', Stmt.Recaught P p.element s' →
      (p.element.edit uncatching).value = (s'.edit uncatching).value) :
    (Catch.editAll uncatching cs).value =
      (Catch.editAll uncatching cs').value := by
  induction hbodies with
  | nil => rfl
  | @cons c c' cs cs' hbody _ ihcs =>
      obtain ⟨hhead, hheads⟩ := List.forall₂_cons.1 hheads
      obtain ⟨hc, hcs⟩ := List.forall_mem_cons.1 ih
      have hedited : (c.edit uncatching).value =
          (c'.edit uncatching).value := by
        rw [Catch.edit_uncatching, Catch.edit_uncatching, hhead.lead,
          Stmt.editBlock_uncatching_eq hbody hc]
      rw [Catch.editAll_value, Catch.editAll_value] at ihcs ⊢
      rw [List.map_cons, List.map_cons, hedited, ihcs hheads hcs]

/-- Of a branch its statement is left. -/
theorem Stmt.editElse_uncatching (e : Else Stmt) :
    (Stmt.editElse uncatching (some e)).value =
      some ⟨e.lead, ⟨(e.body.element.edit uncatching).value,
        e.body.after⟩⟩ := by
  rw [Stmt.editElse, Else.edit]
  rfl

/-- Statements that are the same but for what catch clauses declare are one
without the parameters of these. -/
theorem Stmt.edit_uncatching_eq {s s' : Stmt} (h : Stmt.Recaught P s s') :
    (s.edit uncatching).value = (s'.edit uncatching).value := by
  induction s using Stmt.induction_on generalizing s' with
  | block b ih =>
      cases h with
      | same => rfl
      | block hpq hafter =>
          exact congrArg Stmt.block
            (editBlock_uncatching_eq (.block hpq hafter)
              fun p hp s' h => ih p hp h)
  | tryCatch t ihb ihc ihf =>
      cases h with
      | same => rfl
      | @tryCatch lead b b' cs cs' f f' hb hbodies hheads hf hbefore =>
          have hbody := editBlock_uncatching_eq hb fun p hp s' h => ihb p hp h
          have hcatches :=
            Catch.editAll_uncatching_eq hbodies hheads fun c hc p hp s' h =>
            ihc c hc p hp h
          have hfinally : (Stmt.editFinally uncatching f).value =
              (Stmt.editFinally uncatching f').value := by
            cases hf with
            | none => rfl
            | some hg =>
                have hblock := editBlock_uncatching_eq hg fun p hp s' h =>
                  ihf _ rfl p hp h
                exact congrArg some
                  (congr (congrArg LeftPadded.mk (Option.some.inj hbefore).symm)
                    hblock)
          refine congrArg Stmt.tryCatch ?_
          rw [Try.editParts_uncatching, Try.editParts_uncatching]
          dsimp only
          rw [hbody, hcatches, hfinally]
  | ifElse lead condition thenPart elsePart iht ihe =>
      cases h with
      | same => rfl
      | @ifElse _ _ _ q _ elsePart' hs hsafter he hafter =>
          have helse : (Stmt.editElse uncatching elsePart).value =
              (Stmt.editElse uncatching elsePart').value := by
            cases he with
            | none => rfl
            | some hg =>
                obtain ⟨hlead, hpad⟩ := Prod.mk.inj (Option.some.inj hafter)
                rw [Stmt.editElse_uncatching, Stmt.editElse_uncatching, hlead,
                  hpad, ihe _ rfl hg]
          show Stmt.ifElse lead _ ⟨_, thenPart.after⟩ _ =
            Stmt.ifElse lead _ ⟨_, q.after⟩ _
          rw [iht hs, hsafter, helse]
  | whileLoop lead condition body ih =>
      cases h with
      | same => rfl
      | @whileLoop _ _ _ q hs hsafter =>
          exact congrArg (Stmt.whileLoop lead _)
            (congr (congrArg RightPadded.mk (ih hs)) hsafter.symm)
  | _ =>
      cases h with
      | same => rfl

/-- Members that are the same but for what catch clauses in them declare are
one without the parameters of these. -/
theorem Member.edit_uncatching_eq {m m' : Member} (h : Member.Recaught P m m') :
    (m.edit uncatching).value = (m'.edit uncatching).value := by
  induction m using Member.induction_on generalizing m' with
  | field d =>
      cases h with
      | same => rfl
  | method m =>
      cases h with
      | same => rfl
      | @method _ b b' hm hb =>
          have hbody : (Stmt.editBody uncatching m.body).value =
              (Stmt.editBody uncatching (some b')).value := by
            rw [hm]
            exact congrArg some
              (Stmt.editBlock_uncatching_eq hb fun p _ s' h =>
                p.element.edit_uncatching_eq h)
          rw [Member.edit, Member.edit, Method.edit, Method.edit]
          exact congrArg (fun body =>
            Member.method ⟨_, _, _, _, _, _, body, _⟩) hbody
  | nested c ih =>
      cases h with
      | same => rfl
      | @nested _ qs hpq hafter =>
          have hmembers :=
            RightPadded.map_eq_map (fun m => (Member.edit uncatching m).value)
            (fun p hp m' h => ih p hp h) hpq hafter
          rw [← Member.editAll_value, ← Member.editAll_value] at hmembers
          rw [Member.edit, Member.edit, ClassDecl.edit, ClassDecl.edit,
            Member.editBlock, Member.editBlock]
          exact congrArg (fun ms =>
            Member.nested ⟨_, _, _, _, _, _, _, ⟨_, ms, _⟩, _⟩) hmembers

/-- A recaught class has the trivia in front that the class had. -/
theorem ClassDecl.Recaught.lead_eq {c c' : JavaClass}
    (h : ClassDecl.Recaught P c c') : c'.lead = c.lead := by
  cases h <;> rfl

/-- Classes that are the same but for what catch clauses in them declare are
one without the parameters of these. -/
theorem ClassDecl.edit_uncatching_eq {c c' : JavaClass}
    (h : ClassDecl.Recaught P c c') :
    (c.edit uncatching).value = (c'.edit uncatching).value :=
  Member.nested.inj (Member.edit_uncatching_eq h)

-- =============================================================== imports

namespace CompilationUnit

/-- The second file is the first but for imports and catch parameters, and but
for the trivia in front of the first class where no package comes before it. -/
structure Leaves (cu cu' : CompilationUnit) : Prop where
  package : cu'.package? = cu.package?
  remainder : cu'.remainder = cu.remainder
  firstLead : cu.package? ≠ none →
    cu'.classes.head?.map ClassDecl.lead = cu.classes.head?.map ClassDecl.lead

/-- A file leaves itself. -/
theorem Leaves.refl (cu : CompilationUnit) : cu.Leaves cu :=
  ⟨rfl, rfl, fun _ => rfl⟩

/-- What is left of a file leaves what it leaves. -/
theorem Leaves.trans {cu cu' cu'' : CompilationUnit} (h : cu.Leaves cu')
    (h' : cu'.Leaves cu'') : cu.Leaves cu'' where
  package := h'.package.trans h.package
  remainder := h'.remainder.trans h.remainder
  firstLead hp := (h'.firstLead (by rwa [h.package])).trans (h.firstLead hp)

/-- Other imports leave the rest of a file. -/
theorem ImportsOnly.leaves {cu cu' : CompilationUnit} (h : cu.ImportsOnly cu') :
    cu.Leaves cu' := by
  refine ⟨h.package_eq, ?_, fun hsome => ?_⟩
  · obtain ⟨imports, lead, -, rfl⟩ := h
    have hlead (c : JavaClass) :
        (ClassDecl.edit uncatching { c with lead := lead c.lead }).value =
        { (ClassDecl.edit uncatching c).value with lead := lead c.lead } := by
      rw [ClassDecl.edit, ClassDecl.edit]
      rfl
    unfold CompilationUnit.withFirstClassLead
    split
    · rfl
    · next c cs hclasses =>
      have hclasses : cu.classes = c :: cs := hclasses
      simp only [remainder, hclasses, List.map_cons,
        CompilationUnit.withFirstClassLead, hlead]
  · obtain ⟨imports, lead, hlead, rfl⟩ := h
    rw [hlead hsome, withFirstClassLead_id]

/-- A change of imports leaves the rest of a file. -/
theorem leaves_applyDelta {ω : Type} (cu : CompilationUnit) (d : ImportDelta) :
    cu.Leaves (cu.applyDelta d : Edited ω CompilationUnit).value :=
  (cu.importsOnly_applyDelta d).leaves

/-- Classes that are the same but for what catch clauses declare leave a file
the same. -/
theorem leaves_recaught {cu : CompilationUnit} {classes : List JavaClass}
    (h : List.Forall₂ (ClassDecl.Recaught P) cu.classes classes) :
    cu.Leaves { cu with classes } := by
  have hedited : cu.classes.map (fun c => (ClassDecl.edit uncatching c).value) =
      classes.map fun c => (ClassDecl.edit uncatching c).value := by
    rw [← List.forall₂_eq_eq_eq, List.forall₂_map_left_iff,
      List.forall₂_map_right_iff]
    exact h.imp fun c c' hc => ClassDecl.edit_uncatching_eq hc
  refine ⟨rfl, ?_, fun _ => ?_⟩
  · rw [remainder, remainder, hedited]
  · obtain ⟨lead, package?, imports, cs, close, path⟩ := cu
    cases h with
    | nil => rfl
    | cons hc _ => exact congrArg some hc.lead_eq

end CompilationUnit

end JavaRefit
