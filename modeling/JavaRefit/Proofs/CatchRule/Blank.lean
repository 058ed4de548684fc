/-
The catch rule does not look at trivia.

Where an exception can come from and what a clause catches is read off
words and types; new clauses keep trivia or bring blanks of their own.
So a run does the same to files that are the same without trivia: it
changes both or none, asks for the same imports, makes the same remarks,
and leaves files that are the same without trivia.

Chain: after the blank renaming and the blank imports; `Formatting` puts
reading in front.
-/
import JavaRefit.Proofs.CatchRule.Run
import JavaRefit.Proofs.Import.Blank
import JavaRefit.Proofs.Rename.Blank

namespace JavaRefit

-- ============================================================== one node

@[simp] theorem Expr.method?_blank (e : Expr) :
    e.blank.method? = e.method? := by
  cases e with
  | call => rw [blank_call, method?, method?]
  | new => rw [blank_new, method?, method?]
  | _ => rfl

namespace Node

@[simp] theorem method?_blank (n : Node) : n.blank.method? = n.method? := by
  cases n with
  | expr e => exact e.method?_blank
  | stmt s =>
      cases s with
      | expr e => exact e.method?_blank
      | block => rw [blank, Stmt.blank_block]; rfl
      | tryCatch => rw [blank, Stmt.blank_tryCatch]; rfl
      | returning => rw [blank, Stmt.blank_returning]; rfl
      | ifElse => rw [blank, Stmt.blank_ifElse]; rfl
      | declaration | empty | throwing | whileLoop => rfl
  | _ => rfl

theorem exprKind_blank (e : Expr) : exprKind e.blank = exprKind e := by
  cases e with
  | call => rw [Expr.blank_call, exprKind, exprKind]
  | new => rw [Expr.blank_new, exprKind, exprKind]
  | _ => rfl

theorem kind_blank (n : Node) : n.blank.kind = n.kind := by
  have hname (n : Name) : nameKind n.blank = nameKind n := by
    cases n <;> rfl
  cases n with
  | name n => exact hname n
  | typeTree t =>
      cases t with
      | named n => exact hname n
      | generic => rw [blank, TypeTree.blank_generic]; rfl
      | union => rw [blank, TypeTree.blank_union]; rfl
      | primitive | array => rfl
  | expr e => exact exprKind_blank e
  | modifier m =>
      cases m with
      | keyword => rfl
      | annotated => rw [blank, Modifier.blank_annotated]; rfl
  | stmt s =>
      cases s with
      | expr e => exact exprKind_blank e
      | block => rw [blank, Stmt.blank_block]; rfl
      | tryCatch => rw [blank, Stmt.blank_tryCatch]; rfl
      | returning => rw [blank, Stmt.blank_returning]; rfl
      | ifElse => rw [blank, Stmt.blank_ifElse]; rfl
      | declaration | empty | throwing | whileLoop => rfl
  | _ => rfl

theorem isSite_blank (n : Node) : n.blank.isSite = n.isSite := by
  rw [isSite, isSite, kind_blank]

end Node

namespace CatchRule

variable (r : CatchRule)

theorem matchesNode_blank (p : MethodPattern) (n : Node) :
    p.matchesNode n.blank = p.matchesNode n := by
  rw [MethodPattern.matchesNode, MethodPattern.matchesNode, Node.method?_blank]

theorem classify_blank (n : Node) : r.classify n.blank = r.classify n := by
  cases n with
  | stmt s =>
      cases s with
      | throwing => rw [Node.blank, Stmt.blank_throwing, classify, classify,
            Expr.type_blank]
      | expr e =>
          simp [Node.blank, Stmt.blank_expr, classify, isDesignated,
            MethodPattern.matchesNode, Node.method?]
      | block => rw [Node.blank, Stmt.blank_block]; rfl
      | tryCatch => rw [Node.blank, Stmt.blank_tryCatch]; rfl
      | returning => rw [Node.blank, Stmt.blank_returning]; rfl
      | ifElse => rw [Node.blank, Stmt.blank_ifElse]; rfl
      | declaration | empty | whileLoop => rfl
  | expr e => exact r.classify_expr e.method?_blank
  | _ => rfl

theorem usesApi_blank (nodes : List Node) :
    r.usesApi (nodes.map Node.blank) = r.usesApi nodes := by
  unfold usesApi MethodPattern.isUsedIn
  simp only [List.any_map, Function.comp_def, matchesNode_blank]

theorem hasOtherSource_blank (nodes : List Node) :
    r.hasOtherSource (nodes.map Node.blank) = r.hasOtherSource nodes := by
  unfold hasOtherSource
  simp only [List.filter_map, List.any_map, Function.comp_def,
    Node.isSite_blank, classify_blank]

theorem appliesTo_eq {cu cu' : CompilationUnit}
    (h : Alike CompilationUnit.blank cu cu') :
    r.appliesTo cu = r.appliesTo cu' :=
  h.answer_eq (q := r.appliesTo) fun cu => by
    rw [appliesTo, appliesTo, CompilationUnit.walk_blank, usesApi_blank]

end CatchRule

-- ================================================================= types

namespace TypeTree

variable {lead lead' : Trivia} {ps ps' : List (RightPadded TypeTree)}
  {t t' : TypeTree}

theorem alike_union_iff : Alike blank (.union lead ps) (.union lead' ps') ↔
    Alike (List.map (RightPadded.blank blank)) ps ps' := by
  rw [Alike, blank_union, blank_union, union.injEq]
  exact and_iff_right rfl

theorem not_alike_union (ht : ∀ lead ps, t ≠ .union lead ps) :
    ¬ Alike blank t (.union lead ps) := by
  rw [Alike, blank_union]
  cases t with
  | union => exact absurd rfl (ht _ _)
  | generic => rw [blank_generic]; rintro ⟨⟩
  | named | primitive | array => rintro ⟨⟩

/-- Types that are the same without trivia are both lists of alternatives or
neither is. -/
theorem alike_cases (h : Alike blank t t') :
    (∃ lead ps lead' ps', t = .union lead ps ∧ t' = .union lead' ps' ∧
      Alike (List.map (RightPadded.blank blank)) ps ps') ∨
    (∀ lead ps, t ≠ .union lead ps) ∧ ∀ lead ps, t' ≠ .union lead ps := by
  by_cases ht : ∃ lead ps, t = .union lead ps
  · obtain ⟨lead, ps, rfl⟩ := ht
    by_cases ht' : ∃ lead ps, t' = .union lead ps
    · obtain ⟨lead', ps', rfl⟩ := ht'
      exact .inl ⟨lead, ps, lead', ps', rfl, rfl, alike_union_iff.1 h⟩
    · exact absurd (show Alike blank t' _ from Eq.symm h)
        (not_alike_union fun lead ps h => ht' ⟨lead, ps, h⟩)
  · have hne : ∀ lead ps, t ≠ .union lead ps :=
      fun lead ps h => ht ⟨lead, ps, h⟩
    refine .inr ⟨hne, fun lead ps ht' => ?_⟩
    rw [ht'] at h
    exact not_alike_union hne h

end TypeTree

theorem Variables.alike_iff {d d' : Variables} : Alike blank d d' ↔
    Alike (List.map Modifier.blank) d.modifiers d'.modifiers ∧
      Alike TypeTree.blank d.typeTree d'.typeTree ∧
      Alike (List.map (RightPadded.blank Variable.blank))
        d.declarators d'.declarators := by
  rw [Alike, blank_eq, blank_eq, mk.injEq]
  tauto

theorem Variables.alike_withType {d d' : Variables} {t t' : TypeTree}
    (h : Alike blank d d') (ht : Alike TypeTree.blank t t') :
    Alike blank { d with typeTree := t } { d' with typeTree := t' } := by
  obtain ⟨hmodifiers, -, hdeclarators⟩ := alike_iff.1 h
  exact alike_iff.2 ⟨hmodifiers, ht, hdeclarators⟩

namespace CatchRule

variable (r : CatchRule) (qualified : Bool)

/-- Alternatives that are the same without trivia. -/
abbrev AlternativesAlike : List (RightPadded TypeTree) →
    List (RightPadded TypeTree) → Prop :=
  Alike (List.map (RightPadded.blank TypeTree.blank))

-- ========================================================== substitution

theorem blank_withFirstLead (lead : Trivia) (ps : List (RightPadded TypeTree)) :
    (withFirstLead lead ps).map (RightPadded.blank TypeTree.blank) =
      ps.map (RightPadded.blank TypeTree.blank) := by
  cases ps with
  | nil => rfl
  | cons p ps =>
      exact congrArg (fun t => (⟨t, ""⟩ : RightPadded TypeTree) :: _)
        (TypeTree.blank_withLead lead p.element)

theorem alike_dropLegacy {ps ps' : List (RightPadded TypeTree)}
    (h : AlternativesAlike ps ps') :
    AlternativesAlike (r.dropLegacy ps) (r.dropLegacy ps') := by
  have hdrop (ps : List (RightPadded TypeTree)) :
      (r.dropLegacy ps).map (RightPadded.blank TypeTree.blank) =
        (ps.map (RightPadded.blank TypeTree.blank)).filter fun p =>
          !r.isLegacy p := by
    rw [dropLegacy, RightPadded.blank_closeLast, blank_withFirstLead,
      List.filter_map]
    simp only [Function.comp_def, isLegacy, RightPadded.blank,
      TypeTree.type_blank]
  rw [AlternativesAlike, Alike, hdrop, hdrop, h]

/-- The variables of a declaration given another type. -/
def retype (type : Option JavaType) (ps : List (RightPadded Variable)) :
    List (RightPadded Variable) :=
  ps.map fun p => { p with element := { p.element with type } }

theorem blank_retype (type : Option JavaType)
    (ps : List (RightPadded Variable)) :
    (retype type ps).map (RightPadded.blank Variable.blank) =
      retype type (ps.map (RightPadded.blank Variable.blank)) := by
  simp only [retype, List.map_map, Function.comp_def, RightPadded.blank,
    Variable.blank_eq]

theorem alike_dropFrom {d d' : Variables} (lead lead' : Trivia)
    {ps ps' : List (RightPadded TypeTree)} (h : Alike Variables.blank d d')
    (hps : AlternativesAlike ps ps') :
    Alike Variables.blank (r.dropFrom d lead ps) (r.dropFrom d' lead' ps') := by
  obtain ⟨hmodifiers, -, hdeclarators⟩ := Variables.alike_iff.1 h
  have hunion {qs qs' : List (RightPadded TypeTree)}
      (hqs : AlternativesAlike qs qs') :
      Alike Variables.blank { d with typeTree := .union lead qs }
        { d' with typeTree := .union lead' qs' } :=
    Variables.alike_withType h (TypeTree.alike_union_iff.2 hqs)
  have honly {q q' : RightPadded TypeTree}
      (hq : q.blank TypeTree.blank = q'.blank TypeTree.blank) :
      Alike Variables.blank
        (⟨d.lead, d.modifiers, q.element.withLead lead,
          retype (q.element.withLead lead).type d.declarators⟩ : Variables)
        ⟨d'.lead, d'.modifiers, q'.element.withLead lead',
          retype (q'.element.withLead lead').type d'.declarators⟩ := by
    have ht : Alike TypeTree.blank (q.element.withLead lead)
        (q'.element.withLead lead') := by
      rw [Alike, TypeTree.blank_withLead, TypeTree.blank_withLead]
      exact congrArg RightPadded.element hq
    refine Variables.alike_iff.2 ⟨hmodifiers, ht, ?_⟩
    rw [Alike, blank_retype, blank_retype, ht.answer_eq TypeTree.type_blank,
      hdeclarators]
  have hrest := r.alike_dropLegacy hps
  unfold dropFrom
  generalize r.dropLegacy ps = qs at hrest ⊢
  generalize r.dropLegacy ps' = qs' at hrest ⊢
  rcases qs with _ | ⟨q, _ | ⟨p, qs⟩⟩ <;>
    rcases qs' with _ | ⟨q', _ | ⟨p', qs'⟩⟩
  · exact hunion hrest
  · cases hrest
  · cases hrest
  · cases hrest
  · exact honly (List.head_eq_of_cons_eq hrest)
  · exact absurd (congrArg List.length hrest) (by simp)
  · cases hrest
  · exact absurd (congrArg List.length hrest) (by simp)
  · exact hunion hrest

/-- A clause gets a declaration with the replacement in the place of the legacy
type, whatever its trivia are. -/
theorem ignores_substituteIn : Ignores Variables.blank
    (r.substituteIn qualified : Variables → Edited RuleNote Variables) := by
  intro d d' h
  have hedit : (d.edit ((r.rename qualified).editor : Editor RuleNote)).Related
      (Alike Variables.blank) (d'.edit (r.rename qualified).editor) :=
    Ignores.of_blank (fun d =>
      d.related_edit (r.rename qualified).ignoresTrivia) d d' h
  unfold substituteIn
  rcases TypeTree.alike_cases (Variables.alike_iff.1 h).2.1 with
    ⟨lead, ps, lead', ps', hd, hd', hps⟩ | ⟨hd, hd'⟩
  · have hany : (ps.any fun p =>
        isClassNamed r.replacement.fqn p.element.type) =
        ps'.any fun p => isClassNamed r.replacement.fqn p.element.type :=
      hps.answer_eq (q := fun ps => ps.any fun p =>
        isClassNamed r.replacement.fqn p.element.type)
        fun ps => by
        simp only [List.any_map, Function.comp_def, RightPadded.blank,
          TypeTree.type_blank]
    rw [hd, hd']
    dsimp only
    rw [hany]
    split
    · exact .replace (r.alike_dropFrom lead lead' h hps)
    · exact hedit
  · split
    · next heq => exact absurd heq (hd _ _)
    · exact hedit

-- ========================================================== augmentation

theorem alike_replacementFor {t t' : TypeTree} (h : Alike TypeTree.blank t t') :
    Alike TypeTree.blank (r.replacementFor qualified t)
      (r.replacementFor qualified t') :=
  (Ignores.of_blank (fun t => t.related_edit (r.rename qualified).ignoresTrivia)
    t t' h).value

theorem alike_insertBeforeLegacy (isFirst isFirst' : Bool)
    {ps ps' : List (RightPadded TypeTree)} (h : AlternativesAlike ps ps') :
    AlternativesAlike (r.insertBeforeLegacy qualified isFirst ps)
      (r.insertBeforeLegacy qualified isFirst' ps') := by
  induction ps generalizing ps' isFirst isFirst' with
  | nil =>
      cases ps' with
      | nil => rfl
      | cons p' ps' => cases h
  | cons p ps ih =>
      cases ps' with
      | nil => cases h
      | cons p' ps' =>
          obtain ⟨hp, hps⟩ := List.cons.inj h
          have ht : Alike TypeTree.blank p.element p'.element :=
            congrArg RightPadded.element hp
          have hnew := r.alike_replacementFor qualified ht
          have hlegacy : r.isLegacy p = r.isLegacy p' := by
            rw [isLegacy, isLegacy, ht.answer_eq TypeTree.type_blank]
          unfold insertBeforeLegacy
          rw [hlegacy]
          split
          · exact congrArg₂ List.cons hp (ih false false hps)
          · cases isFirst <;> cases isFirst' <;>
              simp only [AlternativesAlike, Alike, List.map_cons,
                RightPadded.blank, TypeTree.blank_withLead, Bool.false_eq_true,
                if_false, if_true] <;>
              rw [hnew, ht, hps]

theorem alike_augmentIn {d d' : Variables} (h : Alike Variables.blank d d') :
    Alike Variables.blank (r.augmentIn qualified d)
      (r.augmentIn qualified d') := by
  have htype := (Variables.alike_iff.1 h).2.1
  unfold augmentIn
  rcases TypeTree.alike_cases htype
    with ⟨lead, ps, lead', ps', hd, hd', hps⟩ | ⟨hd, hd'⟩
  · rw [hd, hd']
    exact Variables.alike_withType h
      (TypeTree.alike_union_iff.2
        (r.alike_insertBeforeLegacy qualified true true hps))
  · have hnew := r.alike_replacementFor qualified htype
    split
    · next heq => exact absurd heq (hd _ _)
    · refine Variables.alike_withType h (TypeTree.alike_union_iff.2 ?_)
      simp only [Alike, List.map_cons, List.map_nil, RightPadded.blank,
        TypeTree.blank_withLead]
      rw [hnew, htype]

end CatchRule

-- =============================================================== clauses

namespace Catch

theorem declaration_blank (c : Catch Stmt) :
    c.blank.declaration = c.declaration.blank := rfl

theorem caughtTypes_blank (c : Catch Stmt) :
    c.blank.caughtTypes = c.caughtTypes := by
  unfold caughtTypes
  rw [declaration_blank, Variables.blank_eq]
  dsimp only
  cases c.declaration.typeTree with
  | union =>
      rw [TypeTree.blank_union]
      simp only [List.map_map, Function.comp_def, RightPadded.blank,
        TypeTree.type_blank]
  | generic => rw [TypeTree.blank_generic]; rfl
  | named n => exact congrArg ([·]) n.type_blank
  | primitive | array => rfl

@[simp] theorem catches_blank (c : Catch Stmt) (fqn : String) :
    c.blank.catches fqn = c.catches fqn := by
  rw [catches, catches, caughtTypes_blank]

@[simp] theorem catchesRelated_blank (c : Catch Stmt) (target : ClassType) :
    c.blank.catchesRelated target = c.catchesRelated target := by
  rw [catchesRelated, catchesRelated, caughtTypes_blank]

theorem alike_iff {c c' : Catch Stmt} : Alike blank c c' ↔
    Alike (Parens.blank Variables.blank) c.parameter c'.parameter ∧
      Alike (Block.blank Stmt.blank) c.body c'.body := by
  rw [Alike, blank, blank, mk.injEq]
  tauto

end Catch

/-- A statement that is the same as a `try` without trivia is a `try`. -/
theorem Stmt.alike_tryCatch {t : Try Stmt} {s : Stmt}
    (h : Alike Stmt.blank (.tryCatch t) s) :
    ∃ t', s = .tryCatch t' ∧ Alike Try.blank t t' := by
  rw [Alike, Stmt.blank_tryCatch] at h
  cases s with
  | tryCatch t' =>
      rw [Stmt.blank_tryCatch] at h
      exact ⟨t', rfl, Stmt.tryCatch.inj h⟩
  | block => rw [Stmt.blank_block] at h; cases h
  | returning => rw [Stmt.blank_returning] at h; cases h
  | ifElse => rw [Stmt.blank_ifElse] at h; cases h
  | declaration | expr | empty | throwing | whileLoop => cases h

namespace CatchRule

variable (r : CatchRule) (qualified : Bool)

theorem ignores_editClauses {f : Variables → Edited RuleNote Variables}
    (hf : Ignores Variables.blank f) :
    Ignores (List.map Catch.blank) (r.editClauses f) := by
  intro cs
  induction cs with
  | nil =>
      intro cs' h
      cases cs' with
      | nil => exact .keep rfl
      | cons c' cs' => cases h
  | cons c cs ih =>
      intro cs' h
      cases cs' with
      | nil => cases h
      | cons c' cs' =>
          obtain ⟨hc, hcs⟩ := List.cons.inj h
          obtain ⟨hparameter, hbody⟩ := Catch.alike_iff.1 hc
          have hd : Alike Variables.blank c.declaration c'.declaration :=
            congrArg (fun p : Parens Variables => p.inner.element) hparameter
          unfold editClauses
          rw [Alike.answer_eq (q := fun c => c.catches r.legacy)
            (·.catches_blank r.legacy) hc]
          refine .seq (.map (fun e e' he es es' hes =>
            congrArg₂ List.cons he hes) ?_) (ih cs' hcs)
          split
          · refine .map (fun d d' hd => ?_) (hf _ _ hd)
            exact Catch.alike_iff.2
              ⟨congrArg (fun d => (⟨"", ⟨d, ""⟩⟩ : Parens Variables)) hd, hbody⟩
          · exact .keep hc

theorem alike_tryCatch_iff {t t' : Try Stmt} : Alike Try.blank t t' ↔
    Alike (Block.blank Stmt.blank) t.body t'.body ∧
      Alike (List.map Catch.blank) t.catches t'.catches ∧
      Alike (Option.map (LeftPadded.blank (Block.blank Stmt.blank)))
        t.finally? t'.finally? := by
  rw [Alike, Try.blank, Try.blank, Try.mk.injEq]
  tauto

theorem related_withClauses {t t' : Try Stmt}
    {cs cs' : Edited RuleNote (List (Catch Stmt))} (delta : ImportDelta)
    (ht : Alike Try.blank t t')
    (hcs : cs.Related (Alike (List.map Catch.blank)) cs') :
    (withClauses t cs delta).Related (Alike Try.blank)
      (withClauses t' cs' delta) := by
  obtain ⟨hbody, -, hfinally⟩ := alike_tryCatch_iff.1 ht
  unfold withClauses
  rw [hcs.isNew]
  split
  · exact ⟨alike_tryCatch_iff.2 ⟨hbody, hcs.value, hfinally⟩, rfl, rfl⟩
  · exact .keep ht

/-- What becomes of a `try` does not depend on trivia. -/
theorem ignores_retarget : Ignores Try.blank (r.retarget qualified) := by
  intro t t' h
  obtain ⟨hbody, hcatches, -⟩ := alike_tryCatch_iff.1 h
  have huses : r.usesApi (Stmt.walkBlock t.body) =
      r.usesApi (Stmt.walkBlock t'.body) :=
    hbody.answer_eq (q := fun b => r.usesApi (Stmt.walkBlock b)) fun b => by
      rw [Stmt.walkBlock_blank, usesApi_blank]
  have hother : r.hasOtherSource (Stmt.walkBlock t.body) =
      r.hasOtherSource (Stmt.walkBlock t'.body) :=
    hbody.answer_eq (q := fun b => r.hasOtherSource (Stmt.walkBlock b))
      fun b => by
      rw [Stmt.walkBlock_blank, hasOtherSource_blank]
  have hempty : t.catches.isEmpty = t'.catches.isEmpty :=
    hcatches.answer_eq (q := List.isEmpty) fun cs => List.isEmpty_map
  have hlegacy : (t.catches.any fun c => c.catches r.legacy) =
      t'.catches.any fun c => c.catches r.legacy :=
    hcatches.answer_eq (q := fun cs => cs.any fun c => c.catches r.legacy)
      fun cs => by
      simp only [List.any_map, Function.comp_def, Catch.catches_blank]
  have hrelated : (t.catches.any fun c => c.catchesRelated r.replacement) =
      t'.catches.any fun c => c.catchesRelated r.replacement :=
    hcatches.answer_eq (q := fun cs => cs.any fun c =>
      c.catchesRelated r.replacement) fun cs => by
      simp only [List.any_map, Function.comp_def, Catch.catchesRelated_blank]
  unfold retarget
  dsimp only
  rw [huses, hother, hempty, hlegacy, hrelated]
  split
  · exact .keep h
  · split
    · exact related_withClauses _ h
        (r.ignores_editClauses (r.ignores_substituteIn qualified) _ _ hcatches)
    · split
      · exact .keep h
      · split
        · exact ⟨h, rfl, rfl⟩
        · exact related_withClauses _ h (r.ignores_editClauses
            (fun d d' hd => .replace (r.alike_augmentIn qualified hd))
              _ _ hcatches)

/-- The rule ignores trivia. -/
theorem ignoresTrivia_editor : (r.editor qualified).IgnoresTrivia where
  stmt := by
    intro s s' h
    by_cases hs : ∃ t, s = .tryCatch t
    · obtain ⟨t, rfl⟩ := hs
      obtain ⟨t', rfl, ht⟩ := Stmt.alike_tryCatch h
      refine .map (fun t t' ht => ?_) (r.ignores_retarget qualified t t' ht)
      rw [Alike, Stmt.blank_tryCatch, Stmt.blank_tryCatch, ht]
    · have hs' : ¬ ∃ t, s' = .tryCatch t := by
        rintro ⟨t', rfl⟩
        obtain ⟨t, rfl, -⟩ := Stmt.alike_tryCatch (Eq.symm h)
        exact hs ⟨t, rfl⟩
      have hkeep {s : Stmt} (hs : ¬ ∃ t, s = .tryCatch t) :
          (r.editor qualified).stmt s = .keep s := by
        cases s with
        | tryCatch t => exact absurd ⟨t, rfl⟩ hs
        | _ => rfl
      rw [hkeep hs, hkeep hs']
      exact .keep h

-- =============================================================== a run

/-- Results that are the same without trivia: both files changed or none, for
the same imports and with the same remarks. -/
structure AlikeResults (a b : RecipeResult) : Prop where
  after : Alike CompilationUnit.blank a.after b.after
  isChanged : a.isChanged = b.isChanged
  delta : a.delta = b.delta
  diagnostics : a.diagnostics = b.diagnostics

/-- A run does the same to files that are the same without trivia. -/
theorem alike_run (cp : ClassPath) {cu cu' : CompilationUnit}
    (h : Alike CompilationUnit.blank cu cu') :
    AlikeResults (r.run cp cu) (r.run cp cu') := by
  have hqualified : r.mustQualify cp cu = r.mustQualify cp cu' :=
    CompilationUnit.simpleNameTaken_eq _ _ h
  unfold run
  rw [r.appliesTo_eq h, hqualified]
  split
  · exact ⟨h, rfl, rfl, rfl⟩
  · have hedited := Ignores.of_blank
      (CompilationUnit.related_edit
        (r.ignoresTrivia_editor (r.mustQualify cp cu'))) cu cu' h
    dsimp only
    rw [hedited.isNew, hedited.notes]
    refine ⟨?_, rfl, rfl, rfl⟩
    dsimp only
    split
    · exact (CompilationUnit.ignores_applyDelta _ _ _ hedited.value).value
    · exact hedited.value

/-- The rule changes the file, and its imports cannot be brought in line. -/
def bringsInVain (cp : ClassPath) (cu : CompilationUnit) : Bool :=
  let edited := cu.edit (r.editor (r.mustQualify cp cu))
  let delta := RuleNote.delta edited.notes
  let references := edited.value.simpleReferences
  let dropped : Edited Empty CompilationUnit :=
    edited.value.dropImports references delta.removed
  r.appliesTo cu && edited.isNew &&
    CompilationUnit.bringsInVain references delta.added dropped.value

theorem run?_eq_error_iff {cp : ClassPath} {cu : CompilationUnit}
    {e : CompilationUnit.DeltaError} :
    r.run? cp cu = .error e ↔ r.bringsInVain cp cu = true := by
  unfold run? bringsInVain CompilationUnit.applyDelta?
  dsimp only
  cases e
  cases r.appliesTo cu with
  | false => simp [pure, Except.pure]
  | true =>
      rw [if_pos rfl, Bool.true_and]
      split
      · next hnew =>
        rw [hnew, Bool.true_and]
        split
        · next hvain => exact iff_of_true rfl hvain
        · next hvain => exact iff_of_false nofun hvain
      · next hnew => simp [hnew, pure, Except.pure]

/-- The imports of files that are the same without trivia can both be brought
in line or neither can. -/
theorem bringsInVain_eq (cp : ClassPath) {cu cu' : CompilationUnit}
    (h : Alike CompilationUnit.blank cu cu') :
    r.bringsInVain cp cu = r.bringsInVain cp cu' := by
  have hqualified : r.mustQualify cp cu = r.mustQualify cp cu' :=
    CompilationUnit.simpleNameTaken_eq _ _ h
  have hedited := Ignores.of_blank
    (CompilationUnit.related_edit
      (r.ignoresTrivia_editor (r.mustQualify cp cu'))) cu cu' h
  unfold bringsInVain
  dsimp only
  rw [r.appliesTo_eq h, hqualified, hedited.isNew, hedited.notes,
    hedited.value.answer_eq CompilationUnit.simpleReferences_blank]
  refine congrArg _ (CompilationUnit.bringsInVain_eq _ _ ?_)
  exact (CompilationUnit.ignores_dropImports _ _ _ _ hedited.value).value

end CatchRule

end JavaRefit
