/-
The comments that a run keeps.

The rule rewrites what clauses declare and changes the imports. So a
comment of a file is in the file after a run, and in its place among the
others, unless it is in what a rewritten clause declares, in or in front
of the legacy import, or in front of what takes the place of that import
as the first one (`comments_run`). The sample shows that these last ones
are lost indeed (`comments_run_sample_lost`).

Chain: after `Rerun` and the comments of changed imports; `Remainder`
reads it.
-/
import JavaRefit.Proofs.CatchRule.Imports
import JavaRefit.Proofs.CatchRule.Rerun
import JavaRefit.Proofs.Import.Comments

namespace JavaRefit

open Piece

namespace CatchRule

variable (r : CatchRule) (qualified : Bool)

-- ========================================================== what is declared

/-- The plan for a `try` when the rule comes to it: the statements inside have
been rewritten. -/
def planned (t : Try Stmt) : Retargeting :=
  r.plan (Try.editParts (.ofTry (r.retarget qualified)) t).value

/-- The declarations of clauses as the rule rewrites them. -/
def newDeclarations : ShownDeclaration := fun t c =>
  (r.newDeclaration qualified (r.planned qualified t) c.declaration).pieces

/-- A clause is rewritten: it catches the legacy type, and its `try` is not
left as it is. -/
def rewrites (t : Try Stmt) (c : Catch Stmt) : Bool :=
  r.planned qualified t != .unchanged && c.catches r.legacy

/-- The declarations of clauses, those aside that are rewritten. -/
def keptDeclarations : ShownDeclaration := fun t c =>
  if r.rewrites qualified t c then [] else c.declaration.pieces

variable {r qualified} in
/-- A clause that is not rewritten declares what it did. -/
theorem newDeclarations_of_not_rewrites {t : Try Stmt} {c : Catch Stmt}
    (h : r.rewrites qualified t c = false) :
    r.newDeclarations qualified t c = c.declaration.pieces := by
  have hsame : r.newDeclaration qualified (r.planned qualified t)
      c.declaration = c.declaration := by
    rw [rewrites, Catch.catches, Catch.caughtTypes_eq] at h
    unfold newDeclaration
    cases hplan : r.planned qualified t <;> simp_all
  rw [newDeclarations, hsame]

theorem keptDeclarations_sublist (t : Try Stmt) (c : Catch Stmt) :
    List.Sublist (r.keptDeclarations qualified t c)
      (r.newDeclarations qualified t c) := by
  unfold keptDeclarations
  split
  · exact List.nil_sublist _
  · next h => rw [newDeclarations_of_not_rewrites (Bool.eq_false_iff.2 h)]

theorem keptDeclarations_sublist_declarations (t : Try Stmt) (c : Catch Stmt) :
    List.Sublist (r.keptDeclarations qualified t c) (declarations t c) := by
  unfold keptDeclarations
  split
  · exact List.nil_sublist _
  · exact .refl _

-- ============================================================== statements

variable {qualified}

theorem needsSemicolon_edit (s : Stmt) :
    (s.edit (.ofTry (r.retarget qualified))).value.needsSemicolon =
      s.needsSemicolon := by
  cases s with
  | returning lead value => cases value <;> rfl
  | _ => rfl

theorem paddedPieces_edit {p : RightPadded Stmt}
    (ih : (p.element.edit (.ofTry (r.retarget qualified))).value.pieces =
      p.element.piecesWith (r.newDeclarations qualified)) :
    Stmt.paddedPieces (p.map fun s =>
      (s.edit (.ofTry (r.retarget qualified))).value) =
      Stmt.paddedPiecesWith (r.newDeclarations qualified) p := by
  rw [Stmt.paddedPieces, Stmt.paddedPiecesWith, RightPadded.map, ih,
    needsSemicolon_edit]

theorem blockPieces_edit {b : Block Stmt}
    (ih : ∀ p ∈ b.statements,
      (p.element.edit (.ofTry (r.retarget qualified))).value.pieces =
      p.element.piecesWith (r.newDeclarations qualified)) :
    Stmt.blockPieces (Stmt.editBlock (.ofTry (r.retarget qualified)) b).value =
      Stmt.blockPiecesWith (r.newDeclarations qualified) b := by
  rw [Stmt.editBlock_value, Stmt.blockPieces, Stmt.blockPiecesWith,
    Stmt.allPieces_eq_flatMap, Stmt.allPiecesWith_eq_flatMap, List.flatMap_map]
  exact congrArg (bracedPieces b.lead · b.close) (List.flatMap_congr fun p hp =>
    paddedPieces_edit r (ih p hp))

/-- A statement edited by the rule shows the rewritten declarations, and all
else as it was. -/
theorem pieces_edit (s : Stmt) :
    (s.edit (.ofTry (r.retarget qualified))).value.pieces =
      s.piecesWith (r.newDeclarations qualified) := by
  induction s using Stmt.induction_on with
  | block b ih => exact blockPieces_edit r ih
  | tryCatch t ihb ihc ihf =>
      have hv :
          (Stmt.edit (.ofTry (r.retarget qualified)) (.tryCatch t)).value =
          .tryCatch (r.retarget qualified
            (Try.editParts (.ofTry (r.retarget qualified)) t).value).value :=
              rfl
      obtain ⟨hvalue, -⟩ := r.retarget_isRetargeted qualified
        (Try.editParts (.ofTry (r.retarget qualified)) t).value
      have hf : Stmt.finallyPieces
          (Stmt.editFinally (.ofTry (r.retarget qualified)) t.finally?).value =
          Stmt.finallyPiecesWith (r.newDeclarations qualified) t.finally? := by
        cases hf : t.finally? with
        | none => rfl
        | some f =>
            rw [Stmt.finallyPiecesWith, ← blockPieces_edit r (ihf f hf)]
            rfl
      have hcs : Catch.allPieces ((t.catches.map fun c =>
            { c with body :=
              (Stmt.editBlock (.ofTry (r.retarget qualified))
                c.body).value }).map
              (r.newClause qualified (r.planned qualified t))) =
          Catch.allPiecesWith (r.newDeclarations qualified)
            (r.newDeclarations qualified t)
            t.catches := by
        rw [Catch.allPieces_eq_flatMap, Catch.allPiecesWith_eq_flatMap,
          List.map_map, List.flatMap_map]
        refine List.flatMap_congr fun c hc => ?_
        rw [Catch.piecesWith, ← blockPieces_edit r (ihc c hc)]
        rfl
      rw [hv, hvalue, ← planned, Try.editParts_value]
      rw [Stmt.pieces, Try.pieces, Stmt.piecesWith, Try.piecesWith, ← hcs,
        blockPieces_edit r ihb, hf]
  | ifElse lead condition thenPart elsePart iht ihe =>
      have he : Stmt.elsePieces
          (Stmt.editElse (.ofTry (r.retarget qualified)) elsePart).value =
          Stmt.elsePiecesWith (r.newDeclarations qualified) elsePart := by
        cases elsePart with
        | none => rfl
        | some e =>
            rw [Stmt.editElse_some, Stmt.elsePieces, Stmt.elsePiecesWith,
              Else.pieces, Else.piecesWith, paddedPieces_edit r (ihe e rfl)]
      rw [Stmt.edit, Expr.editCondition_ofTry]
      show trivia lead :: word "if" ::
        (Expr.conditionPieces condition ++ Stmt.paddedPieces
        (thenPart.map fun s =>
          (s.edit (.ofTry (r.retarget qualified))).value) ++
          Stmt.elsePieces (Stmt.editElse (.ofTry (r.retarget qualified))
            elsePart).value) = _
      rw [paddedPieces_edit r iht, he, Stmt.piecesWith]
  | whileLoop lead condition body ih =>
      rw [Stmt.edit, Expr.editCondition_ofTry]
      show trivia lead :: word "while" ::
        (Expr.conditionPieces condition ++ Stmt.paddedPieces
        (body.map fun s => (s.edit (.ofTry (r.retarget qualified))).value)) = _
      rw [paddedPieces_edit r ih, Stmt.piecesWith]
  | throwing lead exception =>
      rw [Stmt.edit, Expr.edit_ofTry]
      rfl
  | returning lead value =>
      cases value with
      | none => rfl
      | some e =>
          rw [Stmt.edit, Expr.edit_ofTry]
          rfl
  | declaration d =>
      rw [Stmt.edit, Variables.edit_ofTry]
      rfl
  | expr e =>
      rw [Stmt.edit, Expr.edit_ofTry]
      rfl
  | empty lead => rfl

-- ========================================================= classes and files

theorem pieces_editMethod (m : Method) :
    (m.edit (.ofTry (r.retarget qualified))).value.pieces =
      m.piecesWith (r.newDeclarations qualified) := by
  rw [Method.edit_value, Method.pieces, Method.piecesWith]
  cases m.body with
  | none => rfl
  | some b =>
      dsimp only
      rw [← blockPieces_edit r fun p _ => pieces_edit r p.element]
      rfl

theorem needsSemicolon_editMember (m : Member) :
    (m.edit (.ofTry (r.retarget qualified))).value.needsSemicolon =
      m.needsSemicolon := by
  cases m with
  | method m =>
      show Option.isNone (Stmt.editBody _ m.body).value = m.body.isNone
      cases m.body <;> rfl
  | _ => rfl

/-- A class shows the rewritten declarations, and all else as it was, if its
members do. -/
theorem pieces_editClass_of_members {c : JavaClass}
    (ih : ∀ p ∈ c.body.statements,
      (p.element.edit (.ofTry (r.retarget qualified))).value.pieces =
      p.element.piecesWith (r.newDeclarations qualified)) :
    (c.edit (.ofTry (r.retarget qualified))).value.pieces =
      c.piecesWith (r.newDeclarations qualified) := by
  have hbody : Member.allPieces (c.body.statements.map
        (.map fun m => (m.edit (.ofTry (r.retarget qualified))).value)) =
      Member.allPiecesWith (r.newDeclarations qualified) c.body.statements := by
    rw [Member.allPieces_eq_flatMap, Member.allPiecesWith_eq_flatMap,
      List.flatMap_map]
    refine List.flatMap_congr fun p hp => ?_
    rw [Member.paddedPieces, Member.paddedPiecesWith, RightPadded.map, ih p hp,
      needsSemicolon_editMember]
  rw [ClassDecl.edit_value, ClassDecl.pieces, ClassDecl.piecesWith,
    Member.blockPieces, Member.blockPiecesWith, hbody]

theorem pieces_editMember (m : Member) :
    (m.edit (.ofTry (r.retarget qualified))).value.pieces =
      m.piecesWith (r.newDeclarations qualified) := by
  induction m using Member.induction_on with
  | field d =>
      rw [Member.edit, Variables.edit_ofTry]
      rfl
  | method m => exact pieces_editMethod r m
  | nested c ih => exact pieces_editClass_of_members r ih

theorem pieces_editClass (c : JavaClass) :
    (c.edit (.ofTry (r.retarget qualified))).value.pieces =
      c.piecesWith (r.newDeclarations qualified) :=
  pieces_editClass_of_members r fun p _ => pieces_editMember r p.element

/-- A class edited by the rule shows the comments that are kept. -/
theorem showsMore_editClass (c : JavaClass) :
    ClassDecl.ShowsMore (r.keptDeclarations qualified) declarations c
      (c.edit (.ofTry (r.retarget qualified))).value where
  lead := by rw [ClassDecl.edit_value]
  inner := by
    have hsub := c.piecesWith_sublist (r.keptDeclarations_sublist qualified)
    rw [ClassDecl.innerCommentsWith, ClassDecl.innerCommentsWith,
      ClassDecl.piecesWith_declarations, pieces_editClass]
    exact hsub.tail.flatMap _

theorem showsMore_self (c : JavaClass) :
    ClassDecl.ShowsMore (r.keptDeclarations qualified) declarations c c where
  lead := rfl
  inner :=
    (c.piecesWith_sublist (r.keptDeclarations_sublist_declarations
      qualified)).tail.flatMap _

-- =================================================================== runs

/-- The place of the import that a run takes away. -/
def droppedImport? (cp : ClassPath) (cu : CompilationUnit) : Option Nat :=
  let result := r.run cp cu
  if result.isChanged then
    cu.dropped? result.after.simpleReferences result.delta.removed r.legacy
  else none

theorem delta_run_of_isChanged {cp : ClassPath} {cu : CompilationUnit}
    (h : (r.run cp cu).isChanged = true) :
    (r.run cp cu).delta =
      RuleNote.delta (cu.edit (r.editor (r.mustQualify cp cu))).notes := by
  unfold run at h ⊢
  split
  · next happ => rw [if_pos happ] at h; cases h
  · rfl

/-- All comments stay but those of rewritten declarations, those that go with
the legacy import, and those that are overwritten then. -/
theorem commentsStay_run (cp : ClassPath) (cu : CompilationUnit) :
    CompilationUnit.CommentsStay (r.keptDeclarations (r.mustQualify cp cu))
      declarations cu
      (r.droppedImport? cp cu) (r.run cp cu).after := by
  cases hchanged : (r.run cp cu).isChanged with
  | false =>
      have hdropped : r.droppedImport? cp cu = none :=
        if_neg (by rw [hchanged]; exact Bool.false_ne_true)
      rw [hdropped, after_run_of_not_isChanged hchanged]
      exact CompilationUnit.commentsStay_none
        (List.forall₂_same.2 fun c _ => r.showsMore_self c)
  | true =>
      have hdropped : r.droppedImport? cp cu =
          cu.dropped? (r.run cp cu).after.simpleReferences
            (r.run cp cu).delta.removed r.legacy :=
        if_pos hchanged
      rw [hdropped, delta_run_of_isChanged r hchanged,
        after_run_of_isChanged hchanged,
        CompilationUnit.simpleReferences_applyDelta]
      have hedit : (cu.edit (r.editor (r.mustQualify cp cu))).value =
          { cu with classes := cu.classes.map fun c =>
              (c.edit (.ofTry (r.retarget (r.mustQualify cp cu)))).value } := by
        rw [editor_eq, CompilationUnit.edit_value]
      rw [hedit]
      refine CompilationUnit.commentsStay_applyDelta ?_
        (r.removed_delta_edit _ cu)
      rw [List.forall₂_map_right_iff]
      exact List.forall₂_same.2 fun c _ => r.showsMore_editClass c

/-- Every comment of a text is in the text after a run and in its place among
the others, but those in rewritten declarations, those that go with the
legacy import, and those in front of what comes to be first in its place. -/
theorem comments_run (r : CatchRule) {source : String} {cp : ClassPath}
    {path : Option String} {cu : CompilationUnit}
    (h : parseUnit source cp path = .ok cu) :
    let dropped := r.droppedImport? cp cu
    (Token.scan source).comments = cu.comments ∧
      ∃ before after,
        (cu.withoutImport dropped).commentsWith
          (r.keptDeclarations (r.mustQualify cp cu)) =
          before ++ (cu.overwritten dropped).comments ++ after ∧
        List.Sublist (before ++ after) (r.run cp cu).after.comments ∧
        AppearIn (before ++ after) (r.run cp cu).source.toList := by
  obtain ⟨before, after, heq, hsub⟩ := r.commentsStay_run cp cu
  rw [CompilationUnit.commentsWith_declarations] at hsub
  exact ⟨comments_parseUnit h, before, after, heq, hsub,
    ((r.run cp cu).after.appearIn_comments).sublist hsub⟩

/-- A file with a comment in front of its class, in a clause and behind that. -/
def sampleCommented : String :=
  "package p;\nimport p.Old;\n// the class\nclass A\x7bApi a;void f()\x7btry\x7ba.call();\x7d" ++
    "catch(/* old */ Old e)\x7b// why\n\x7d\x7d\x7d"

/-- In the sample the comments in front of the class and in the body of the
clause are kept. -/
theorem comments_run_sample :
    ∃ cu, parseUnit sampleCommented sampleClassPath none = .ok cu ∧
      (cu.withoutImport (sampleRule.droppedImport? sampleClassPath
        cu)).commentsWith
          (sampleRule.keptDeclarations
            (sampleRule.mustQualify sampleClassPath cu)) =
        ["// the class", "// why"] ∧
      List.Sublist ["// the class", "// why"]
        (sampleRule.run sampleClassPath cu).after.comments ∧
      AppearIn ["// the class", "// why"]
        (sampleRule.run sampleClassPath cu).source.toList := by
  have hok : (parseUnit sampleCommented sampleClassPath none).isOk = true := by
    decide +kernel
  obtain ⟨cu, h⟩ := exists_of_isOk hok
  have hunit : sampleUnit sampleCommented = cu := by rw [sampleUnit, h]
  have hkept :
      (cu.withoutImport (sampleRule.droppedImport? sampleClassPath
        cu)).commentsWith
        (sampleRule.keptDeclarations
          (sampleRule.mustQualify sampleClassPath cu)) =
      ["// the class", "// why"] := by
    rw [← hunit]
    decide +kernel
  have hover :
      (cu.overwritten (sampleRule.droppedImport? sampleClassPath cu)).comments =
        [] := by
    rw [← hunit]
    decide +kernel
  obtain ⟨-, before, after, heq, hsub, happear⟩ := comments_run sampleRule h
  rw [hkept, hover, List.append_nil] at heq
  rw [← heq] at hsub happear
  exact ⟨cu, h, hkept, hsub, happear⟩

/-- A file whose only import is of the legacy type, and whose class has a
comment in front. -/
def sampleOverwritten : String :=
  "import p.Old;\n/** the class */\nclass A\x7bp.Api a;void f()\x7btry\x7ba.call();\x7d" ++
    "catch(Old e)\x7b\x7d\x7d\x7d"

/-- The comment in front of the class is neither in the legacy import nor in
front of it nor in a declaration, and it is lost when that import goes. -/
theorem comments_run_sample_lost :
    (parseUnit sampleOverwritten sampleClassPath none).isOk = true ∧
      ((sampleUnit sampleOverwritten).withoutImport
          (sampleRule.droppedImport? sampleClassPath
            (sampleUnit sampleOverwritten))).commentsWith
        (sampleRule.keptDeclarations
          (sampleRule.mustQualify sampleClassPath
            (sampleUnit sampleOverwritten))) =
        ["/** the class */"] ∧
      (sampleRule.run sampleClassPath
        (sampleUnit sampleOverwritten)).after.comments = [] ∧
      ¬"/** the class */".toList.IsInfix
        (sampleRule.run sampleClassPath
          (sampleUnit sampleOverwritten)).source.toList := by
  decide +kernel

end CatchRule

end JavaRefit
