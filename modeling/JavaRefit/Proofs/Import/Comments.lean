/-
The comments of a file whose imports change.

An import more brings no comments and moves none past another. An import
less takes its own along, those in front of it and those in it; and where
it was the first, what stood in front of it comes to stand in front of
the next import or class, whose own comments there are overwritten.

Chain: after `Delta` and the comments of trees; the comments that a run
keeps rest on it.
-/
import JavaRefit.Proofs.Import.Delta
import JavaRefit.Proofs.Tree.Comments
import JavaRefit.Proofs.Tree.Edit
import JavaRefit.Proofs.Tree.Shown

namespace JavaRefit

open Piece

-- ========================================================= names and imports

/-- The comments of a name that has none of its own are those of its trivia. -/
theorem Name.comments_withLead {n : Name} (h : commentsAll n.pieces = [])
    (lead : Trivia) : commentsAll (n.withLead lead).pieces = lead.comments := by
  cases n with
  | simple i type => simp [withLead, pieces, Ident.pieces]
  | qualified lead' outer last type =>
      rw [pieces, commentsAll_trivia, List.append_eq_nil_iff] at h
      rw [withLead, pieces, commentsAll_trivia, h.2, List.append_nil]

/-- A chain made of words has no comments. -/
theorem Name.comments_ofDotted (fqn : String) :
    commentsAll (ofDotted fqn).pieces = [] := by
  have hfold (rest : List String) (n : Name) (h : commentsAll n.pieces = []) :
      commentsAll (rest.foldl (fun outer word =>
        qualified "" outer ⟨"", ⟨"", word⟩⟩ none) n).pieces = [] := by
    induction rest generalizing n with
    | nil => exact h
    | cons s rest ih => exact ih _ (by simp [pieces, Ident.pieces, h])
  rw [ofDotted]
  split
  · rfl
  · exact hfold _ _ rfl

namespace Import

/-- The comments of an import up to its semicolon, those in front of it
aside. -/
def innerComments (p : RightPadded Import) : List String :=
  commentsAll (p.element.pieces.tail ++ [trivia p.after])

/-- The comments of an import up to its semicolon. -/
def comments (p : RightPadded Import) : List String :=
  p.element.lead.comments ++ innerComments p

/-- A new import has the comments of its trivia. -/
theorem comments_ofClass (lead : Trivia) (fqn : String) :
    comments ⟨ofClass lead fqn, ""⟩ = lead.comments := by
  have hname := Name.comments_withLead (Name.comments_ofDotted fqn) " "
  simp [comments, innerComments, ofClass, pieces, hname]
  rfl

/-- Of the comments only those before the first import change. -/
theorem comments_withFirstLead (lead : Trivia) (p : RightPadded Import)
    (ps : List (RightPadded Import)) :
    (withFirstLead lead (p :: ps)).flatMap comments =
      lead.comments ++ innerComments p ++ ps.flatMap comments := rfl

/-- What is put in and gives nothing changes nothing. -/
theorem flatMap_insertIdx {α β : Type} {f : α → List β} {a : α} (ha : f a = [])
    (l : List α) (n : Nat) : (l.insertIdx n a).flatMap f = l.flatMap f := by
  induction n generalizing l with
  | zero => simp [ha]
  | succ n ih =>
      cases l with
      | nil => rfl
      | cons b l => simp [ih]

/-- A new import has no comments, and the others keep theirs. -/
theorem comments_insert (fqn : String) (imports : List (RightPadded Import)) :
    (insert fqn imports).flatMap comments = imports.flatMap comments := by
  have hnew : comments ⟨ofClass "\n" fqn, ""⟩ = [] := by
    rw [comments_ofClass, Trivia.comments_lineEnd]
  unfold insert
  split
  · simp [hnew]
  · split
    · simp [hnew]
    · next p ps _ =>
      have hp : comments { p with element := { p.element with lead := "\n" } } =
          innerComments p := by
        rw [comments, Trivia.comments_lineEnd, List.nil_append]
        rfl
      rw [List.flatMap_cons, List.flatMap_cons, List.flatMap_cons,
        comments_ofClass, hp, comments, List.append_assoc]
  · exact flatMap_insertIdx hnew _ _

end Import

-- ============================================================== whole files

variable (shown : ShownDeclaration)

/-- The comments of a class, those in front of it aside. -/
def ClassDecl.innerCommentsWith (c : JavaClass) : List String :=
  commentsAll (c.piecesWith shown).tail

/-- The comments of a class. -/
def ClassDecl.commentsWith (c : JavaClass) : List String :=
  c.lead.comments ++ c.innerCommentsWith shown

theorem ClassDecl.innerCommentsWith_withLead (c : JavaClass) (lead : Trivia) :
    ClassDecl.innerCommentsWith shown { c with lead } =
      c.innerCommentsWith shown := by
  rw [innerCommentsWith, innerCommentsWith, piecesWith, piecesWith]
  rfl

/-- The other class has the same trivia in front and shows no fewer comments
inside. -/
structure ClassDecl.ShowsMore (shown shown' : ShownDeclaration)
    (c c' : JavaClass) : Prop where
  lead : c'.lead = c.lead
  inner : List.Sublist (c.innerCommentsWith shown) (c'.innerCommentsWith shown')

theorem ClassDecl.ShowsMore.withLead {shown shown' : ShownDeclaration}
    {c c' : JavaClass} (h : ShowsMore shown shown' c c') (f : Trivia → Trivia) :
    ShowsMore shown shown' { c with lead := f c.lead }
      { c' with lead := f c'.lead } where
  lead := congrArg f h.lead
  inner := by
    rw [innerCommentsWith_withLead shown c,
      innerCommentsWith_withLead shown' c']
    exact h.inner

namespace CompilationUnit

/-- The comments of a file in front of its imports. -/
def headComments (cu : CompilationUnit) : List String :=
  cu.lead.comments ++ match cu.package? with
    | none => []
    | some p => commentsAll (p.element.pieces ++ [trivia p.after])

/-- The comments of a file, with something else shown for the declarations of
its clauses. -/
def commentsWith (cu : CompilationUnit) : List String :=
  commentsAll (cu.piecesWith shown)

/-- With the declarations shown the comments are those of the file. -/
theorem commentsWith_declarations (cu : CompilationUnit) :
    cu.commentsWith declarations = cu.comments := by
  rw [commentsWith, piecesWith_declarations, comments]

/-- The comments of a file, part by part. -/
theorem commentsWith_eq (cu : CompilationUnit) :
    cu.commentsWith shown = cu.headComments ++
      cu.imports.flatMap Import.comments ++
      cu.classes.flatMap (ClassDecl.commentsWith shown) ++
        cu.close.comments := by
  have himport (p : RightPadded Import) :
      commentsAll (p.element.pieces ++ [trivia p.after, word ";"]) =
        Import.comments p := by
    rw [Import.comments, Import.innerComments, Import.pieces]
    simp
  have hclass (c : JavaClass) :
      commentsAll (c.piecesWith shown) = c.commentsWith shown := by
    rw [ClassDecl.commentsWith, ClassDecl.innerCommentsWith,
      ClassDecl.piecesWith]
    rfl
  rw [commentsWith, piecesWith, commentsAll_trivia, commentsAll_append,
    commentsAll_append, commentsAll_append, commentsAll_flatMap,
    commentsAll_flatMap, funext himport, funext hclass,
    headComments]
  cases cu.package? <;> simp

-- -------------------------------------------------------- the first of a kind

variable (cu : CompilationUnit)

/-- Without a class there is no trivia to change. -/
theorem withFirstClassLead_nil (h : cu.classes = []) (f : Trivia → Trivia) :
    cu.withFirstClassLead f = cu := by
  unfold withFirstClassLead
  rw [h]

/-- The comments in front of the first class are one stretch of those of a
file. -/
theorem exists_commentsWith_firstClass {c : JavaClass} {cs : List JavaClass}
    (h : cu.classes = c :: cs) :
    ∃ before after, ∀ f, (cu.withFirstClassLead f).commentsWith shown =
      before ++ (f c.lead).comments ++ after := by
  refine ⟨cu.headComments ++ cu.imports.flatMap Import.comments,
    c.innerCommentsWith shown ++ cs.flatMap (ClassDecl.commentsWith shown) ++
      cu.close.comments,
    fun f => ?_⟩
  have hunit : cu.withFirstClassLead f =
      { cu with classes := { c with lead := f c.lead } :: cs } := by
    unfold withFirstClassLead
    rw [h]
  rw [hunit, commentsWith_eq, List.flatMap_cons, ClassDecl.commentsWith,
    ClassDecl.innerCommentsWith_withLead]
  simp only [List.append_assoc]
  rfl

/-- The comments in front of the first import are one stretch of those of a
file. -/
theorem exists_commentsWith_firstImport (p : RightPadded Import)
    (ps : List (RightPadded Import)) :
    ∃ before after, ∀ lead,
      { cu with imports := Import.withFirstLead lead (p :: ps) }.commentsWith
        shown = before ++ lead.comments ++ after := by
  refine ⟨cu.headComments,
    Import.innerComments p ++ ps.flatMap Import.comments ++
    cu.classes.flatMap (ClassDecl.commentsWith shown) ++ cu.close.comments,
    fun lead => ?_⟩
  rw [commentsWith_eq, Import.comments_withFirstLead]
  simp only [List.append_assoc]
  rfl

-- ------------------------------------------------------------ an import more

/-- Separating a class from an import keeps its comments. -/
theorem comments_separateFromImport (lead : Trivia) :
    (separateFromImport lead).comments = lead.comments := by
  unfold separateFromImport
  split
  · rfl
  · have hlines : ("\n\n" : Trivia) = "\n" ++ "\n" := by decide
    rw [hlines, String.append_assoc, Trivia.comments_newline,
      Trivia.comments_newline]

/-- Other trivia with the same comments in front of the first class changes no
comments. -/
theorem commentsWith_withFirstClassLead {f : Trivia → Trivia}
    (hf : ∀ lead, (f lead).comments = lead.comments) :
    (cu.withFirstClassLead f).commentsWith shown = cu.commentsWith shown := by
  cases hcs : cu.classes with
  | nil => rw [cu.withFirstClassLead_nil hcs]
  | cons c cs =>
      obtain ⟨before, after, h⟩ := exists_commentsWith_firstClass shown cu hcs
      have hid := h id
      rw [withFirstClassLead_id] at hid
      rw [h, hf, hid, id_eq]

/-- An import more changes no comments. -/
theorem commentsWith_addImport (fqn : String) :
    (cu.addImport fqn).commentsWith shown = cu.commentsWith shown := by
  have himports {imports : List (RightPadded Import)}
      (h : imports.flatMap Import.comments =
        cu.imports.flatMap Import.comments) :
      { cu with imports }.commentsWith shown = cu.commentsWith shown := by
    rw [commentsWith_eq, commentsWith_eq]
    dsimp only
    rw [h]
    rfl
  unfold addImport
  split
  · next hnone _ =>
    refine himports ?_
    rw [hnone, List.flatMap_cons, Import.comments_ofClass]
    decide
  · next hnone _ =>
    rw [commentsWith_withFirstClassLead shown _ comments_separateFromImport]
    refine himports ?_
    rw [hnone, List.flatMap_cons, Import.comments_ofClass]
    rfl
  · exact himports (Import.comments_insert fqn cu.imports)

/-- Bringing imports keeps all comments. -/
theorem commentsWith_bringImports {ω : Type} (references added : NameSet) :
    (cu.bringImports references added :
      Edited ω CompilationUnit).value.commentsWith shown =
      cu.commentsWith shown := by
  have hfoldl (e : Edited ω CompilationUnit) :
      (added.foldl (fun e fqn => e.andThen (bringImport references fqn))
        e).value.commentsWith
        shown = e.value.commentsWith shown := by
    induction added generalizing e with
    | nil => rfl
    | cons fqn added ih =>
        rw [List.foldl_cons, ih, Edited.value_andThen, bringImport]
        split
        · exact commentsWith_addImport shown e.value fqn
        · rfl
  exact hfoldl (.keep cu)

-- ------------------------------------------------------------ an import less

/-- The place of the import that goes with a class. -/
def importOf? (cu : CompilationUnit) (fqn : String) : Option Nat :=
  cu.imports.findIdx? fun p => p.element.isOf fqn

/-- The place of the import that a change of imports takes away, if it takes
away at most that of one class. -/
def dropped? (cu : CompilationUnit) (references removed : NameSet)
    (fqn : String) : Option Nat :=
  if removed.contains fqn && !references.contains fqn
    then cu.importOf? fqn else none

/-- The file without one of its imports, if one is to go. -/
def withoutImport (cu : CompilationUnit) : Option Nat → CompilationUnit
  | none => cu
  | some n => { cu with imports := cu.imports.eraseIdx n }

/-- What is in front of the import or class that comes to be first when the
first import goes, and gives way to what was in front of that one. Behind a
package nothing does so for a class. -/
def overwritten (cu : CompilationUnit) : Option Nat → Trivia
  | some 0 => match cu.imports.tail, cu.package?, cu.classes with
    | q :: _, _, _ => q.element.lead
    | [], none, c :: _ => c.lead
    | [], _, _ => ""
  | _ => ""

/-- The file without its first import, with other trivia in front of what takes
its place. -/
def withoutFirstImport (cu : CompilationUnit) (f : Trivia → Trivia) :
    CompilationUnit :=
  match cu.imports.tail, cu.package? with
  | q :: qs, _ =>
      { cu with imports := Import.withFirstLead (f q.element.lead) (q :: qs) }
  | [], none => { cu with imports := [] }.withFirstClassLead f
  | [], some _ => { cu with imports := [] }

/-- The first import is removed as any other, its trivia left alone. -/
theorem withoutFirstImport_id :
    cu.withoutFirstImport id = cu.withoutImport (some 0) := by
  unfold withoutFirstImport
  rw [withoutImport, List.eraseIdx_zero]
  cases cu.imports.tail with
  | cons q qs => rfl
  | nil =>
      cases cu.package? with
      | none => exact withFirstClassLead_id _
      | some p => rfl

/-- An import that is not there is not removed. -/
theorem removeImport?_none {fqn : String} (h : cu.importOf? fqn = none) :
    cu.removeImport? fqn = none := by
  rw [importOf?] at h
  rw [removeImport?, h]

/-- What comes to be first has the trivia in front that the first import had. -/
theorem exists_removeImport?_zero {fqn : String}
    (h : cu.importOf? fqn = some 0) :
    ∃ lead, cu.removeImport? fqn =
      some (cu.withoutFirstImport fun _ => lead) := by
  rw [importOf?] at h
  rw [removeImport?, h]
  cases himports : cu.imports with
  | nil =>
      rw [himports] at h
      cases h
  | cons p ps =>
      refine ⟨p.element.lead, ?_⟩
      unfold withoutFirstImport
      rw [himports]
      cases ps with
      | cons q qs => rfl
      | nil => cases cu.package? <;> rfl

/-- An import that is not the first is removed with its trivia. -/
theorem removeImport?_succ {fqn : String} {n : Nat}
    (h : cu.importOf? fqn = some (n + 1)) :
    cu.removeImport? fqn = some (cu.withoutImport (some (n + 1))) := by
  rw [importOf?] at h
  rw [removeImport?, h]
  cases himports : cu.imports with
  | nil =>
      rw [himports] at h
      cases h
  | cons p ps =>
      rw [withoutImport, himports]
      rfl

/-- One stretch of a file is overwritten and nothing else. -/
def OverwritesStretch (shown : ShownDeclaration)
    (cu : CompilationUnit) : Prop :=
  ∃ before after,
    (cu.withoutFirstImport id).commentsWith shown =
      before ++ (cu.overwritten (some 0)).comments ++ after ∧
    ∀ f, List.Sublist (before ++ after)
      ((cu.withoutFirstImport f).commentsWith shown)

variable {shown cu} in

/-- The comments that go are those of the trivia that is overwritten. -/
theorem OverwritesStretch.intro (before after : List String)
    (g : (Trivia → Trivia) → List String)
    (h : ∀ f, (cu.withoutFirstImport f).commentsWith shown =
      before ++ g f ++ after)
    (hid : g id = (cu.overwritten (some 0)).comments) :
    OverwritesStretch shown cu := by
  refine ⟨before, after, by rw [h, hid], fun f => ?_⟩
  rw [h]
  exact (List.sublist_append_left before _).append_right after

variable {shown cu} in
/-- Where no trivia matter, the stretch is empty. -/
theorem OverwritesStretch.of_eq (ho : cu.overwritten (some 0) = "")
    (h : ∀ f, cu.withoutFirstImport f = { cu with imports := [] }) :
    OverwritesStretch shown cu :=
  .intro ({ cu with imports := [] }.commentsWith shown) [] (fun _ => [])
    (fun f => by simp [h])
    (by simp [ho])

/-- Removing the first import overwrites one stretch of trivia. -/
theorem overwritesStretch : OverwritesStretch shown cu := by
  cases htail : cu.imports.tail with
  | cons q qs =>
      obtain ⟨before, after, h⟩ := exists_commentsWith_firstImport shown cu q qs
      refine .intro before after (fun f => (f q.element.lead).comments)
        (fun f => ?_) ?_
      · rw [← h]
        simp [withoutFirstImport, htail]
      · simp [overwritten, htail]
  | nil =>
      -- nothing is overwritten unless the first class is next
      cases hp : cu.package? with
      | some p =>
          exact .of_eq (by simp [overwritten, htail, hp]) fun f => by
            simp [withoutFirstImport, htail, hp]
      | none =>
          have hw (f : Trivia → Trivia) :
              cu.withoutFirstImport f =
                { cu with imports := [] }.withFirstClassLead f := by
            simp [withoutFirstImport, htail, hp]
          cases hcs : cu.classes with
          | nil =>
              refine .of_eq (by simp [overwritten, htail, hp, hcs]) fun f => ?_
              rw [hw]
              exact withFirstClassLead_nil { cu with imports := [] } hcs f
          | cons c cs =>
              obtain ⟨before, after, h⟩ :=
                exists_commentsWith_firstClass shown
                  { cu with imports := [] } hcs
              refine .intro before after (fun f => (f c.lead).comments)
                (fun f => ?_) ?_
              · rw [hw, h]
              · simp [overwritten, htail, hp, hcs]

-- ------------------------------------------------------------- other classes

variable {shown shown' : ShownDeclaration} {classes : List JavaClass}

/-- Classes that show more comments, in front of them the same, are those of a
file that does. -/
theorem commentsWith_sublist
    (h : List.Forall₂ (ClassDecl.ShowsMore shown shown') cu.classes classes) :
    List.Sublist (cu.commentsWith shown)
      ({ cu with classes }.commentsWith shown') := by
  have hclasses {cs cs' : List JavaClass}
      (h : List.Forall₂ (ClassDecl.ShowsMore shown shown') cs cs') :
      List.Sublist (cs.flatMap (ClassDecl.commentsWith shown))
        (cs'.flatMap (ClassDecl.commentsWith shown')) := by
    induction h with
    | nil => exact .refl _
    | @cons c c' _ _ hc _ ih =>
        rw [List.flatMap_cons, List.flatMap_cons]
        refine List.Sublist.append ?_ ih
        rw [ClassDecl.commentsWith, ClassDecl.commentsWith, hc.lead]
        exact hc.inner.append_left _
  rw [commentsWith_eq, commentsWith_eq]
  exact ((hclasses h).append_left _).append_right _

theorem commentsWith_withFirstClassLead_sublist
    (h : List.Forall₂ (ClassDecl.ShowsMore shown shown') cu.classes classes)
    (f : Trivia → Trivia) :
    List.Sublist ((cu.withFirstClassLead f).commentsWith shown)
      (({ cu with classes }.withFirstClassLead f).commentsWith shown') := by
  cases hcs : cu.classes with
  | nil =>
      rw [hcs] at h
      cases h
      rw [withFirstClassLead_nil cu hcs, withFirstClassLead_nil _ rfl]
      exact commentsWith_sublist cu (by rw [hcs]; exact .nil)
  | cons c cs =>
      rw [hcs] at h
      cases h with
      | @cons _ c' _ cs' hc hrest =>
          have hunit : cu.withFirstClassLead f =
              { cu with classes := { c with lead := f c.lead } :: cs } := by
            unfold withFirstClassLead
            rw [hcs]
          rw [hunit]
          exact commentsWith_sublist { cu with classes :=
            { c with lead := f c.lead } :: cs }
            (.cons (hc.withLead f) hrest)

theorem commentsWith_withoutFirstImport_sublist
    (h : List.Forall₂ (ClassDecl.ShowsMore shown shown') cu.classes classes)
    (f : Trivia → Trivia) :
    List.Sublist ((cu.withoutFirstImport f).commentsWith shown)
      (({ cu with classes }.withoutFirstImport f).commentsWith shown') := by
  unfold withoutFirstImport
  dsimp only
  split
  · next q qs _ =>
    exact commentsWith_sublist
      { cu with imports := Import.withFirstLead (f q.element.lead) (q :: qs) } h
  · exact commentsWith_withFirstClassLead_sublist { cu with imports := [] } h f
  · exact commentsWith_sublist { cu with imports := [] } h

/-- All comments of a file stay in another one, but those that go with
an import and those that are overwritten then. -/
def CommentsStay (shown shown' : ShownDeclaration) (cu : CompilationUnit)
    (n : Option Nat) (cu' : CompilationUnit) : Prop :=
  ∃ before after,
    (cu.withoutImport n).commentsWith shown =
      before ++ (cu.overwritten n).comments ++ after ∧
    List.Sublist (before ++ after) (cu'.commentsWith shown')

variable {cu}

theorem commentsStay_of_sublist {cu' : CompilationUnit} {n : Option Nat}
    (ho : cu.overwritten n = "")
    (h : List.Sublist ((cu.withoutImport n).commentsWith shown)
      (cu'.commentsWith shown')) :
    CommentsStay shown shown' cu n cu' :=
  ⟨(cu.withoutImport n).commentsWith shown, [], by simp [ho],
    by rw [List.append_nil]; exact h⟩

variable (h : List.Forall₂ (ClassDecl.ShowsMore shown shown')
  cu.classes classes)
include h

/-- Where nothing is removed the comments stay. -/
theorem commentsStay_none :
    CommentsStay shown shown' cu none { cu with classes } :=
  commentsStay_of_sublist rfl (cu.commentsWith_sublist h)

/-- An import less in a file with other classes. -/
theorem commentsStay_removeImport {ω : Type} (fqn : String) :
    CommentsStay shown shown' cu (cu.importOf? fqn)
      ({ cu with classes }.removeImport fqn :
        Edited ω CompilationUnit).value := by
  rw [removeImport]
  cases hn : cu.importOf? fqn with
  | none =>
      rw [removeImport?_none { cu with classes } hn]
      exact commentsStay_none h
  | some n =>
      cases n with
      | succ n =>
          rw [removeImport?_succ { cu with classes } hn]
          exact commentsStay_of_sublist rfl
            ((cu.withoutImport (some (n + 1))).commentsWith_sublist h)
      | zero =>
          obtain ⟨lead, hremove⟩ :=
            exists_removeImport?_zero { cu with classes } hn
          obtain ⟨before, after, heq, hsub⟩ := cu.overwritesStretch shown
          rw [hremove]
          rw [withoutFirstImport_id] at heq
          exact ⟨before, after, heq,
            (hsub _).trans (cu.commentsWith_withoutFirstImport_sublist h
              fun _ => lead)⟩

/-- A change of imports that takes away at most one, in a file with other
classes. -/
theorem commentsStay_applyDelta {ω : Type} {d : ImportDelta} {fqn : String}
    (hd : d.removed = [] ∨ d.removed = [fqn]) :
    CommentsStay shown shown' cu
      (cu.dropped? { cu with classes }.simpleReferences d.removed fqn)
      ({ cu with classes }.applyDelta d : Edited ω CompilationUnit).value := by
  unfold CommentsStay
  rw [applyDelta, Edited.value_andThen, commentsWith_bringImports, dropImports]
  rcases hd with hd | hd
  · rw [hd]
    exact commentsStay_none h
  · rw [hd, List.foldl_cons, List.foldl_nil, Edited.value_andThen,
      Edited.value_keep, dropped?]
    cases hr : List.contains { cu with classes }.simpleReferences fqn with
    | true =>
        rw [if_pos rfl, Bool.not_true, Bool.and_false,
          if_neg Bool.false_ne_true]
        exact commentsStay_none h
    | false =>
        have hremoved : [fqn].contains fqn = true := by simp
        rw [if_neg Bool.false_ne_true, hremoved, Bool.not_false,
          Bool.and_true, if_pos rfl]
        exact commentsStay_removeImport h fqn

end CompilationUnit

end JavaRefit
