/-
Statements with something else shown for the declarations of their catch
clauses.

The pieces of a tree once more, where what a clause declares is shown as
one says, by the clause and by the `try` it belongs to. Shown as they
are, the declarations give the pieces of the tree; and the less is shown
of each, the less is shown of the whole.

Chain: after `Induction`; the comments that a run keeps are counted with
it.
-/
import Mathlib.Data.List.Flatten
import Mathlib.Data.List.Basic
import JavaRefit.Proofs.Tree.Induction

namespace JavaRefit

open Piece

/-- What is shown of what a clause of a `try` declares. -/
abbrev ShownDeclaration := Try Stmt → Catch Stmt → List Piece

variable (shown shown' : ShownDeclaration)

-- ============================================================ definitions

mutual

/-- The pieces of a statement, with the clauses shown as wished. -/
def Stmt.piecesWith : Stmt → List Piece
  | .block b => Stmt.blockPiecesWith b
  | .tryCatch t => Try.piecesWith t
  | .ifElse lead condition thenPart elsePart =>
    trivia lead :: word "if" :: (Expr.conditionPieces condition ++
      Stmt.paddedPiecesWith thenPart ++ Stmt.elsePiecesWith elsePart)
  | .whileLoop lead condition body =>
    trivia lead :: word "while" ::
      (Expr.conditionPieces condition ++ Stmt.paddedPiecesWith body)
  | s => s.pieces

/-- A statement with its semicolon, where it needs one. -/
def Stmt.paddedPiecesWith (p : RightPadded Stmt) : List Piece :=
  Stmt.piecesWith p.element ++ trivia p.after ::
    semicolonIf p.element.needsSemicolon

/-- Statements one after the other. -/
def Stmt.allPiecesWith : List (RightPadded Stmt) → List Piece
  | [] => []
  | p :: ps => Stmt.paddedPiecesWith p ++ Stmt.allPiecesWith ps

def Stmt.blockPiecesWith (b : Block Stmt) : List Piece :=
  bracedPieces b.lead (Stmt.allPiecesWith b.statements) b.close

/-- The pieces of a try, with its clauses shown as wished. -/
def Try.piecesWith (t : Try Stmt) : List Piece :=
  trivia t.lead :: word "try" ::
    (Stmt.blockPiecesWith t.body ++ Catch.allPiecesWith (shown t) t.catches ++
      Stmt.finallyPiecesWith t.finally?)

/-- The pieces of a clause, its parameter shown as wished. -/
def Catch.piecesWith (declared : Catch Stmt → List Piece) (c : Catch Stmt) :
    List Piece :=
  trivia c.lead :: word "catch" ::
    (trivia c.parameter.lead :: word "(" ::
      (declared c ++ [trivia c.parameter.inner.after, word ")"]) ++
        Stmt.blockPiecesWith c.body)

/-- The clauses of a `try` statement. -/
def Catch.allPiecesWith (declared : Catch Stmt → List Piece) :
    List (Catch Stmt) → List Piece
  | [] => []
  | c :: cs => Catch.piecesWith declared c ++ Catch.allPiecesWith declared cs

/-- The `finally` of a `try` statement. -/
def Stmt.finallyPiecesWith : Option (LeftPadded (Block Stmt)) → List Piece
  | none => []
  | some f =>
      trivia f.before :: word "finally" :: Stmt.blockPiecesWith f.element

/-- The `else` of an `if` statement. -/
def Stmt.elsePiecesWith : Option (Else Stmt) → List Piece
  | none => []
  | some e => Else.piecesWith e

def Else.piecesWith (e : Else Stmt) : List Piece :=
  trivia e.lead :: word "else" :: Stmt.paddedPiecesWith e.body
end

def Method.piecesWith (m : Method) : List Piece :=
  trivia m.lead :: (Modifier.listPieces m.modifiers ++
    (match m.returnType with | none => [] | some t => t.pieces) ++
      m.name.pieces ++
    enclosed m.parameters.before "("
      (m.parameters.elements.map fun p => p.element.pieces ++ [trivia p.after])
      m.parameters.close ")" ++
    TypeTree.listPieces "throws" m.throws ++
    (match m.body with | none => [] | some b => Stmt.blockPiecesWith shown b))

mutual

/-- The pieces of a member, with the clauses shown as wished. -/
def Member.piecesWith : Member → List Piece
  | .field d => d.pieces
  | .method m => m.piecesWith shown
  | .nested c => ClassDecl.piecesWith c

/-- The pieces of a class, with the clauses shown as wished. -/
def ClassDecl.piecesWith (c : ClassDecl Member) : List Piece :=
  trivia c.lead :: (Modifier.listPieces c.modifiers ++
    trivia c.kindLead :: word c.kind.text :: (c.name.pieces ++
      TypeTree.listPieces "extends" c.extends? ++
      TypeTree.listPieces "implements" c.implements? ++
        Member.blockPiecesWith c.body))

def Member.blockPiecesWith (b : Block Member) : List Piece :=
  bracedPieces b.lead (Member.allPiecesWith b.statements) b.close

/-- Members one after the other, each with its semicolon, where it needs one. -/
def Member.allPiecesWith : List (RightPadded Member) → List Piece
  | [] => []
  | p :: ps =>
    Member.piecesWith p.element ++ trivia p.after ::
      (semicolonIf p.element.needsSemicolon ++ Member.allPiecesWith ps)
end

/-- The pieces of a file, with the clauses shown as wished. -/
def CompilationUnit.piecesWith (cu : CompilationUnit) : List Piece :=
  trivia cu.lead ::
    ((match cu.package? with
      | none => []
      | some p => p.element.pieces ++ [trivia p.after, word ";"]) ++
    cu.imports.flatMap (fun p =>
      p.element.pieces ++ [trivia p.after, word ";"]) ++
    cu.classes.flatMap (ClassDecl.piecesWith shown) ++ [trivia cu.close])

-- ================================================================= lists

theorem Stmt.allPiecesWith_eq_flatMap (ps : List (RightPadded Stmt)) :
    Stmt.allPiecesWith shown ps = ps.flatMap (Stmt.paddedPiecesWith shown) :=
  eq_flatMap rfl (fun _ _ => rfl) ps

theorem Catch.allPiecesWith_eq_flatMap (declared : Catch Stmt → List Piece)
    (cs : List (Catch Stmt)) :
    Catch.allPiecesWith shown declared cs =
      cs.flatMap (Catch.piecesWith shown declared) :=
  eq_flatMap rfl (fun _ _ => rfl) cs

/-- The pieces of a padded member, with its semicolon where it needs one. -/
def Member.paddedPiecesWith (p : RightPadded Member) : List Piece :=
  p.element.piecesWith shown ++ trivia p.after ::
    semicolonIf p.element.needsSemicolon

theorem Member.allPiecesWith_eq_flatMap (ps : List (RightPadded Member)) :
    Member.allPiecesWith shown ps =
      ps.flatMap (Member.paddedPiecesWith shown) :=
  eq_flatMap rfl (fun p ps => by
    simp [Member.allPiecesWith, Member.paddedPiecesWith]) ps

-- ========================================================= shown as they are

/-- Every declaration, shown as it is. -/
def declarations : ShownDeclaration := fun _ c => c.declaration.pieces

theorem Stmt.blockPiecesWith_declarations {b : Block Stmt}
    (ih : ∀ p ∈ b.statements, p.element.piecesWith declarations =
      p.element.pieces) :
    blockPiecesWith declarations b = blockPieces b := by
  rw [blockPiecesWith, blockPieces, allPiecesWith_eq_flatMap,
    allPieces_eq_flatMap]
  refine congrArg (bracedPieces b.lead · b.close)
    (List.flatMap_congr fun p hp => ?_)
  rw [paddedPiecesWith, paddedPieces, ih p hp]

/-- Declarations shown as they are give the pieces of a statement. -/
theorem Stmt.piecesWith_declarations (s : Stmt) :
    s.piecesWith declarations = s.pieces := by
  induction s using Stmt.induction_on with
  | block b ih => exact blockPiecesWith_declarations ih
  | tryCatch t ihb ihc ihf =>
      have hcs : Catch.allPiecesWith declarations (declarations t) t.catches =
          Catch.allPieces t.catches := by
        rw [Catch.allPiecesWith_eq_flatMap, Catch.allPieces_eq_flatMap]
        refine List.flatMap_congr fun c hc => ?_
        rw [Catch.piecesWith, Catch.pieces,
          blockPiecesWith_declarations (ihc c hc)]
        rfl
      have hf : finallyPiecesWith declarations t.finally? =
          finallyPieces t.finally? := by
        cases hf : t.finally? with
        | none => rfl
        | some f => rw [finallyPiecesWith, finallyPieces,
              blockPiecesWith_declarations (ihf f hf)]
      rw [piecesWith, pieces, Try.piecesWith, Try.pieces,
        blockPiecesWith_declarations ihb, hcs, hf]
  | ifElse lead condition thenPart elsePart iht ihe =>
      have he : elsePiecesWith declarations elsePart = elsePieces elsePart := by
        cases elsePart with
        | none => rfl
        | some e =>
            rw [elsePiecesWith, elsePieces, Else.piecesWith, Else.pieces,
              paddedPiecesWith, paddedPieces, ihe e rfl]
      rw [piecesWith, pieces, paddedPiecesWith, paddedPieces, iht, he]
  | whileLoop lead condition body ih =>
      rw [piecesWith, pieces, paddedPiecesWith, paddedPieces, ih]
  | _ => rfl

/-- With the declarations shown the pieces are those of the method. -/
theorem Method.piecesWith_declarations (m : Method) :
    m.piecesWith declarations = m.pieces := by
  rw [piecesWith, pieces]
  cases m.body with
  | none => rfl
  | some b =>
      have hb : Stmt.blockPiecesWith declarations b = Stmt.blockPieces b :=
        Stmt.blockPiecesWith_declarations fun p _ =>
          p.element.piecesWith_declarations
      exact congrArg (fun ps => trivia m.lead :: (_ ++ ps)) hb

theorem ClassDecl.piecesWith_declarations_of_members {c : JavaClass}
    (ih : ∀ p ∈ c.body.statements, p.element.piecesWith declarations =
      p.element.pieces) :
    c.piecesWith declarations = c.pieces := by
  have hbody : Member.blockPiecesWith declarations c.body =
      Member.blockPieces c.body := by
    rw [Member.blockPiecesWith, Member.blockPieces,
      Member.allPiecesWith_eq_flatMap, Member.allPieces_eq_flatMap]
    refine congrArg (bracedPieces c.body.lead · c.body.close)
      (List.flatMap_congr fun p hp => ?_)
    rw [Member.paddedPiecesWith, Member.paddedPieces, ih p hp]
  rw [piecesWith, pieces, hbody]

/-- With the declarations shown the pieces are those of the member. -/
theorem Member.piecesWith_declarations (m : Member) :
    m.piecesWith declarations = m.pieces := by
  induction m using Member.induction_on with
  | field d => rfl
  | method m => exact m.piecesWith_declarations
  | nested c ih => exact ClassDecl.piecesWith_declarations_of_members ih

/-- Declarations shown as they are give the pieces of a class. -/
theorem ClassDecl.piecesWith_declarations (c : JavaClass) :
    c.piecesWith declarations = c.pieces :=
  piecesWith_declarations_of_members fun p _ =>
    p.element.piecesWith_declarations

/-- Declarations shown as they are give the pieces of a file. -/
theorem CompilationUnit.piecesWith_declarations (cu : CompilationUnit) :
    cu.piecesWith declarations = cu.pieces := by
  rw [piecesWith, funext ClassDecl.piecesWith_declarations]
  rfl

-- ============================================================= less is shown

variable {shown shown'}

theorem Stmt.paddedPiecesWith_sublist {p : RightPadded Stmt}
    (ih : List.Sublist (p.element.piecesWith shown)
      (p.element.piecesWith shown')) :
    List.Sublist (paddedPiecesWith shown p) (paddedPiecesWith shown' p) := by
  rw [paddedPiecesWith, paddedPiecesWith]
  exact ih.append_right _

/-- To show less of the statements is to show less of the block. -/
theorem Stmt.blockPiecesWith_sublist {b : Block Stmt}
    (ih : ∀ p ∈ b.statements,
      List.Sublist (p.element.piecesWith shown) (p.element.piecesWith shown')) :
    List.Sublist (blockPiecesWith shown b) (blockPiecesWith shown' b) := by
  rw [blockPiecesWith, blockPiecesWith, allPiecesWith_eq_flatMap,
    allPiecesWith_eq_flatMap]
  exact (((List.Sublist.flatMap_right _ fun p hp =>
    paddedPiecesWith_sublist (ih p hp)).append_right _).cons_cons _).cons_cons _

variable (h : ∀ t, ∀ c, List.Sublist (shown t c) (shown' t c))
include h

/-- The less is shown of declarations, the less of a statement. -/
theorem Stmt.piecesWith_sublist (s : Stmt) :
    List.Sublist (s.piecesWith shown) (s.piecesWith shown') := by
  induction s using Stmt.induction_on with
  | block b ih => exact blockPiecesWith_sublist ih
  | tryCatch t ihb ihc ihf =>
      have hcs : List.Sublist (Catch.allPiecesWith shown (shown t) t.catches)
          (Catch.allPiecesWith shown' (shown' t) t.catches) := by
        rw [Catch.allPiecesWith_eq_flatMap, Catch.allPiecesWith_eq_flatMap]
        refine List.Sublist.flatMap_right _ fun c hc => ?_
        rw [Catch.piecesWith, Catch.piecesWith]
        have hdeclared :=
          ((h t c).append_right [trivia c.parameter.inner.after, word ")"])
        exact (((hdeclared.cons_cons _).cons_cons _).append
          (blockPiecesWith_sublist (ihc c hc))).cons_cons _ |>.cons_cons _
      have hf : List.Sublist (finallyPiecesWith shown t.finally?)
          (finallyPiecesWith shown' t.finally?) := by
        cases hf : t.finally? with
        | none => exact .refl _
        | some f =>
            exact ((blockPiecesWith_sublist (ihf f hf)).cons_cons _).cons_cons _
      rw [piecesWith, piecesWith, Try.piecesWith, Try.piecesWith]
      exact ((((blockPiecesWith_sublist ihb).append hcs).append hf).cons_cons
        _).cons_cons _
  | ifElse lead condition thenPart elsePart iht ihe =>
      have he : List.Sublist (elsePiecesWith shown elsePart)
          (elsePiecesWith shown' elsePart) := by
        cases elsePart with
        | none => exact .refl _
        | some e =>
            rw [elsePiecesWith, elsePiecesWith, Else.piecesWith,
              Else.piecesWith]
            exact ((paddedPiecesWith_sublist (ihe e rfl)).cons_cons
              _).cons_cons _
      rw [piecesWith, piecesWith]
      exact ((((paddedPiecesWith_sublist iht).append_left _).append
        he).cons_cons _).cons_cons _
  | whileLoop lead condition body ih =>
      rw [piecesWith, piecesWith]
      exact (((paddedPiecesWith_sublist ih).append_left _).cons_cons
        _).cons_cons _
  | _ => exact .refl _

/-- To show less of the clauses is to show less of the method. -/
theorem Method.piecesWith_sublist (m : Method) :
    List.Sublist (m.piecesWith shown) (m.piecesWith shown') := by
  rw [piecesWith, piecesWith]
  refine (List.Sublist.append_left ?_ _).cons_cons _
  cases m.body with
  | none => exact .refl _
  | some b => exact Stmt.blockPiecesWith_sublist fun p _ =>
        p.element.piecesWith_sublist h

omit h in
theorem ClassDecl.piecesWith_sublist_of_members {c : JavaClass}
    (ih : ∀ p ∈ c.body.statements,
      List.Sublist (p.element.piecesWith shown) (p.element.piecesWith shown')) :
    List.Sublist (c.piecesWith shown) (c.piecesWith shown') := by
  have hbody : List.Sublist (Member.blockPiecesWith shown c.body)
      (Member.blockPiecesWith shown' c.body) := by
    rw [Member.blockPiecesWith, Member.blockPiecesWith,
      Member.allPiecesWith_eq_flatMap, Member.allPiecesWith_eq_flatMap]
    refine (((List.Sublist.flatMap_right _ fun p hp => ?_).append_right
      _).cons_cons _).cons_cons _
    exact (ih p hp).append_right _
  rw [piecesWith, piecesWith]
  exact (((hbody.append_left _).cons_cons _).cons_cons _ |>.append_left
    _).cons_cons _

/-- To show less of the clauses is to show less of the member. -/
theorem Member.piecesWith_sublist (m : Member) :
    List.Sublist (m.piecesWith shown) (m.piecesWith shown') := by
  induction m using Member.induction_on with
  | field d => exact .refl _
  | method m => exact m.piecesWith_sublist h
  | nested c ih => exact ClassDecl.piecesWith_sublist_of_members ih

/-- The less is shown of declarations, the less of a class. -/
theorem ClassDecl.piecesWith_sublist (c : JavaClass) :
    List.Sublist (c.piecesWith shown) (c.piecesWith shown') :=
  piecesWith_sublist_of_members fun p _ => p.element.piecesWith_sublist h

end JavaRefit
