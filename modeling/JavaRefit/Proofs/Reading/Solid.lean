/-
Runs of pieces without the empty trivia among them.

A tree keeps a place for trivia in front of every word and separator, and
most places are empty: the trivia in front of a chain, say, is kept by
its outermost step alone. Two runs of pieces that differ in empty trivia
only are the same text cut in the same way, so runs are compared without
it (`solid`).

# What the comparison keeps

Trivia is moved around as a whole while a tree is built, never split and
never joined. So a tree is not only the text of its tokens: its solid
pieces are the solid pieces of the tokens, one by one (`Reading.Unit`).

# This file

- `solid`, and how it goes through every way of putting runs together;
- `Token.flat`, the solid pieces of some tokens;
- `withLead`: the trivia in front of a node can be put in front of the
  node without it.

Chain: first of the proofs about reading; `Basic` and `Conditional` read
it.
-/
import JavaRefit.Token
import JavaRefit.Tree.Pieces

namespace JavaRefit

open Piece

-- ============================================================ solid runs

namespace Piece

/-- The piece is a word or trivia that is not empty. -/
def isSolid : Piece → Bool
  | trivia text => text != ""
  | word _ => true

/-- A run without its empty trivia. -/
def solid (ps : List Piece) : List Piece :=
  ps.filter isSolid

/-- Trivia as a solid run: none when it is empty. -/
def gap (text : Trivia) : List Piece :=
  solid [trivia text]

@[simp] theorem gap_empty : gap "" = [] := rfl

@[simp] theorem solid_nil : solid [] = [] := rfl

@[simp] theorem solid_append (ps qs : List Piece) :
    solid (ps ++ qs) = solid ps ++ solid qs :=
  List.filter_append ..

@[simp] theorem solid_word (text : String) (ps : List Piece) :
    solid (word text :: ps) = word text :: solid ps := rfl

@[simp] theorem solid_trivia (text : Trivia) (ps : List Piece) :
    solid (trivia text :: ps) = gap text ++ solid ps := by
  rw [gap, ← solid_append]
  rfl

@[simp] theorem solid_gap (text : Trivia) : solid (gap text) = gap text := by
  simp [gap, solid, List.filter_filter]

-- ================================================================== text

@[simp] theorem textAll_nil : textAll [] = "" := rfl

@[simp] theorem textAll_cons (p : Piece) (ps : List Piece) :
    textAll (p :: ps) = p.text ++ textAll ps := by
  simp [textAll, String.join_cons]

@[simp] theorem textAll_append (ps qs : List Piece) :
    textAll (ps ++ qs) = textAll ps ++ textAll qs := by
  induction ps with
  | nil => simp
  | cons p ps ih => simp [ih, String.append_assoc]

@[simp] theorem textAll_gap (text : Trivia) : textAll (gap text) = text := by
  by_cases h : text = ""
  · subst h
    rfl
  · have hg : gap text = [trivia text] := by simp [gap, solid, isSolid, h]
    simp [hg, Piece.text]

/-- Empty trivia has no text. -/
@[simp] theorem textAll_solid (ps : List Piece) :
    textAll (solid ps) = textAll ps := by
  induction ps with
  | nil => rfl
  | cons p ps ih =>
      cases p with
      | word text => simp [ih]
      | trivia text => simp [ih, Piece.text]

end Piece

-- ================================================================ tokens

/-- The solid pieces of some tokens: of each the trivia in front, and the
word. -/
def Token.flat : List Token → List Piece
  | [] => []
  | t :: ts => gap t.lead ++ Piece.word t.word.text :: Token.flat ts

@[simp] theorem Token.flat_nil : Token.flat [] = [] := rfl

@[simp] theorem Token.flat_cons (t : Token) (ts : List Token) :
    Token.flat (t :: ts) = gap t.lead ++ Piece.word t.word.text ::
      Token.flat ts := rfl

@[simp] theorem TokenRun.textOf_cons (t : Token) (ts : List Token) :
    TokenRun.textOf (t :: ts) = t.text ++ TokenRun.textOf ts := by
  simp [TokenRun.textOf, String.join_cons]

/-- The pieces of tokens have the text of the tokens. -/
theorem Token.textAll_flat (ts : List Token) :
    textAll (Token.flat ts) = TokenRun.textOf ts := by
  induction ts with
  | nil => rfl
  | cons t ts ih => simp [ih, Token.text, Piece.text, String.append_assoc]

-- ==================================================== trivia moved around

/-- A name is the trivia in front of it and the name without that. -/
theorem Name.solid_pieces (n : Name) :
    solid n.pieces = gap n.lead ++ solid (n.withLead "").pieces := by
  cases n <;> simp [Name.pieces, Ident.pieces, Name.lead, Name.withLead]

/-- A written type is the trivia in front of it and the type without that. -/
theorem TypeTree.solid_pieces (t : TypeTree) :
    solid t.pieces = gap t.lead ++ solid (t.withLead "").pieces := by
  cases t with
  | named n => exact n.solid_pieces
  | _ => simp [TypeTree.pieces, TypeTree.lead, TypeTree.withLead]

/-- An expression is the trivia in front of it and the expression without
that. -/
theorem Expr.solid_pieces (e : Expr) :
    solid e.pieces = gap e.lead ++ solid (e.withLead "").pieces := by
  cases e <;> simp [Expr.pieces, Ident.pieces, Expr.lead, Expr.withLead]

end JavaRefit
