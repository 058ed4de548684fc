/-
The text of a `try` statement, part by part.

A written type is the trivia in front of it and the rest of its text;
alternatives have bars between them. A clause is the text in front of the
written type, that of the type and the text behind it, and a `try` the
text in front of its clauses, theirs and the text behind them. None of
the texts around a part depends on the part.

Chain: after `Lead` and `Induction`; read where the catch rule is
followed on the text.
-/
import JavaRefit.Proofs.Reading.Solid
import JavaRefit.Proofs.Tree.Lead

namespace JavaRefit

open Piece

-- ============================================================ written types

namespace TypeTree

/-- The text without the trivia in front. -/
def bareText (t : TypeTree) : String :=
  textAll (t.withLead "").pieces

/-- A type is printed as its trivia and its text. -/
theorem textAll_pieces (t : TypeTree) :
    textAll t.pieces = t.lead ++ t.bareText := by
  rw [← textAll_solid, solid_pieces, textAll_append, textAll_gap,
    textAll_solid, bareText]

/-- Other trivia in front leaves what follows as it is. -/
theorem textAll_pieces_withLead (lead : Trivia) (t : TypeTree) :
    textAll (t.withLead lead).pieces = lead ++ t.bareText := by
  rw [textAll_pieces, lead_withLead, bareText, withLead_withLead, bareText]

/-- The text of an alternative. -/
def alternativeText (p : RightPadded TypeTree) : String :=
  textAll p.element.pieces ++ p.after

/-- The text of an alternative with other trivia before it. -/
theorem alternativeText_withLead (lead after : Trivia) (t : TypeTree) :
    alternativeText ⟨t.withLead lead, after⟩ =
      lead ++ (t.bareText ++ after) := by
  rw [alternativeText, textAll_pieces_withLead, String.append_assoc]

/-- The texts of alternatives, each with a bar behind it. -/
def barsBehind (ps : List (RightPadded TypeTree)) : String :=
  String.join (ps.map fun p => alternativeText p ++ "|")

/-- The texts of alternatives, each with a bar in front of it. -/
def barsBefore (ps : List (RightPadded TypeTree)) : String :=
  String.join (ps.map fun p => "|" ++ alternativeText p)

theorem barsBefore_nil : barsBefore [] = "" := rfl

theorem barsBefore_cons (p : RightPadded TypeTree)
    (ps : List (RightPadded TypeTree)) :
    barsBefore (p :: ps) = "|" ++ (alternativeText p ++ barsBefore ps) := by
  rw [barsBefore, List.map_cons, String.join_cons,
    String.append_assoc, barsBefore]

theorem barsBehind_cons (p : RightPadded TypeTree)
    (ps : List (RightPadded TypeTree)) :
    barsBehind (p :: ps) = alternativeText p ++ ("|" ++ barsBehind ps) := by
  rw [barsBehind, List.map_cons, String.join_cons,
    String.append_assoc, barsBehind]

/-- An alternative is printed with what is behind it. -/
theorem textAll_run (p : RightPadded TypeTree) :
    textAll (p.element.pieces ++ [trivia p.after]) = alternativeText p := by
  rw [textAll_append, textAll_cons, textAll_nil, String.append_empty]
  rfl

/-- The first alternative, and the others behind it. -/
theorem textAll_alternatives_cons (p : RightPadded TypeTree)
    (ps : List (RightPadded TypeTree)) :
    textAll (separated "|" (runs (p :: ps))) =
      alternativeText p ++ barsBefore ps := by
  induction ps generalizing p with
  | nil => exact (textAll_run p).trans String.append_empty.symm
  | cons q ps ih =>
      have hsep : separated "|" (runs (p :: q :: ps)) =
          (p.element.pieces ++ [trivia p.after]) ++ word "|" ::
            separated "|" (runs (q :: ps)) := rfl
      rw [hsep, textAll_append, textAll_run, textAll_cons, ih, barsBefore_cons]
      rfl

/-- One of the alternatives, with others in front of it and behind it. -/
theorem textAll_alternatives_append (qs : List (RightPadded TypeTree))
    (p : RightPadded TypeTree) (ps : List (RightPadded TypeTree)) :
    textAll (separated "|" (runs (qs ++ p :: ps))) =
      barsBehind qs ++ (alternativeText p ++ barsBefore ps) := by
  rw [← textAll_alternatives_cons]
  induction qs with
  | nil => exact String.empty_append.symm
  | cons q qs ih =>
      obtain ⟨next, rest, hnext⟩ : ∃ next rest, qs ++ p :: ps = next :: rest :=
        List.exists_cons_of_ne_nil
          (List.append_ne_nil_of_right_ne_nil qs (List.cons_ne_nil p ps))
      have hsep : separated "|" (runs (q :: next :: rest)) =
          (q.element.pieces ++ [trivia q.after]) ++ word "|" ::
            separated "|" (runs (next :: rest)) := rfl
      rw [List.cons_append, hnext, hsep, ← hnext, textAll_append, textAll_run,
        textAll_cons, ih, barsBehind_cons, String.append_assoc,
        String.append_assoc]
      rfl

end TypeTree

-- ================================================================= clauses

namespace Catch

/-- The text of a clause. -/
def text (c : Catch Stmt) : String :=
  textAll c.pieces

/-- The text up to the written type of the parameter. -/
def opening (c : Catch Stmt) : String :=
  textAll (trivia c.lead :: word "catch" ::
    trivia c.parameter.lead :: word "(" ::
    trivia c.declaration.lead :: Modifier.listPieces c.declaration.modifiers)

/-- The text behind the written type of the parameter. -/
def closing (c : Catch Stmt) : String :=
  textAll (separated "," (c.declaration.declarators.map fun p =>
    p.element.pieces ++ [trivia p.after]) ++
    trivia c.parameter.inner.after :: word ")" :: Stmt.blockPieces c.body)

/-- A clause in three parts. -/
theorem text_eq (c : Catch Stmt) :
    c.text = c.opening ++ textAll c.declaration.typeTree.pieces ++
      c.closing := by
  have hd : c.parameter.inner.element = c.declaration := rfl
  rw [text, opening, closing, pieces, Variables.parameterPieces, hd,
    Variables.pieces]
  simp only [textAll_append, textAll_cons, textAll_nil, String.append_assoc,
    String.empty_append]

/-- Another written type for the parameter leaves the text around it. -/
theorem text_withDeclaration (c : Catch Stmt) (t : TypeTree) :
    (c.withDeclaration { c.declaration with typeTree := t }).text =
      c.opening ++ textAll t.pieces ++ c.closing :=
  text_eq _

end Catch

-- ============================================================== statements

namespace Try

def text (t : Try Stmt) : String :=
  textAll t.pieces

/-- The text up to the clauses. -/
def opening (t : Try Stmt) : String :=
  textAll (trivia t.lead :: word "try" :: Stmt.blockPieces t.body)

/-- The text behind the clauses. -/
def closing (t : Try Stmt) : String :=
  textAll (Stmt.finallyPieces t.finally?)

/-- Clauses are printed one behind the other. -/
theorem textAll_clauses (cs : List (Catch Stmt)) :
    textAll (Catch.allPieces cs) = String.join (cs.map Catch.text) := by
  induction cs with
  | nil => rfl
  | cons c cs ih =>
      rw [Catch.allPieces, textAll_append, ih, List.map_cons,
        String.join_cons, Catch.text]

/-- A `try` in three parts. -/
theorem text_eq (t : Try Stmt) :
    t.text = t.opening ++ String.join (t.catches.map Catch.text) ++
      t.closing := by
  rw [text, opening, closing, pieces, textAll_cons, textAll_cons,
    textAll_append, textAll_append, textAll_clauses, textAll_cons, textAll_cons]
  simp only [String.append_assoc]

end Try

end JavaRefit
