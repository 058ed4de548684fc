/-
What an augmentation puts into the text of a `try`.

Where the legacy type stays caught, the text only gets longer: one piece
comes into each clause that catches the legacy type. It is the
replacement with a bar behind it, in front of the first legacy
alternative, when no alternative stands in front of that one; otherwise
it stands right behind the bar in front of it. The alternatives hand
their trivia on to each other in a way of its own each time, so the cases
are followed one by one.

Chain: after `Retarget` and the text of a `try`; the sample is that of
`Run`.
-/
import Mathlib.Data.List.Forall2
import JavaRefit.Proofs.CatchRule.Run
import JavaRefit.Proofs.Tree.Text

namespace JavaRefit

open Piece TypeTree

namespace CatchRule

variable (r : CatchRule) (qualified : Bool)

-- ====================================================== where a piece goes

/-- The text that stands for the replacement where a written type stands for
the legacy type. -/
def replacementText (t : TypeTree) : String :=
  (r.replacementFor qualified t).bareText

/-- A written type of a parameter that catches the legacy type, its text cut in
two at the first alternative that does, and the piece that comes in between. -/
inductive Inserts : TypeTree → (front piece back : String) → Prop
  | only {t : TypeTree} : isClassNamed r.legacy t.type = true →
      Inserts t t.lead (r.replacementText qualified t ++ " | ") t.bareText
  | first {lead : Trivia} {p : RightPadded TypeTree}
      {ps : List (RightPadded TypeTree)} : r.isLegacy p = true →
      Inserts (.union lead (p :: ps)) (lead ++ p.element.lead)
        (r.replacementText qualified p.element ++ " | ")
          (p.element.bareText ++ p.after ++ barsBefore ps)
  | later {lead : Trivia} {q p : RightPadded TypeTree}
      {qs ps : List (RightPadded TypeTree)} :
      (∀ q' ∈ q :: qs, r.isLegacy q' = false) → r.isLegacy p = true →
      Inserts (.union lead (q :: qs ++ p :: ps)) (lead ++ barsBehind (q :: qs))
        (" " ++ r.replacementText qualified p.element ++ " |")
          (alternativeText p ++ barsBefore ps)

variable {r qualified}

/-- The first alternative that is the legacy type, if one is. -/
theorem exists_first_legacy {ps : List (RightPadded TypeTree)}
    (h : (ps.map fun p => p.element.type).any (isClassNamed r.legacy) = true) :
    ∃ qs p rest, ps = qs ++ p :: rest ∧ (∀ q ∈ qs, r.isLegacy q = false) ∧
    r.isLegacy p = true := by
  rw [List.any_map] at h
  obtain ⟨p, hp⟩ :=
    Option.isSome_iff_exists.1 (List.find?_isSome.2 (List.any_eq_true.1 h))
  obtain ⟨hlegacy, qs, rest, hps, hqs⟩ := List.find?_eq_some_iff_append.1 hp
  refine ⟨qs, p, rest, hps, ?_, hlegacy⟩
  intro q hq
  exact Bool.not_eq_true' _ ▸ hqs q hq

theorem exists_inserts {t : TypeTree}
    (h : t.caught.any (isClassNamed r.legacy) = true) :
    ∃ front piece back, r.Inserts qualified t front piece back := by
  cases t with
  | union lead alternatives =>
      obtain ⟨qs, p, ps, rfl, hqs, hp⟩ := exists_first_legacy h
      cases qs with
      | nil => exact ⟨_, _, _, .first hp⟩
      | cons q qs => exact ⟨_, _, _, .later hqs hp⟩
  | _ =>
      rw [caught_of_not_union (by rintro _ _ ⟨⟩), List.any_cons, List.any_nil,
        Bool.or_false] at h
      exact ⟨_, _, _, .only h⟩

/-- The two parts make up the text of the written type. -/
theorem Inserts.text_eq {t : TypeTree} {front piece back : String}
    (h : r.Inserts qualified t front piece back) :
    textAll t.pieces = front ++ back := by
  cases h with
  | only => exact textAll_pieces t
  | @first lead p ps =>
      rw [TypeTree.pieces, textAll_cons, textAll_alternatives_cons,
        alternativeText, textAll_pieces, Piece.text]
      simp only [String.append_assoc]
  | @later lead q p qs ps =>
      rw [TypeTree.pieces, textAll_cons, textAll_alternatives_append,
        Piece.text, String.append_assoc]

-- ================================================================ the tree

theorem insertBeforeLegacy_of_legacy {p : RightPadded TypeTree}
    (h : r.isLegacy p = true) (isFirst : Bool)
    (ps : List (RightPadded TypeTree)) :
    r.insertBeforeLegacy qualified isFirst (p :: ps) =
      if isFirst then
        ⟨(r.replacementFor qualified p.element).withLead p.element.lead, " "⟩ ::
          { p with element := p.element.withLead " " } :: ps
      else ⟨(r.replacementFor qualified p.element).withLead " ", " "⟩ ::
        p :: ps := by
  rw [insertBeforeLegacy, h]
  rfl

/-- Alternatives in front of the first legacy one stay as they are. -/
theorem insertBeforeLegacy_append {qs : List (RightPadded TypeTree)}
    (h : ∀ q ∈ qs, r.isLegacy q = false) (ps : List (RightPadded TypeTree)) :
    r.insertBeforeLegacy qualified false (qs ++ ps) =
      qs ++ r.insertBeforeLegacy qualified false ps := by
  induction qs with
  | nil => rfl
  | cons q qs ih =>
      rw [List.forall_mem_cons] at h
      rw [List.cons_append, insertBeforeLegacy, h.1, ih h.2]
      rfl

/-- The written type of an augmented declaration. -/
def augmentedTree (r : CatchRule) (qualified : Bool) : TypeTree → TypeTree
  | .union lead alternatives =>
      .union lead (r.insertBeforeLegacy qualified true alternatives)
  | t => .union t.lead
      [⟨(r.replacementFor qualified t).withLead "", " "⟩, ⟨t.withLead " ", ""⟩]

/-- An augmentation gives a declaration another written type and leaves the
rest of it. -/
theorem augmentIn_eq (d : Variables) :
    r.augmentIn qualified d =
      { d with typeTree := r.augmentedTree qualified d.typeTree } := by
  obtain ⟨lead, modifiers, t, declarators⟩ := d
  cases t <;> rfl

theorem augmentedTree_of_type {t : TypeTree}
    (h : isClassNamed r.legacy t.type = true) :
    r.augmentedTree qualified t = .union t.lead
      [⟨(r.replacementFor qualified t).withLead "", " "⟩,
        ⟨t.withLead " ", ""⟩] := by
  cases t with
  | union lead alternatives => cases h
  | _ => rfl

/-- The text of the augmented type is the old one with the piece in between. -/
theorem Inserts.text_augmentedTree {t : TypeTree} {front piece back : String}
    (h : r.Inserts qualified t front piece back) :
    textAll (r.augmentedTree qualified t).pieces = front ++ piece ++ back := by
  have hbar : " | " = " " ++ ("|" ++ " ") := rfl
  have hbar' : " |" = " " ++ "|" := rfl
  cases h with
  | only hlegacy =>
      rw [augmentedTree_of_type hlegacy, TypeTree.pieces,
        textAll_cons, textAll_alternatives_cons,
        barsBefore_cons, barsBefore_nil, alternativeText_withLead,
        alternativeText_withLead, hbar]
      simp only [String.append_assoc, String.empty_append, String.append_empty]
      rfl
  | @first lead p ps hlegacy =>
      have hnext : alternativeText
          { p with element := p.element.withLead " " } =
          " " ++ (p.element.bareText ++ p.after) :=
            alternativeText_withLead " " p.after p.element
      rw [augmentedTree, insertBeforeLegacy_of_legacy hlegacy, if_pos rfl,
        TypeTree.pieces, textAll_cons, textAll_alternatives_cons,
        barsBefore_cons, alternativeText_withLead, hnext, hbar]
      simp only [String.append_assoc]
      rfl
  | @later lead q p qs ps hqs hlegacy =>
      rw [List.forall_mem_cons] at hqs
      have hrest : r.insertBeforeLegacy qualified true (q :: qs ++ p :: ps) =
          q :: qs ++ ⟨(r.replacementFor qualified p.element).withLead " ",
            " "⟩ :: p :: ps := by
        rw [List.cons_append, insertBeforeLegacy, hqs.1,
          insertBeforeLegacy_append hqs.2, insertBeforeLegacy_of_legacy hlegacy]
        rfl
      rw [augmentedTree, hrest, TypeTree.pieces, textAll_cons,
        textAll_alternatives_append, barsBefore_cons,
        alternativeText_withLead, hbar']
      simp only [String.append_assoc]
      rfl

-- ================================================== clauses and statements

variable (r qualified)

/-- Where a clause catches the legacy type, a piece comes into it; other
clauses keep their text. -/
def InsertsInto (c c' : Catch Stmt) : Prop :=
  if c.catches r.legacy then
    ∃ front piece back,
      r.Inserts qualified c.declaration.typeTree front piece back ∧
      c.text = c.opening ++ (front ++ back) ++ c.closing ∧
      c'.text = c.opening ++ (front ++ piece ++ back) ++ c.closing
  else c'.text = c.text

theorem insertsInto_newClause (c : Catch Stmt) :
    r.InsertsInto qualified c (r.newClause qualified .augmentation c) := by
  have hcatches : c.catches r.legacy =
      c.declaration.typeTree.caught.any (isClassNamed r.legacy) := by
    rw [Catch.catches, Catch.caughtTypes_eq]
  rw [InsertsInto, newClause, newDeclaration, ← hcatches]
  split
  case isTrue h =>
    obtain ⟨front, piece, back, hinserts⟩ :=
      @exists_inserts r qualified _ (hcatches ▸ h)
    refine ⟨front, piece, back, hinserts, ?_, ?_⟩
    · rw [Catch.text_eq, hinserts.text_eq]
    · show (c.withDeclaration (r.augmentIn qualified c.declaration)).text = _
      rw [augmentIn_eq, Catch.text_withDeclaration, hinserts.text_augmentedTree]
  case isFalse h => rfl

theorem plan_eq_augmentation {t : Try Stmt}
    (hsource : r.hasOtherSource (Stmt.walkBlock t.body) = true)
    (hnew : (r.retarget qualified t).isNew = true) :
    r.plan t = .augmentation := by
  rw [(r.retarget_isRetargeted qualified t).2, bne_iff_ne] at hnew
  rw [hasOtherSource_body] at hsource
  have hnone : ¬ (!r.raisesLegacy t) = true := by
    rw [hsource]; exact Bool.false_ne_true
  unfold plan at hnew ⊢
  rw [if_neg hnone] at hnew ⊢
  split
  case isTrue h => exact absurd (if_pos h) hnew
  case isFalse h =>
    rw [if_neg h] at hnew
    split
    case isTrue h => exact absurd (if_pos h) hnew
    case isFalse => rfl

/-- Where something else can raise the legacy type and the rule changes the
`try`, its text is the old one with a piece in each clause that catches the
legacy type. -/
theorem retarget_inserts (t : Try Stmt)
    (hsource : r.hasOtherSource (Stmt.walkBlock t.body) = true)
    (hnew : (r.retarget qualified t).isNew = true) :
    t.text = t.opening ++ String.join (t.catches.map Catch.text) ++ t.closing ∧
      (r.retarget qualified t).value.text =
        t.opening ++ String.join
          ((r.retarget qualified t).value.catches.map Catch.text) ++ t.closing ∧
      List.Forall₂ (r.InsertsInto qualified) t.catches
        (r.retarget qualified t).value.catches := by
  have hvalue := (r.retarget_isRetargeted qualified t).1
  rw [r.plan_eq_augmentation qualified hsource hnew] at hvalue
  refine ⟨t.text_eq, ?_, ?_⟩
  · rw [hvalue, Try.text_eq]
    rfl
  · rw [hvalue, List.forall₂_map_right_iff, List.forall₂_same]
    exact fun c _ => r.insertsInto_newClause qualified c

/-- A file with a `try` whose clauses catch the legacy type alone, as the first
alternative and as a later one. -/
def sampleAugmented : String :=
  "import p.*;class A\x7bApi a;Old o;void f()\x7btry\x7ba.call();throw o;\x7dcatch(/*1*/ Old e)\x7b\x7d" ++
    "catch(Old|Api e)\x7b\x7dcatch(Api|/*2*/Old e)\x7b\x7d\x7d\x7d"

/-- The sample with a piece in each of its three clauses. -/
theorem retarget_inserts_sample :
    ∃ t ∈ (sampleUnit sampleAugmented).tries,
      sampleRule.hasOtherSource (Stmt.walkBlock t.body) = true ∧
      (sampleRule.retarget false t).isNew = true ∧
      (sampleRule.retarget false t).value.text =
        "try\x7ba.call();throw o;\x7dcatch(/*1*/ New | Old e)\x7b\x7d" ++
          "catch(New | Old|Api e)\x7b\x7dcatch(Api| New |/*2*/Old e)\x7b\x7d" ∧
      List.Forall₂ (sampleRule.InsertsInto false) t.catches
        (sampleRule.retarget false t).value.catches := by
  have hone : (sampleUnit sampleAugmented).tries.length = 1 := by decide +kernel
  obtain ⟨t, ht⟩ := List.length_eq_one_iff.1 hone
  have hfacts : ∀ t ∈ (sampleUnit sampleAugmented).tries,
      sampleRule.hasOtherSource (Stmt.walkBlock t.body) = true ∧
      (sampleRule.retarget false t).isNew = true ∧
      (sampleRule.retarget false t).value.text =
        "try\x7ba.call();throw o;\x7dcatch(/*1*/ New | Old e)\x7b\x7d" ++
          "catch(New | Old|Api e)\x7b\x7dcatch(Api| New |/*2*/Old e)\x7b\x7d" := by
    decide +kernel
  have hmem : t ∈ (sampleUnit sampleAugmented).tries := by
    rw [ht]
    exact List.mem_singleton_self t
  obtain ⟨hsource, hnew, htext⟩ := hfacts t hmem
  exact ⟨t, hmem, hsource, hnew, htext,
    (retarget_inserts sampleRule false t hsource hnew).2.2⟩

end CatchRule

end JavaRefit
