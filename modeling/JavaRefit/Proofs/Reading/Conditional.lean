/-
The shape given to `if`, `while` and `else` keeps what was read.

The flat form is shaped by cutting the branches of an `if` in two, again
and again. No branch may get lost on the way: a plain statement has no
place for one, so all of them must have been handed to some `if` before
the heads run out. That is what `fits` counts, and the point of this file
is that it is kept: as long as the branches fit the heads, either they
fit the heads without the first one, or there is a place to cut.

Chain: after `Solid`; `Stmt` reads it.
-/
import JavaRefit.Parser.Conditional
import JavaRefit.Proofs.Reading.Solid

namespace JavaRefit.Branch

open Piece

-- ============================================================== openings

theorem openings_of_loops {head : Head} (h : head.loops = true)
    (rest : List Head) : openings (head :: rest) = openings rest := by
  simp [openings, h]

theorem openings_of_not_loops {head : Head} (h : ¬ head.loops = true)
    (rest : List Head) : openings (head :: rest) = openings rest + 1 := by
  simp [openings, h]

-- ================================================================== cuts

/-- A cut is a way to write the branches, and both sides of it fit. -/
theorem lastCut_eq_some {opened : Nat} {before bs : List Branch}
    {cut : List Branch × Branch × List Branch}
    (h : lastCut opened before bs = some cut) :
    before ++ bs = cut.1 ++ cut.2.1 :: cut.2.2 ∧
      fits opened cut.1 = true ∧
      fits (openings cut.2.1.heads) cut.2.2 = true := by
  induction bs generalizing before with
  | nil => cases h
  | cons b after ih =>
      simp only [lastCut] at h
      split at h
      next c hc =>
        cases h
        simpa using ih hc
      next =>
        split at h
        next hfits =>
          cases h
          exact ⟨rfl, by simpa using hfits⟩
        next => cases h

/-- When there is no cut, no place leaves both sides fitting. -/
theorem lastCut_eq_none {opened : Nat} {before bs : List Branch}
    (h : lastCut opened before bs = none) {b : Branch} {mid after : List Branch}
    (hbs : bs = mid ++ b :: after) (hmid : fits opened (before ++ mid) = true) :
    fits (openings b.heads) after = false := by
  induction bs generalizing before mid with
  | nil => simp at hbs
  | cons c cs ih =>
      simp only [lastCut] at h
      split at h
      next => cases h
      next hnone =>
        split at h
        next => cases h
        next hfits =>
          cases mid with
          | nil =>
              cases hbs
              rw [List.append_nil] at hmid
              simpa [hmid] using hfits
          | cons d mid =>
              cases hbs
              exact ih hnone rfl (by simpa using hmid)

/-- Branches that fit one more `if` than there is can be cut where the last of
them runs out. -/
theorem exists_cut {k : Nat} {bs : List Branch} (hmore : fits (k + 1) bs = true)
    (hless : fits k bs = false) :
    ∃ mid b after, bs = mid ++ b :: after ∧ fits k mid = true ∧
      fits (openings b.heads) after = true := by
  induction bs generalizing k with
  | nil => cases k <;> cases hless
  | cons b bs ih =>
      cases k with
      | zero =>
          simp only [fits, Nat.zero_add] at hmore
          exact ⟨[], b, bs, rfl, rfl, hmore⟩
      | succ k =>
          simp only [fits] at hmore hless
          rw [Nat.add_right_comm] at hmore
          obtain ⟨mid, c, after, rfl, hmid, hafter⟩ := ih hmore hless
          exact ⟨b :: mid, c, after, rfl, hmid, hafter⟩

/-- Without a cut, the branches fit the heads without the first. -/
theorem fits_of_lastCut_eq_none {k : Nat} {bs : List Branch}
    (hmore : fits (k + 1) bs = true) (h : lastCut k [] bs = none) :
    fits k bs = true := by
  cases hless : fits k bs with
  | true => rfl
  | false =>
      obtain ⟨mid, b, after, rfl, hmid, hafter⟩ := exists_cut hmore hless
      rw [lastCut_eq_none h rfl hmid] at hafter
      cases hafter

-- ================================================================ pieces

/-- The pieces of the head of an `if` or a `while`. -/
def headPieces (h : Head) : List Piece :=
  trivia h.lead :: word (if h.loops then "while" else "if") ::
    Expr.conditionPieces h.condition

/-- The pieces of an `else` and of what follows it. -/
def pieces (b : Branch) : List Piece :=
  trivia b.elseLead :: word "else" ::
    (b.heads.flatMap headPieces ++ Stmt.paddedPieces b.body)

/-- The pieces of heads, a plain statement and branches. -/
def flatPieces (heads : List Head) (body : RightPadded Stmt)
    (branches : List Branch) : List Piece :=
  heads.flatMap headPieces ++ Stmt.paddedPieces body ++ branches.flatMap pieces

theorem solid_whileLoop (lead : Trivia) (c : Parens Expr)
    (body : RightPadded Stmt) :
    solid (Stmt.paddedPieces ⟨.whileLoop lead c body, ""⟩)
      = gap lead ++ word "while" ::
          (solid (Expr.conditionPieces c) ++ solid
            (Stmt.paddedPieces body)) := by
  simp [Stmt.paddedPieces, Stmt.pieces, Stmt.needsSemicolon, semicolonIf]

theorem solid_ifElse_none (lead : Trivia) (c : Parens Expr)
    (thenPart : RightPadded Stmt) :
    solid (Stmt.paddedPieces ⟨.ifElse lead c thenPart none, ""⟩)
      = gap lead ++ word "if" ::
          (solid (Expr.conditionPieces c) ++ solid
            (Stmt.paddedPieces thenPart)) := by
  simp [Stmt.paddedPieces, Stmt.pieces, Stmt.needsSemicolon, semicolonIf,
    Stmt.elsePieces]

theorem solid_ifElse_some (lead : Trivia) (c : Parens Expr)
    (thenPart : RightPadded Stmt) (elseLead : Trivia)
    (elsePart : RightPadded Stmt) :
    solid (Stmt.paddedPieces
      ⟨.ifElse lead c thenPart (some ⟨elseLead, elsePart⟩), ""⟩)
      = gap lead ++ word "if" ::
          (solid (Expr.conditionPieces c) ++ solid
            (Stmt.paddedPieces thenPart) ++
            gap elseLead ++ word "else" :: solid
              (Stmt.paddedPieces elsePart)) := by
  simp [Stmt.paddedPieces, Stmt.pieces, Stmt.needsSemicolon, semicolonIf,
    Stmt.elsePieces, Else.pieces]

/-- The statement is the heads, the plain statement and the branches it was
shaped from. -/
theorem solid_shape {heads : List Head} {body : RightPadded Stmt}
    {branches : List Branch} (hfits : fits (openings heads) branches = true) :
    solid (Stmt.paddedPieces (shape heads body branches))
      = solid (flatPieces heads body branches) := by
  fun_induction shape heads body branches with
  | case1 body branches =>
      cases branches with
      | nil => simp [flatPieces]
      | cons b bs => cases hfits
  | case2 body branches head rest hloops ih =>
      have ho := openings_of_loops hloops rest
      rw [solid_whileLoop, ih (ho ▸ hfits)]
      simp [flatPieces, headPieces, hloops]
  | case3 body branches head rest hloops hcut ih =>
      have ho := openings_of_not_loops hloops rest
      rw [solid_ifElse_none, ih (fits_of_lastCut_eq_none (ho ▸ hfits) hcut)]
      simp [flatPieces, headPieces, hloops]
  | case4 body branches head rest hloops before b after hcut ih₁ ih₂ =>
      obtain ⟨hbs, hbefore, hafter⟩ := lastCut_eq_some hcut
      rw [List.nil_append] at hbs
      rw [solid_ifElse_some, ih₁ hbefore, ih₂ hafter, hbs]
      simp [flatPieces, headPieces, pieces, hloops]

/-- What holds of the plain statements, and of what is built from such with the
heads and the `else` that are there, holds of what is shaped. -/
theorem shape_induction_parts {H : Head → Prop} {E : Trivia → Prop}
    {Q : RightPadded Stmt → Prop}
    (loop : ∀ h p, H h → h.loops = true → Q p →
      Q ⟨.whileLoop h.lead h.condition p, ""⟩)
    (lone : ∀ h p, H h → h.loops = false → Q p →
      Q ⟨.ifElse h.lead h.condition p none, ""⟩)
    (branch : ∀ h p lead q, H h → h.loops = false → E lead → Q p → Q q →
      Q ⟨.ifElse h.lead h.condition p (some ⟨lead, q⟩), ""⟩) {heads : List Head}
    {body : RightPadded Stmt} {branches : List Branch}
    (hheads : ∀ h ∈ heads, H h) (hbody : Q body)
    (hbranches : ∀ b ∈ branches, E b.elseLead ∧
      (∀ h ∈ b.heads, H h) ∧ Q b.body) :
    Q (shape heads body branches) := by
  fun_induction shape heads body branches with
  | case1 => exact hbody
  | case2 body branches head rest hloops ih =>
      obtain ⟨hhead, hrest⟩ := List.forall_mem_cons.1 hheads
      exact loop head _ hhead hloops (ih hrest hbody hbranches)
  | case3 body branches head rest hloops _ ih =>
      obtain ⟨hhead, hrest⟩ := List.forall_mem_cons.1 hheads
      exact lone head _ hhead (Bool.not_eq_true _ ▸ hloops)
        (ih hrest hbody hbranches)
  | case4 body branches head rest hloops before b after hcut ihbefore ihafter =>
      obtain ⟨hhead, hrest⟩ := List.forall_mem_cons.1 hheads
      obtain ⟨hparts, -, -⟩ := lastCut_eq_some hcut
      dsimp only at hparts
      rw [List.nil_append] at hparts
      rw [hparts, List.forall_mem_append, List.forall_mem_cons] at hbranches
      obtain ⟨hbefore, ⟨helse, hheads', hbody'⟩, hafter⟩ := hbranches
      exact branch head _ b.elseLead _ hhead (Bool.not_eq_true _ ▸ hloops) helse
        (ihbefore hrest hbody hbefore) (ihafter hheads' hbody' hafter)

/-- What holds of the plain statements, and of what is built from such with
`if`, `while` and `else`, holds of what is shaped. -/
theorem shape_induction {H : Head → Prop} {Q : RightPadded Stmt → Prop}
    (loop : ∀ h p, H h → Q p → Q ⟨.whileLoop h.lead h.condition p, ""⟩)
    (lone : ∀ h p, H h → Q p → Q ⟨.ifElse h.lead h.condition p none, ""⟩)
    (branch : ∀ h p lead q, H h → Q p → Q q →
      Q ⟨.ifElse h.lead h.condition p (some ⟨lead, q⟩), ""⟩) {heads : List Head}
    {body : RightPadded Stmt} {branches : List Branch}
    (hheads : ∀ h ∈ heads, H h) (hbody : Q body)
    (hbranches : ∀ b ∈ branches, (∀ h ∈ b.heads, H h) ∧ Q b.body) :
    Q (shape heads body branches) :=
  shape_induction_parts (E := fun _ => True) (fun h p hh _ => loop h p hh)
    (fun h p hh _ => lone h p hh)
    (fun h p lead q hh _ _ => branch h p lead q hh) hheads hbody
    fun b hb => ⟨trivial, hbranches b hb⟩

end JavaRefit.Branch
