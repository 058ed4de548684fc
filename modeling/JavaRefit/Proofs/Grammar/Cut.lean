/-
Where the tokens behind a condition can be divided.

A statement is written as a run: conditions, a plain statement and
branches. The run is determined by the tokens, so dividing the tokens at
an `else` is cutting the branches of their run in two, in such a way that
both parts have a shape; and the more branches stand before the cut, the
more tokens do. So the last cut, the one that `Branch.shape` takes,
leaves the most tokens before it.

Chain: after `Ambiguous` and `Preference`; that the preferred derivation
is the one that is read rests on it.
-/
import JavaRefit.Proofs.Grammar.Ambiguous
import JavaRefit.Proofs.Grammar.Preference

namespace JavaRefit

open Spelling JavaRefit.Parser

-- ================================================================ last cuts

namespace Branch

variable {opened : Nat} {before bs : List Branch}
  {cut : List Branch × Branch × List Branch}

/-- What stands before a cut grows as the branches are gone through. -/
theorem length_le_of_lastCut (h : lastCut opened before bs = some cut) :
    before.length ≤ cut.1.length := by
  induction bs generalizing before with
  | nil => cases h
  | cons b after ih =>
      simp only [lastCut] at h
      split at h
      next hc =>
        cases h
        have := ih hc
        rw [List.length_append] at this
        omega
      next =>
        split at h
        · cases h
          exact Nat.le_refl _
        · cases h

/-- No other place where the branches can be cut is behind the last cut. -/
theorem length_le_lastCut (h : lastCut opened before bs = some cut)
    {mid after : List Branch} {b : Branch} (hbs : bs = mid ++ b :: after)
    (hmid : fits opened (before ++ mid) = true)
    (hafter : fits (openings b.heads) after = true) :
    (before ++ mid).length ≤ cut.1.length := by
  induction bs generalizing before mid with
  | nil => cases h
  | cons c cs ih =>
      simp only [lastCut] at h
      cases mid with
      | nil =>
          cases hbs
          rw [List.append_nil]
          split at h
          next hc =>
            cases h
            have := length_le_of_lastCut hc
            rw [List.length_append] at this
            omega
          next =>
            split at h
            · cases h
              exact Nat.le_refl _
            · cases h
      | cons d mid =>
          cases hbs
          rw [List.append_cons] at hmid ⊢
          split at h
          next hc =>
            cases h
            exact ih hc rfl hmid
          next hnone =>
            rw [lastCut_eq_none hnone rfl hmid] at hafter
            cases hafter

/-- A cut is the last one if no other has more branches before it. -/
theorem lastCut_eq_of_longest {bs before after : List Branch} {b : Branch}
    (hbs : bs = before ++ b :: after) (hbefore : fits opened before = true)
    (hafter : fits (openings b.heads) after = true)
    (hlongest : ∀ cut, lastCut opened [] bs = some cut →
      cut.1.length ≤ before.length) :
    lastCut opened [] bs = some (before, b, after) := by
  cases hcut : lastCut opened [] bs with
  | none =>
      rw [lastCut_eq_none hcut hbs hbefore] at hafter
      cases hafter
  | some cut =>
      obtain ⟨before', b', after'⟩ := cut
      obtain ⟨hbs', -, -⟩ := lastCut_eq_some hcut
      have hle := length_le_lastCut hcut hbs hbefore hafter
      have hge := hlongest _ hcut
      dsimp only [List.nil_append] at hbs' hle hge
      obtain ⟨rfl, hrest⟩ :=
        List.append_inj (hbs ▸ hbs') (Nat.le_antisymm hle hge)
      cases hrest
      rfl

end Branch

-- ================================================================= lengths

namespace Spelling

variable {α : Type} {R : Spelling α}

/-- Elements are spelled with one number of tokens only, if each of them is. -/
theorem Many.length_eq (hR : ∀ ⦃us vs a⦄, R us a → R vs a →
    us.length = vs.length) {us vs : List Token} {as : List α}
    (hus : Many R us as) (hvs : Many R vs as) :
    us.length = vs.length := by
  induction hus generalizing vs with
  | nil =>
      cases hvs
      rfl
  | cons ha _ ih =>
      cases hvs with
      | cons ha' hvs =>
          rw [List.length_append, List.length_append, hR ha ha', ih hvs]

end Spelling

/-- Two spellings of one head have the same number of tokens. -/
theorem length_head ⦃us vs : List Token⦄ ⦃h : Head⦄ (hus : SpellsHead us h)
    (hvs : SpellsHead vs h) : us.length = vs.length := by
  have hread {ws : List Token} (hws : SpellsHead ws h) :
      head ws = .ok (h, []) := by
    simpa using head_complete (fun _ => false) hws [] Stops.nil
  exact length_eq_of_reads head_reads (hread hus) (hread hvs)

/-- Two spellings of one statement have the same number of tokens. -/
theorem length_plain {us vs : List Token} {s : RightPadded Stmt}
    (hus : PlainWith SpellsStmt us s) (hvs : PlainWith SpellsStmt vs s) :
    us.length = vs.length := by
  have hread {ws : List Token} (hws : PlainWith SpellsStmt ws s) :
      plainWith statement ws = .ok (s, []) := by
    simpa using plainWith_complete (statement_complete.below _) opens_stmt
      (Nat.le_refl _) hws []
      Stops.nil
  exact length_eq_of_reads (plainWith_reads statement_reads)
    (hread hus) (hread hvs)

/-- Two spellings of one branch have the same number of tokens. -/
theorem length_branch ⦃us vs : List Token⦄ ⦃b : Branch⦄
    (hus : BranchWith SpellsStmt us b) (hvs : BranchWith SpellsStmt vs b) :
    us.length = vs.length := by
  obtain ⟨hheads, hbody⟩ := hus
  obtain ⟨hheads', hbody'⟩ := hvs
  have h₁ := hheads.length_eq length_head hheads'
  have h₂ := length_plain hbody hbody'
  simp only [List.length_cons, List.length_append]
  omega

-- ==================================================================== runs

/-- A run of conditions as it is written: heads, a plain statement and
branches. -/
inductive SpellsRun : List Token → List Head → RightPadded Stmt →
    List Branch → Prop
  | mk {us heads vs body ws branches} : Many SpellsHead us heads →
      PlainWith SpellsStmt vs body →
      Many (BranchWith SpellsStmt) ws branches →
      SpellsRun (us ++ vs ++ ws) heads body branches

namespace SpellsRun

variable {us vs ws : List Token} {heads : List Head} {body : RightPadded Stmt}
  {branches before after : List Branch} {b : Branch}

/-- A run whose branches fit its heads spells the statement of that shape. -/
theorem stmt (h : SpellsRun us heads body branches)
    (hfits : Branch.fits (Branch.openings heads) branches = true) :
    SpellsStmt us (Branch.shape heads body branches) := by
  obtain ⟨hheads, hbody, hbranches⟩ := h
  exact spellsStmt_of_statementWith (.mk hheads hbody hbranches hfits)

/-- Two runs with an `else` between them are one run. -/
theorem append (hvs : SpellsRun vs heads body before)
    (hws : SpellsRun ws b.heads b.body after) :
    SpellsRun (vs ++ ⟨b.elseLead, .keyword "else"⟩ :: ws) heads body
      (before ++ b :: after) := by
  obtain ⟨hheads, hbody, hbefore⟩ := hvs
  obtain ⟨hheads', hbody', hafter⟩ := hws
  have hb : BranchWith SpellsStmt (⟨b.elseLead, .keyword "else"⟩ :: (_ ++ _))
      b := .mk hheads' hbody'
  have hrun := SpellsRun.mk hheads hbody
    (many_append.2 ⟨_, _, rfl, hbefore, .cons hb hafter⟩)
  simpa using hrun

/-- A run is two runs with an `else` between them wherever its branches are
divided. -/
theorem divide (h : SpellsRun us heads body (before ++ b :: after)) :
    ∃ vs ws, us = vs ++ ⟨b.elseLead, .keyword "else"⟩ :: ws ∧
    SpellsRun vs heads body before ∧
      SpellsRun ws b.heads b.body after := by
  generalize hbranches : before ++ b :: after = branches at h
  obtain ⟨hheads, hbody, hbs⟩ := h
  subst hbranches
  obtain ⟨xs, ys, rfl, hbefore, hys⟩ := many_append.1 hbs
  cases hys with
  | cons hb hafter =>
      obtain ⟨hheads', hbody'⟩ := hb
      exact ⟨_, _, by simp, .mk hheads hbody hbefore, .mk hheads' hbody' hafter⟩

/-- A run is determined by the tokens. -/
theorem unique {heads' : List Head} {body' : RightPadded Stmt}
    {branches' : List Branch} (h : SpellsRun us heads body branches)
    (h' : SpellsRun us heads' body' branches')
    (hfits : Branch.fits (Branch.openings heads + 1) branches = true)
    (hfits' : Branch.fits (Branch.openings heads' + 1) branches' = true) :
    heads = heads' ∧ body = body' ∧ branches = branches' := by
  obtain ⟨hheads, hbody, hbranches⟩ := h
  rename_i xs ys zs
  generalize hus : xs ++ ys ++ zs = us at h'
  obtain ⟨hheads', hbody', hbranches'⟩ := h'
  rename_i xs' ys' zs'
  have hstart {ys zs : List Token} {s : RightPadded Stmt}
      (hs : PlainWith SpellsStmt ys s) :
      startsHead (ys ++ zs) = false :=
        startsHead_of_opensPlain (opens_plain hs).append
  have hstops {zs : List Token} {bs : List Branch}
      (hbs : Many (BranchWith SpellsStmt) zs bs) :
      Stops Word.extendsTry zs := by
    simpa only [List.append_nil] using stops_branches_append hbs Stops.nil
  rw [List.append_assoc, List.append_assoc] at hus
  obtain ⟨rfl, hrest, rfl⟩ :=
    split_of_ok hus (heads_complete hheads _ (hstart hbody))
    (heads_complete hheads' _ (hstart hbody'))
  obtain ⟨rfl, rfl, rfl⟩ :=
    plain_split hrest hbody hbody' (hstops hbranches) (hstops hbranches')
  have hread {bs : List Branch} (hbs : Many (BranchWith SpellsStmt) zs bs)
      (hfits : Branch.fits (Branch.openings heads + 1) bs = true) :
      branchesWith (plainWith statement) (zs.length + 1)
        (Branch.openings heads + 1) (zs ++ []) = .ok (bs, []) :=
    branchesWith_complete (statement_complete.below _) opens_stmt
      (Nat.le_refl _) hbs hfits
      (Nat.lt_succ_self _) [] Stops.nil
  obtain ⟨-, -, rfl⟩ :=
    split_of_ok rfl (hread hbranches hfits) (hread hbranches' hfits')
  exact ⟨rfl, rfl, rfl⟩

/-- The more branches a run has, the more tokens. -/
theorem length_le (hus : SpellsRun us heads body before)
    (hvs : SpellsRun vs heads body branches) (hstart : before <+: branches) :
    us.length ≤ vs.length ∧
    (vs.length ≤ us.length → branches.length ≤ before.length) := by
  obtain ⟨rest, rfl⟩ := hstart
  obtain ⟨hheads, hbody, hbefore⟩ := hus
  generalize hbranches : before ++ rest = branches at hvs
  obtain ⟨hheads', hbody', hbs⟩ := hvs
  subst hbranches
  obtain ⟨xs, ys, rfl, hbefore', hys⟩ := many_append.1 hbs
  have h₁ := hheads.length_eq length_head hheads'
  have h₂ := length_plain hbody hbody'
  have h₃ := hbefore.length_eq length_branch hbefore'
  simp only [List.length_append]
  refine ⟨by omega, fun hle => ?_⟩
  cases hys with
  | nil => simp
  | cons hb _ =>
      have hpos := (opens_branch hb).length_pos
      rw [List.length_append] at hle
      omega

end SpellsRun

-- =============================================================== divisions

/-- What is derived as a statement is written as a run whose branches all have
a condition. -/
theorem DerivesStmt.exists_run {us : List Token} {s : RightPadded Stmt}
    (h : DerivesStmt us s) :
    ∃ heads body branches, SpellsRun us heads body branches ∧
      Branch.fits (Branch.openings heads) branches = true := by
  obtain ⟨t, hheads, hbody, hbranches, hfits⟩ := h.exists_statementWith
  exact ⟨_, _, _, .mk hheads hbody hbranches, hfits⟩

section
variable {us vs ws : List Token} {heads : List Head} {body : RightPadded Stmt}
  {branches before after : List Branch} {b : Branch}

/-- Where the branches of a run are cut so that both parts have a shape, its
tokens are divided. -/
theorem dividesAt_of_cut (hvs : SpellsRun vs heads body before)
    (hws : SpellsRun ws b.heads b.body after)
    (hbefore : Branch.fits (Branch.openings heads) before = true)
    (hafter : Branch.fits (Branch.openings b.heads) after = true) :
    DividesAt (vs ++ ⟨b.elseLead, .keyword "else"⟩ :: ws) vs ws :=
  ⟨_, _, _, rfl, (hvs.stmt hbefore).derives, (hws.stmt hafter).derives⟩

/-- Where the tokens of a run are divided, its branches are cut so that both
parts have a shape. -/
theorem cut_of_dividesAt (h : SpellsRun us heads body branches)
    (hfits : Branch.fits (Branch.openings heads + 1) branches = true)
    (hd : DividesAt us vs ws) :
    ∃ before b after, branches = before ++ b :: after ∧
    SpellsRun vs heads body before ∧
      Branch.fits (Branch.openings heads) before = true ∧
      Branch.fits (Branch.openings b.heads) after = true := by
  obtain ⟨lead, s, e, rfl, hs, he⟩ := hd
  obtain ⟨heads', body', before, hvs, hbefore⟩ := hs.exists_run
  obtain ⟨heads'', body'', after, hws, hafter⟩ := he.exists_run
  have hwhole := hvs.append (b := ⟨lead, heads'', body''⟩) hws
  obtain ⟨rfl, rfl, rfl⟩ :=
    h.unique hwhole hfits (Branch.fits_append hbefore hafter)
  exact ⟨before, _, after, rfl, hvs, hbefore, hafter⟩

/-- Without a last cut the tokens are not divided. -/
theorem not_dividesAt (h : SpellsRun us heads body branches)
    (hfits : Branch.fits (Branch.openings heads + 1) branches = true)
    (hcut : Branch.lastCut (Branch.openings heads) [] branches = none) :
    ¬DividesAt us vs ws := by
  intro hd
  obtain ⟨before, b, after, hbs, -, hbefore, hafter⟩ :=
    cut_of_dividesAt h hfits hd
  rw [Branch.lastCut_eq_none hcut hbs hbefore] at hafter
  cases hafter

/-- The last cut leaves the most tokens before it. -/
theorem length_le_of_dividesAt (h : SpellsRun us heads body branches)
    (hfits : Branch.fits (Branch.openings heads + 1) branches = true)
    {cut : List Branch × Branch × List Branch}
    (hcut : Branch.lastCut (Branch.openings heads) [] branches = some cut)
    {xs : List Token} (hxs : SpellsRun xs heads body cut.1)
    (hd : DividesAt us vs ws) :
    vs.length ≤ xs.length := by
  obtain ⟨before, b, after, hbs, hvs, hbefore, hafter⟩ :=
    cut_of_dividesAt h hfits hd
  obtain ⟨hparts, -, -⟩ := Branch.lastCut_eq_some hcut
  rw [List.nil_append] at hparts
  have hle := Branch.length_le_lastCut hcut hbs hbefore hafter
  rw [List.nil_append] at hle
  have hstart : before <+: cut.1 := List.prefix_of_prefix_length_le
    (⟨_, hbs.symm⟩ : before <+: branches) ⟨_, hparts.symm⟩ hle
  exact (hvs.length_le hxs hstart).1

/-- A cut that leaves the most tokens before it is the last one. -/
theorem lastCut_of_longest (hvs : SpellsRun vs heads body before)
    (hws : SpellsRun ws b.heads b.body after)
    (hbefore : Branch.fits (Branch.openings heads) before = true)
    (hafter : Branch.fits (Branch.openings b.heads) after = true)
    (hlongest : ∀ vs' ws',
      DividesAt (vs ++ ⟨b.elseLead, .keyword "else"⟩ :: ws) vs' ws' →
      vs'.length ≤ vs.length) :
    Branch.lastCut (Branch.openings heads) [] (before ++ b :: after) =
      some (before, b, after) := by
  refine Branch.lastCut_eq_of_longest rfl hbefore hafter fun cut hcut => ?_
  obtain ⟨hparts, hbefore', hafter'⟩ := Branch.lastCut_eq_some hcut
  rw [List.nil_append] at hparts
  have hwhole := hvs.append hws
  rw [hparts] at hwhole
  obtain ⟨xs, ys, htokens, hxs, hys⟩ := hwhole.divide
  rcases Nat.le_total cut.1.length before.length with hle | hle
  · exact hle
  · have hstart : before <+: cut.1 := List.prefix_of_prefix_length_le
      (List.prefix_append before (b :: after)) ⟨_, hparts.symm⟩ hle
    exact (hvs.length_le hxs hstart).2
      (hlongest xs ys (htokens ▸ dividesAt_of_cut hxs hys hbefore' hafter'))

end

end JavaRefit
