/-
Statements and classes with other catch parameters.

If what a catch clause comes to declare can be written where what it
declared is, then so can everything around it. Only one thing stands in
the way of following the rules: statements that start with `if` or
`while` are shaped from flat pieces. But where the pieces are cut depends
on the heads alone, and those stay (`Branch.exists_shape`).

Chain: after `Rewrites`; what the catch rule does to a file is such a
change.
-/
import JavaRefit.Proofs.Grammar.Rewrites
import JavaRefit.Proofs.Reading.Conditional
import JavaRefit.Proofs.Tree.Recaught

namespace JavaRefit

open Spelling

variable {P : Variables → Variables → Prop}

/-- The statement is recaught, and its semicolon stays. -/
structure Stmt.PaddedRecaught (P : Variables → Variables → Prop)
    (p q : RightPadded Stmt) : Prop where
  after : q.after = p.after
  element : Stmt.Recaught P p.element q.element

theorem Stmt.PaddedRecaught.refl (p : RightPadded Stmt) :
    Stmt.PaddedRecaught P p p :=
  ⟨rfl, .same _⟩

-- =============================================================== branches

/-- The body after the `else` is recaught, the heads stay. -/
structure Branch.Recaught (P : Variables → Variables → Prop)
    (b b' : Branch) : Prop where
  elseLead : b'.elseLead = b.elseLead
  heads : b'.heads = b.heads
  body : Stmt.PaddedRecaught P b.body b'.body

namespace Branch

variable {bs bs' : List Branch}

theorem Recaught.refl (b : Branch) : b.Recaught P b :=
  ⟨rfl, rfl, .refl _⟩

theorem forall₂_refl (bs : List Branch) :
    List.Forall₂ (Branch.Recaught P) bs bs :=
  List.forall₂_same.2 fun b _ => .refl b

/-- Whether branches fit is no matter of the clauses in them. -/
theorem fits_eq (h : List.Forall₂ (Branch.Recaught P) bs bs') (opened : Nat) :
    fits opened bs' = fits opened bs := by
  induction h generalizing opened with
  | nil => rfl
  | cons hb _ ih =>
      cases opened with
      | zero => rfl
      | succ n => rw [fits, fits, hb.heads, ih]

/-- Branches with other bodies are cut where they were. -/
theorem lastCut_rel {before before' : List Branch} (opened : Nat)
    (hbefore : List.Forall₂ (Branch.Recaught P) before before')
    (h : List.Forall₂ (Branch.Recaught P) bs bs') :
    Option.Rel (fun cut cut' => List.Forall₂ (Branch.Recaught P) cut.1 cut'.1 ∧
        cut.2.1.Recaught P cut'.2.1 ∧
        List.Forall₂ (Branch.Recaught P) cut.2.2 cut'.2.2)
          (lastCut opened before bs) (lastCut opened before' bs') := by
  induction h generalizing before before' with
  | nil => exact .none
  | @cons b b' bs bs' hb hbs ih =>
      have hnext := ih (List.rel_append hbefore (.cons hb .nil))
      rw [lastCut, lastCut]
      cases hcut : lastCut opened (before ++ [b]) bs <;>
        cases hcut' : lastCut opened (before' ++ [b']) bs' <;>
          rw [hcut, hcut'] at hnext
      · dsimp only
        rw [fits_eq hbefore, hb.heads, fits_eq hbs]
        split
        · exact .some ⟨hbefore, hb, hbs⟩
        · exact .none
      · cases hnext
      · cases hnext
      · exact hnext

/-- What a shaped statement becomes is shaped from what its pieces become. -/
theorem exists_shape {heads : List Head} {body s : RightPadded Stmt}
    {branches : List Branch} (hfits : fits (openings heads) branches = true)
    (h : Stmt.PaddedRecaught P (shape heads body branches) s) :
    ∃ body' branches', s = shape heads body' branches' ∧
    Stmt.PaddedRecaught P body body' ∧
      List.Forall₂ (Branch.Recaught P) branches branches' := by
  fun_induction shape heads body branches generalizing s with
  | case1 body branches =>
      cases branches with
      | nil => exact ⟨s, [], by rw [shape], h, .nil⟩
      | cons b bs => cases hfits
  | case2 body branches head rest hloops ih =>
      have ho := openings_of_loops hloops rest
      obtain ⟨s, after⟩ := s
      obtain ⟨rfl, h⟩ := h
      cases h with
      | same =>
          exact ⟨body, branches, by rw [shape, if_pos hloops], .refl _,
            forall₂_refl _⟩
      | whileLoop hs hafter =>
          obtain ⟨body', branches', rfl, hbody, hbranches⟩ :=
            ih (ho ▸ hfits) ⟨hafter, hs⟩
          exact ⟨body', branches', by rw [shape, if_pos hloops],
            hbody, hbranches⟩
  | case3 body branches head rest hloops hcut ih =>
      have ho := openings_of_not_loops hloops rest
      have hfits := fits_of_lastCut_eq_none (ho ▸ hfits) hcut
      obtain ⟨s, after⟩ := s
      obtain ⟨rfl, h⟩ := h
      cases h with
      | same =>
          refine ⟨body, branches, ?_, .refl _, forall₂_refl _⟩
          rw [shape, if_neg hloops, hcut]
      | ifElse hs hafter he heafter =>
          obtain ⟨body', branches', rfl, hbody, hbranches⟩ :=
            ih hfits ⟨hafter, hs⟩
          have hcut' := lastCut_rel (openings rest)
            (.nil (R := Branch.Recaught P)) hbranches
          rw [hcut] at hcut'
          cases he
          refine ⟨body', branches', ?_, hbody, hbranches⟩
          rw [shape, if_neg hloops]
          split
          · rfl
          · next hsome => rw [hsome] at hcut'; cases hcut'
  | case4 body branches head rest hloops before b after hcut ih₁ ih₂ =>
      obtain ⟨hbs, hbefore, hafter⟩ := lastCut_eq_some hcut
      rw [List.nil_append] at hbs
      obtain ⟨s, _⟩ := s
      obtain ⟨rfl, h⟩ := h
      cases h with
      | same =>
          refine ⟨body, branches, ?_, .refl _, forall₂_refl _⟩
          rw [shape, if_neg hloops, hcut]
      | ifElse hs hsafter he heafter =>
          cases he with
          | @some _ g hg =>
          obtain ⟨elseLead, g⟩ := g
          obtain ⟨rfl, hgafter⟩ := Prod.mk.inj (Option.some.inj heafter)
          obtain ⟨body', before', rfl, hbody, hbefore'⟩ :=
            ih₁ hbefore ⟨hsafter, hs⟩
          obtain ⟨last, after', rfl, hlast, hafter'⟩ := ih₂ hafter ⟨hgafter, hg⟩
          have hb : b.Recaught P ⟨b.elseLead, b.heads, last⟩ :=
            ⟨rfl, rfl, hlast⟩
          have hbranches : List.Forall₂ (Branch.Recaught P) branches
              (before' ++ ⟨b.elseLead, b.heads, last⟩ :: after') := by
            rw [hbs]
            exact List.rel_append hbefore' (.cons hb hafter')
          have hcut' := lastCut_rel (openings rest)
            (.nil (R := Branch.Recaught P)) hbranches
          rw [hcut] at hcut'
          cases hfound : lastCut (openings rest) []
            (before' ++ ⟨b.elseLead, b.heads, last⟩ :: after')
            with
          | none => rw [hfound] at hcut'; cases hcut'
          | some cut =>
          rw [hfound] at hcut'
          cases hcut' with
          | some hrel =>
          -- the cut is at the same place, since as many branches are before it
          obtain ⟨hsplit, -⟩ := lastCut_eq_some hfound
          rw [List.nil_append] at hsplit
          obtain ⟨cutBefore, cutBranch, cutAfter⟩ := cut
          obtain ⟨rfl, hrest⟩ :=
            List.append_inj hsplit
              (hbefore'.length_eq.symm.trans hrel.1.length_eq)
          obtain ⟨rfl, rfl⟩ := List.cons.inj hrest
          refine ⟨body', _, ?_, hbody, hbranches⟩
          rw [shape, if_neg hloops, hfound]

end Branch

-- ============================================================ statements

section Statements

variable (hP : ∀ ⦃d d'⦄, P d d' → (ParameterWith SpellsCatchType).Rewrites d d')
  {R : Spelling (RightPadded Stmt)}
  (hR : ∀ ⦃p q⦄, Stmt.PaddedRecaught P p q → R.Rewrites p q)
include hP hR

omit hP in

/-- A block is rewritten as its statements are. -/
theorem rewrites_recaughtBlock {b b' : Block Stmt}
    (h : Stmt.Recaught P (.block b) (.block b')) :
    (Braced R).Rewrites b b' := by
  cases h with
  | same => exact .refl _ _
  | @block lead ps qs close hpq hafter =>
      refine .braced rfl rfl ?_
      dsimp only
      induction hpq with
      | nil => exact .nil
      | cons hp _ ih =>
          obtain ⟨ha, hafter⟩ := List.cons.inj hafter
          exact .cons (hR ⟨ha, hp⟩) (ih hafter)

/-- Clauses are rewritten as their parameters and bodies are. -/
theorem rewrites_recaughtClauses {cs cs' : List (Catch Stmt)}
    (hbodies : List.Forall₂
      (fun c c' => Stmt.Recaught P (.block (Catch.body c))
        (.block (Catch.body c'))) cs cs')
    (hheads : List.Forall₂ (Catch.Redeclares P) cs cs') :
    List.Forall₂ (CatchWith R).Rewrites cs cs' := by
  induction hbodies with
  | nil => exact .nil
  | @cons c c' _ _ hbody _ ih =>
      cases hheads with
      | cons hhead hheads =>
          refine .cons (fun us hus => ?_) (ih hheads)
          obtain ⟨lead, ⟨opening, ⟨d, closing⟩⟩, b⟩ := c
          obtain ⟨lead', ⟨opening', ⟨d', closing'⟩⟩, b'⟩ := c'
          obtain ⟨hlead, hopening, hclosing, hd⟩ := hhead
          dsimp only at hlead hopening hclosing
          subst hlead hopening hclosing
          cases hus with
          | mk hus hvs =>
              obtain ⟨us', hus', href⟩ := hP hd _ hus
              obtain ⟨vs', hvs', href'⟩ := rewrites_recaughtBlock hR hbody _ hvs
              exact ⟨_, .mk hus' hvs',
                ((href.append (href'.cons _)).cons _).cons _⟩

/-- A statement without branches is rewritten as what it nests is. -/
theorem rewrites_recaughtPlain {p q : RightPadded Stmt}
    (h : Stmt.PaddedRecaught P p q) : (PlainWith R).Rewrites p q := by
  intro us hus
  obtain ⟨s, after⟩ := q
  obtain ⟨rfl, h⟩ := h
  cases hus with
  | block hus =>
      cases h with
      | same => exact ⟨_, .block hus, .refl _⟩
      | block hpq hafter =>
          obtain ⟨us', hus', href⟩ :=
            rewrites_recaughtBlock hR (.block hpq hafter) _ hus
          exact ⟨us', .block hus', href⟩
  | tryCatch hus hvs hws =>
      cases h with
      | same => exact ⟨_, .tryCatch hus hvs hws, .refl _⟩
      | tryCatch hb hbodies hheads hf hbefore =>
          obtain ⟨us', hus', href⟩ := rewrites_recaughtBlock hR hb _ hus
          obtain ⟨vs', hvs', href'⟩ :=
            Rewrites.many (rewrites_recaughtClauses hP hR hbodies hheads) _ hvs
          cases hws with
          | none =>
              cases hf
              exact ⟨_, .tryCatch hus' hvs' .none,
                ((href.append href').append (.refl _)).cons _⟩
          | some hws =>
              cases hf with
              | @some _ g hg =>
              obtain ⟨before, g⟩ := g
              obtain rfl := Option.some.inj hbefore
              obtain ⟨ws', hws', href''⟩ := rewrites_recaughtBlock hR hg _ hws
              exact ⟨_, .tryCatch hus' hvs' (.some hws'),
                ((href.append href').append (href''.cons _)).cons _⟩
  | empty => cases h; exact ⟨_, .empty, .refl _⟩
  | throwing hus => cases h; exact ⟨_, .throwing hus, .refl _⟩
  | returningNone => cases h; exact ⟨_, .returningNone, .refl _⟩
  | returning hus => cases h; exact ⟨_, .returning hus, .refl _⟩
  | declaration hus => cases h; exact ⟨_, .declaration hus, .refl _⟩
  | expr hus hno => cases h; exact ⟨_, .expr hus hno, .refl _⟩

/-- A branch is rewritten as its statements are. -/
theorem rewrites_recaughtBranch {b b' : Branch} (h : b.Recaught P b') :
    (BranchWith R).Rewrites b b' := by
  intro us hus
  obtain ⟨lead, heads, body⟩ := b'
  obtain ⟨rfl, rfl, hbody⟩ := h
  cases hus with
  | mk hheads hbody' =>
      obtain ⟨vs', hvs', href⟩ := rewrites_recaughtPlain hP hR hbody _ hbody'
      exact ⟨_, .mk hheads hvs', ((Refits.refl _).append href).cons _⟩

/-- A statement is rewritten as what it nests is: the heads and branches
stay. -/
theorem rewrites_recaughtWith {p q : RightPadded Stmt}
    (h : Stmt.PaddedRecaught P p q) : (StatementWith R).Rewrites p q := by
  intro us hus
  cases hus with
  | @mk us heads vs body ws branches hheads hbody hbranches hfits =>
      obtain ⟨body', branches', rfl, hb, hbs⟩ := Branch.exists_shape hfits h
      obtain ⟨vs', hvs', href⟩ := rewrites_recaughtPlain hP hR hb _ hbody
      obtain ⟨ws', hws', href'⟩ :=
        Rewrites.many (hbs.imp fun b b' hb =>
          rewrites_recaughtBranch hP hR hb) _ hbranches
      refine ⟨_, .mk hheads hvs' hws' ?_,
        ((Refits.refl _).append href).append href'⟩
      rw [Branch.fits_eq hbs, hfits]

end Statements

variable (hP : ∀ ⦃d d'⦄, P d d' → (ParameterWith SpellsCatchType).Rewrites d d')
include hP

/-- By induction on how deep statements nest. -/
theorem rewrites_recaughtAt (n : Nat) {p q : RightPadded Stmt}
    (h : Stmt.PaddedRecaught P p q) : (SpellsStmtAt n).Rewrites p q := by
  induction n generalizing p q with
  | zero => intro us hus; cases hus
  | succ n ih => exact rewrites_recaughtWith hP (fun p q h => ih h) h

/-- A recaught statement can be written where the statement was. -/
theorem rewrites_recaught ⦃p q : RightPadded Stmt⦄
    (h : Stmt.PaddedRecaught P p q) : SpellsStmt.Rewrites p q := by
  rintro us ⟨n, hus⟩
  obtain ⟨us', hus', href⟩ := rewrites_recaughtAt hP n h us hus
  exact ⟨us', ⟨n, hus'⟩, href⟩

-- =============================================================== members

/-- The member is recaught, and its semicolon stays. -/
structure Member.PaddedRecaught (P : Variables → Variables → Prop)
    (p q : RightPadded Member) : Prop where
  after : q.after = p.after
  element : Member.Recaught P p.element q.element

/-- A method is rewritten as its body is. -/
theorem rewrites_recaughtMethod {lead : Trivia} {ms : List Modifier}
    {type : Option TypeTree} {i : Ident} {mayLackBody : Bool}
    {p q : RightPadded Member} (h : Member.PaddedRecaught P p q) :
    (MethodWith lead ms type i mayLackBody).Rewrites p q := by
  intro us hus
  obtain ⟨m, after⟩ := q
  obtain ⟨rfl, h⟩ := h
  cases hus with
  | bodied hparams hthrows hbody =>
      cases h with
      | same => exact ⟨_, .bodied hparams hthrows hbody, .refl _⟩
      | method hb hrel =>
          obtain rfl := Option.some.inj hb
          obtain ⟨ws', hws', href⟩ :=
            rewrites_recaughtBlock (rewrites_recaught hP) hrel _ hbody
          exact ⟨_, .bodied hparams hthrows hws', (Refits.refl _).append href⟩
  | abstract hmay hparams hthrows =>
      cases h with
      | same => exact ⟨_, .abstract hmay hparams hthrows, .refl _⟩
      | method hb _ => cases hb

section Nested

variable {R : Spelling (RightPadded Member)}
  (hR : ∀ ⦃p q⦄, Member.PaddedRecaught P p q → R.Rewrites p q)
include hR

omit hP in

/-- A class is rewritten as its members are. -/
theorem rewrites_recaughtClass {lead : Trivia} {ms : List Modifier}
    {kind : LeftPadded ClassKind} {c c' : JavaClass}
    (h : ClassDecl.Recaught P c c') :
    (ClassWith R lead ms kind).Rewrites c c' := by
  intro us hus
  cases hus with
  | @mk i us extends? vs implements? ws body hus hvs hws =>
      cases h with
      | same => exact ⟨_, .mk i hus hvs hws, .refl _⟩
      | @nested _ qs hpq hafter =>
          have hbody : (Braced R).Rewrites body
              { body with statements := qs } := by
            refine .braced rfl rfl ?_
            dsimp only at hpq hafter ⊢
            generalize body.statements = ps at hpq hafter
            induction hpq with
            | nil => exact .nil
            | cons hp _ ih =>
                obtain ⟨ha, hafter⟩ := List.cons.inj hafter
                exact .cons (hR ⟨ha, hp⟩) (ih hafter)
          obtain ⟨ws', hws', href⟩ := hbody _ hws
          exact ⟨_, .mk i hus hvs hws', ((Refits.refl _).append href).cons _⟩

/-- Behind its modifiers a member is rewritten as what it nests is. -/
theorem rewrites_recaughtAfter {lead : Trivia} {ms : List Modifier}
    {p q : RightPadded Member} (h : Member.PaddedRecaught P p q) :
    (MemberAfter R lead ms).Rewrites p q := by
  intro us hus
  cases hus with
  | nested hkind hc =>
      obtain ⟨m, after⟩ := q
      obtain ⟨rfl, h⟩ := h
      cases h with
      | same => exact ⟨_, .nested hkind hc, .refl _⟩
      | nested hpq hafter =>
          obtain ⟨us', hus', href⟩ :=
            rewrites_recaughtClass hR (.nested hpq hafter) _ hc
          exact ⟨_, .nested hkind hus', href.cons _⟩
  | void i hm =>
      obtain ⟨us', hus', href⟩ := rewrites_recaughtMethod hP h _ hm
      exact ⟨_, .void i hus', (href.cons _).cons _⟩
  | constructor i hm =>
      obtain ⟨us', hus', href⟩ := rewrites_recaughtMethod hP h _ hm
      exact ⟨_, .constructor i hus', href.cons _⟩
  | method i ht hm =>
      obtain ⟨us', hus', href⟩ := rewrites_recaughtMethod hP h _ hm
      exact ⟨_, .method i ht hus', (Refits.refl _).append (href.cons _)⟩
  | field ht hds =>
      obtain ⟨m, after⟩ := q
      obtain ⟨rfl, h⟩ := h
      cases h with
      | same => exact ⟨_, .field ht hds, .refl _⟩

end Nested

/-- By induction on how deep classes nest. -/
theorem rewrites_recaughtMemberAt (n : Nat) {p q : RightPadded Member}
    (h : Member.PaddedRecaught P p q) : (SpellsMemberAt n).Rewrites p q := by
  induction n generalizing p q with
  | zero => intro us hus; cases hus
  | succ n ih =>
      intro us hus
      cases hus with
      | mk hms hm hled =>
          obtain ⟨vs', hvs', href⟩ :=
            rewrites_recaughtAfter hP (fun p q h => ih h) h _ hm
          obtain ⟨xs', hled', href'⟩ := ((Refits.refl _).append href).led hled
          exact ⟨xs', .mk hms hvs' hled', href'⟩

theorem rewrites_recaughtMember ⦃p q : RightPadded Member⦄
    (h : Member.PaddedRecaught P p q) : SpellsMember.Rewrites p q := by
  rintro us ⟨n, hus⟩
  obtain ⟨us', hus', href⟩ := rewrites_recaughtMemberAt hP n h us hus
  exact ⟨us', ⟨n, hus'⟩, href⟩

/-- A recaught class can be written where the class was. -/
theorem rewrites_recaughtTopClass {c c' : JavaClass}
    (h : ClassDecl.Recaught P c c') : SpellsTopClass.Rewrites c c' := by
  intro us hus
  cases hus with
  | mk hms hkind hc hled =>
      obtain ⟨vs', hvs', href⟩ :=
        rewrites_recaughtClass (rewrites_recaughtMember hP) h _ hc
      obtain ⟨xs', hled', href'⟩ :=
        ((Refits.refl _).append (href.cons _)).led hled
      exact ⟨xs', .mk hms hkind hvs' hled', href'⟩

end JavaRefit
