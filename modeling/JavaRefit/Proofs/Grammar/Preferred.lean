/-
The derivation that is read is the preferred one.

The run of a statement is cut by `Branch.shape` from the outside in, each
time at the last place where it can be; and that is the place where the
preferred derivation divides the tokens. So what is read is preferred,
and what is preferred is read, which leaves one preferred derivation.

Chain: after `Cut` and `AmbiguousUnit`; last of the proofs about the
ambiguity of the grammar.
-/
import JavaRefit.Proofs.Grammar.AmbiguousUnit
import JavaRefit.Proofs.Grammar.Cut

namespace JavaRefit

open Spelling JavaRefit.Parser

-- =========================================================== shorter parts

section
variable {us : List Token} {n : Nat}

/-- Elements in a row go from one spelling to another that holds of all shorter
tokens. -/
theorem Spelling.Many.imp_of_lt {α : Type} {R S : Spelling α} {as : List α}
    (hRS : ∀ ⦃us a⦄, us.length < n → R us a → S us a) (hlt : us.length < n)
    (h : Many R us as) :
    Many S us as := by
  induction h with
  | nil => exact .nil
  | cons ha _ ih =>
      rw [List.length_append] at hlt
      exact .cons (hRS (by omega) ha) (ih (by omega))

/-- The elements of a block have fewer tokens than it, so they may change
spelling by induction. -/
theorem Spelling.Braced.imp_of_lt {α : Type} {R S : Spelling (RightPadded α)}
    {b : Block α} (hRS : ∀ ⦃us a⦄, us.length < n → R us a → S us a)
    (hlt : us.length ≤ n) (h : Braced R us b) :
    Braced S us b := by
  obtain ⟨h⟩ := h
  simp only [List.length_cons, List.length_append] at hlt
  exact .mk (h.imp_of_lt hRS (by omega))

variable {R S : Spelling (RightPadded Stmt)}
  (hRS : ∀ ⦃us s⦄, us.length < n → R us s → S us s)
include hRS

/-- A clause changes spelling as its body does. -/
theorem CatchWith.imp_of_lt {c : Catch Stmt} (hlt : us.length < n)
    (h : CatchWith R us c) : CatchWith S us c := by
  obtain ⟨hd, hb⟩ := h
  simp only [List.length_cons, List.length_append] at hlt
  exact .mk hd (hb.imp_of_lt hRS (by omega))

/-- The last block changes spelling as its statements do. -/
theorem FinallyWith.imp_of_lt {f : Option (LeftPadded (Block Stmt))}
    (hlt : us.length < n) (h : FinallyWith R us f) : FinallyWith S us f := by
  cases h with
  | none => exact .none
  | some hb =>
      rw [List.length_cons] at hlt
      exact .some (hb.imp_of_lt hRS (by omega))

/-- A statement without branches changes spelling as the blocks in it do. -/
theorem PlainWith.imp_of_lt {s : RightPadded Stmt} (hlt : us.length ≤ n)
    (h : PlainWith R us s) : PlainWith S us s := by
  cases h with
  | block hb => exact .block (hb.imp_of_lt hRS hlt)
  | empty => exact .empty
  | tryCatch hb hcs hf =>
      simp only [List.length_cons, List.length_append] at hlt
      exact .tryCatch (hb.imp_of_lt hRS (by omega))
        (hcs.imp_of_lt (fun _ _ hlt hc => hc.imp_of_lt hRS hlt) (by omega))
        (hf.imp_of_lt hRS (by omega))
  | throwing he => exact .throwing he
  | returningNone => exact .returningNone
  | returning he => exact .returning he
  | declaration hd => exact .declaration hd
  | expr he hno => exact .expr he hno

end

-- ==================================================================== runs

section
variable {us vs : List Token} {heads : List Head} {body : RightPadded Stmt}
  {branches : List Branch} {h : Head}

/-- One more head before a run. -/
theorem SpellsRun.head (hh : SpellsHead us h)
    (hrun : SpellsRun vs heads body branches) :
    SpellsRun (us ++ vs) (h :: heads) body branches := by
  obtain ⟨hheads, hbody, hbranches⟩ := hrun
  have hwhole := SpellsRun.mk (.cons hh hheads) hbody hbranches
  simpa using hwhole

/-- A run with a head is that head before a run. -/
theorem SpellsRun.behind (hrun : SpellsRun us (h :: heads) body branches) :
    ∃ xs ys, us = xs ++ ys ∧ SpellsHead xs h ∧
    SpellsRun ys heads body branches := by
  generalize hall : h :: heads = all at hrun
  obtain ⟨hheads, hbody, hbranches⟩ := hrun
  subst hall
  cases hheads with
  | cons hh hheads => exact ⟨_, _, by simp, hh, .mk hheads hbody hbranches⟩

/-- What is read as a statement is the shape of a run. -/
theorem SpellsStmt.exists_run {s : RightPadded Stmt} (hs : SpellsStmt us s) :
    ∃ heads body branches, SpellsRun us heads body branches ∧
      Branch.fits (Branch.openings heads) branches = true ∧
      s = Branch.shape heads body branches := by
  obtain ⟨n, hs⟩ := hs
  cases n with
  | zero => exact hs.elim
  | succ n =>
      have himp ⦃vs : List Token⦄ ⦃t : RightPadded Stmt⦄
          (h : SpellsStmtAt n vs t) : SpellsStmt vs t :=
        ⟨n, h⟩
      obtain ⟨hheads, hbody, hbranches, hfits⟩ := hs
      refine ⟨_, _, _,
        .mk hheads (hbody.imp_of_lt (fun _ _ _ h => himp h) (Nat.le_refl _))
        (hbranches.imp fun _ _ hb => ?_), hfits, rfl⟩
      obtain ⟨hheads', hbody'⟩ := hb
      exact .mk hheads' (hbody'.imp_of_lt (fun _ _ _ h => himp h)
        (Nat.le_refl _))

end

-- ======================================================== read, so preferred

/-- The shape of a run is its preferred derivation, if that is so for the
statements in its blocks. -/
theorem prefers_shape {n : Nat}
    (hshorter : ∀ ⦃us s⦄, us.length < n → SpellsStmt us s → PrefersStmt us s)
    {us : List Token} {heads : List Head} {body : RightPadded Stmt}
    {branches : List Branch} (hlt : us.length ≤ n)
    (hrun : SpellsRun us heads body branches)
    (hfits : Branch.fits (Branch.openings heads) branches = true) :
    PrefersStmt us (Branch.shape heads body branches) := by
  fun_induction Branch.shape heads body branches generalizing us with
  | case1 body branches =>
      cases branches with
      | cons b bs => cases hfits
      | nil =>
          generalize hheads : ([] : List Head) = heads at hrun
          generalize hbranches : ([] : List Branch) = branches at hrun
          obtain ⟨hheads', hbody, hbranches'⟩ := hrun
          subst hheads hbranches
          cases hheads'
          cases hbranches'
          rw [List.nil_append, List.append_nil] at hlt ⊢
          exact .plain (hbody.imp_of_lt hshorter hlt)
  | case2 body branches head rest hloops ih =>
      have ho := Branch.openings_of_loops hloops rest
      obtain ⟨xs, ys, rfl, hhead, hrest⟩ := hrun.behind
      rw [List.length_append] at hlt
      have hinner := ih (by omega) hrest (ho ▸ hfits)
      cases hhead with
      | whileLoop hc => exact .whileLoop hc hinner
      | ifElse _ => cases hloops
  | case3 body branches head rest hloops hcut ih =>
      have ho := Branch.openings_of_not_loops hloops rest
      obtain ⟨xs, ys, rfl, hhead, hrest⟩ := hrun.behind
      rw [List.length_append] at hlt
      have hinner :=
        ih (by omega) hrest (Branch.fits_of_lastCut_eq_none (ho ▸ hfits) hcut)
      cases hhead with
      | whileLoop _ => exact absurd rfl hloops
      | ifElse hc =>
          exact .ifThen hc (fun _ _ =>
            not_dividesAt hrest (ho ▸ hfits) hcut) hinner
  | case4 body branches head rest hloops before b after hcut ihbefore ihafter =>
      have ho := Branch.openings_of_not_loops hloops rest
      obtain ⟨xs, ys, rfl, hhead, hrest⟩ := hrun.behind
      obtain ⟨hbs, hbefore, hafter⟩ := Branch.lastCut_eq_some hcut
      dsimp only at hbs hbefore hafter
      rw [List.nil_append] at hbs
      obtain ⟨vs, ws, hys, hvs, hws⟩ := (hbs ▸ hrest).divide
      have hlength := congrArg List.length hys
      simp only [List.length_append, List.length_cons] at hlt hlength
      have hthen := ihbefore (by omega) hvs hbefore
      have helse := ihafter (by omega) hws hafter
      cases hhead with
      | whileLoop _ => exact absurd rfl hloops
      | ifElse hc =>
          exact .ifElse hc hys
            (fun _ _ hd =>
              length_le_of_dividesAt hrest (ho ▸ hfits) hcut hvs hd) hthen helse

/-- What is read as a statement is the preferred derivation. -/
theorem SpellsStmt.prefers {us : List Token} {s : RightPadded Stmt}
    (h : SpellsStmt us s) : PrefersStmt us s := by
  induction hn : us.length using Nat.strong_induction_on generalizing us s with
  | h n ih =>
  obtain ⟨heads, body, branches, hrun, hfits, rfl⟩ := h.exists_run
  exact prefers_shape (fun _ _ hlt h => ih _ hlt h rfl)
    (Nat.le_of_eq hn) hrun hfits

-- ======================================================== preferred, so read

namespace Branch

variable {lead : Trivia} {c : Parens Expr} {rest : List Head}
  {body : RightPadded Stmt}
  {branches before after : List Branch} {b : Branch}

/-- A condition whose run closes no branch for it has no other branch. -/
theorem shape_ifThen (hcut : lastCut (openings rest) [] branches = none) :
    shape (⟨lead, false, c⟩ :: rest) body branches =
      ⟨.ifElse lead c (shape rest body branches) none, ""⟩ := by
  rw [shape, if_neg Bool.false_ne_true]
  split
  next => rfl
  next h => rw [hcut] at h; cases h

/-- A condition takes the last branch that its run leaves open. -/
theorem shape_ifElse (hcut : lastCut (openings rest) [] branches =
    some (before, b, after)) : shape (⟨lead, false, c⟩ :: rest) body branches =
      ⟨.ifElse lead c (shape rest body before)
        (some ⟨b.elseLead, shape b.heads b.body after⟩), ""⟩ := by
  rw [shape, if_neg Bool.false_ne_true]
  split
  next h => rw [hcut] at h; cases h
  next h =>
    rw [hcut] at h
    cases h
    rfl

end Branch

/-- The preferred derivation of a statement is what is read. -/
theorem PrefersStmt.spells {us : List Token} {s : RightPadded Stmt}
    (h : PrefersStmt us s) : SpellsStmt us s := by
  induction hn : us.length using Nat.strong_induction_on generalizing us s with
  | h n ih =>
  cases h with
  | plain h =>
      have hbody := h.imp_of_lt (S := SpellsStmt)
        (fun _ _ hlt h => ih _ hlt h rfl) (Nat.le_of_eq hn)
      have hrun : SpellsRun ([] ++ us ++ []) [] s [] := .mk .nil hbody .nil
      rw [List.nil_append, List.append_nil] at hrun
      simpa [Branch.shape] using hrun.stmt rfl
  | @whileLoop lead us c vs s hc h =>
      simp only [List.length_cons, List.length_append] at hn
      obtain ⟨heads, body, branches, hrun, hfits, rfl⟩ :=
        (ih _ (by omega) h rfl).exists_run
      have hhead : SpellsHead (⟨lead, .keyword "while"⟩ :: us)
          ⟨lead, true, c⟩ := .whileLoop hc
      simpa [Branch.shape] using (hrun.head hhead).stmt hfits
  | @ifThen lead us c ts s hc hno h =>
      simp only [List.length_cons, List.length_append] at hn
      obtain ⟨heads, body, branches, hrun, hfits, rfl⟩ :=
        (ih _ (by omega) h rfl).exists_run
      have hhead : SpellsHead (⟨lead, .keyword "if"⟩ :: us) ⟨lead, false, c⟩ :=
        .ifElse hc
      have hcut : Branch.lastCut (Branch.openings heads)
          [] branches = none := by
        cases hcut : Branch.lastCut (Branch.openings heads) [] branches with
        | none => rfl
        | some cut =>
            obtain ⟨hparts, hbefore, hafter⟩ := Branch.lastCut_eq_some hcut
            rw [List.nil_append] at hparts
            obtain ⟨vs, ws, rfl, hvs, hws⟩ := (hparts ▸ hrun).divide
            exact absurd (dividesAt_of_cut hvs hws hbefore hafter) (hno vs ws)
      rw [← Branch.shape_ifThen hcut]
      exact (hrun.head hhead).stmt
        (Branch.fits_mono (Branch.openings_le_cons _ heads) hfits)
  | @ifElse lead us c ts vs s elseLead ws e hc hts hlongest h he =>
      subst hts
      simp only [List.length_cons, List.length_append] at hn
      obtain ⟨heads, body, before, hvs, hbefore, rfl⟩ :=
        (ih _ (by omega) h rfl).exists_run
      obtain ⟨heads', body', after, hws, hafter, rfl⟩ :=
        (ih _ (by omega) he rfl).exists_run
      have hhead : SpellsHead (⟨lead, .keyword "if"⟩ :: us) ⟨lead, false, c⟩ :=
        .ifElse hc
      have hcut := lastCut_of_longest (b := ⟨elseLead, heads', body'⟩)
        hvs hws hbefore hafter hlongest
      have hwhole := hvs.append (b := ⟨elseLead, heads', body'⟩) hws
      rw [← Branch.shape_ifElse hcut]
      refine (hwhole.head hhead).stmt ?_
      rw [Branch.openings_ifElse]
      exact Branch.fits_append hbefore hafter

-- =================================================================== members

/-- A class of preferred members is preferred. -/
theorem ClassWith.prefers {R : Spelling (RightPadded Member)}
    (hR : ∀ us m, R us m → PrefersMember us m) {lead : Trivia}
    {ms : List Modifier} {kind : LeftPadded ClassKind} {us vs xs : List Token}
    {t : Token} {c : JavaClass} (hms : Many SpellsModifier us ms)
    (hkind : asClassKind t = some kind) (h : ClassWith R lead ms kind vs c)
    (hled : Led lead (us ++ t :: vs) xs) :
    PrefersClass xs c := by
  obtain ⟨i, hextends, himplements, hbody⟩ := h
  exact .mk i hms hkind hextends himplements (hbody.imp hR) hled

/-- A method is preferred with every body that is spelled. -/
theorem MethodWith.prefers {lead : Trivia} {ms : List Modifier} {t : TypeTree}
    {i : Ident} {mayLackBody : Bool} {us vs ws xs : List Token}
    {m : RightPadded Member} (hms : Many SpellsModifier us ms)
    (ht : DerivesResult vs t)
    (h : MethodWith lead ms (some t) i mayLackBody ws m)
    (hled : Led lead (us ++ vs ++ ⟨i.lead, .name i.name⟩ :: ws) xs) :
    PrefersMember xs m := by
  cases h with
  | bodied hparams hthrows hbody =>
      exact .method i hms ht hparams hthrows
        (.block (hbody.imp fun _ _ h => h.prefers)) hled
  | abstract _ hparams hthrows =>
      exact .method i hms ht hparams hthrows .semicolon hled

/-- What is read as a member is the preferred derivation. -/
theorem SpellsMember.prefers {us : List Token} {m : RightPadded Member}
    (h : SpellsMember us m) : PrefersMember us m := by
  obtain ⟨n, h⟩ := h
  induction n generalizing us m with
  | zero => exact h.elim
  | succ n ih =>
      obtain ⟨hms, hm, hled⟩ := h
      cases hm with
      | nested hkind hc =>
          exact .nested (hc.prefers (fun _ _ h => ih h) hms hkind hled)
      | void i hm => exact hm.prefers hms .void (by simpa using hled)
      | method i ht hm => exact hm.prefers hms (.type ht) (by simpa using hled)
      | constructor i hm =>
          cases hm with
          | bodied hparams hthrows hbody =>
              exact .constructor i hms hparams hthrows
                (hbody.imp fun _ _ h => h.prefers)
                (by simpa using hled)
          | abstract hmay _ _ => cases hmay
      | field ht hds => exact .field hms ht hds (by simpa using hled)

/-- A preferred class is spelled as the parser reads it, if its members are. -/
theorem PrefersClass.spells {us : List Token} {c : JavaClass}
    (hshorter : ∀ ⦃vs m⦄, vs.length < us.length → PrefersMember vs m →
      SpellsMember vs m) (h : PrefersClass us c) : SpellsTopClass us c := by
  obtain ⟨i, hms, hkind, hextends, himplements, hbody, hled⟩ := h
  have hlength := length_of_led hled
  simp only [List.length_append, List.length_cons] at hlength
  exact .mk hms hkind (.mk i hextends himplements
    (hbody.imp_of_lt hshorter (by omega))) hled

/-- A preferred body makes a method that is spelled as the parser reads it. -/
theorem PrefersBody.methodWith {lead : Trivia} {ms : List Modifier}
    {t : TypeTree} {i : Ident} {us vs ws : List Token}
    {params : Container Variables} {throws : Option (Container TypeTree)}
    {b : Option (Block Stmt)} {after : Trivia}
    (hparams : Delimited (ParameterWith SpellsType) "(" ")" us params)
    (hthrows : AfterKeyword SpellsClassType "throws" vs throws)
    (h : PrefersBody ws (b, after)) :
    MethodWith lead ms (some t) i true (us ++ vs ++ ws)
      ⟨.method ⟨lead, ms, some t, i, params, throws, b, none⟩, after⟩ := by
  cases h with
  | block hb => exact .bodied hparams hthrows (hb.imp fun _ _ h => h.spells)
  | semicolon => exact .abstract rfl hparams hthrows

/-- The preferred derivation of a member is what is read. -/
theorem PrefersMember.spells {us : List Token}
    {m : RightPadded Member} (h : PrefersMember us m) : SpellsMember us m := by
  induction hn : us.length using Nat.strong_induction_on generalizing us m with
  | h n ih =>
  subst hn
  refine spellsMember_of_memberWith ?_
  cases h with
  | field hms ht hds hled => exact .mk hms (.field ht hds) (by simpa using hled)
  | method i hms ht hparams hthrows hbody hled =>
      cases ht with
      | type ht =>
          exact .mk hms (.method i ht (hbody.methodWith hparams hthrows))
            (by simpa using hled)
      | void =>
          exact .mk hms (.void i (hbody.methodWith hparams hthrows))
            (by simpa using hled)
  | constructor i hms hparams hthrows hbody hled =>
      exact .mk hms
        (.constructor i (.bodied hparams hthrows
          (hbody.imp fun _ _ h => h.spells)))
        (by simpa using hled)
  | nested hc =>
      obtain ⟨hms, hkind, hc, hled⟩ := hc.spells fun _ _ hlt h => ih _ hlt h rfl
      exact .mk hms (.nested hkind hc) hled

-- ===================================================================== files

/-- The preferred derivations of a file are the trees that its tokens are read
as. -/
theorem prefersUnit_iff {close : Trivia} {path : Option String}
    {ts : List Token} {cu : CompilationUnit} : PrefersUnit close path ts cu ↔
    SpellsUnit close path ts cu := by
  constructor
  · intro h
    cases h with
    | empty => exact .empty
    | mk hparts hled =>
        obtain ⟨hp, himports, hclasses⟩ := hparts
        exact .mk (.mk hp himports
          (hclasses.imp fun _ _ hc => hc.spells fun _ _ _ h => h.spells)) hled
  · intro h
    cases h with
    | empty => exact .empty
    | mk hparts hled =>
        obtain ⟨hp, himports, hclasses⟩ := hparts
        refine .mk (.mk hp himports (hclasses.imp fun _ _ hc => ?_)) hled
        obtain ⟨hms, hkind, hc, hled⟩ := hc
        exact hc.prefers (fun _ _ h => h.prefers) hms hkind hled

/-- The grammar is ambiguous in two places only, and one side is always taken:
any two derivations of the same tokens differ only in expression statements
taken for declarations and in which `if` an `else` belongs to; a tree that is
returned is a preferred derivation of its tokens; and a preferred derivation is
a derivation, and the only preferred one of its tokens. -/
theorem parseTree_preferred (path : Option String) :
    (∀ close ts cu cu', DerivesUnit close path ts cu →
      DerivesUnit close path ts cu' → RereadUnit cu cu') ∧
    (∀ source cu, parseTree source path = .ok cu →
      PrefersUnit (Token.scan source).tail path (Token.scan source).tokens cu) ∧
    (∀ close ts cu, PrefersUnit close path ts cu →
      DerivesUnit close path ts cu ∧ ∀ cu', PrefersUnit close path ts cu' →
      cu' = cu) := by
  refine ⟨fun _ _ _ _ h h' => h.reread h', fun source cu hcu => ?_,
    fun close ts cu h => ?_⟩
  · obtain ⟨⟨rest, hunit⟩, -, -⟩ := unit_of_parseTree hcu
    exact prefersUnit_iff.2 (unit_sound hunit).2
  · have hread := unit_complete (prefersUnit_iff.1 h)
    refine ⟨(prefersUnit_iff.1 h).derives, fun cu' h' => ?_⟩
    have hread' := unit_complete (prefersUnit_iff.1 h')
    rw [hread'] at hread
    exact (Prod.mk.inj (Except.ok.inj hread)).1

/-- A class with three conditions before an `else`, and tokens that spell a
declaration and a comparison. -/
def ambiguousText : String :=
  "class C \x7b void m() \x7b if (a) if (b) if (c) f(); else g(); d < e > h; \x7d \x7d"

/-- The text has a tree, which is the preferred derivation of its tokens, and
of which all others are readings. -/
theorem parseTree_preferred_ambiguous :
    ∃ cu, parseTree ambiguousText none = .ok cu ∧
      PrefersUnit (Token.scan ambiguousText).tail none
        (Token.scan ambiguousText).tokens cu ∧
      DerivesUnit (Token.scan ambiguousText).tail none
        (Token.scan ambiguousText).tokens cu ∧
      ∀ cu', DerivesUnit (Token.scan ambiguousText).tail none
        (Token.scan ambiguousText).tokens cu' → RereadUnit cu cu' := by
  have hread : (parseTree ambiguousText none).isOk = true := by decide +kernel
  obtain ⟨hreread, hprefers, honly⟩ := parseTree_preferred none
  cases htree : parseTree ambiguousText none with
  | error e =>
      rw [htree] at hread
      cases hread
  | ok cu =>
      have hcu := hprefers _ cu htree
      have hderives := (honly _ _ cu hcu).1
      exact ⟨cu, rfl, hcu, hderives, fun cu' h' =>
        hreread _ _ cu cu' hderives h'⟩

end JavaRefit
