/-
What is read is derived, and whatever is derivable is read.

The rules by which trees are read give a run of conditions one shape and
tokens that spell a declaration one reading; a plain grammar leaves
both open. A shape is one of the ways to derive its run, so what is read is
derived. Any other way derives the same flat run, which has a shape too,
so tokens that are derivable at all are read, as some tree.

Chain: after `Derivation` and the two directions of reading; the language
of the parser rests on it.
-/
import JavaRefit.Proofs.Grammar.Derivation
import JavaRefit.Proofs.Grammar.Unit
import JavaRefit.Proofs.Reading.Conditional
import JavaRefit.Proofs.Tree.Induction

namespace JavaRefit

open Spelling

-- ====================================================== what is read, derived

namespace Spelling

variable {α : Type} {us : List Token}

/-- Elements in a row go from one spelling to a wider one. -/
theorem Many.imp {R S : Spelling α} (hRS : ∀ us a, R us a → S us a)
    {as : List α} (h : Many R us as) : Many S us as := by
  induction h with
  | nil => exact .nil
  | cons ha _ ih => exact .cons (hRS _ _ ha) ih

/-- Two rows of elements are spelled one behind the other. -/
theorem many_append {R : Spelling α} {as bs : List α} :
    Many R us (as ++ bs) ↔ ∃ vs ws, us = vs ++ ws ∧ Many R vs as ∧
    Many R ws bs := by
  constructor
  · intro h
    induction as generalizing us with
    | nil => exact ⟨[], us, rfl, .nil, h⟩
    | cons a as ih =>
        cases h with
        | @cons us₁ us₂ _ _ ha h =>
            obtain ⟨vs, ws, rfl, hvs, hws⟩ := ih h
            exact ⟨us₁ ++ vs, ws, by rw [List.append_assoc], .cons ha hvs, hws⟩
  · rintro ⟨vs, ws, rfl, hvs, hws⟩
    induction hvs with
    | nil => exact hws
    | cons ha _ ih =>
        rw [List.append_assoc]
        exact .cons ha ih

/-- A block goes from one spelling to a wider one. -/
theorem Braced.imp {R S : Spelling (RightPadded α)}
    (hRS : ∀ us a, R us a → S us a) {b : Block α} (h : Braced R us b) :
    Braced S us b := by
  obtain ⟨h⟩ := h
  exact .mk (h.imp hRS)

end Spelling

section

variable {R : Spelling (RightPadded Stmt)}
  (hR : ∀ us s, R us s → DerivesStmt us s) {us : List Token}
include hR

/-- A clause that is spelled is derived. -/
theorem CatchWith.derives {c : Catch Stmt} (h : CatchWith R us c) :
    CatchWith DerivesStmt us c := by
  obtain ⟨hd, hb⟩ := h
  exact .mk hd (hb.imp hR)

/-- A last block that is spelled is derived. -/
theorem FinallyWith.derives {f : Option (LeftPadded (Block Stmt))}
    (h : FinallyWith R us f) : FinallyWith DerivesStmt us f := by
  cases h with
  | none => exact .none
  | some hb => exact .some (hb.imp hR)

/-- A statement without branches that is spelled is derived. -/
theorem PlainWith.derives {s : RightPadded Stmt} (h : PlainWith R us s) :
    DerivesStmt us s := by
  cases h with
  | block hb => exact .block (hb.imp hR)
  | empty => exact .empty
  | tryCatch hb hcs hf =>
      exact .tryCatch (hb.imp hR) (hcs.imp fun _ _ hc => hc.derives hR)
        (hf.derives hR)
  | throwing he => exact .throwing he
  | returningNone => exact .returningNone
  | returning he => exact .returning he
  | declaration hd => exact .localVariable hd
  | expr he _ => exact .expression he

end

/-- The tokens of a run of conditions are those of the statement of its shape:
at each `if` the branches it takes and those it leaves are runs themselves. -/
theorem spells_shape {R S : Spelling (RightPadded Stmt)}
    (hplain : ∀ us s, PlainWith R us s → S us s)
    (hthen : ∀ lead us c vs s, SpellsCondition us c → S vs s →
      S (⟨lead, .keyword "if"⟩ :: (us ++ vs)) ⟨.ifElse lead c s none, ""⟩)
    (helse : ∀ lead us c vs s elseLead ws e, SpellsCondition us c →
      S vs s → S ws e →
      S (⟨lead, .keyword "if"⟩ ::
        (us ++ vs ++ ⟨elseLead, .keyword "else"⟩ :: ws))
        ⟨.ifElse lead c s (some ⟨elseLead, e⟩), ""⟩)
    (hloop : ∀ lead us c vs s, SpellsCondition us c → S vs s →
      S (⟨lead, .keyword "while"⟩ :: (us ++ vs)) ⟨.whileLoop lead c s, ""⟩)
    {heads : List Head} {body : RightPadded Stmt} {branches : List Branch}
    {us vs ws : List Token} (hheads : Many SpellsHead us heads)
    (hbody : PlainWith R vs body) (hbranches : Many (BranchWith R) ws branches)
    (hfits : Branch.fits (Branch.openings heads) branches = true) :
    S (us ++ vs ++ ws) (Branch.shape heads body branches) := by
  fun_induction Branch.shape heads body branches generalizing us vs ws with
  | case1 body branches =>
      cases hheads
      cases branches with
      | nil =>
          cases hbranches
          rw [List.nil_append, List.append_nil]
          exact hplain _ _ hbody
      | cons b bs => cases hfits
  | case2 body branches head rest hloops ih =>
      cases hheads with
      | cons hhead hrest =>
      have ho := Branch.openings_of_loops hloops rest
      have hinner := ih hrest hbody hbranches (ho ▸ hfits)
      cases hhead with
      | @whileLoop lead us c hc =>
          simpa only [List.cons_append, List.append_assoc]
            using hloop lead us c _ _ hc hinner
      | ifElse _ => cases hloops
  | case3 body branches head rest hloops hcut ih =>
      cases hheads with
      | cons hhead hrest =>
      have ho := Branch.openings_of_not_loops hloops rest
      have hinner := ih hrest hbody hbranches
        (Branch.fits_of_lastCut_eq_none (ho ▸ hfits) hcut)
      cases hhead with
      | whileLoop _ => exact absurd rfl hloops
      | @ifElse lead us c hc =>
          simpa only [List.cons_append, List.append_assoc]
            using hthen lead us c _ _ hc hinner
  | case4 body branches head rest hloops before b after hcut ihbefore ihafter =>
      cases hheads with
      | cons hhead hrest =>
      obtain ⟨hbs, hbefore, hafter⟩ := Branch.lastCut_eq_some hcut
      dsimp only at hbs hbefore hafter
      rw [List.nil_append] at hbs
      rw [hbs, many_append] at hbranches
      obtain ⟨xs, ys, rfl, hxs, hys⟩ := hbranches
      cases hys with
      | cons hb hys =>
      cases hb with
      | @mk elseLead us' heads' vs' body' hheads' hbody' =>
      have hbeforeElse := ihbefore hrest hbody hxs hbefore
      have hafterElse := ihafter hheads' hbody' hys hafter
      cases hhead with
      | whileLoop _ => exact absurd rfl hloops
      | @ifElse lead us c hc =>
          simpa only [List.cons_append, List.append_assoc] using
            helse lead us c _ _ elseLead _ _ hc hbeforeElse hafterElse

/-- What is read as a statement is derived. -/
theorem SpellsStmt.derives {us : List Token} {s : RightPadded Stmt}
    (h : SpellsStmt us s) : DerivesStmt us s := by
  obtain ⟨n, h⟩ := h
  induction n generalizing us s with
  | zero => exact h.elim
  | succ n ih =>
      obtain ⟨hheads, hbody, hbranches, hfits⟩ := h
      exact spells_shape (fun _ _ h => h.derives fun _ _ h => ih h)
        (fun _ _ _ _ _ => .ifThen)
        (fun _ _ _ _ _ _ _ _ => .ifElse) (fun _ _ _ _ _ => .whileLoop)
          hheads hbody hbranches hfits

/-- What is read as a class after its modifiers and keyword is derived, with
them. -/
theorem ClassWith.derives {R : Spelling (RightPadded Member)}
    (hR : ∀ us m, R us m → DerivesMember us m) {lead : Trivia}
    {ms : List Modifier} {kind : LeftPadded ClassKind} {us vs xs : List Token}
    {t : Token} {c : JavaClass} (hms : Many SpellsModifier us ms)
    (hkind : Parser.asClassKind t = some kind)
    (h : ClassWith R lead ms kind vs c) (hled : Led lead (us ++ t :: vs) xs) :
    DerivesClass xs c := by
  obtain ⟨i, hextends, himplements, hbody⟩ := h
  exact .mk i hms hkind hextends himplements (hbody.imp hR) hled

/-- What is read as a method after its name is derived, with what comes
before. -/
theorem MethodWith.derives {lead : Trivia} {ms : List Modifier} {t : TypeTree}
    {i : Ident} {mayLackBody : Bool} {us vs ws xs : List Token}
    {m : RightPadded Member} (hms : Many SpellsModifier us ms)
    (ht : DerivesResult vs t)
    (h : MethodWith lead ms (some t) i mayLackBody ws m)
    (hled : Led lead (us ++ vs ++ ⟨i.lead, .name i.name⟩ :: ws) xs) :
    DerivesMember xs m := by
  cases h with
  | bodied hparams hthrows hbody =>
      exact .method i hms ht hparams hthrows
        (.block (hbody.imp fun _ _ h => h.derives)) hled
  | abstract _ hparams hthrows =>
      exact .method i hms ht hparams hthrows .semicolon hled

/-- What is read as a member is derived. -/
theorem SpellsMember.derives {us : List Token} {m : RightPadded Member}
    (h : SpellsMember us m) : DerivesMember us m := by
  obtain ⟨n, h⟩ := h
  induction n generalizing us m with
  | zero => exact h.elim
  | succ n ih =>
      obtain ⟨hms, hm, hled⟩ := h
      cases hm with
      | nested hkind hc =>
          exact .nested (hc.derives (fun _ _ h => ih h) hms hkind hled)
      | void i hm => exact hm.derives hms .void (by simpa using hled)
      | method i ht hm => exact hm.derives hms (.type ht) (by simpa using hled)
      | constructor i hm =>
          cases hm with
          | bodied hparams hthrows hbody =>
              exact .constructor i hms hparams hthrows
                (hbody.imp fun _ _ h => h.derives)
                (by simpa using hled)
          | abstract hmay _ _ => cases hmay
      | field ht hds => exact .field hms ht hds (by simpa using hled)

/-- What is read as a file is derived. -/
theorem SpellsUnit.derives {close : Trivia} {path : Option String}
    {ts : List Token} {cu : CompilationUnit} (h : SpellsUnit close path ts cu) :
    DerivesUnit close path ts cu := by
  cases h with
  | empty => exact .empty
  | mk hparts hled =>
      obtain ⟨hp, himports, hclasses⟩ := hparts
      refine .mk (.mk hp himports (hclasses.imp fun us c h => ?_)) hled
      obtain ⟨hms, hkind, hc, hled⟩ := h
      exact hc.derives (fun _ _ h => h.derives) hms hkind hled

-- =============================================== whatever is derivable is read

namespace Spelling

/-- Parts that all have another reading have one together. -/
theorem Many.lift {α β : Type} {R : Spelling α} {S : Spelling β}
    {us : List Token} {as : List α} {n : Nat}
    (hRS : ∀ us a, us.length < n → R us a → ∃ b, S us b) (hlt : us.length < n)
    (h : Many R us as) : ∃ bs, Many S us bs := by
  induction h with
  | nil => exact ⟨[], .nil⟩
  | cons ha _ ih =>
      rw [List.length_append] at hlt
      obtain ⟨b, hb⟩ := hRS _ _ (by omega) ha
      obtain ⟨bs, hbs⟩ := ih (by omega)
      exact ⟨b :: bs, .cons hb hbs⟩

/-- A block has a spelling of another sort if its elements have, all being
shorter. -/
theorem Braced.lift {α β : Type} {R : Spelling (RightPadded α)}
    {S : Spelling (RightPadded β)} {us : List Token} {b : Block α} {n : Nat}
    (hRS : ∀ us a, us.length < n → R us a → ∃ b, S us b) (hlt : us.length ≤ n)
    (h : Braced R us b) : ∃ c, Braced S us c := by
  obtain ⟨h⟩ := h
  simp only [List.length_cons, List.length_append] at hlt
  obtain ⟨bs, hbs⟩ := h.lift hRS (by omega)
  exact ⟨_, .mk hbs⟩

end Spelling

namespace Branch

/-- One more head opens no fewer branches. -/
theorem openings_le_cons (h : Head) (heads : List Head) :
    openings heads ≤ openings (h :: heads) :=
  List.Sublist.countP_le (List.sublist_cons_self h heads)

/-- A condition opens one branch. -/
theorem openings_ifElse (lead : Trivia) (c : Parens Expr) (heads : List Head) :
    openings (⟨lead, false, c⟩ :: heads) = openings heads + 1 :=
  openings_of_not_loops Bool.false_ne_true heads

/-- More open conditions leave room for the same branches. -/
theorem fits_mono {k m : Nat} {bs : List Branch} (hle : k ≤ m)
    (h : fits k bs = true) : fits m bs = true := by
  induction bs generalizing k m with
  | nil => cases m <;> rfl
  | cons b bs ih =>
      cases k with
      | zero => cases h
      | succ k =>
          obtain ⟨m, rfl⟩ :=
            Nat.exists_eq_add_of_lt (Nat.lt_of_lt_of_le (Nat.succ_pos k) hle)
          rw [Nat.zero_add]
          exact ih (by omega) h

/-- One more condition can take an `else`, whatever comes before and after
that. -/
theorem fits_append {k : Nat} {before after : List Branch} {b : Branch}
    (hbefore : fits k before = true)
    (hafter : fits (openings b.heads) after = true) :
    fits (k + 1) (before ++ b :: after) = true := by
  induction before generalizing k with
  | nil =>
      show fits (k + openings b.heads) after = true
      exact fits_mono (Nat.le_add_left _ _) hafter
  | cons c before ih =>
      cases k with
      | zero => cases hbefore
      | succ k =>
          have h := ih hbefore
          rwa [Nat.add_right_comm] at h

end Branch

/-- The rule for statements is its own solution: a statement over statements is
a statement. -/
theorem spellsStmt_of_statementWith {us : List Token} {s : RightPadded Stmt}
    (h : StatementWith SpellsStmt us s) : SpellsStmt us s := by
  have hn : Parser.CompleteBelow us.length
      (Parser.statementOfDepth us.length) SpellsStmt
      Word.extendsStmt := fun vs s hlt ⟨n, h⟩ =>
        Parser.statementOfDepth_complete _ n hlt h
  have hread := Parser.statementWith_complete hn opens_stmt (Nat.le_refl _) h
    [] Stops.nil
  obtain ⟨vs, hvs, hspells⟩ :=
    Parser.statementOfDepth_sound (us.length + 1) hread
  rw [List.append_nil, List.append_nil] at hvs
  exact ⟨us.length + 1, by rwa [← hvs] at hspells⟩

/-- A clause has a spelling of another sort if its statements have. -/
theorem CatchWith.lift {R S : Spelling (RightPadded Stmt)} {us : List Token}
    {c : Catch Stmt} {n : Nat}
    (hRS : ∀ us a, us.length < n → R us a → ∃ b, S us b) (hlt : us.length < n)
    (h : CatchWith R us c) : ∃ d, CatchWith S us d := by
  obtain ⟨hd, hb⟩ := h
  simp only [List.length_cons, List.length_append] at hlt
  obtain ⟨b, hb⟩ := hb.lift hRS (by omega)
  exact ⟨_, .mk hd hb⟩

/-- The last block has a spelling of another sort if its statements have. -/
theorem FinallyWith.lift {R S : Spelling (RightPadded Stmt)} {us : List Token}
    {f : Option (LeftPadded (Block Stmt))} {n : Nat}
    (hRS : ∀ us a, us.length < n → R us a → ∃ b, S us b) (hlt : us.length < n)
    (h : FinallyWith R us f) : ∃ g, FinallyWith S us g := by
  cases h with
  | none => exact ⟨_, .none⟩
  | some hb =>
      simp only [List.length_cons] at hlt
      obtain ⟨b, hb⟩ := hb.lift hRS (by omega)
      exact ⟨_, .some hb⟩

section

variable {us vs : List Token} {s t : RightPadded Stmt}

/-- A statement that does not start with a condition, as a run without
conditions. -/
theorem StatementWith.plain {R : Spelling (RightPadded Stmt)}
    (h : PlainWith R us s) : ∃ t, StatementWith R us t :=
  ⟨_, by simpa using StatementWith.mk .nil h .nil rfl⟩

/-- A run of conditions with one more in front. -/
theorem StatementWith.head {R : Spelling (RightPadded Stmt)} {h : Head}
    (hh : SpellsHead us h) (hs : StatementWith R vs s) :
    ∃ t, StatementWith R (us ++ vs) t := by
  obtain ⟨hheads, hbody, hbranches, hfits⟩ := hs
  have hrun := StatementWith.mk (.cons hh hheads) hbody hbranches
    (Branch.fits_mono (Branch.openings_le_cons h _) hfits)
  exact ⟨_, by simpa using hrun⟩

/-- Two runs of conditions with an `if` in front and an `else` between are one
run. -/
theorem StatementWith.ifElse {R : Spelling (RightPadded Stmt)} {ws : List Token}
    {lead elseLead : Trivia} {c : Parens Expr} (hc : SpellsCondition us c)
    (hs : StatementWith R vs s) (ht : StatementWith R ws t) :
    ∃ u, StatementWith R
      (⟨lead, .keyword "if"⟩ :: (us ++ vs ++ ⟨elseLead, .keyword "else"⟩ :: ws))
        u := by
  cases hs with
  | @mk us₀ heads vs₀ body ws₀ branches hheads hbody hbranches hfits =>
  cases ht with
  | @mk us' heads' vs' body' ws' branches' hheads' hbody' hbranches' hfits' =>
  have hbranch : BranchWith R (⟨elseLead, .keyword "else"⟩ :: (us' ++ vs'))
      ⟨elseLead, heads', body'⟩ :=
    .mk hheads' hbody'
  have hhead : SpellsHead (⟨lead, .keyword "if"⟩ :: us) ⟨lead, false, c⟩ :=
    .ifElse hc
  have hall : Branch.fits (Branch.openings (⟨lead, false, c⟩ :: heads))
      (branches ++ ⟨elseLead, heads', body'⟩ :: branches') = true := by
    rw [Branch.openings_ifElse]
    exact Branch.fits_append hfits hfits'
  have hrun := StatementWith.mk (.cons hhead hheads) hbody
    (many_append.2 ⟨_, _, rfl, hbranches, .cons hbranch hbranches'⟩) hall
  exact ⟨_, by simpa using hrun⟩

end

/-- Whatever is derivable as a statement is a run of conditions around plain
statements. -/
theorem DerivesStmt.exists_statementWith {us : List Token}
    {s : RightPadded Stmt} (h : DerivesStmt us s) :
    ∃ t, StatementWith SpellsStmt us t := by
  induction hn : us.length using Nat.strong_induction_on generalizing us s with
  | h n ih =>
  have hlift : ∀ vs t, vs.length < n → DerivesStmt vs t → ∃ t',
      SpellsStmt vs t' := fun vs t hlt h =>
    (ih _ hlt h rfl).imp fun _ => spellsStmt_of_statementWith
  cases h with
  | block hb =>
      obtain ⟨c, hc⟩ := hb.lift hlift (Nat.le_of_eq hn)
      exact StatementWith.plain (.block hc)
  | localVariable hd => exact StatementWith.plain (.declaration hd)
  | @expression us e after he =>
      by_cases hd : ∃ d, SpellsDeclaration us d
      · exact StatementWith.plain (.declaration hd.choose_spec)
      · exact StatementWith.plain (.expr he (not_exists.1 hd))
  | tryCatch hb hcs hf =>
      simp only [List.length_cons, List.length_append] at hn
      obtain ⟨b, hb⟩ := hb.lift hlift (by omega)
      obtain ⟨cs, hcs⟩ :=
        hcs.lift (fun _ _ hlt hc => hc.lift hlift hlt) (by omega)
      obtain ⟨f, hf⟩ := hf.lift hlift (by omega)
      exact StatementWith.plain (.tryCatch hb hcs hf)
  | throwing he => exact StatementWith.plain (.throwing he)
  | returningNone => exact StatementWith.plain .returningNone
  | returning he => exact StatementWith.plain (.returning he)
  | ifThen hc h =>
      simp only [List.length_cons, List.length_append] at hn
      obtain ⟨t, ht⟩ := ih _ (by omega) h rfl
      exact StatementWith.head (.ifElse hc) ht
  | ifElse hc h he =>
      simp only [List.length_cons, List.length_append] at hn
      obtain ⟨t, ht⟩ := ih _ (by omega) h rfl
      obtain ⟨e, he⟩ := ih _ (by omega) he rfl
      exact StatementWith.ifElse hc ht he
  | whileLoop hc h =>
      simp only [List.length_cons, List.length_append] at hn
      obtain ⟨t, ht⟩ := ih _ (by omega) h rfl
      exact StatementWith.head (.whileLoop hc) ht
  | empty => exact StatementWith.plain .empty

/-- Whatever is derivable as a statement is read as one. -/
theorem DerivesStmt.read {us : List Token} {s : RightPadded Stmt}
    (h : DerivesStmt us s) : ∃ t, SpellsStmt us t :=
  h.exists_statementWith.imp fun _ => spellsStmt_of_statementWith

/-- The rule for members is its own solution. -/
theorem spellsMember_of_memberWith {us : List Token} {m : RightPadded Member}
    (h : MemberWith SpellsMember us m) : SpellsMember us m := by
  have hn : Parser.CompleteBelow us.length (Parser.memberOfDepth us.length)
      SpellsMember
      fun _ => false := fun vs m hlt ⟨n, h⟩ =>
        Parser.memberOfDepth_complete _ n hlt h
  have hread := Parser.memberWith_complete hn Parser.opens_member
    (Nat.le_refl _) h []
  obtain ⟨vs, hvs, hspells⟩ := Parser.memberOfDepth_sound (us.length + 1) hread
  rw [List.append_nil, List.append_nil] at hvs
  exact ⟨us.length + 1, by rwa [← hvs] at hspells⟩

/-- A derivation of a class, over readings of its members. -/
theorem DerivesClass.lift {us : List Token} {c : JavaClass}
    (hlift : ∀ vs m, vs.length < us.length → DerivesMember vs m → ∃ m',
      SpellsMember vs m') (h : DerivesClass us c) :
    ∃ lead vs ms t kind ws c', Many SpellsModifier vs ms ∧
    Parser.asClassKind t = some kind ∧
      ClassWith SpellsMember lead ms kind ws c' ∧
      Led lead (vs ++ t :: ws) us := by
  obtain ⟨i, hms, hkind, hextends, himplements, hbody, hled⟩ := h
  have hlength := Parser.length_of_led hled
  simp only [List.length_append, List.length_cons] at hlength
  obtain ⟨b, hb⟩ := hbody.lift hlift (by omega)
  exact ⟨_, _, _, _, _, _, _, hms, hkind, .mk i hextends himplements hb, hled⟩

/-- Whatever is derivable as the body of a method is read as one. -/
theorem DerivesBody.methodWith {lead : Trivia} {ms : List Modifier}
    {t : TypeTree} {i : Ident} {us vs ws : List Token}
    {params : Container Variables} {throws : Option (Container TypeTree)}
    {b : Option (Block Stmt) × Trivia}
    (hparams : Delimited (ParameterWith SpellsType) "(" ")" us params)
    (hthrows : AfterKeyword SpellsClassType "throws" vs throws)
    (h : DerivesBody ws b) :
    ∃ m, MethodWith lead ms (some t) i true (us ++ vs ++ ws) m := by
  cases h with
  | block hb =>
      obtain ⟨b, hb⟩ := hb.lift (fun _ _ _ h => h.read) (Nat.le_refl _)
      exact ⟨_, .bodied hparams hthrows hb⟩
  | semicolon => exact ⟨_, .abstract rfl hparams hthrows⟩

/-- Whatever is derivable as a member is read as one. -/
theorem DerivesMember.read {us : List Token} {m : RightPadded Member}
    (h : DerivesMember us m) : ∃ m', SpellsMember us m' := by
  induction hn : us.length using Nat.strong_induction_on generalizing us m with
  | h n ih =>
  subst hn
  suffices ∃ m', MemberWith SpellsMember us m' from this.imp fun _ =>
      spellsMember_of_memberWith
  cases h with
  | field hms ht hds hled =>
      exact ⟨_, .mk hms (.field ht hds) (by simpa using hled)⟩
  | method i hms ht hparams hthrows hbody hled =>
      cases ht with
      | type ht =>
          obtain ⟨m, hm⟩ := hbody.methodWith hparams hthrows
          exact ⟨m, .mk hms (.method i ht hm) (by simpa using hled)⟩
      | void =>
          obtain ⟨m, hm⟩ := hbody.methodWith hparams hthrows
          exact ⟨m, .mk hms (.void i hm) (by simpa using hled)⟩
  | constructor i hms hparams hthrows hbody hled =>
      obtain ⟨b, hb⟩ := hbody.lift (fun _ _ _ h => h.read) (Nat.le_refl _)
      exact ⟨_, .mk hms (.constructor i (.bodied hparams hthrows hb))
        (by simpa using hled)⟩
  | nested hc =>
      obtain ⟨lead, vs, ms, t, kind, ws, c, hms, hkind, hc, hled⟩ :=
        hc.lift fun vs m hlt h => ih _ hlt h rfl
      exact ⟨_, .mk hms (.nested hkind hc) hled⟩

/-- Whatever is derivable as a file is read as one, with the same package and
imports. -/
theorem DerivesUnit.read {close : Trivia} {path : Option String}
    {ts : List Token} {cu : CompilationUnit}
    (h : DerivesUnit close path ts cu) :
    ∃ classes, SpellsUnit close path ts { cu with classes := classes } := by
  cases h with
  | empty => exact ⟨[], .empty⟩
  | mk hparts hled =>
      obtain ⟨hp, himports, hclasses⟩ := hparts
      obtain ⟨classes, hclasses⟩ :=
        hclasses.lift (S := SpellsTopClass) (fun us c _ h => by
        obtain ⟨lead, vs, ms, t, kind, ws, c, hms, hkind, hc, hled⟩ :=
          h.lift fun _ _ _ h => h.read
        exact ⟨_, .mk hms hkind hc hled⟩) (Nat.lt_succ_self _)
      exact ⟨classes, .mk (.mk hp himports hclasses) hled⟩

end JavaRefit
