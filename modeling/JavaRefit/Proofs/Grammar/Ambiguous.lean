/-
Any two derivations of the same tokens are readings of each other.

A derivation of a statement is a derivation of its run, step by step, and
the tokens are parted into steps in one way only: the readers part them.
A step without a condition is of one kind, that of what is read from its
tokens, but for an expression that is read as a declaration. So it comes
down to the statements in blocks, which are shorter. A member is what is
read but for its body, and its body stands at the same place because all
tokens of a block are in its tree.

Chain: after `Split` and `Reread`; the choice among derivations rests on
it.
-/
import JavaRefit.Proofs.Grammar.Reread
import JavaRefit.Proofs.Grammar.Split

namespace JavaRefit

open Spelling JavaRefit.Parser

-- ================================================================ lengths

/-- As many words as there are tokens. -/
theorem length_of_flat (ts : List Token) :
    (Token.flat ts).countP (fun p =>
      match p with | .word _ => true | .trivia _ => false) = ts.length := by
  induction ts with
  | nil => rfl
  | cons t ts ih =>
      have hgap : (Piece.gap t.lead).countP
          (fun p => match p with | .word _ => true | .trivia _ => false) =
            0 := by
        rw [Piece.gap, Piece.solid, List.filter_cons]
        split <;> rfl
      rw [Token.flat_cons, List.countP_append, hgap, List.countP_cons, ih,
        List.length_cons]
      simp

section
variable {α : Type} {p : Parser α} {R : Spelling α}
  {us vs xs ys : List Token} {a : α}

/-- A thing is spelled with one number of tokens only. -/
theorem length_eq_of_reads {shown : α → List Piece} (hr : Reads p shown)
    (hus : p us = .ok (a, [])) (hvs : p vs = .ok (a, [])) :
    us.length = vs.length := by
  rw [← length_of_flat, ← length_of_flat, hr hus, hr hvs]

end

-- ================================================================= blocks

section
variable {us vs xs ys : List Token}

/-- Two blocks at the head of the same tokens end at the same brace. -/
theorem block_split {b c : Block Stmt} (h : us ++ xs = vs ++ ys)
    (hb : Braced DerivesStmt us b) (hc : Braced DerivesStmt vs c) :
    us = vs ∧ xs = ys := by
  obtain ⟨b', hb'⟩ := hb.lift (fun _ _ _ h => h.read) (Nat.le_refl _)
  obtain ⟨c', hc'⟩ := hc.lift (fun _ _ _ h => h.read) (Nat.le_refl _)
  obtain ⟨hus, hxs, -⟩ :=
    split_of_ok h (block_complete hb' xs) (block_complete hc' ys)
  exact ⟨hus, hxs⟩

/-- Between braces there is the same. -/
theorem braced_inner {α β : Type} {R : Spelling (RightPadded α)}
    {S : Spelling (RightPadded β)} {b : Block α} {c : Block β}
    (hb : Braced R us b) (hc : Braced S us c) :
    ∃ ws, ws.length < us.length ∧ Many R ws b.statements ∧
    Many S ws c.statements ∧
      b.lead = c.lead ∧ b.close = c.close := by
  obtain ⟨hb⟩ := hb
  rename_i lead ws ps close
  generalize hus :
    (⟨lead, .symbol "\x7b"⟩ :: (ws ++ [⟨close, .symbol "\x7d"⟩]) : List Token) =
      us at hc
  obtain ⟨hc⟩ := hc
  rename_i lead' ws' ps' close'
  obtain ⟨hlead, hrest⟩ := List.cons.inj hus
  obtain ⟨rfl, hclose⟩ := List.append_inj' hrest rfl
  refine ⟨ws, ?_, hb, hc, congrArg Token.lead hlead,
    congrArg Token.lead (List.cons.inj hclose).1⟩
  simp only [List.length_cons, List.length_append]
  omega

end

/-- A derived statement opens as any statement does. -/
theorem opens_derives ⦃us : List Token⦄ ⦃s : RightPadded Stmt⦄
    (h : DerivesStmt us s) : Opens Word.opensStmt us := by
  obtain ⟨t, ht⟩ := h.read
  exact opens_stmt ht

/-- Two derived statements at the head of the same tokens have the same tokens,
if neither can go on. -/
theorem stmt_split {us vs xs ys : List Token} {s t : RightPadded Stmt}
    (h : us ++ xs = vs ++ ys) (hs : DerivesStmt us s) (ht : DerivesStmt vs t)
    (hxs : Stops Word.extendsStmt xs) (hys : Stops Word.extendsStmt ys) :
    us = vs := by
  obtain ⟨s', hs'⟩ := hs.read
  obtain ⟨t', ht'⟩ := ht.read
  exact (statement_complete.split h hs' ht' hxs hys).1

/-- Two clauses at the head of the same tokens have the same tokens. -/
theorem catch_split {us vs xs ys : List Token} {c d : Catch Stmt}
    (h : us ++ xs = vs ++ ys) (hc : CatchWith DerivesStmt us c)
    (hd : CatchWith DerivesStmt vs d) : us = vs := by
  obtain ⟨c', hc'⟩ :=
    hc.lift (S := SpellsStmt) (fun _ _ _ h => h.read) (Nat.lt_succ_self _)
  obtain ⟨d', hd'⟩ :=
    hd.lift (S := SpellsStmt) (fun _ _ _ h => h.read) (Nat.lt_succ_self _)
  have hread {ws : List Token} {c : Catch Stmt} (hc : CatchWith SpellsStmt ws c)
      (zs : List Token) : catchWith statement (ws ++ zs) = .ok (c, zs) :=
    catchWith_complete (n := ws.length) (statement_complete.below _) opens_stmt
      (fun _ => false)
      (Nat.lt_succ_self _) hc zs fun _ _ => rfl
  exact (split_of_ok h (hread hc' xs) (hread hd' ys)).1

section
variable {n : Nat}
  (ih : ∀ ⦃us s t⦄, us.length < n → DerivesStmt us s → DerivesStmt us t →
    RereadStmt s t)
include ih

/-- Two derivations of a block are readings of each other if those of shorter
statements are. -/
theorem reread_block {us : List Token} {b c : Block Stmt} (hlt : us.length ≤ n)
    (hb : Braced DerivesStmt us b) (hc : Braced DerivesStmt us c) :
    RereadBlock b c := by
  obtain ⟨ws, hws, hss, hts, hlead, hclose⟩ := braced_inner hb hc
  have hall : List.Forall₂ RereadStmt b.statements c.statements :=
    hss.forall₂ opens_derives opens_derives opensStmt_not_extendsStmt
      (fun vs vs' xs ys s t hle h hs ht hxs hys => by
        obtain rfl := stmt_split h hs ht hxs hys
        exact ⟨rfl, ih (by omega) hs ht⟩) hts
  obtain ⟨lead, ss, close⟩ := b
  obtain ⟨lead', ts, close'⟩ := c
  obtain rfl : lead = lead' := hlead
  obtain rfl : close = close' := hclose
  exact .mk hall

/-- Two readings of one clause differ in its body alone. -/
theorem reread_catch {us : List Token} {c d : Catch Stmt} (hlt : us.length ≤ n)
    (hc : CatchWith DerivesStmt us c) (hd : CatchWith DerivesStmt us d) :
    RereadCatch c d := by
  obtain ⟨hparameter, hb⟩ := hc
  rename_i lead opening us₁ d₁ closing vs₁ b
  generalize hus : (⟨lead, .keyword "catch"⟩ :: ⟨opening, .symbol "("⟩ ::
    (us₁ ++ ⟨closing, .symbol ")"⟩ :: vs₁) : List Token) = us at hd
  obtain ⟨hparameter', hb'⟩ := hd
  obtain ⟨hlead, hus⟩ := List.cons.inj hus
  obtain ⟨hopening, hus⟩ := List.cons.inj hus
  have hread {ws : List Token} {e : Variables}
      (he : ParameterWith SpellsCatchType ws e)
      (zs : List Token) : parameter catchType (ws ++ zs) = .ok (e, zs) :=
    parameter_complete catchType_complete (fun _ _ => opens_catchType)
      (fun _ => rfl) he zs
  obtain ⟨rfl, hrest, rfl⟩ :=
    split_of_ok hus (hread hparameter _) (hread hparameter' _)
  obtain ⟨hclosing, rfl⟩ := List.cons.inj hrest
  cases hlead
  cases hopening
  cases hclosing
  simp only [List.length_cons, List.length_append] at hlt
  exact .mk (reread_block ih (by omega) hb hb')

/-- Two readings of the last block differ in its statements alone. -/
theorem reread_finally {us : List Token}
    {f g : Option (LeftPadded (Block Stmt))} (hlt : us.length ≤ n)
    (hf : FinallyWith DerivesStmt us f) (hg : FinallyWith DerivesStmt us g) :
    RereadFinally f g := by
  cases hf with
  | none =>
      cases hg with
      | none => exact .none
  | some hb =>
      cases hg with
      | some hc =>
          rw [List.length_cons] at hlt
          exact .some (reread_block ih (by omega) hb hc)

end

-- ======================================================= plain statements

/-- A derivation of a plain statement as what is read from its tokens. -/
inductive PlainAs : List Token → RightPadded Stmt → RightPadded Stmt → Prop
  | leaf {us s} : s.element.needsSemicolon = true → PlainAs us s s
  | declared {us d e after} : SpellsDeclaration us d → SpellsExpr us e →
      PlainAs (us ++ [⟨after, .symbol ";"⟩]) ⟨.expr e, after⟩
        ⟨.declaration d, after⟩
  | block {us b c} : Braced DerivesStmt us b →
      PlainAs us ⟨.block b, ""⟩ ⟨.block c, ""⟩
  | tryCatch {lead us b vs cs ws f t} : Braced DerivesStmt us b →
      Many (CatchWith DerivesStmt) vs cs → FinallyWith DerivesStmt ws f →
      PlainAs (⟨lead, .keyword "try"⟩ :: (us ++ vs ++ ws))
        ⟨.tryCatch ⟨lead, b, cs, f⟩, ""⟩
        ⟨.tryCatch t, ""⟩

/-- One step of a run, derived. -/
inductive DerivesStep : Spelling RunStep
  | head {us h} : SpellsHead us h → DerivesStep us (.head h)
  | otherwise {lead} : DerivesStep [⟨lead, .keyword "else"⟩] (.otherwise lead)
  | plain {us s t} : PlainWith SpellsStmt us t → PlainAs us s t →
      DerivesStep us (.plain s)

/-- What is derived as a statement is derived as a run, step by step. -/
theorem DerivesStmt.run {us : List Token} {s : RightPadded Stmt}
    (h : DerivesStmt us s) : Many DerivesStep us s.run := by
  induction hn : us.length using Nat.strong_induction_on generalizing us s with
  | h n ih =>
  have hlift : ∀ vs t, vs.length < n → DerivesStmt vs t → ∃ t',
      SpellsStmt vs t' :=
    fun _ _ _ h => h.read
  have hsingle {us : List Token} {r : RunStep} (h : DerivesStep us r) :
      Many DerivesStep us [r] := by
    simpa using Many.cons h .nil
  cases h with
  | block hb =>
      obtain ⟨c, hc⟩ := hb.lift hlift (Nat.le_of_eq hn)
      exact hsingle (.plain (.block hc) (.block hb))
  | localVariable hd => exact hsingle (.plain (.declaration hd) (.leaf rfl))
  | @expression us e after he =>
      by_cases hd : ∃ d, SpellsDeclaration us d
      · obtain ⟨d, hd⟩ := hd
        exact hsingle (.plain (.declaration hd) (.declared hd he))
      · exact hsingle (.plain (.expr he (not_exists.1 hd)) (.leaf rfl))
  | tryCatch hb hcs hf =>
      simp only [List.length_cons, List.length_append] at hn
      obtain ⟨b, hb'⟩ := hb.lift hlift (by omega)
      obtain ⟨cs, hcs'⟩ :=
        hcs.lift (fun _ _ hlt hc => hc.lift hlift hlt) (by omega)
      obtain ⟨f, hf'⟩ := hf.lift hlift (by omega)
      exact hsingle (.plain (.tryCatch hb' hcs' hf') (.tryCatch hb hcs hf))
  | throwing he => exact hsingle (.plain (.throwing he) (.leaf rfl))
  | returningNone => exact hsingle (.plain .returningNone (.leaf rfl))
  | returning he => exact hsingle (.plain (.returning he) (.leaf rfl))
  | ifThen hc h =>
      simp only [List.length_cons, List.length_append] at hn
      have hrun := ih _ (by omega) h rfl
      rw [run_ifElse, runElse_none, List.append_nil]
      exact .cons (.head (.ifElse hc)) hrun
  | ifElse hc h he =>
      simp only [List.length_cons, List.length_append] at hn
      have hrun := ih _ (by omega) h rfl
      have hrun' := ih _ (by omega) he rfl
      rw [run_ifElse, runElse_some, List.append_assoc]
      exact .cons (.head (.ifElse hc))
        (many_append.2 ⟨_, _, rfl, hrun, .cons .otherwise hrun'⟩)
  | whileLoop hc h =>
      simp only [List.length_cons, List.length_append] at hn
      have hrun := ih _ (by omega) h rfl
      rw [run_whileLoop]
      exact .cons (.head (.whileLoop hc)) hrun
  | empty => exact hsingle (.plain .empty (.leaf rfl))

-- ================================================================== steps

/-- The step starts with the word. -/
def RunStep.opens : RunStep → Word → Bool
  | .head _, w => w == .keyword "if" || w == .keyword "while"
  | .otherwise _, w => w == .keyword "else"
  | .plain _, w => w.opensPlain

/-- Which of the three sorts of steps it is. -/
def RunStep.sort : RunStep → Fin 3
  | .head _ => 0
  | .otherwise _ => 1
  | .plain _ => 2

/-- A word that opens two steps of a run opens steps of one sort. -/
theorem RunStep.sort_eq_of_opens {a b : RunStep} {w : Word}
    (ha : a.opens w = true) (hb : b.opens w = true) : a.sort = b.sort := by
  have hplain (h : w.opensPlain = true) :
      w ≠ .keyword "if" ∧ w ≠ .keyword "while" ∧ w ≠ .keyword "else" := by
    refine ⟨?_, ?_, ?_⟩ <;> rintro rfl <;> cases h
  cases a <;> cases b <;> simp_all [RunStep.opens, RunStep.sort]

/-- A step of a run opens with the words of its sort. -/
theorem DerivesStep.opens {us : List Token} {a : RunStep}
    (h : DerivesStep us a) : Opens a.opens us := by
  cases h with
  | head h => exact opens_head h
  | otherwise => exact .cons (beq_self_eq_true _)
  | plain h _ => exact opens_plain h

/-- No step of a run opens with what could go on with a try. -/
theorem RunStep.opens_not_extendsTry (a : RunStep) (w : Word)
    (h : a.opens w = true) : w.extendsTry = false := by
  have hcatch : w ≠ .keyword "catch" := by rintro rfl; cases a <;> cases h
  have hfinally : w ≠ .keyword "finally" := by rintro rfl; cases a <;> cases h
  simp [Word.extendsTry, hcatch, hfinally]

/-- Two statements without branches at the head of the same tokens are the
same. -/
theorem plain_split {us vs xs ys : List Token} {s t : RightPadded Stmt}
    (h : us ++ xs = vs ++ ys) (hs : PlainWith SpellsStmt us s)
    (ht : PlainWith SpellsStmt vs t) (hxs : Stops Word.extendsTry xs)
    (hys : Stops Word.extendsTry ys) : us = vs ∧ xs = ys ∧ s = t := by
  have hread {ws zs : List Token} {u : RightPadded Stmt}
      (hu : PlainWith SpellsStmt ws u)
      (hzs : Stops Word.extendsTry zs) :
      plainWith statement (ws ++ zs) = .ok (u, zs) :=
    plainWith_complete (statement_complete.below _) opens_stmt
      (Nat.le_refl _) hu zs hzs
  exact split_of_ok h (hread hs hxs) (hread ht hys)

section
variable {n : Nat}
  (ih : ∀ ⦃us s t⦄, us.length < n → DerivesStmt us s → DerivesStmt us t →
    RereadStmt s t)
include ih

/-- Derivations of a plain statement that are read as the same are readings of
each other. -/
theorem reread_plain {us : List Token} {s s' t : RightPadded Stmt}
    (hlt : us.length ≤ n) (hs : PlainAs us s t) (hs' : PlainAs us s' t) :
    RereadPlain s s' := by
  cases hs with
  | leaf hleaf =>
      cases hs' with
      | leaf _ => exact .same s
      | declared hd he => exact .asExpression hd he
      | block _ => cases hleaf
      | tryCatch _ _ _ => cases hleaf
  | @declared us d e after hd he =>
      generalize hvs : us ++ [⟨after, .symbol ";"⟩] = vs at hs'
      cases hs' with
      | leaf _ => exact .asDeclaration hd he
      | declared _ he' =>
          obtain ⟨rfl, -⟩ := List.append_inj' hvs rfl
          rw [expression_complete.unique he he']
          exact .same _
  | block hb =>
      cases hs' with
      | leaf hleaf => cases hleaf
      | block hc => exact .block (reread_block ih hlt hb hc)
  | @tryCatch lead us b vs cs ws f t hb hcs hf =>
      generalize hxs :
        (⟨lead, .keyword "try"⟩ :: (us ++ vs ++ ws) : List Token) = xs at hs'
      cases hs' with
      | leaf hleaf => cases hleaf
      | @tryCatch lead' us' b' vs' cs' ws' f' _ hb' hcs' hf' =>
          simp only [List.length_cons, List.length_append] at hlt
          obtain ⟨hlead, hrest⟩ := List.cons.inj hxs
          cases hlead
          rw [List.append_assoc, List.append_assoc] at hrest
          obtain ⟨rfl, hclauses⟩ := block_split hrest hb hb'
          have hstop {zs : List Token} {g : Option (LeftPadded (Block Stmt))}
              (hg : FinallyWith DerivesStmt zs g) :
              Stops (fun w => w == .keyword "catch") zs := by
            cases hg with
            | none => exact Stops.nil
            | some _ => exact Stops.cons.2 rfl
          obtain ⟨rfl, rfl, hcatches⟩ :=
            hcs.split (P := fun _ => false) opens_catch opens_catch
            (fun _ _ => rfl) (fun xs ys _ _ c d hle h hc hd _ _ => by
              obtain rfl := catch_split h hc hd
              exact ⟨rfl, reread_catch ih hle hc hd⟩)
            (by omega) hclauses hcs' (fun _ _ => rfl) (fun _ _ => rfl)
              (hstop hf) (hstop hf')
          exact .tryCatch (reread_block ih (by omega) hb hb') hcatches
            (reread_finally ih (by omega) hf hf')

/-- A step of a run ends where no other derivation of it could go on. -/
theorem step_split {us vs xs ys : List Token} {a b : RunStep}
    (hlt : us.length ≤ n) (h : us ++ xs = vs ++ ys) (ha : DerivesStep us a)
    (hb : DerivesStep vs b) (hxs : Stops Word.extendsTry xs)
    (hys : Stops Word.extendsTry ys) :
    us = vs ∧ RereadStep a b := by
  -- The first word tells which sort of step it is.
  have hsort : a.sort = b.sort := by
    obtain ⟨t, us, rfl, ht⟩ := ha.opens
    obtain ⟨u, vs, rfl, hu⟩ := hb.opens
    obtain ⟨rfl, -⟩ := List.cons.inj h
    exact RunStep.sort_eq_of_opens ht hu
  cases ha with
  | head ha =>
      cases hb with
      | head hb =>
          obtain ⟨rfl, -, rfl⟩ :=
            (head_complete fun _ => false).split h ha hb (fun _ _ => rfl)
            (fun _ _ => rfl)
          exact ⟨rfl, .head _⟩
      | otherwise => cases hsort
      | plain hb _ => cases hsort
  | otherwise =>
      cases hb with
      | head hb => cases hsort
      | otherwise =>
          obtain ⟨hlead, -⟩ := List.cons.inj h
          cases hlead
          exact ⟨rfl, .otherwise _⟩
      | plain hb _ => cases hsort
  | plain ha has =>
      cases hb with
      | head hb => cases hsort
      | otherwise => cases hsort
      | plain hb hbs =>
          obtain ⟨rfl, -, rfl⟩ := plain_split h ha hb hxs hys
          exact ⟨rfl, .plain (reread_plain ih hlt has hbs)⟩

end

-- ============================================================= statements

/-- A run has one step only, or starts with a condition and leaves nothing to
pad. -/
theorem DerivesStmt.run_cases {us : List Token} {s : RightPadded Stmt}
    (h : DerivesStmt us s) :
    s.run = [.plain s] ∨ s.after = "" ∧ ∃ h rest, s.run = .head h :: rest := by
  cases h with
  | ifThen _ _ => exact .inr ⟨rfl, _, _, rfl⟩
  | ifElse _ _ _ => exact .inr ⟨rfl, _, _, rfl⟩
  | whileLoop _ _ => exact .inr ⟨rfl, _, _, rfl⟩
  | _ => exact .inl rfl

/-- Two readings of a statement have the same trivia before the semicolon. -/
theorem RereadPlain.after_eq {s t : RightPadded Stmt} (h : RereadPlain s t) :
    s.after = t.after := by
  cases h <;> rfl

/-- Runs that are readings of each other are padded alike. -/
theorem after_eq_of_run {us vs : List Token} {s t : RightPadded Stmt}
    (hs : DerivesStmt us s) (ht : DerivesStmt vs t)
    (h : List.Forall₂ RereadStep s.run t.run) : s.after = t.after := by
  obtain hs | ⟨hs, head, rest, hsrun⟩ := hs.run_cases
  · obtain ht | ⟨-, head, rest, htrun⟩ := ht.run_cases
    · rw [hs, ht] at h
      cases h with
      | cons h _ =>
          cases h with
          | plain h => exact h.after_eq
    · rw [hs, htrun] at h
      cases h with
      | cons h _ => cases h
  · obtain ht | ⟨ht, -⟩ := ht.run_cases
    · rw [hsrun, ht] at h
      cases h with
      | cons h _ => cases h
    · rw [hs, ht]

/-- No step opens with what could go on with a try. -/
theorem opens_step ⦃us : List Token⦄ ⦃a : RunStep⦄ (h : DerivesStep us a) :
    Opens (fun w => !w.extendsTry) us :=
  h.opens.imp fun w hw => by rw [a.opens_not_extendsTry w hw]; rfl

/-- Two derivations of a statement are readings of each other. -/
theorem DerivesStmt.reread {us : List Token} {s t : RightPadded Stmt}
    (hs : DerivesStmt us s) (ht : DerivesStmt us t) : RereadStmt s t := by
  induction hn : us.length using Nat.strong_induction_on
    generalizing us s t with
  | h n ih =>
  have hsteps : List.Forall₂ RereadStep s.run t.run :=
    hs.run.forall₂ opens_step opens_step (fun _ hw => Bool.not_eq_true' _ ▸ hw)
      (fun _ _ _ _ _ _ hle h ha hb hxs hys =>
        step_split (fun _ _ _ hlt hs ht => ih _ hlt hs ht rfl)
          (hn ▸ hle) h ha hb hxs hys)
      ht.run
  exact .run (after_eq_of_run hs ht hsteps) hsteps

end JavaRefit
