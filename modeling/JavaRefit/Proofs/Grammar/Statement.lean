/-
Statements are read by their rules, both ways.

The one place where two readers are tried is settled here. A declaration
and an expression up to a semicolon are the same tokens, those up to the
first semicolon, so the first reader succeeds exactly when those tokens
spell a declaration, and what the second one reads spells none.

Chain: after `Sound`, `Complete` and `Neighbours`.
-/
import JavaRefit.Proofs.Grammar.Complete
import JavaRefit.Proofs.Grammar.Neighbours
import JavaRefit.Proofs.Grammar.Sound

namespace JavaRefit

open Spelling

namespace Word

/-- A `try` statement may go on with the word. -/
def extendsTry (w : Word) : Bool :=
  w == .keyword "catch" || w == .keyword "finally"

/-- A statement may go on with the word. -/
def extendsStmt (w : Word) : Bool :=
  w == .keyword "else" || w.extendsTry

end Word

namespace Parser

-- ================================================================= heads

theorem condition_sound : Sound condition SpellsCondition := by
  intro ts rest c h
  simp only [condition, bind_eq_ok] at h
  obtain ⟨lead, t₁, h₁, e, t₂, h₂, after, t₃, h₃, h⟩ := h
  obtain ⟨rfl, rfl⟩ := pure_eq_ok.1 h
  obtain rfl := symbol_eq_ok.1 h₁
  obtain ⟨us, rfl, hus⟩ := expression_sound h₂
  obtain rfl := symbol_eq_ok.1 h₃
  exact ⟨⟨lead, .symbol "("⟩ :: (us ++ [⟨after, .symbol ")"⟩]),
    by simp, .mk hus⟩

theorem condition_complete {us : List Token} {c : Parens Expr}
    (h : SpellsCondition us c) (rest : List Token) :
    condition (us ++ rest) = .ok (c, rest) := by
  obtain ⟨h⟩ := h
  rw [condition, List.cons_append, bind_ok (symbol_ok _ _ _), List.append_assoc,
    List.cons_append, List.nil_append, bind_ok
      (expression_complete h _ (Stops.cons.2 rfl)), bind_ok (symbol_ok _ _ _)]
  rfl

theorem head_sound : Sound head SpellsHead := by
  intro ts rest c h
  simp only [head, bind_eq_ok] at h
  obtain ⟨while?, t₁, h₁, h⟩ := h
  obtain ⟨lead, rfl, rfl⟩ | ⟨rfl, rfl⟩ := keyword?_eq_ok h₁
  · replace h := bind_eq_ok.1 h
    obtain ⟨c, t₂, h₂, h⟩ := h
    obtain ⟨rfl, rfl⟩ := pure_eq_ok.1 h
    obtain ⟨us, rfl, hus⟩ := condition_sound h₂
    exact ⟨_, rfl, .whileLoop hus⟩
  · simp only [bind_eq_ok] at h
    obtain ⟨lead, t₂, h₂, c, t₃, h₃, h⟩ := h
    obtain ⟨rfl, rfl⟩ := pure_eq_ok.1 h
    obtain rfl := keyword_eq_ok.1 h₂
    obtain ⟨us, rfl, hus⟩ := condition_sound h₃
    exact ⟨_, rfl, .ifElse hus⟩

theorem head_complete (P : Word → Bool) : Complete head SpellsHead P := by
  intro us c h rest _
  cases h with
  | @whileLoop lead us c h =>
      rw [head, List.cons_append, bind_ok (keyword?_ok _ _ _)]
      show (condition >>= _) _ = _
      rw [bind_ok (condition_complete h rest)]
      rfl
  | @ifElse lead us c h =>
      rw [head, List.cons_append, bind_ok (keyword?_none (Stops.cons.2 rfl))]
      show (keyword "if" >>= _) _ = _
      rw [bind_ok (keyword_ok _ _ _)]
      show (condition >>= _) _ = _
      rw [bind_ok (condition_complete h rest)]
      rfl

/-- The keyword of a head starts one. -/
theorem startsHead_of_opens {us : List Token}
    (h : Opens (fun w => w == .keyword "if" || w == .keyword "while") us) :
    startsHead us = true := by
  obtain ⟨t, us, rfl, ht⟩ := h
  simpa [startsHead, startsWith] using ht

/-- The heads in front of a statement, and not the start of the statement. -/
theorem heads_complete {us : List Token} {heads : List Head}
    (h : Many SpellsHead us heads) (rest : List Token)
    (hrest : startsHead rest = false) :
    bounded (manyWhile startsHead head) (us ++ rest) = .ok (heads, rest) :=
  manyWhile_complete ((head_complete fun _ => false).below _) opens_head
    (fun _ _ => rfl)
    (fun _ => startsHead_of_opens) (Nat.lt_succ_self _) h
    (by rw [List.length_append]; omega) rest (fun _ _ => rfl) hrest

/-- What starts a statement without a head is no head. -/
theorem startsHead_of_opensPlain {us : List Token}
    (h : Opens Word.opensPlain us) : startsHead us = false := by
  obtain ⟨⟨lead, w⟩, us, rfl, hw⟩ := h
  have hif : w ≠ .keyword "if" := by rintro rfl; cases hw
  have hwhile : w ≠ .keyword "while" := by rintro rfl; cases hw
  simp [startsHead, startsWith, hif, hwhile]

-- ====================================================== plain statements

/-- What is terminated is read, and a semicolon behind it. -/
theorem terminated_eq_ok {α : Type} {p : Parser α} {ts rest : List Token}
    {s : RightPadded α} : terminated p ts = .ok (s, rest) ↔
      ∃ a after mid, p ts = .ok (a, mid) ∧ mid = ⟨after, .symbol ";"⟩ :: rest ∧
        s = ⟨a, after⟩ := by
  simp only [terminated, bind_eq_ok, symbol_eq_ok]
  constructor
  · rintro ⟨a, t₁, h₁, after, t₂, rfl, h⟩
    obtain ⟨rfl, rfl⟩ := pure_eq_ok.1 h
    exact ⟨a, after, _, h₁, rfl, rfl⟩
  · rintro ⟨a, after, mid, h₁, rfl, rfl⟩
    exact ⟨a, _, h₁, after, rest, rfl, rfl⟩

/-- The second parser is asked only where the first fails. -/
theorem orElse_eq_ok {α : Type} {p q : Parser α} {ts : List Token}
    {r : α × List Token} :
    orElse p q ts = .ok r ↔ p ts = .ok r ∨ (∃ left, p ts = .error left) ∧
    q ts = .ok r := by
  unfold orElse
  cases hp : p ts with
  | ok r' => simp
  | error left =>
      cases hq : q ts <;> simp

/-- A declaration with its semicolon is read exactly where there is one. -/
theorem terminated_declaration_eq_ok {ts rest : List Token}
    {s : RightPadded Stmt} :
    terminated (.declaration <$> declaration) ts = .ok (s, rest) ↔
      ∃ us d after, ts = us ++ ⟨after, .symbol ";"⟩ :: rest ∧
      SpellsDeclaration us d ∧
        s = ⟨.declaration d, after⟩ := by
  rw [terminated_eq_ok]
  constructor
  · rintro ⟨_, after, mid, h, rfl, rfl⟩
    obtain ⟨d, hd, rfl⟩ := map_eq_ok.1 h
    obtain ⟨us, rfl, hus⟩ := declaration_sound hd
    exact ⟨us, d, after, rfl, hus, rfl⟩
  · rintro ⟨us, d, after, rfl, hus, rfl⟩
    exact ⟨_, after, _,
      map_eq_ok.2 ⟨d, declaration_complete hus _ (Stops.cons.2 rfl), rfl⟩,
      rfl, rfl⟩

/-- An expression as a statement: its tokens and a semicolon. -/
theorem terminated_expression_eq_ok {ts rest : List Token}
    {s : RightPadded Stmt} (f : Expr → Stmt) :
    terminated (f <$> expression) ts = .ok (s, rest) ↔
      ∃ us e after, ts = us ++ ⟨after, .symbol ";"⟩ :: rest ∧ SpellsExpr us e ∧
        s = ⟨f e, after⟩ := by
  rw [terminated_eq_ok]
  constructor
  · rintro ⟨_, after, mid, h, rfl, rfl⟩
    obtain ⟨e, he, rfl⟩ := map_eq_ok.1 h
    obtain ⟨us, rfl, hus⟩ := expression_sound he
    exact ⟨us, e, after, rfl, hus, rfl⟩
  · rintro ⟨us, e, after, rfl, hus, rfl⟩
    exact ⟨_, after, _,
      map_eq_ok.2 ⟨e, expression_complete hus _ (Stops.cons.2 rfl), rfl⟩,
      rfl, rfl⟩

/-- Up to a semicolon a declaration is read where there is one, and else an
expression. -/
theorem declaration_orElse_eq_ok {ts rest : List Token} {s : RightPadded Stmt} :
    orElse (terminated (.declaration <$> declaration))
      (terminated (.expr <$> expression)) ts =
        .ok (s, rest) ↔
      ∃ us after, ts = us ++ ⟨after, .symbol ";"⟩ :: rest ∧
        ((∃ d, SpellsDeclaration us d ∧ s = ⟨.declaration d, after⟩) ∨
          ∃ e, SpellsExpr us e ∧ (∀ d, ¬SpellsDeclaration us d) ∧
          s = ⟨.expr e, after⟩) := by
  rw [orElse_eq_ok, terminated_declaration_eq_ok, terminated_expression_eq_ok]
  constructor
  · rintro (⟨us, d, after, rfl, hd, rfl⟩ | ⟨⟨left, hleft⟩, us, e, after,
      rfl, he, rfl⟩)
    · exact ⟨us, after, rfl, .inl ⟨d, hd, rfl⟩⟩
    · refine ⟨us, after, rfl, .inr ⟨e, he, fun d hd => ?_, rfl⟩⟩
      rw [terminated_declaration_eq_ok.2 ⟨us, d, after, rfl, hd, rfl⟩] at hleft
      cases hleft
  · rintro ⟨us, after, rfl, ⟨d, hd, rfl⟩ | ⟨e, he, hno, rfl⟩⟩
    · exact .inl ⟨us, d, after, rfl, hd, rfl⟩
    · refine .inr ⟨?_, us, e, after, rfl, he, rfl⟩
      cases hread : terminated (Stmt.declaration <$> declaration)
        (us ++ ⟨after, .symbol ";"⟩ :: rest) with
      | error left => exact ⟨left, rfl⟩
      | ok r =>
          obtain ⟨vs, d, after', hts, hd, -⟩ :=
            terminated_declaration_eq_ok.1 hread
          rw [eq_of_append_semicolon (tidy_expr he) (tidy_declaration hd) hts]
            at hno
          exact (hno d hd).elim

section

variable {nested : Parser (RightPadded Stmt)} {R : Spelling (RightPadded Stmt)}

theorem catchWith_sound (hn : Sound nested R) :
    Sound (catchWith nested) (CatchWith R) := by
  intro ts rest c h
  simp only [catchWith, bind_eq_ok] at h
  obtain ⟨lead, t₁, h₁, opening, t₂, h₂, d, t₃, h₃, closing, t₄, h₄, b,
      t₅, h₅, h⟩ := h
  obtain ⟨rfl, rfl⟩ := pure_eq_ok.1 h
  obtain rfl := keyword_eq_ok.1 h₁
  obtain rfl := symbol_eq_ok.1 h₂
  obtain ⟨us, rfl, hus⟩ := parameter_sound catchType_sound h₃
  obtain rfl := symbol_eq_ok.1 h₄
  obtain ⟨vs, rfl, hvs⟩ := hn.braced h₅
  exact ⟨⟨lead, .keyword "catch"⟩ :: ⟨opening, .symbol "("⟩ ::
    (us ++ ⟨closing, .symbol ")"⟩ :: vs), by simp, .mk hus hvs⟩

/-- Behind its keyword a try that is read is spelled by the tokens read. -/
theorem tryWith_sound (hn : Sound nested R) (lead : Trivia) :
    Sound (tryWith nested lead) fun xs t =>
      ∃ us b vs cs ws f, xs = us ++ vs ++ ws ∧ t = ⟨lead, b, cs, f⟩ ∧
      Braced R us b ∧
        Many (CatchWith R) vs cs ∧ FinallyWith R ws f := by
  intro ts rest t h
  simp only [tryWith, bind_eq_ok] at h
  obtain ⟨b, t₁, h₁, cs, t₂, h₂, finally?, t₃, h₃, h⟩ := h
  obtain ⟨us, rfl, hus⟩ := hn.braced h₁
  obtain ⟨vs, rfl, hvs⟩ := Sound.bounded ((catchWith_sound hn).manyWhile _) h₂
  obtain ⟨before, rfl, rfl⟩ | ⟨rfl, rfl⟩ := keyword?_eq_ok h₃
  · simp only [bind_eq_ok] at h
    obtain ⟨b', t₄, h₄, f, t₅, h₅, h⟩ := h
    obtain ⟨rfl, rfl⟩ := pure_eq_ok.1 h₅
    obtain ⟨rfl, rfl⟩ := pure_eq_ok.1 h
    obtain ⟨ws, rfl, hws⟩ := hn.braced h₄
    exact ⟨us ++ vs ++ ⟨before, .keyword "finally"⟩ :: ws, by simp, us, b, vs,
      cs, _, _, rfl, rfl, hus, hvs, .some hws⟩
  · simp only [bind_eq_ok] at h
    obtain ⟨f, t₄, h₄, h⟩ := h
    obtain ⟨rfl, rfl⟩ := pure_eq_ok.1 h₄
    obtain ⟨rfl, rfl⟩ := pure_eq_ok.1 h
    exact ⟨us ++ vs ++ [], by simp, us, b, vs, cs, [], none, rfl, rfl,
      hus, hvs, .none⟩

theorem plainWith_sound (hn : Sound nested R) :
    Sound (plainWith nested) (PlainWith R) := by
  intro ts rest s h
  simp only [plainWith, bind_eq_ok] at h
  obtain ⟨braced, t₁, h₁, h⟩ := h
  obtain rfl := isNext_eq_ok h₁
  split at h
  · replace h := bind_eq_ok.1 h
    obtain ⟨b, t₂, h₂, h⟩ := h
    obtain ⟨rfl, rfl⟩ := pure_eq_ok.1 h
    obtain ⟨us, rfl, hus⟩ := hn.braced h₂
    exact ⟨us, rfl, .block hus⟩
  replace h := bind_eq_ok.1 h
  obtain ⟨empty?, t₂, h₂, h⟩ := h
  obtain ⟨lead, rfl, rfl⟩ | ⟨rfl, rfl⟩ := symbol?_eq_ok h₂
  · obtain ⟨rfl, rfl⟩ := pure_eq_ok.1 h
    exact ⟨_, rfl, .empty⟩
  replace h := bind_eq_ok.1 h
  obtain ⟨handled?, t₃, h₃, h⟩ := h
  obtain ⟨lead, rfl, rfl⟩ | ⟨rfl, rfl⟩ := keyword?_eq_ok h₃
  · replace h := bind_eq_ok.1 h
    obtain ⟨t, t₄, h₄, h⟩ := h
    obtain ⟨rfl, rfl⟩ := pure_eq_ok.1 h
    obtain ⟨_, rfl, us, b, vs, cs, ws, f, rfl, rfl, hb, hcs, hf⟩ :=
      tryWith_sound hn lead h₄
    exact ⟨_, rfl, .tryCatch hb hcs hf⟩
  replace h := bind_eq_ok.1 h
  obtain ⟨throw?, t₄, h₄, h⟩ := h
  obtain ⟨lead, rfl, rfl⟩ | ⟨rfl, rfl⟩ := keyword?_eq_ok h₄
  · obtain ⟨us, e, after, rfl, he, rfl⟩ := (terminated_expression_eq_ok _).1 h
    exact ⟨⟨lead, .keyword "throw"⟩ :: (us ++ [⟨after, .symbol ";"⟩]), by simp,
      .throwing he⟩
  replace h := bind_eq_ok.1 h
  obtain ⟨return?, t₅, h₅, h⟩ := h
  obtain ⟨lead, rfl, rfl⟩ | ⟨rfl, rfl⟩ := keyword?_eq_ok h₅
  · simp only [bind_eq_ok] at h
    obtain ⟨bare, t₆, h₆, h⟩ := h
    obtain rfl := isNext_eq_ok h₆
    split at h
    · obtain ⟨_, after, mid, h₇, rfl, rfl⟩ := terminated_eq_ok.1 h
      obtain ⟨rfl, rfl⟩ := pure_eq_ok.1 h₇
      exact ⟨_, rfl, .returningNone⟩
    · obtain ⟨us, e, after, rfl, he, rfl⟩ := (terminated_expression_eq_ok _).1 h
      exact ⟨⟨lead, .keyword "return"⟩ :: (us ++ [⟨after, .symbol ";"⟩]),
        by simp, .returning he⟩
  · obtain ⟨us, after, rfl, ⟨d, hd, rfl⟩ | ⟨e, he, hno, rfl⟩⟩ :=
      declaration_orElse_eq_ok.1 h
    · exact ⟨us ++ [⟨after, .symbol ";"⟩], by simp, .declaration hd⟩
    · exact ⟨us ++ [⟨after, .symbol ";"⟩], by simp, .expr he hno⟩

end

-- What a reader does with the first word of a statement, where that word
-- decides.

/-- At a brace a block is read. -/
theorem plainWith_block (nested : Parser (RightPadded Stmt)) (lead : Trivia)
    (ts : List Token) : plainWith nested (⟨lead, .symbol "\x7b"⟩ :: ts) =
      (braced nested >>= fun b => pure ⟨.block b, ""⟩ :
        Parser (RightPadded Stmt)) (⟨lead, .symbol "\x7b"⟩ :: ts) := rfl

/-- At a semicolon the empty statement is read. -/
theorem plainWith_empty (nested : Parser (RightPadded Stmt)) (lead : Trivia)
    (ts : List Token) :
    plainWith nested (⟨lead, .symbol ";"⟩ :: ts) =
      .ok (⟨.empty lead, ""⟩, ts) := rfl

/-- At its keyword a try is read. -/
theorem plainWith_try (nested : Parser (RightPadded Stmt)) (lead : Trivia)
    (ts : List Token) : plainWith nested (⟨lead, .keyword "try"⟩ :: ts) =
      (tryWith nested lead >>= fun t =>
        pure ⟨.tryCatch t, ""⟩ : Parser (RightPadded Stmt)) ts := rfl

/-- At its keyword a throw is read. -/
theorem plainWith_throw (nested : Parser (RightPadded Stmt)) (lead : Trivia)
    (ts : List Token) : plainWith nested (⟨lead, .keyword "throw"⟩ :: ts) =
      terminated (.throwing lead <$> expression) ts := rfl

/-- A return may stand before a semicolon. -/
theorem plainWith_returnNone (nested : Parser (RightPadded Stmt))
    (lead after : Trivia) (ts : List Token) :
    plainWith nested (⟨lead, .keyword "return"⟩ :: ⟨after, .symbol ";"⟩ :: ts) =
      .ok (⟨.returning lead none, after⟩, ts) := rfl

/-- At its keyword a return is read, with a value where no semicolon stands. -/
theorem plainWith_return (nested : Parser (RightPadded Stmt)) (lead : Trivia)
    (ts : List Token) : plainWith nested (⟨lead, .keyword "return"⟩ :: ts) =
      (isNext (.symbol ";") >>= fun bare =>
        if bare then terminated (pure (.returning lead none))
        else terminated ((fun e => .returning lead (some e)) <$> expression) :
          Parser (RightPadded Stmt)) ts := rfl

/-- Any other word than a brace, a semicolon or one of three keywords starts a
declaration or an expression. -/
theorem plainWith_simple (nested : Parser (RightPadded Stmt)) {us : List Token}
    (h : Opens Word.opensSimple us) (rest : List Token) :
    plainWith nested (us ++ rest) =
      orElse (terminated (.declaration <$> declaration))
        (terminated (.expr <$> expression)) (us ++ rest) := by
  have hno (w : Word) (hw : w.opensSimple = false) :
      Stops (· == w) (us ++ rest) :=
    h.stops rest fun v hv =>
      beq_eq_false_iff_ne.2 (by rintro rfl; rw [hw] at hv; cases hv)
  rw [plainWith, bind_ok (isNext_false (hno _ rfl)), if_neg Bool.false_ne_true,
    bind_ok (symbol?_none (hno _ rfl))]
  show (keyword? "try" >>= _) _ = _
  rw [bind_ok (keyword?_none (hno _ rfl))]
  show (keyword? "throw" >>= _) _ = _
  rw [bind_ok (keyword?_none (hno _ rfl))]
  show (keyword? "return" >>= _) _ = _
  rw [bind_ok (keyword?_none (hno _ rfl))]

section

variable {nested : Parser (RightPadded Stmt)}
  {R : Spelling (RightPadded Stmt)} {n : Nat}
  (hn : CompleteBelow n nested R Word.extendsStmt)
  (hfirst : ∀ ⦃us s⦄, R us s → Opens Word.opensStmt us)

/-- What opens a statement does not go on with one. -/
theorem opensStmt_not_extendsStmt (w : Word) (h : w.opensStmt = true) :
    w.extendsStmt = false := by
  have helse : w ≠ .keyword "else" := by rintro rfl; cases h
  have hcatch : w ≠ .keyword "catch" := by rintro rfl; cases h
  have hfinally : w ≠ .keyword "finally" := by rintro rfl; cases h
  simp [Word.extendsStmt, Word.extendsTry, helse, hcatch, hfinally]

include hn hfirst

/-- A block is read as spelled if it has no more tokens than there is fuel
for. -/
theorem statements_complete {us : List Token} {b : Block Stmt}
    (hlt : us.length ≤ n) (h : Braced R us b) (rest : List Token) :
    braced nested (us ++ rest) = .ok (b, rest) :=
  braced_complete hn hfirst opensStmt_not_extendsStmt rfl rfl hlt h rest

/-- A clause is read as spelled. -/
theorem catchWith_complete (P : Word → Bool) :
    CompleteBelow (n + 1) (catchWith nested) (CatchWith R) P := by
  intro us c hlt h rest _
  obtain ⟨hd, hb⟩ := h
  simp only [List.length_cons, List.length_append] at hlt
  rw [catchWith, List.cons_append, bind_ok (keyword_ok _ _ _), List.cons_append,
    bind_ok (symbol_ok _ _ _), List.append_assoc,
    bind_ok (parameter_complete catchType_complete (fun _ _ => opens_catchType)
      (fun _ => rfl) hd _),
    List.cons_append, bind_ok (symbol_ok _ _ _),
    bind_ok (statements_complete hn hfirst (by omega) hb rest)]
  rfl

omit hn hfirst in

/-- A clause opens with its keyword. -/
theorem opens_catch ⦃us : List Token⦄ ⦃c : Catch Stmt⦄ (h : CatchWith R us c) :
    Opens (fun w => w == .keyword "catch") us := by
  cases h
  exact .cons rfl

omit hn hfirst in

/-- What opens with a keyword starts with it. -/
theorem startsWith_of_opens {s : String} {us : List Token}
    (h : Opens (fun w => w == .keyword s) us) : startsWith s us = true := by
  obtain ⟨t, us, rfl, ht⟩ := h
  simpa [startsWith] using ht

omit hn hfirst in

/-- What does not go on with a keyword does not start with it. -/
theorem startsWith_of_stops {s : String} {us : List Token}
    (h : Stops (fun w => w == .keyword s) us) : startsWith s us = false := by
  cases us with
  | nil => rfl
  | cons t us => simpa [startsWith] using h

/-- A try is read as spelled: clauses and the last block are taken while there
are any. -/
theorem tryWith_complete {us vs ws : List Token} {b : Block Stmt}
    {cs : List (Catch Stmt)} {f : Option (LeftPadded (Block Stmt))}
    (lead : Trivia) (hlt : us.length + vs.length + ws.length ≤ n)
    (hb : Braced R us b) (hcs : Many (CatchWith R) vs cs)
    (hf : FinallyWith R ws f) (rest : List Token)
    (hrest : Stops Word.extendsTry rest) :
    tryWith nested lead (us ++ vs ++ ws ++ rest) =
      .ok (⟨lead, b, cs, f⟩, rest) := by
  have hnoCatch : Stops (fun w => w == .keyword "catch") (ws ++ rest) := by
    cases hf with
    | none => exact hrest.imp fun w hw => by simp_all [Word.extendsTry]
    | some _ => exact Stops.cons.2 rfl
  have hcatches : bounded (manyWhile (startsWith "catch") (catchWith nested))
      (vs ++ (ws ++ rest)) = .ok (cs, ws ++ rest) :=
    manyWhile_complete (catchWith_complete hn hfirst fun _ => false) opens_catch
      (fun _ _ => rfl)
      (fun _ => startsWith_of_opens) (by omega) hcs
        (by rw [List.length_append]; omega) _
      (fun _ _ => rfl) (startsWith_of_stops hnoCatch)
  rw [tryWith, List.append_assoc, List.append_assoc,
    bind_ok (statements_complete hn hfirst (by omega) hb _), bind_ok hcatches]
  cases hf with
  | none =>
      have hno : Stops (· == .keyword "finally") rest :=
        hrest.imp fun w hw => by
        simp_all [Word.extendsTry]
      rw [List.nil_append, bind_ok (keyword?_none hno)]
      rfl
  | some hf =>
      rw [List.length_cons] at hlt
      rw [List.cons_append, bind_ok (keyword?_ok _ _ _)]
      show (braced nested >>= _) _ = _
      rw [bind_ok (statements_complete hn hfirst (by omega) hf rest)]
      rfl

/-- A statement without branches is read as spelled: its first words tell its
sort. -/
theorem plainWith_complete {us : List Token} {s : RightPadded Stmt}
    (hlt : us.length ≤ n) (h : PlainWith R us s) (rest : List Token)
    (hrest : Stops Word.extendsTry rest) :
    plainWith nested (us ++ rest) = .ok (s, rest) := by
  cases h with
  | block h =>
      have hread := statements_complete hn hfirst hlt h rest
      obtain ⟨us, rfl⟩ := opens_braced h
      rw [List.cons_append, plainWith_block]
      rw [List.cons_append] at hread
      rw [bind_ok hread]
      rfl
  | empty => exact plainWith_empty nested _ rest
  | tryCatch hb hcs hf =>
      simp only [List.length_cons, List.length_append] at hlt
      rw [List.cons_append, plainWith_try,
        bind_ok (tryWith_complete hn hfirst _ (by omega) hb hcs hf rest hrest)]
      rfl
  | throwing he =>
      rw [List.cons_append, plainWith_throw, List.append_assoc]
      exact (terminated_expression_eq_ok _).2 ⟨_, _, _, rfl, he, rfl⟩
  | returningNone => exact plainWith_returnNone nested _ _ rest
  | returning he =>
      have hno : ∀ us', Stops (· == .symbol ";") (_ ++ us') := fun us' =>
        (opens_expr he).stops us' fun w hw =>
          beq_eq_false_iff_ne.2 (by rintro rfl; cases hw)
      rw [List.cons_append, plainWith_return, List.append_assoc,
        bind_ok (isNext_false (hno _)), if_neg Bool.false_ne_true]
      exact (terminated_expression_eq_ok _).2 ⟨_, _, _, rfl, he, rfl⟩
  | @declaration us d after hd =>
      have hopens := (opens_declaration hd).imp fun w hw => by
        show w.opensSimple = true
        simp [Word.opensSimple, hw]
      rw [List.append_assoc, plainWith_simple nested hopens]
      exact declaration_orElse_eq_ok.2 ⟨us, after, rfl, .inl ⟨d, hd, rfl⟩⟩
  | @expr us e after he hno =>
      have hopens := (opens_expr he).imp fun w hw => by
        show w.opensSimple = true
        simp [Word.opensSimple, hw]
      rw [List.append_assoc, plainWith_simple nested hopens]
      exact declaration_orElse_eq_ok.2 ⟨us, after, rfl, .inr ⟨e, he, hno, rfl⟩⟩

-- ============================================================== branches

omit hn hfirst in

/-- A branch opens with its keyword. -/
theorem opens_branch ⦃us : List Token⦄ ⦃b : Branch⦄ (h : BranchWith R us b) :
    Opens (fun w => w == .keyword "else") us := by
  cases h
  exact .cons rfl

omit hn hfirst in
/-- What comes after some branches does not go on the `try` that may stand
before them. -/
theorem stops_branches_append {us rest : List Token} {bs : List Branch}
    (h : Many (BranchWith R) us bs) (hrest : Stops Word.extendsStmt rest) :
    Stops Word.extendsTry (us ++ rest) := by
  cases h with
  | nil => exact hrest.imp fun w hw => by simp_all [Word.extendsStmt]
  | cons h _ =>
      exact (opens_branch h).append.stops _ fun w hw => by
        rw [eq_of_beq hw]; rfl

/-- Branches, as many as have an `if` to take them, by as many turns as there
are tokens. -/
theorem branchesWith_complete {us : List Token} {bs : List Branch}
    (hlt : us.length ≤ n) (h : Many (BranchWith R) us bs) {opened : Nat}
    (hfits : Branch.fits opened bs = true) {turns : Nat}
    (hturns : us.length < turns) (rest : List Token)
    (hrest : Stops Word.extendsStmt rest) :
    branchesWith (plainWith nested) turns opened (us ++ rest) =
      .ok (bs, rest) := by
  induction h generalizing opened turns with
  | nil =>
      obtain ⟨turns, rfl⟩ : ∃ k, turns = k + 1 := ⟨turns - 1, by omega⟩
      cases opened with
      | zero => rfl
      | succ opened =>
          have hno : Stops (· == .keyword "else") rest :=
            hrest.imp fun w hw => by
            simp_all [Word.extendsStmt]
          rw [branchesWith, List.nil_append, bind_ok (keyword?_none hno)]
          rfl
  | @cons us vs b bs hb hbs ih =>
      obtain ⟨turns, rfl⟩ : ∃ k, turns = k + 1 := ⟨turns - 1, by omega⟩
      obtain ⟨hheads, hbody⟩ := hb
      cases opened with
      | zero => cases hfits
      | succ opened =>
          simp only [List.length_cons, List.length_append] at hlt hturns
          have hstart := startsHead_of_opensPlain
            ((opens_plain hbody).append : Opens _ (_ ++ (vs ++ rest)))
          rw [branchesWith, List.append_assoc, List.cons_append,
            bind_ok (keyword?_ok _ _ _)]
          show (bounded (manyWhile startsHead head) >>= _) _ = _
          rw [List.append_assoc, bind_ok (heads_complete hheads _ hstart),
            bind_ok (plainWith_complete hn hfirst (by omega) hbody _
              (stops_branches_append hbs hrest)),
            bind_ok (ih (by omega) hfits (by omega))]
          rfl

/-- A statement is read as spelled, each branch going to the last head that
is open. -/
theorem statementWith_complete {us : List Token} {s : RightPadded Stmt}
    (hlt : us.length ≤ n) (h : StatementWith R us s) (rest : List Token)
    (hrest : Stops Word.extendsStmt rest) :
    statementWith nested (us ++ rest) = .ok (s, rest) := by
  obtain ⟨hheads, hbody, hbranches, hfits⟩ := h
  rename_i us heads vs body ws branches
  simp only [List.length_append] at hlt
  have hread : bounded (fun n =>
      branchesWith (plainWith nested) n (Branch.openings heads))
      (ws ++ rest) = .ok (branches, rest) :=
    branchesWith_complete hn hfirst (by omega) hbranches hfits
      (by rw [List.length_append]; omega) rest hrest
  rw [statementWith, List.append_assoc, List.append_assoc,
    bind_ok (heads_complete hheads _
      (startsHead_of_opensPlain (opens_plain hbody).append)),
    bind_ok (plainWith_complete hn hfirst (by omega) hbody _
      (stops_branches_append hbranches hrest)),
    bind_ok hread]
  rfl

end

/-- The branches that are read fit the heads that are open. -/
theorem branchesWith_sound {nested : Parser (RightPadded Stmt)}
    {R : Spelling (RightPadded Stmt)} (hn : Sound nested R) (turns : Nat) :
    ∀ opened, Sound (branchesWith (plainWith nested) turns opened) fun us bs =>
      Many (BranchWith R) us bs ∧ Branch.fits opened bs = true := by
  induction turns with
  | zero => intro opened ts rest bs h; exact absurd h stuck_ne_ok
  | succ turns ih =>
      intro opened ts rest bs h
      cases opened with
      | zero =>
          obtain ⟨rfl, rfl⟩ := pure_eq_ok.1 h
          exact ⟨[], rfl, .nil, rfl⟩
      | succ opened =>
          simp only [branchesWith, bind_eq_ok] at h
          obtain ⟨else?, t₁, h₁, h⟩ := h
          obtain ⟨lead, rfl, rfl⟩ | ⟨rfl, rfl⟩ := keyword?_eq_ok h₁
          · simp only [bind_eq_ok] at h
            obtain ⟨heads, t₂, h₂, body, t₃, h₃, bs', t₄, h₄, h⟩ := h
            obtain ⟨rfl, rfl⟩ := pure_eq_ok.1 h
            obtain ⟨us, rfl, hus⟩ :=
              Sound.bounded (head_sound.manyWhile startsHead) h₂
            obtain ⟨vs, rfl, hvs⟩ := plainWith_sound hn h₃
            obtain ⟨ws, rfl, hws, hfits⟩ := ih _ h₄
            exact ⟨⟨lead, .keyword "else"⟩ :: (us ++ vs) ++ ws, by simp,
              .cons (.mk hus hvs) hws, hfits⟩
          · obtain ⟨rfl, rfl⟩ := pure_eq_ok.1 h
            exact ⟨[], rfl, .nil, rfl⟩

-- ============================================================ statements

theorem statementWith_sound {nested : Parser (RightPadded Stmt)}
    {R : Spelling (RightPadded Stmt)} (hn : Sound nested R) :
    Sound (statementWith nested) (StatementWith R) := by
  intro ts rest s h
  simp only [statementWith, bind_eq_ok] at h
  obtain ⟨heads, t₁, h₁, body, t₂, h₂, bs, t₃, h₃, h⟩ := h
  obtain ⟨rfl, rfl⟩ := pure_eq_ok.1 h
  obtain ⟨us, rfl, hus⟩ := Sound.bounded (head_sound.manyWhile startsHead) h₁
  obtain ⟨vs, rfl, hvs⟩ := plainWith_sound hn h₂
  obtain ⟨ws, rfl, hws, hfits⟩ := branchesWith_sound hn _ _ h₃
  exact ⟨us ++ vs ++ ws, by simp, .mk hus hvs hws hfits⟩

theorem statementOfDepth_sound (n : Nat) :
    Sound (statementOfDepth n) (SpellsStmtAt n) := by
  induction n with
  | zero => intro ts rest a h; exact absurd h stuck_ne_ok
  | succ n ih => exact statementWith_sound ih

theorem statement_sound : Sound statement SpellsStmt := by
  intro ts rest s h
  obtain ⟨us, hts, hus⟩ := statementOfDepth_sound _ h
  exact ⟨us, hts, _, hus⟩

/-- By induction on the depth: the fuel of a nested statement is what is left
of the tokens. -/
theorem statementOfDepth_complete (m n : Nat) :
    CompleteBelow m (statementOfDepth m) (SpellsStmtAt n) Word.extendsStmt := by
  induction m generalizing n with
  | zero => intro us s hlt; exact absurd hlt (Nat.not_lt_zero _)
  | succ m ih =>
      intro us s hlt h rest hrest
      cases n with
      | zero => exact h.elim
      | succ n =>
          exact statementWith_complete (ih n) (fun _ _ h => opens_stmt ⟨n, h⟩)
            (Nat.le_of_lt_succ hlt) h rest hrest

/-- A statement is read as spelled, unless what follows could go on with it. -/
theorem statement_complete :
    Complete statement SpellsStmt Word.extendsStmt := by
  rintro us s ⟨n, h⟩ rest hrest
  exact statementOfDepth_complete _ n (by rw [List.length_append]; omega)
    h rest hrest

theorem block_sound : Sound block (Braced SpellsStmt) :=
  statement_sound.braced

theorem block_complete {us : List Token} {b : Block Stmt}
    (h : Braced SpellsStmt us b) (rest : List Token) :
    block (us ++ rest) = .ok (b, rest) :=
  statements_complete (statement_complete.below _) opens_stmt
    (Nat.le_refl _) h rest

end Parser

end JavaRefit
