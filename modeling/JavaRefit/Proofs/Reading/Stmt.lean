/-
Modifiers, declarations and statements are read as they are written.

A declaration detaches the trivia in front of its first word before it is
known what that word is, and keeps it itself; the readers after that find
a token without trivia (`takeLead_reads`).

Chain: after `Conditional` and `Expr`; `Unit` reads it.
-/
import JavaRefit.Parser.Stmt
import JavaRefit.Proofs.Reading.Conditional
import JavaRefit.Proofs.Reading.Expr

namespace JavaRefit

open Piece

namespace Parser

-- ========================================================== declarations

theorem asModifierWord_eq_some {t : Token} {m : Modifier}
    (h : asModifierWord t = some m) : m = .keyword t.lead t.word.text := by
  unfold asModifierWord at h
  split at h
  next s hs =>
    split at h
    · cases h
      rw [hs, Word.text]
    · cases h
  next => cases h

theorem modifier_reads : Reads modifier Modifier.pieces := by
  intro ts rest m h
  simp only [modifier, bind_eq_ok] at h
  obtain ⟨word?, t₁, h₁, h⟩ := h
  have hword := Reads.take? Modifier.pieces
    (fun _ _ hm => by simp [asModifierWord_eq_some hm, Modifier.pieces]) h₁
  rw [hword]
  cases word? with
  | some m =>
      obtain ⟨rfl, rfl⟩ := pure_eq_ok.1 h
      rfl
  | none =>
  obtain ⟨lead, t₂, h₂, type, t₃, h₃, args, t₄, h₄, h⟩ := by
    simpa only [bind_eq_ok] using h
  obtain rfl := isNext_eq_ok h₄
  rw [symbol_reads "@" h₂, name_reads h₃]
  split at h
  · obtain ⟨args, t₅, h₅, h⟩ := bind_eq_ok.1 h
    obtain ⟨rfl, rfl⟩ := pure_eq_ok.1 h
    rw [expression_reads.delimited "(" ")" h₅]
    simp [Modifier.pieces, containerPieces, Expr.runs_eq_map]
  · obtain ⟨rfl, rfl⟩ := pure_eq_ok.1 h
    simp [Modifier.pieces]

theorem modifiers_reads : Reads modifiers Modifier.listPieces :=
  Reads.bounded (modifier_reads.manyWhile startsModifier)

theorem declarator_reads : Reads declarator Variable.pieces := by
  intro ts rest v h
  simp only [declarator, bind_eq_ok] at h
  obtain ⟨i, t₁, h₁, eq?, t₂, h₂, h⟩ := h
  rw [ident_reads h₁, symbol?_reads "=" h₂]
  cases eq? with
  | none =>
      obtain ⟨_, t₃, h₃, h⟩ := bind_eq_ok.1 h
      obtain ⟨rfl, rfl⟩ := pure_eq_ok.1 h₃
      obtain ⟨rfl, rfl⟩ := pure_eq_ok.1 h
      simp [Variable.pieces, Name.pieces, Ident.pieces]
  | some before =>
      obtain ⟨e, t₃, h₃, _, t₄, h₄, h⟩ := by simpa only [bind_eq_ok] using h
      obtain ⟨rfl, rfl⟩ := pure_eq_ok.1 h₄
      obtain ⟨rfl, rfl⟩ := pure_eq_ok.1 h
      simp [Variable.pieces, Name.pieces, Ident.pieces, expression_reads h₃]

theorem declaration_reads : Reads declaration Variables.pieces := by
  intro ts rest d h
  simp only [declaration, bind_eq_ok] at h
  obtain ⟨lead, t₁, h₁, ms, t₂, h₂, t, t₃, h₃, vs, t₄, h₄, h⟩ := h
  obtain ⟨rfl, rfl⟩ := pure_eq_ok.1 h
  rw [takeLead_reads h₁, modifiers_reads h₂, typeTree_reads h₃,
    Reads.bounded (declarator_reads.padded ",") h₄]
  simp [Variables.pieces, paddedPieces]

theorem parameter_reads {type : Parser TypeTree}
    (ht : Reads type TypeTree.pieces) :
    Reads (parameter type) Variables.pieces := by
  intro ts rest d h
  simp only [parameter, bind_eq_ok] at h
  obtain ⟨lead, t₁, h₁, ms, t₂, h₂, t, t₃, h₃, i, t₄, h₄, h⟩ := h
  obtain ⟨rfl, rfl⟩ := pure_eq_ok.1 h
  rw [takeLead_reads h₁, modifiers_reads h₂, ht h₃, ident_reads h₄]
  simp [Variables.pieces, Variable.pieces, Name.pieces, Ident.pieces, separated]

-- ============================================================ statements

theorem condition_reads : Reads condition Expr.conditionPieces := by
  intro ts rest c h
  simp only [condition, bind_eq_ok] at h
  obtain ⟨lead, t₁, h₁, e, t₂, h₂, after, t₃, h₃, h⟩ := h
  obtain ⟨rfl, rfl⟩ := pure_eq_ok.1 h
  rw [symbol_reads "(" h₁, expression_reads h₂, symbol_reads ")" h₃]
  simp [Expr.conditionPieces]

/-- A block, where its statements are read as they are written. -/
theorem block_of_reads {nested : Parser (RightPadded Stmt)}
    (hn : Reads nested Stmt.paddedPieces) :
    Reads (braced nested) Stmt.blockPieces := by
  intro ts rest b h
  rw [hn.braced h, Stmt.blockPieces, Stmt.allPieces_eq_flatMap]

theorem catchWith_reads {nested : Parser (RightPadded Stmt)}
    (hn : Reads nested Stmt.paddedPieces) :
    Reads (catchWith nested) Catch.pieces := by
  intro ts rest c h
  simp only [catchWith, bind_eq_ok] at h
  obtain ⟨lead, t₁, h₁, opening, t₂, h₂, d, t₃, h₃, closing, t₄, h₄, b,
      t₅, h₅, h⟩ := h
  obtain ⟨rfl, rfl⟩ := pure_eq_ok.1 h
  rw [keyword_reads "catch" h₁, symbol_reads "(" h₂,
    parameter_reads catchType_reads h₃, symbol_reads ")" h₄,
    block_of_reads hn h₅]
  simp [Catch.pieces, Variables.parameterPieces]

theorem tryWith_reads {nested : Parser (RightPadded Stmt)}
    (hn : Reads nested Stmt.paddedPieces) {lead : Trivia} {ts rest : List Token}
    {t : Try Stmt} (h : tryWith nested lead ts = .ok (t, rest)) :
    gap lead ++ .word "try" :: Token.flat ts =
      solid t.pieces ++ Token.flat rest := by
  simp only [tryWith, bind_eq_ok] at h
  obtain ⟨body, t₁, h₁, catches, t₂, h₂, finally?, t₃, h₃, h⟩ := h
  rw [block_of_reads hn h₁, Reads.bounded ((catchWith_reads hn).manyWhile _) h₂,
    keyword?_reads "finally" h₃]
  cases finally? with
  | none =>
      obtain ⟨_, t₄, h₄, h⟩ := bind_eq_ok.1 h
      obtain ⟨rfl, rfl⟩ := pure_eq_ok.1 h₄
      obtain ⟨rfl, rfl⟩ := pure_eq_ok.1 h
      simp [Try.pieces, Catch.allPieces_eq_flatMap, Stmt.finallyPieces]
  | some before =>
      obtain ⟨b, t₄, h₄, _, t₅, h₅, h⟩ := by simpa only [bind_eq_ok] using h
      obtain ⟨rfl, rfl⟩ := pure_eq_ok.1 h₅
      obtain ⟨rfl, rfl⟩ := pure_eq_ok.1 h
      rw [block_of_reads hn h₄]
      simp [Try.pieces, Catch.allPieces_eq_flatMap, Stmt.finallyPieces]

/-- A statement that keeps no trivia in front of a semicolon, and has none. -/
theorem solid_unpadded {s : Stmt} (h : s.needsSemicolon = false) :
    solid (Stmt.paddedPieces ⟨s, ""⟩) = solid s.pieces := by
  simp [Stmt.paddedPieces, h, semicolonIf]

/-- A statement with a semicolon after it. -/
theorem solid_terminated {s : Stmt} {after : Trivia}
    (h : s.needsSemicolon = true) :
    solid (Stmt.paddedPieces ⟨s, after⟩) =
      solid s.pieces ++ gap after ++ [.word ";"] := by
  simp [Stmt.paddedPieces, h, semicolonIf]

/-- A statement that is read and then a semicolon. -/
theorem terminated_reads {α : Type} {p : Parser α} {shown : α → List Piece}
    {make : α → Stmt} (lead : List Piece) (hp : Reads p shown)
    (hneeds : ∀ a, (make a).needsSemicolon = true)
    (hmake : ∀ a, solid (make a).pieces = lead ++ solid (shown a))
    {ts rest : List Token} {r : RightPadded Stmt}
    (h : terminated (make <$> p) ts = .ok (r, rest)) :
    lead ++ Token.flat ts = solid (Stmt.paddedPieces r) ++ Token.flat rest := by
  simp only [terminated, bind_eq_ok, map_eq_ok] at h
  obtain ⟨_, t₁, ⟨a, h₁, rfl⟩, after, t₂, h₂, h⟩ := h
  obtain ⟨rfl, rfl⟩ := pure_eq_ok.1 h
  rw [hp h₁, symbol_reads ";" h₂, solid_terminated (hneeds a), hmake]
  simp

/-- A statement that is no conditional. -/
theorem plainWith_reads {nested : Parser (RightPadded Stmt)}
    (hn : Reads nested Stmt.paddedPieces) :
    Reads (plainWith nested) Stmt.paddedPieces := by
  intro ts rest s h
  simp only [plainWith, bind_eq_ok] at h
  obtain ⟨braces, t₁, h₁, h⟩ := h
  obtain rfl := isNext_eq_ok h₁
  split at h
  · obtain ⟨b, t₂, h₂, h⟩ := bind_eq_ok.1 h
    obtain ⟨rfl, rfl⟩ := pure_eq_ok.1 h
    rw [block_of_reads hn h₂, solid_unpadded rfl, Stmt.pieces]
  obtain ⟨empty?, t₂, h₂, h⟩ := bind_eq_ok.1 h
  rw [symbol?_reads ";" h₂]
  cases empty? with
  | some lead =>
      obtain ⟨rfl, rfl⟩ := pure_eq_ok.1 h
      simp [solid_terminated (s := .empty lead) rfl, Stmt.pieces]
  | none =>
  obtain ⟨tryLead?, t₃, h₃, h⟩ := bind_eq_ok.1 h
  rw [keyword?_reads "try" h₃]
  cases tryLead? with
  | some lead =>
      obtain ⟨t, t₄, h₄, h⟩ := bind_eq_ok.1 h
      obtain ⟨rfl, rfl⟩ := pure_eq_ok.1 h
      rw [solid_unpadded rfl, Stmt.pieces, ← tryWith_reads hn h₄]
      simp
  | none =>
  obtain ⟨throwLead?, t₄, h₄, h⟩ := bind_eq_ok.1 h
  rw [keyword?_reads "throw" h₄]
  cases throwLead? with
  | some lead =>
      rw [← terminated_reads (gap lead ++ [.word "throw"]) expression_reads
        (fun _ => rfl) (fun e => by simp [Stmt.pieces]) h]
      simp
  | none =>
  obtain ⟨returnLead?, t₅, h₅, h⟩ := bind_eq_ok.1 h
  rw [keyword?_reads "return" h₅]
  cases returnLead? with
  | some lead =>
      obtain ⟨ended, t₆, h₆, h⟩ := bind_eq_ok.1 h
      obtain rfl := isNext_eq_ok h₆
      split at h
      · obtain ⟨_, t₇, h₇, after, t₈, h₈, h⟩ := by
          simpa only [terminated, bind_eq_ok] using h
        obtain ⟨rfl, rfl⟩ := pure_eq_ok.1 h₇
        obtain ⟨rfl, rfl⟩ := pure_eq_ok.1 h
        rw [symbol_reads ";" h₈, solid_terminated rfl]
        simp [Stmt.pieces]
      · rw [← terminated_reads (gap lead ++ [.word "return"]) expression_reads
          (fun _ => rfl) (fun e => by simp [Stmt.pieces]) h]
        simp
  | none =>
      refine Reads.orElse (fun _ _ _ h => ?_) (fun _ _ _ h => ?_) h
      · exact terminated_reads [] declaration_reads (fun _ => rfl)
          (fun _ => rfl) h
      · exact terminated_reads [] expression_reads (fun _ => rfl)
          (fun _ => rfl) h

-- ========================================================== conditionals

theorem head_reads : Reads head Branch.headPieces := by
  intro ts rest hd h
  simp only [head, bind_eq_ok] at h
  obtain ⟨while?, t₁, h₁, h⟩ := h
  rw [keyword?_reads "while" h₁]
  cases while? with
  | some lead =>
      obtain ⟨c, t₂, h₂, h⟩ := bind_eq_ok.1 h
      obtain ⟨rfl, rfl⟩ := pure_eq_ok.1 h
      simp [condition_reads h₂, Branch.headPieces]
  | none =>
      obtain ⟨lead, t₂, h₂, c, t₃, h₃, h⟩ := by simpa only [bind_eq_ok] using h
      obtain ⟨rfl, rfl⟩ := pure_eq_ok.1 h
      simp [keyword_reads "if" h₂, condition_reads h₃, Branch.headPieces]

/-- Branches are read as they are written, and no more of them than there are
`if` to take them. -/
theorem branchesWith_reads {plain : Parser (RightPadded Stmt)}
    (hp : Reads plain Stmt.paddedPieces) {n : Nat} :
    ∀ {opened : Nat} {ts rest : List Token} {bs : List Branch},
      branchesWith plain n opened ts = .ok (bs, rest) →
      Token.flat ts = solid (bs.flatMap Branch.pieces) ++ Token.flat rest ∧
        Branch.fits opened bs = true := by
  induction n with
  | zero => intro opened ts rest bs h; exact absurd h stuck_ne_ok
  | succ n ih =>
      intro opened ts rest bs h
      cases opened with
      | zero =>
          obtain ⟨rfl, rfl⟩ := pure_eq_ok.1 h
          exact ⟨rfl, rfl⟩
      | succ opened =>
          simp only [branchesWith, bind_eq_ok] at h
          obtain ⟨else?, t₁, h₁, h⟩ := h
          have helse := keyword?_reads "else" h₁
          cases else? with
          | none =>
              obtain ⟨rfl, rfl⟩ := pure_eq_ok.1 h
              exact ⟨helse, rfl⟩
          | some lead =>
              obtain ⟨heads, t₂, h₂, body, t₃, h₃, bs', t₄, h₄, h⟩ := by
                simpa only [bind_eq_ok] using h
              obtain ⟨rfl, rfl⟩ := pure_eq_ok.1 h
              obtain ⟨hbs, hfits⟩ := ih h₄
              refine ⟨?_, hfits⟩
              rw [helse, Reads.bounded (head_reads.manyWhile startsHead) h₂,
                hp h₃, hbs]
              simp [Branch.pieces]

theorem statementWith_reads {nested : Parser (RightPadded Stmt)}
    (hn : Reads nested Stmt.paddedPieces) :
    Reads (statementWith nested) Stmt.paddedPieces := by
  intro ts rest s h
  simp only [statementWith, bind_eq_ok] at h
  obtain ⟨heads, t₁, h₁, body, t₂, h₂, bs, t₃, h₃, h⟩ := h
  obtain ⟨rfl, rfl⟩ := pure_eq_ok.1 h
  obtain ⟨hbs, hfits⟩ := branchesWith_reads (plainWith_reads hn) h₃
  rw [Reads.bounded (head_reads.manyWhile startsHead) h₁,
    plainWith_reads hn h₂, hbs, Branch.solid_shape hfits]
  simp [Branch.flatPieces]

theorem statementOfDepth_reads (n : Nat) :
    Reads (statementOfDepth n) Stmt.paddedPieces := by
  induction n with
  | zero => intro ts rest a h; exact absurd h stuck_ne_ok
  | succ n ih => exact statementWith_reads ih

/-- Statements are read as they are written. -/
theorem statement_reads : Reads statement Stmt.paddedPieces :=
  Reads.bounded statementOfDepth_reads

theorem block_reads : Reads block Stmt.blockPieces :=
  block_of_reads statement_reads

end Parser

end JavaRefit
