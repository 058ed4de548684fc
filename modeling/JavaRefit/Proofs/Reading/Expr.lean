/-
Names, written types and expressions are read as they are written.

A node that is built around a part read before it takes over the trivia
in front of that part, so each step here is: the part is the trivia in
front of it and the part without that (`solid_pieces`), and the rest
follows.

The readers that are bounded in depth are given a reader for what is
nested in them; the induction is on the depth.

Chain: after `Basic`; `Stmt` reads it.
-/
import JavaRefit.Parser.Expr
import JavaRefit.Proofs.Reading.Basic
import JavaRefit.Proofs.Tree.Induction

namespace JavaRefit

open Piece

namespace Parser

-- ================================================================= names

/-- A name with one more word is the name and the word after a dot. -/
theorem solid_extendName (outer : Name) (dot : Trivia) (last : Ident) :
    solid (extendName outer dot last).pieces
      = solid outer.pieces ++ gap dot ++ .word "." :: solid last.pieces := by
  rw [outer.solid_pieces]
  simp [extendName, Name.pieces]

/-- The start of a name and what is read after it are the name. -/
theorem nameRest_reads {starMayEnd : Bool} {n : Nat} :
    ∀ {outer a : Name} {ts rest : List Token},
      nameRest starMayEnd n outer ts = .ok (a, rest) →
      solid outer.pieces ++ Token.flat ts =
        solid a.pieces ++ Token.flat rest := by
  induction n with
  | zero => intro outer a ts rest h; exact absurd h stuck_ne_ok
  | succ n ih =>
      intro outer a ts rest h
      simp only [nameRest, bind_eq_ok] at h
      obtain ⟨dot?, t₁, h₁, h⟩ := h
      have hdot := symbol?_reads "." h₁
      cases dot? with
      | none =>
          obtain ⟨rfl, rfl⟩ := pure_eq_ok.1 h
          simp [hdot]
      | some dot =>
          obtain ⟨star, t₂, h₂, h⟩ := bind_eq_ok.1 h
          obtain rfl := isNext_eq_ok h₂
          split at h
          · obtain ⟨lead, t₃, h₃, h⟩ := bind_eq_ok.1 h
            obtain ⟨rfl, rfl⟩ := pure_eq_ok.1 h
            simp [hdot, symbol_reads "*" h₃, solid_extendName, Ident.pieces]
          · obtain ⟨last, t₃, h₃, h⟩ := bind_eq_ok.1 h
            rw [← ih h, solid_extendName, hdot, ident_reads h₃]
            simp

theorem name_reads : Reads name Name.pieces := by
  intro ts rest a h
  obtain ⟨first, t₁, h₁, h₂⟩ := bind_eq_ok.1 h
  rw [ident_reads h₁, ← nameRest_reads h₂]
  rfl

theorem importName_reads : Reads importName Name.pieces := by
  intro ts rest a h
  obtain ⟨first, t₁, h₁, h₂⟩ := bind_eq_ok.1 h
  rw [ident_reads h₁, ← nameRest_reads h₂]
  rfl

-- ================================================================= types

/-- A class name with its arguments, where these are read as they are
written. -/
theorem classTypeWith_reads {argument : Parser TypeTree}
    (ha : Reads argument TypeTree.pieces) :
    Reads (classTypeWith argument) TypeTree.pieces := by
  intro ts rest t h
  simp only [classTypeWith, bind_eq_ok] at h
  obtain ⟨base, t₁, h₁, generic, t₂, h₂, h⟩ := h
  obtain rfl := isNext_eq_ok h₂
  have hbase := name_reads h₁
  split at h
  · obtain ⟨args, t₃, h₃, h⟩ := bind_eq_ok.1 h
    obtain ⟨rfl, rfl⟩ := pure_eq_ok.1 h
    have hargs := ha.delimited "<" ">" h₃
    rw [hbase, hargs, base.solid_pieces]
    simp [TypeTree.pieces, containerPieces, TypeTree.runs_eq_map]
  · obtain ⟨rfl, rfl⟩ := pure_eq_ok.1 h
    exact hbase

theorem asPrimitive_eq_some {t : Token} {p : TypeTree}
    (h : asPrimitive t = some p) :
    ∃ k : Primitive, p = .primitive t.lead k none ∧ t.word.text = k.text := by
  unfold asPrimitive at h
  split at h
  next s hs =>
    split at h
    · obtain ⟨k, hk, rfl⟩ := Option.map_eq_some_iff.1 h
      have hsk := List.find?_some hk
      exact ⟨k, rfl, by simpa [hs, Word.text] using (beq_iff_eq.1 hsk).symm⟩
    · cases h
  next => cases h

/-- An element type and the brackets after it are the array type. -/
theorem dimensions_reads {n : Nat} :
    ∀ {element a : TypeTree} {ts rest : List Token},
      dimensions n element ts = .ok (a, rest) →
      solid element.pieces ++ Token.flat ts =
        solid a.pieces ++ Token.flat rest := by
  induction n with
  | zero => intro element a ts rest h; exact absurd h stuck_ne_ok
  | succ n ih =>
      intro element a ts rest h
      simp only [dimensions, bind_eq_ok] at h
      obtain ⟨before?, t₁, h₁, h⟩ := h
      have hopen := symbol?_reads "[" h₁
      cases before? with
      | none =>
          obtain ⟨rfl, rfl⟩ := pure_eq_ok.1 h
          simp [hopen]
      | some before =>
          obtain ⟨inner, t₂, h₂, h⟩ := bind_eq_ok.1 h
          rw [← ih h, hopen, symbol_reads "]" h₂, element.solid_pieces]
          simp [TypeTree.pieces]

theorem typeTreeWith_reads {argument : Parser TypeTree}
    (ha : Reads argument TypeTree.pieces) :
    Reads (typeTreeWith argument) TypeTree.pieces := by
  intro ts rest t h
  simp only [typeTreeWith, bind_eq_ok] at h
  obtain ⟨p?, t₁, h₁, h⟩ := h
  have hp := Reads.take? TypeTree.pieces
    (fun _ _ hp => by
      obtain ⟨k, rfl, hk⟩ := asPrimitive_eq_some hp
      simp [TypeTree.pieces, hk]) h₁
  rw [hp]
  cases p? with
  | some p =>
      obtain ⟨base, t₂, h₂, h⟩ := bind_eq_ok.1 h
      obtain ⟨rfl, rfl⟩ := pure_eq_ok.1 h₂
      exact dimensions_reads h
  | none =>
      obtain ⟨base, t₂, h₂, h⟩ := bind_eq_ok.1 h
      rw [classTypeWith_reads ha h₂]
      exact dimensions_reads h

theorem typeTreeOfDepth_reads (n : Nat) :
    Reads (typeTreeOfDepth n) TypeTree.pieces := by
  induction n with
  | zero => intro ts rest a h; exact absurd h stuck_ne_ok
  | succ n ih => exact typeTreeWith_reads ih

theorem typeTree_reads : Reads typeTree TypeTree.pieces :=
  Reads.bounded typeTreeOfDepth_reads

theorem classType_reads : Reads classType TypeTree.pieces :=
  classTypeWith_reads typeTree_reads

/-- The alternatives of a catch parameter. -/
theorem catchType_reads : Reads catchType TypeTree.pieces := by
  intro ts rest t h
  simp only [catchType, bind_eq_ok] at h
  obtain ⟨ps, t₁, h₁, h⟩ := h
  have hps := Reads.bounded (classType_reads.padded "|") h₁
  split at h
  next only =>
    -- a single alternative is the last one, so nothing is kept after it
    obtain ⟨init, last, hlast⟩ := padded_eq_concat h₁
    obtain ⟨rfl, rfl⟩ := pure_eq_ok.1 h
    have hafter : only.after = "" := by
      cases init with
      | nil => cases hlast; rfl
      | cons p init => simp at hlast
    simpa [paddedPieces, separated, hafter] using hps
  next => exact absurd h stuck_ne_ok
  next first others hne =>
    obtain ⟨rfl, rfl⟩ := pure_eq_ok.1 h
    rw [hps]
    cases others with
    | nil => exact (hne rfl).elim
    | cons second others =>
        simp [TypeTree.pieces, TypeTree.runs_eq_map, paddedPieces, separated,
          first.element.solid_pieces]

-- ============================================================== grouping

/-- The pieces of the operators and operands of a run. -/
def operandPieces (run : List Operand) : List Piece :=
  run.flatMap fun o => trivia o.1.before :: .word o.1.element.text :: o.2.pieces

/-- Two operands as one are the operands with the operator between them. -/
theorem solid_joinOperands (left : Expr) (op : LeftPadded BinaryOp)
    (right : Expr) : solid (joinOperands left op right).pieces
      = solid left.pieces ++ gap op.before ++ .word op.element.text ::
        solid right.pieces := by
  rw [left.solid_pieces]
  simp [joinOperands, Expr.pieces]

/-- Grouping a level keeps the run as it is written. -/
theorem solid_groupLevel (level : Nat) (e : Expr) (run : List Operand) :
    solid (groupLevel level e run).1.pieces ++
      solid (operandPieces (groupLevel level e run).2)
      = solid e.pieces ++ solid (operandPieces run) := by
  fun_induction groupLevel level e run with
  | case1 => rfl
  | case2 e op r rest hlevel ih =>
      rw [ih, solid_joinOperands]
      simp [operandPieces]
  | case3 e op r rest hlevel r' rest' hgroup ih =>
      simp only [hgroup] at ih
      simp only [operandPieces, List.flatMap_cons, solid_append] at ih ⊢
      simp [ih]

/-- What a level leaves in the run are the operators of the other levels. -/
theorem map_fst_groupLevel (level : Nat) (e : Expr) (run : List Operand) :
    (groupLevel level e run).2.map Prod.fst
      = (run.map Prod.fst).filter fun op => op.element.level ≠ level := by
  fun_induction groupLevel level e run with
  | case1 => rfl
  | case2 e op r rest hlevel ih => simp [ih, hlevel]
  | case3 e op r rest hlevel r' rest' hgroup ih =>
      simp only [hgroup] at ih
      simp [ih, hlevel]

theorem solid_groupLevels (levels : List Nat) (run : Expr × List Operand) :
    solid (groupLevels levels run).1.pieces ++
      solid (operandPieces (groupLevels levels run).2)
      = solid run.1.pieces ++ solid (operandPieces run.2) := by
  induction levels generalizing run with
  | nil => rfl
  | cons level levels ih => rw [groupLevels, ih, solid_groupLevel]

theorem map_fst_groupLevels (levels : List Nat) (run : Expr × List Operand) :
    (groupLevels levels run).2.map Prod.fst
      = (run.2.map Prod.fst).filter fun op => op.element.level ∉ levels := by
  induction levels generalizing run with
  | nil => exact (List.filter_eq_self.2 fun op _ => by simp).symm
  | cons level levels ih =>
      rw [groupLevels, ih, map_fst_groupLevel, List.filter_filter]
      refine List.filter_congr fun op _ => ?_
      simp [Bool.and_comm]

/-- Grouping all levels leaves no operator in the run. -/
theorem groupLevels_snd (run : Expr × List Operand) :
    (groupLevels [5, 4, 3, 2, 1, 0] run).2 = [] := by
  have hall : ∀ op : BinaryOp, op.level ∈ [5, 4, 3, 2, 1, 0] := by
    intro op
    cases op <;> decide
  have hfst := map_fst_groupLevels [5, 4, 3, 2, 1, 0] run
  rw [List.filter_eq_nil_iff.2 fun op _ =>
    mt decide_eq_true_iff.1 (not_not_intro (hall op.element))] at hfst
  exact List.map_eq_nil_iff.1 hfst

/-- The expression of a run is the run. -/
theorem solid_group (first : Expr) (run : List Operand) :
    solid (group first run).pieces =
      solid first.pieces ++ solid (operandPieces run) := by
  have h := solid_groupLevels [5, 4, 3, 2, 1, 0] (first, run)
  rw [groupLevels_snd] at h
  simpa [group, operandPieces] using h

-- =============================================================== postfix

theorem asLiteral_eq_some {t : Token} {e : Expr} (h : asLiteral t = some e) :
    e = .literal t.lead t.word.text none := by
  unfold asLiteral at h
  split at h
  next s hs => cases h; rw [hs, Word.text]
  next s hs =>
    split at h
    · cases h; rw [hs, Word.text]
    · cases h
  next => cases h

/-- The arguments of a call, where expressions are read as they are written. -/
theorem argumentsWith_reads {nested : Parser Expr}
    (hn : Reads nested Expr.pieces) :
    Reads (argumentsWith nested) (containerPieces Expr.pieces "(" ")") :=
  hn.delimited "(" ")"

theorem primaryWith_reads {nested : Parser Expr}
    (hn : Reads nested Expr.pieces) :
    Reads (primaryWith nested) Expr.pieces := by
  intro ts rest e h
  simp only [primaryWith, bind_eq_ok] at h
  obtain ⟨literal?, t₁, h₁, h⟩ := h
  have hliteral := Reads.take? Expr.pieces
    (fun _ _ hl => by simp [asLiteral_eq_some hl, Expr.pieces]) h₁
  cases literal? with
  | some literal =>
      obtain ⟨rfl, rfl⟩ := pure_eq_ok.1 h
      exact hliteral
  | none =>
  obtain ⟨this?, t₂, h₂, h⟩ := bind_eq_ok.1 h
  have hthis := keyword?_reads "this" h₂
  cases this? with
  | some lead =>
      obtain ⟨rfl, rfl⟩ := pure_eq_ok.1 h
      simpa [hthis, Expr.pieces, Ident.pieces] using hliteral
  | none =>
  obtain ⟨open?, t₃, h₃, h⟩ := bind_eq_ok.1 h
  have hopen := symbol?_reads "(" h₃
  cases open? with
  | some lead =>
      obtain ⟨inner, t₄, h₄, after, t₅, h₅, h⟩ := by
        simpa only [bind_eq_ok] using h
      obtain ⟨rfl, rfl⟩ := pure_eq_ok.1 h
      simp_all [Expr.pieces, hn h₄, symbol_reads ")" h₅]
  | none =>
  obtain ⟨new?, t₄, h₄, h⟩ := bind_eq_ok.1 h
  have hnew := keyword?_reads "new" h₄
  cases new? with
  | some lead =>
      obtain ⟨base, t₅, h₅, args, t₆, h₆, h⟩ := by
        simpa only [bind_eq_ok] using h
      obtain ⟨rfl, rfl⟩ := pure_eq_ok.1 h
      simp_all [Expr.pieces, classType_reads h₅, argumentsWith_reads hn h₆,
        containerPieces, Expr.runs_eq_map]
  | none =>
  obtain ⟨first, t₅, h₅, called, t₆, h₆, h⟩ := by
    simpa only [bind_eq_ok] using h
  obtain rfl := isNext_eq_ok h₆
  have hfirst := ident_reads h₅
  split at h
  · obtain ⟨args, t₇, h₇, h⟩ := bind_eq_ok.1 h
    obtain ⟨rfl, rfl⟩ := pure_eq_ok.1 h
    simp_all [Expr.pieces, Expr.selectPieces, Ident.pieces,
      argumentsWith_reads hn h₇, containerPieces, Expr.runs_eq_map]
  · obtain ⟨rfl, rfl⟩ := pure_eq_ok.1 h
    simp_all [Expr.pieces]

/-- The start of an expression and what is read after it are the expression. -/
theorem postfixRest_reads {nested : Parser Expr}
    (hn : Reads nested Expr.pieces) {n : Nat} :
    ∀ {target e : Expr} {ts rest : List Token},
      postfixRest nested n target ts = .ok (e, rest) →
      solid target.pieces ++ Token.flat ts =
        solid e.pieces ++ Token.flat rest := by
  induction n with
  | zero => intro target e ts rest h; exact absurd h stuck_ne_ok
  | succ n ih =>
      intro target e ts rest h
      simp only [postfixRest, bind_eq_ok] at h
      obtain ⟨dot?, t₁, h₁, h⟩ := h
      have hdot := symbol?_reads "." h₁
      cases dot? with
      | none =>
          obtain ⟨rfl, rfl⟩ := pure_eq_ok.1 h
          simp [hdot]
      | some dot =>
      rw [hdot, target.solid_pieces]
      obtain ⟨class?, t₂, h₂, h⟩ := bind_eq_ok.1 h
      have hclass := keyword?_reads "class" h₂
      cases class? with
      | some lead =>
          rw [hclass, ← ih h]
          simp [Expr.pieces, Ident.pieces]
      | none =>
      obtain ⟨last, t₃, h₃, called, t₄, h₄, h⟩ := by
        simpa only [bind_eq_ok] using h
      obtain rfl := isNext_eq_ok h₄
      rw [hclass, ident_reads h₃]
      split at h
      · obtain ⟨args, t₅, h₅, h⟩ := bind_eq_ok.1 h
        rw [argumentsWith_reads hn h₅, ← ih h]
        simp [Expr.pieces, Expr.selectPieces, containerPieces, Expr.runs_eq_map]
      · rw [← ih h]
        simp [Expr.pieces]

theorem postfixWith_reads {nested : Parser Expr}
    (hn : Reads nested Expr.pieces) :
    Reads (postfixWith nested) Expr.pieces := by
  intro ts rest e h
  obtain ⟨start, t₁, h₁, h₂⟩ := bind_eq_ok.1 h
  rw [primaryWith_reads hn h₁]
  exact postfixRest_reads hn h₂

-- ============================================================= operators

theorem asUnaryOp_eq_some {t : Token} {op : LeftPadded UnaryOp}
    (h : asUnaryOp t = some op) :
    op.before = t.lead ∧ op.element.text = t.word.text := by
  unfold asUnaryOp at h
  split at h
  next s hs =>
    obtain ⟨o, ho, rfl⟩ := Option.map_eq_some_iff.1 h
    refine ⟨rfl, ?_⟩
    rw [hs]
    unfold UnaryOp.ofText? at ho
    split at ho
    next h₁ => cases ho; exact h₁.symm
    next =>
      split at ho
      next h₂ => cases ho; exact h₂.symm
      next => cases ho
  next => cases h

theorem asBinaryOp_eq_some {t : Token} {op : LeftPadded BinaryOp}
    (h : asBinaryOp t = some op) :
    op.before = t.lead ∧ op.element.text = t.word.text := by
  unfold asBinaryOp at h
  split at h
  next s hs =>
    obtain ⟨o, ho, rfl⟩ := Option.map_eq_some_iff.1 h
    have hos := List.find?_some ho
    exact ⟨rfl, by simpa [hs, Word.text] using hos⟩
  next => cases h

theorem operandWith_reads {nested : Parser Expr}
    (hn : Reads nested Expr.pieces) (n : Nat) :
    Reads (operandWith nested n) Expr.pieces := by
  induction n with
  | zero => intro ts rest a h; exact absurd h stuck_ne_ok
  | succ n ih =>
      intro ts rest e h
      simp only [operandWith, bind_eq_ok] at h
      obtain ⟨op?, t₁, h₁, h⟩ := h
      have hop :=
        Reads.take? (fun op => [trivia op.before, .word op.element.text])
        (fun _ _ ho => by simp [asUnaryOp_eq_some ho]) h₁
      rw [hop]
      cases op? with
      | some op =>
          obtain ⟨operand, t₂, h₂, h⟩ := bind_eq_ok.1 h
          obtain ⟨rfl, rfl⟩ := pure_eq_ok.1 h
          simp [ih h₂, Expr.pieces]
      | none => exact postfixWith_reads hn h

theorem operandsWith_reads {nested : Parser Expr}
    (hn : Reads nested Expr.pieces) (n : Nat) :
    Reads (operandsWith nested n) operandPieces := by
  induction n with
  | zero => intro ts rest a h; exact absurd h stuck_ne_ok
  | succ n ih =>
      intro ts rest run h
      simp only [operandsWith, bind_eq_ok] at h
      obtain ⟨op?, t₁, h₁, h⟩ := h
      have hop :=
        Reads.take? (fun op => [trivia op.before, .word op.element.text])
        (fun _ _ ho => by simp [asBinaryOp_eq_some ho]) h₁
      rw [hop]
      cases op? with
      | none =>
          obtain ⟨rfl, rfl⟩ := pure_eq_ok.1 h
          simp [operandPieces]
      | some op =>
          obtain ⟨e, t₂, h₂, run', t₃, h₃, h⟩ := by
            simpa only [bind_eq_ok] using h
          obtain ⟨rfl, rfl⟩ := pure_eq_ok.1 h
          rw [Reads.bounded (operandWith_reads hn) h₂, ih h₃]
          simp [operandPieces]

theorem expressionWith_reads {nested : Parser Expr}
    (hn : Reads nested Expr.pieces) :
    Reads (expressionWith nested) Expr.pieces := by
  intro ts rest e h
  simp only [expressionWith, bind_eq_ok, ahead_eq_ok] at h
  obtain ⟨unary, t₁, ⟨-, rfl⟩, h⟩ := h
  split at h
  · obtain ⟨first, t₂, h₂, run, t₃, h₃, h⟩ := by simpa only [bind_eq_ok] using h
    obtain ⟨rfl, rfl⟩ := pure_eq_ok.1 h
    rw [Reads.bounded (operandWith_reads hn) h₂,
      Reads.bounded (operandsWith_reads hn) h₃, solid_group, List.append_assoc]
  · obtain ⟨first, t₂, h₂, eq?, t₃, h₃, h⟩ := by simpa only [bind_eq_ok] using h
    rw [postfixWith_reads hn h₂, symbol?_reads "=" h₃]
    cases eq? with
    | some before =>
        obtain ⟨value, t₄, h₄, h⟩ := bind_eq_ok.1 h
        obtain ⟨rfl, rfl⟩ := pure_eq_ok.1 h
        rw [hn h₄, first.solid_pieces]
        simp [Expr.pieces]
    | none =>
        obtain ⟨run, t₄, h₄, h⟩ := bind_eq_ok.1 h
        obtain ⟨rfl, rfl⟩ := pure_eq_ok.1 h
        rw [Reads.bounded (operandsWith_reads hn) h₄, solid_group]
        simp

theorem expressionOfDepth_reads (n : Nat) :
    Reads (expressionOfDepth n) Expr.pieces := by
  induction n with
  | zero => intro ts rest a h; exact absurd h stuck_ne_ok
  | succ n ih => exact expressionWith_reads ih

/-- Expressions are read as they are written. -/
theorem expression_reads : Reads expression Expr.pieces :=
  Reads.bounded expressionOfDepth_reads

end Parser

end JavaRefit
