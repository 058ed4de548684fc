/-
Operators between operands, in a run and level by level.

The rules build an expression from the loosest operator inwards; the
reader takes operands and operators as they come and groups them from the
tightest level outwards. Both come to the same. After a level is grouped,
what is left in the run is spelled by that level (`binaryWith_group`),
and an expression of some level is what grouping makes of its run
(`exists_run_of_binaryWith`): the operator that is outermost is passed
over while the tighter levels are grouped, on either side of it, and then
is the last of its own level.

Chain: after `Rules`; both directions of reading use it.
-/
import JavaRefit.Proofs.Grammar.Rules
import JavaRefit.Proofs.Reading.Expr

namespace JavaRefit

/-- Operators, each with an operand after it. -/
inductive OperandsWith (R : Spelling Expr) : Spelling (List Parser.Operand)
  | nil : OperandsWith R [] []
  | cons {t op us e vs run} : Parser.asBinaryOp t = some op → R us e →
      OperandsWith R vs run → OperandsWith R (t :: (us ++ vs)) ((op, e) :: run)

/-- Two runs of operands are spelled one behind the other. -/
theorem OperandsWith.append {R : Spelling Expr} {us vs : List Token}
    {run run' : List Parser.Operand} (h : OperandsWith R us run)
    (h' : OperandsWith R vs run') :
    OperandsWith R (us ++ vs) (run ++ run') := by
  induction h with
  | nil => exact h'
  | cons hop he _ ih =>
      rw [List.cons_append, List.append_assoc]
      exact .cons hop he ih

/-- What is spelled by a tighter level is spelled by a looser one. -/
theorem BinaryWith.mono {R : Spelling Expr} {level level' : Nat}
    {us : List Token} {e : Expr} (hle : level ≤ level')
    (h : BinaryWith R level' us e) : BinaryWith R level us e := by
  cases h with
  | operand h => exact .operand h
  | binary hop hlevel hleft hright =>
      exact .binary hop (Nat.le_trans hle hlevel) hleft hright

/-- Operands of a tighter level are operands of a looser one. -/
theorem OperandsWith.mono {R : Spelling Expr} {level level' : Nat}
    {us : List Token} {run : List Parser.Operand} (hle : level ≤ level')
    (h : OperandsWith (BinaryWith R level') us run) :
    OperandsWith (BinaryWith R level) us run := by
  induction h with
  | nil => exact .nil
  | cons hop he _ ih => exact .cons hop (he.mono hle) ih

namespace Parser

variable {R : Spelling Expr}

-- ========================================================== from the run

/-- Grouping a level leaves operands that are spelled by that level. -/
theorem binaryWith_groupLevel {level : Nat} {us vs : List Token} {e : Expr}
    {run : List Operand} (he : BinaryWith R level us e)
    (hrun : OperandsWith (BinaryWith R (level + 1)) vs run) :
    ∃ us' vs', us ++ vs = us' ++ vs' ∧
    BinaryWith R level us' (groupLevel level e run).1 ∧
      OperandsWith (BinaryWith R level) vs' (groupLevel level e run).2 := by
  fun_induction groupLevel level e run generalizing us vs with
  | case1 e =>
      cases hrun
      exact ⟨us, [], rfl, he, .nil⟩
  | case2 e op r rest hlevel ih =>
      cases hrun with
      | @cons t _ ws _ xs _ hop hr hrest =>
          subst hlevel
          obtain ⟨us', vs', heq, hl, hr'⟩ :=
            ih (.binary hop (Nat.le_refl _) he hr) hrest
          exact ⟨us', vs', by simpa using heq, hl, hr'⟩
  | case3 e op r rest hlevel r' rest' hgroup ih =>
      cases hrun with
      | @cons t _ ws _ xs _ hop hr hrest =>
          obtain ⟨us', vs', heq, hl, hr'⟩ := ih (hr.mono level.le_succ) hrest
          rw [hgroup] at hl hr'
          refine ⟨us, t :: (us' ++ vs'), by rw [heq], he, .cons hop hl hr'⟩

/-- Grouping the levels below some level, the tightest first, leaves operands
that are spelled by the loosest. -/
theorem binaryWith_groupLevels {level : Nat} {us vs : List Token} {e : Expr}
    {run : List Operand} (he : BinaryWith R level us e)
    (hrun : OperandsWith (BinaryWith R level) vs run) :
    ∃ us' vs', us ++ vs = us' ++ vs' ∧
      BinaryWith R 0 us' (groupLevels (List.range level).reverse (e, run)).1 ∧
      OperandsWith (BinaryWith R 0) vs'
        (groupLevels (List.range level).reverse (e, run)).2 := by
  induction level generalizing us vs e run with
  | zero => exact ⟨us, vs, rfl, he, hrun⟩
  | succ level ih =>
      obtain ⟨us', vs', heq, he', hrun'⟩ :=
        binaryWith_groupLevel (he.mono level.le_succ) hrun
      rw [List.range_succ, List.reverse_append]
      obtain ⟨us'', vs'', heq', h⟩ := ih he' hrun'
      exact ⟨us'', vs'', heq.trans heq', h⟩

/-- The expression that a run of operands is grouped to is spelled by the
run. -/
theorem binaryWith_group {us vs : List Token} {e : Expr} {run : List Operand}
    (he : OperandWith R us e) (hrun : OperandsWith (OperandWith R) vs run) :
    BinaryWith R 0 (us ++ vs) (group e run) := by
  have hrun' : OperandsWith (BinaryWith R 6) vs run := by
    induction hrun with
    | nil => exact .nil
    | cons hop he _ ih => exact .cons hop (.operand he) ih
  obtain ⟨us', vs', heq, hbinary, hleft⟩ :=
    binaryWith_groupLevels (.operand he) hrun'
  have hnone : (groupLevels (List.range 6).reverse (e, run)).2 = [] :=
    groupLevels_snd (e, run)
  rw [hnone] at hleft
  cases hleft
  rw [heq, List.append_nil]
  exact hbinary

-- =============================================================== to the run

/-- An operator of another level parts a run in two that are grouped on their
own. -/
theorem groupLevel_append {level : Nat} {op : LeftPadded BinaryOp}
    (hop : op.element.level ≠ level) (e r : Expr) (run run' : List Operand) :
    groupLevel level e (run ++ (op, r) :: run') =
      ((groupLevel level e run).1, (groupLevel level e run).2 ++
        (op, (groupLevel level r run').1) :: (groupLevel level r run').2) := by
  fun_induction groupLevel level e run with
  | case1 e => simp [groupLevel, hop]
  | case2 e op' r' rest hlevel ih => simp [groupLevel, hlevel, ih]
  | case3 e op' r' rest hlevel r'' rest' hgroup ih =>
      rw [hgroup] at ih
      simp [groupLevel, hlevel, ih]

/-- An operator of another level is no matter for how what stands before it is
grouped. -/
theorem groupLevels_append {levels : List Nat} {op : LeftPadded BinaryOp}
    (hop : op.element.level ∉ levels) (e r : Expr) (run run' : List Operand) :
    groupLevels levels (e, run ++ (op, r) :: run') =
      ((groupLevels levels (e, run)).1, (groupLevels levels (e, run)).2 ++
        (op, (groupLevels levels (r, run')).1) ::
          (groupLevels levels (r, run')).2) := by
  induction levels generalizing e r run run' with
  | nil => rfl
  | cons level levels ih =>
      rw [List.mem_cons, not_or] at hop
      simp only [groupLevels, groupLevel_append hop.1]
      exact ih hop.2 _ _ _ _

/-- The last operator of a level joins what its level makes of the operands
before it. -/
theorem groupLevel_concat {level : Nat} {op : LeftPadded BinaryOp}
    (hop : op.element.level = level) {e left : Expr} {run : List Operand}
    (h : groupLevel level e run = (left, [])) (r : Expr) :
    groupLevel level e (run ++ [(op, r)]) = (joinOperands left op r, []) := by
  fun_induction groupLevel level e run with
  | case1 e =>
      cases h
      simp [groupLevel, hop]
  | case2 e op' r' rest hlevel ih => simp [groupLevel, hlevel, ih h]
  | case3 e op' r' rest hlevel r'' rest' hgroup ih => simp at h

/-- One operand is not grouped. -/
theorem groupLevels_nil (levels : List Nat) (e : Expr) :
    groupLevels levels (e, []) = (e, []) := by
  induction levels with
  | nil => rfl
  | cons level levels ih => exact ih

/-- Levels are grouped one after the other. -/
theorem groupLevels_levels_append (levels levels' : List Nat)
    (run : Expr × List Operand) :
    groupLevels (levels ++ levels') run =
      groupLevels levels' (groupLevels levels run) := by
  induction levels generalizing run with
  | nil => rfl
  | cons level levels ih => exact ih _

/-- The levels from some level on, the tightest first. -/
def tighter (level : Nat) : List Nat :=
  (List.range' level (6 - level)).reverse

/-- The levels that bind at least as tightly. -/
theorem mem_tighter {level l : Nat} :
    l ∈ tighter level ↔ level ≤ l ∧ l < 6 := by
  simp only [tighter, List.mem_reverse, List.mem_range'_1]
  omega

/-- A level is the loosest of those from it on. -/
theorem tighter_eq {level : Nat} (h : level < 6) :
    tighter level = tighter (level + 1) ++ [level] := by
  obtain ⟨k, hk⟩ : ∃ k, 6 - level = k + 1 := ⟨5 - level, by omega⟩
  have hk' : 6 - (level + 1) = k := by omega
  rw [tighter, tighter, hk, hk', List.range'_succ, List.reverse_cons]

/-- The levels from some level on are those from a tighter one on and others. -/
theorem exists_tighter_append {level level' : Nat} (h : level ≤ level') :
    ∃ levels, tighter level = tighter level' ++ levels := by
  induction h with
  | refl => exact ⟨[], (List.append_nil _).symm⟩
  | @step l _ ih =>
      obtain ⟨levels, heq⟩ := ih
      by_cases hlt : l < 6
      · exact ⟨[l] ++ levels, by rw [heq, tighter_eq hlt, List.append_assoc]⟩
      · have hnil : tighter (l + 1) = [] ∧ tighter l = [] := by
          constructor <;> simp [tighter] <;> omega
        exact ⟨levels, by rw [heq, hnil.1, hnil.2]⟩

/-- There are six levels. -/
theorem level_lt (op : BinaryOp) : op.level < 6 := by
  cases op <;> decide

/-- An expression of some level is what the levels from it on make of a run of
operands. -/
theorem exists_run_of_binaryWith {level : Nat} {us : List Token} {e : Expr}
    (h : BinaryWith R level us e) :
    ∃ us₁ us₂ first run, us = us₁ ++ us₂ ∧ OperandWith R us₁ first ∧
      OperandsWith (OperandWith R) us₂ run ∧
      groupLevels (tighter level) (first, run) = (e, []) := by
  induction h with
  | operand he => exact ⟨_, [], _, [], by simp, he, .nil, groupLevels_nil _ _⟩
  | @binary level t op us left vs right hop hlevel _ _ ihl ihr =>
      obtain ⟨us₁, us₂, first, run, rfl, hfirst, hrun, hleft⟩ := ihl
      obtain ⟨vs₁, vs₂, r, run', rfl, hr, hrun', hright⟩ := ihr
      have hlt := level_lt op.element
      obtain ⟨levels, hlevels⟩ := exists_tighter_append hlevel
      have hpass : op.element.level ∉ tighter (op.element.level + 1) := by
        rw [mem_tighter]
        omega
      rw [tighter_eq hlt, groupLevels_levels_append] at hleft
      refine ⟨us₁, us₂ ++ t :: (vs₁ ++ vs₂), first, run ++ (op, r) :: run',
        by simp, hfirst, hrun.append (.cons hop hr hrun'), ?_⟩
      calc groupLevels (tighter level) (first, run ++ (op, r) :: run')
          = groupLevels levels (groupLevels [op.element.level]
              (groupLevels (tighter (op.element.level + 1))
                (first, run ++ (op, r) :: run'))) := by
            rw [hlevels, groupLevels_levels_append, tighter_eq hlt,
              groupLevels_levels_append]
        _ = groupLevels levels (joinOperands left op right, []) := by
            rw [groupLevels_append hpass, hright]
            exact congrArg _ (groupLevel_concat rfl hleft right)
        _ = (joinOperands left op right, []) := groupLevels_nil _ _

/-- An expression with operators is what its run of operands is grouped to. -/
theorem exists_group_eq {us : List Token} {e : Expr} (h : BinaryWith R 0 us e) :
    ∃ us₁ us₂ first run, us = us₁ ++ us₂ ∧ OperandWith R us₁ first ∧
      OperandsWith (OperandWith R) us₂ run ∧ group first run = e := by
  obtain ⟨us₁, us₂, first, run, hus, hfirst, hrun, hgroup⟩ :=
    exists_run_of_binaryWith h
  exact ⟨us₁, us₂, first, run, hus, hfirst, hrun, congrArg Prod.fst hgroup⟩

end Parser

end JavaRefit
