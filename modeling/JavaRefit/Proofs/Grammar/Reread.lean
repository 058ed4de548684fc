/-
How two derivations of the same tokens may differ.

In two ways and no other. Tokens that spell both a declaration and an
expression may be taken for either. And a run of conditions, that is the
heads, plain statements and `else` words that a statement is written
with, may be divided up in more than one way: `Stmt.run` forgets which
`if` an `else` belongs to and nothing else, and two statements with the
same run differ in nothing else.

Chain: after `Derivation`; that any two derivations are so related comes
after.
-/
import Mathlib.Data.List.Forall2
import JavaRefit.Proofs.Grammar.Derivation

namespace JavaRefit

-- ===================================================================== runs

/-- One step of a run of conditions. -/
inductive RunStep where
  | head (head : Head)
  | plain (statement : RightPadded Stmt)
  | otherwise (lead : Trivia)

mutual
/-- A statement as it is written, from left to right. -/
def Stmt.run (after : Trivia) : Stmt → List RunStep
  | .ifElse lead condition thenPart elsePart =>
    .head ⟨lead, false, condition⟩ ::
      (thenPart.element.run thenPart.after ++ Stmt.runElse elsePart)
  | .whileLoop lead condition body =>
    .head ⟨lead, true, condition⟩ :: body.element.run body.after
  | s => [.plain ⟨s, after⟩]

/-- The steps of the branch a condition may have. -/
def Stmt.runElse : Option (Else Stmt) → List RunStep
  | none => []
  | some e => .otherwise e.lead :: e.body.element.run e.body.after
end

/-- A padded statement as it is written. -/
def RightPadded.run (s : RightPadded Stmt) : List RunStep :=
  s.element.run s.after

section
variable (lead after : Trivia) (condition : Parens Expr) (s : RightPadded Stmt)

@[simp] theorem run_ifElse (elsePart : Option (Else Stmt)) :
    (⟨.ifElse lead condition s elsePart, after⟩ : RightPadded Stmt).run =
      .head ⟨lead, false, condition⟩ :: (s.run ++ Stmt.runElse elsePart) := rfl

@[simp] theorem run_whileLoop :
    (⟨.whileLoop lead condition s, after⟩ : RightPadded Stmt).run =
      .head ⟨lead, true, condition⟩ :: s.run := rfl

@[simp] theorem runElse_none : Stmt.runElse none = [] := rfl

@[simp] theorem runElse_some :
    Stmt.runElse (some ⟨lead, s⟩) = .otherwise lead :: s.run := rfl

end

-- =============================================================== statements

mutual
/-- The statements differ in how the same tokens are taken: which `if` each
`else` belongs to, and what is taken for a declaration. -/
inductive RereadStmt : RightPadded Stmt → RightPadded Stmt → Prop
  | run {s t : RightPadded Stmt} : s.after = t.after →
      List.Forall₂ RereadStep s.run t.run → RereadStmt s t

/-- The same for one step of a run. -/
inductive RereadStep : RunStep → RunStep → Prop
  | head (h : Head) : RereadStep (.head h) (.head h)
  | otherwise (lead : Trivia) : RereadStep (.otherwise lead) (.otherwise lead)
  | plain {s t : RightPadded Stmt} :
      RereadPlain s t → RereadStep (.plain s) (.plain t)

/-- The same for statements that do not start with a condition. -/
inductive RereadPlain : RightPadded Stmt → RightPadded Stmt → Prop
  | same (s : RightPadded Stmt) : RereadPlain s s
  | asExpression {us d e after} : SpellsDeclaration us d → SpellsExpr us e →
      RereadPlain ⟨.declaration d, after⟩ ⟨.expr e, after⟩
  | asDeclaration {us d e after} : SpellsDeclaration us d → SpellsExpr us e →
      RereadPlain ⟨.expr e, after⟩ ⟨.declaration d, after⟩
  | block {b b' after} : RereadBlock b b' →
      RereadPlain ⟨.block b, after⟩ ⟨.block b', after⟩
  | tryCatch {lead b b' cs cs' f f' after} :
      RereadBlock b b' → List.Forall₂ RereadCatch cs cs' → RereadFinally f f' →
      RereadPlain ⟨.tryCatch ⟨lead, b, cs, f⟩, after⟩
        ⟨.tryCatch ⟨lead, b', cs', f'⟩, after⟩

/-- Two readings of a block: of its statements, one by one. -/
inductive RereadBlock : Block Stmt → Block Stmt → Prop
  | mk {lead ss ss' close} : List.Forall₂ RereadStmt ss ss' →
      RereadBlock ⟨lead, ss, close⟩ ⟨lead, ss', close⟩

/-- Two readings of a clause: of its body. -/
inductive RereadCatch : Catch Stmt → Catch Stmt → Prop
  | mk {lead parameter b b'} : RereadBlock b b' →
      RereadCatch ⟨lead, parameter, b⟩ ⟨lead, parameter, b'⟩

/-- Two readings of the last block: both absent, or both of its statements. -/
inductive RereadFinally :
    Option (LeftPadded (Block Stmt)) → Option (LeftPadded (Block Stmt)) → Prop
  | none : RereadFinally none none
  | some {before b b'} : RereadBlock b b' →
      RereadFinally (some ⟨before, b⟩) (some ⟨before, b'⟩)
end

-- ================================================================== members

mutual
/-- The members differ in how the statements of their bodies are taken. -/
inductive RereadMember : RightPadded Member → RightPadded Member → Prop
  | same (m : RightPadded Member) : RereadMember m m
  | method {m : Method} {b b' after} : RereadBlock b b' →
      RereadMember ⟨.method { m with body := some b }, after⟩
        ⟨.method { m with body := some b' }, after⟩
  | nested {c c' after} : RereadClass c c' →
      RereadMember ⟨.nested c, after⟩ ⟨.nested c', after⟩

/-- The same for classes. -/
inductive RereadClass : JavaClass → JavaClass → Prop
  | mk {c c' : JavaClass} :
      c' = { c with body := { c.body with statements := c'.body.statements } } →
      List.Forall₂ RereadMember c.body.statements c'.body.statements →
      RereadClass c c'
end

/-- The files differ in how the statements of their classes are taken. -/
def RereadUnit (cu cu' : CompilationUnit) : Prop :=
  cu' = { cu with classes := cu'.classes } ∧
    List.Forall₂ RereadClass cu.classes cu'.classes

end JavaRefit
