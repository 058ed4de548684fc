/-
What stands between the parentheses of catch clauses.

Wherever in a class a catch clause stands, its parameter is spelled by
some of the tokens of the class, and where these are separated, so are
they (`declaresWritten_topClass`). A legible parameter is what that says
of names.

Chain: after `Layout`; that only legible clauses can be read again rests
on it (`CatchRule.Reread`).
-/
import JavaRefit.Proofs.Grammar.Layout
import JavaRefit.Proofs.Reading.Conditional
import JavaRefit.Proofs.Tree.Walk

namespace JavaRefit

open Spelling Token

/-- What the clauses of some `try` statements declare can be written. -/
def DeclaresWritten (ts : List (Try Stmt)) : Prop :=
  ∀ t ∈ ts, ∀ c ∈ t.catches,
    (ParameterWith SpellsCatchType).Writes c.declaration

/-- Where no try is, no clause is. -/
theorem DeclaresWritten.of_eq_nil {ts : List (Try Stmt)} (h : ts = []) :
    DeclaresWritten ts := by
  rw [h]
  exact List.forall_mem_nil _

/-- What holds of the clauses of two runs holds of those of each. -/
theorem declaresWritten_append {ts us : List (Try Stmt)} :
    DeclaresWritten (ts ++ us) ↔ DeclaresWritten ts ∧ DeclaresWritten us :=
  List.forall_mem_append

/-- What holds of the clauses of all holds of those of each. -/
theorem declaresWritten_flatMap {α : Type} {l : List α}
    {f : α → List (Try Stmt)} :
    DeclaresWritten (l.flatMap f) ↔ ∀ a ∈ l, DeclaresWritten (f a) :=
  List.forall_mem_flatMap

-- ============================================================ statements

section

variable {R : Spelling (RightPadded Stmt)}
  (hR : ∀ ⦃p⦄, R.Writes p → DeclaresWritten (Node.tries p.element.walk))
include hR

/-- The clauses in a block that is written are written. -/
theorem declaresWritten_braced {b : Block Stmt} (h : (Braced R).Writes b) :
    DeclaresWritten (Node.tries (Stmt.walkBlock b)) := by
  obtain ⟨us, ⟨hps⟩, hsep⟩ := h
  obtain ⟨hsep, -, -⟩ := separated_append.1 hsep.tail
  rw [Stmt.tries_walkBlock, declaresWritten_flatMap]
  exact fun p hp => hR (writes_of_many hps hsep p hp)

/-- The parameter of a clause that is written is written, and so are the
clauses in its body. -/
theorem declaresWritten_catch {c : Catch Stmt} (h : (CatchWith R).Writes c) :
    (ParameterWith SpellsCatchType).Writes c.declaration ∧
      DeclaresWritten (Node.tries (Stmt.walkBlock c.body)) := by
  obtain ⟨us, ⟨hd, hb⟩, hsep⟩ := h
  obtain ⟨hsep, hsep', -⟩ := separated_append.1 hsep.tail.tail
  exact ⟨⟨_, hd, hsep⟩, declaresWritten_braced hR ⟨_, hb, hsep'.tail⟩⟩

/-- The clauses in a statement without branches are written: its own and those
below. -/
theorem declaresWritten_plain {p : RightPadded Stmt}
    (h : (PlainWith R).Writes p) :
    DeclaresWritten (Node.tries p.element.walk) := by
  obtain ⟨us, h, hsep⟩ := h
  cases h with
  | block hb => exact declaresWritten_braced hR ⟨_, hb, hsep⟩
  | tryCatch hb hcs hf =>
      obtain ⟨hsep, hsepf, -⟩ := separated_append.1 hsep.tail
      obtain ⟨hsepb, hsepcs, -⟩ := separated_append.1 hsep
      have hclauses :=
        fun c hc => declaresWritten_catch hR (writes_of_many hcs hsepcs c hc)
      rw [Stmt.walk, Try.tries_walk, ← List.singleton_append,
        declaresWritten_append, declaresWritten_append, declaresWritten_append,
        declaresWritten_flatMap]
      refine ⟨List.forall_mem_singleton.2 fun c hc => (hclauses c hc).1,
        ⟨declaresWritten_braced hR ⟨_, hb, hsepb⟩, fun c hc =>
          (hclauses c hc).2⟩, ?_⟩
      cases hf with
      | none => exact .of_eq_nil rfl
      | some hb => exact declaresWritten_braced hR ⟨_, hb, hsepf.tail⟩
  | empty => exact .of_eq_nil rfl
  | throwing _ => exact .of_eq_nil (Stmt.tries_walk_throwing _ _)
  | returningNone => exact .of_eq_nil rfl
  | returning _ => exact .of_eq_nil (Stmt.tries_walk_returning _ _)
  | declaration _ =>
      exact .of_eq_nil (Node.tries_eq_nil (Variables.isBelowStmt_walk _))
  | expr _ _ => exact .of_eq_nil (Node.tries_eq_nil (Expr.isBelowStmt_walk _))

/-- The clauses in a statement are written if those in what it nests are. -/
theorem declaresWritten_statementWith {p : RightPadded Stmt}
    (h : (StatementWith R).Writes p) :
    DeclaresWritten (Node.tries p.element.walk) := by
  obtain ⟨us, ⟨-, hbody, hbranches, -⟩, hsep⟩ := h
  obtain ⟨hsep, hsepbs, -⟩ := separated_append.1 hsep
  obtain ⟨-, hsepb, -⟩ := separated_append.1 hsep
  refine Branch.shape_induction (H := fun _ => True)
    (Q := fun p => DeclaresWritten (Node.tries p.element.walk)) ?_ ?_ ?_
      (fun _ _ => trivial)
    (declaresWritten_plain hR ⟨_, hbody, hsepb⟩) fun b hb =>
      ⟨fun _ _ => trivial, ?_⟩
  · intro h p _ hp
    rwa [Stmt.tries_walk_whileLoop]
  · intro h p _ hp
    rw [Stmt.tries_walk_ifElse, declaresWritten_append]
    exact ⟨hp, .of_eq_nil rfl⟩
  · intro h p lead q _ hp hq
    rw [Stmt.tries_walk_ifElse, declaresWritten_append, declaresWritten_flatMap]
    exact ⟨hp, List.forall_mem_singleton.2 hq⟩
  · obtain ⟨us, ⟨-, hbody⟩, hsep⟩ := writes_of_many hbranches hsepbs b hb
    obtain ⟨-, hsep, -⟩ := separated_append.1 hsep.tail
    exact declaresWritten_plain hR ⟨_, hbody, hsep⟩

end

/-- The clauses in a statement that is written are written. -/
theorem declaresWritten_stmt ⦃p : RightPadded Stmt⦄ (h : SpellsStmt.Writes p) :
    DeclaresWritten (Node.tries p.element.walk) := by
  obtain ⟨us, ⟨n, hp⟩, hsep⟩ := h
  induction n generalizing us p with
  | zero => cases hp
  | succ n ih =>
      exact declaresWritten_statementWith (fun p ⟨us, hp, hsep⟩ =>
        ih us hsep hp) ⟨us, hp, hsep⟩

-- =============================================================== members

/-- The clauses of a method are those of its body. -/
theorem declaresWritten_method {lead : Trivia} {ms : List Modifier}
    {returnType : Option TypeTree} {i : Ident} {mayLackBody : Bool}
    {m : RightPadded Member}
    (h : (MethodWith lead ms returnType i mayLackBody).Writes m) :
    DeclaresWritten (Node.tries m.element.walk) := by
  obtain ⟨us, h, hsep⟩ := h
  cases h with
  | bodied _ _ hbody =>
      obtain ⟨-, hsep, -⟩ := separated_append.1 hsep
      show DeclaresWritten (Node.tries (Method.walk _))
      rw [Method.tries_walk, declaresWritten_flatMap]
      exact List.forall_mem_singleton.2
        (declaresWritten_braced declaresWritten_stmt ⟨_, hbody, hsep⟩)
  | abstract _ _ _ =>
      show DeclaresWritten (Node.tries (Method.walk _))
      rw [Method.tries_walk]
      exact .of_eq_nil rfl

/-- The clauses of a class are those of its members. -/
theorem declaresWritten_class {R : Spelling (RightPadded Member)}
    (hR : ∀ ⦃p⦄, R.Writes p → DeclaresWritten (Node.tries p.element.walk))
    {lead : Trivia} {ms : List Modifier} {kind : LeftPadded ClassKind}
    {c : JavaClass} (h : (ClassWith R lead ms kind).Writes c) :
    DeclaresWritten (Node.tries c.walk) := by
  obtain ⟨us, ⟨i, hextends, himplements, ⟨hps⟩⟩, hsep⟩ := h
  obtain ⟨-, hsep, -⟩ := separated_append.1 hsep.tail
  obtain ⟨hsep, -, -⟩ := separated_append.1 hsep.tail
  rw [ClassDecl.tries_walk, declaresWritten_flatMap]
  exact fun p hp => hR (writes_of_many hps hsep p hp)

theorem declaresWritten_memberWith {R : Spelling (RightPadded Member)}
    (hR : ∀ ⦃p⦄, R.Writes p → DeclaresWritten (Node.tries p.element.walk))
    {p : RightPadded Member} (h : (MemberWith R).Writes p) :
    DeclaresWritten (Node.tries p.element.walk) := by
  obtain ⟨us, ⟨hms, hm, hled⟩, hsep⟩ := h
  obtain ⟨-, hsep, -⟩ := separated_append.1 (separated_of_led hled hsep)
  cases hm with
  | nested _ hc => exact declaresWritten_class hR ⟨_, hc, hsep.tail⟩
  | void i hm => exact declaresWritten_method ⟨_, hm, hsep.tail.tail⟩
  | constructor i hm => exact declaresWritten_method ⟨_, hm, hsep.tail⟩
  | method i _ hm =>
      obtain ⟨-, hsep, -⟩ := separated_append.1 hsep
      exact declaresWritten_method ⟨_, hm, hsep.tail⟩
  | field _ _ =>
      exact .of_eq_nil (Node.tries_eq_nil (Variables.isBelowStmt_walk _))

/-- The clauses in a member that is written are written. -/
theorem declaresWritten_member ⦃p : RightPadded Member⦄
    (h : SpellsMember.Writes p) :
    DeclaresWritten (Node.tries p.element.walk) := by
  obtain ⟨us, ⟨n, hp⟩, hsep⟩ := h
  induction n generalizing us p with
  | zero => cases hp
  | succ n ih =>
      exact declaresWritten_memberWith (fun p ⟨us, hp, hsep⟩ => ih us hsep hp)
        ⟨us, hp, hsep⟩

/-- In a class that can be written, what catch clauses declare can be. -/
theorem declaresWritten_topClass {c : JavaClass} (h : SpellsTopClass.Writes c) :
    DeclaresWritten (Node.tries c.walk) := by
  obtain ⟨us, ⟨hms, hkind, hc, hled⟩, hsep⟩ := h
  obtain ⟨-, hsep, -⟩ := separated_append.1 (separated_of_led hled hsep)
  exact declaresWritten_class declaresWritten_member ⟨_, hc, hsep.tail⟩

end JavaRefit
