/-
Attribution meets no node it does not know.

Where nodes are told apart by their kind, attribution can come upon one
it cannot handle. On the tree of a file it does not: it gives what it
gives where the sorts of trees are told apart by their types, and that is
the tree of the file but for the types it puts in (`typedUnit_parseTree`).

# Answers

The steps ask the class path the same questions in the same order, so
each comes down to the step it stands for, with nothing but answers
between (`Attempt.ask`).

Chain: after `Dispatch` and the proofs about attribution; nothing reads
it.
-/
import JavaRefit.Proofs.Attribution.Blank
import JavaRefit.Proofs.Attribution.Dispatch
import JavaRefit.Proofs.Attribution.Untyped
import JavaRefit.Proofs.Grammar.Plain
import JavaRefit.Proofs.Grammar.Text

namespace JavaRefit

open ClassPath (Query)
open Attempt (ask part)

-- =============================================================== answers

namespace Attempt

variable {α β : Type}

@[simp] theorem ask_pure (a : α) : ask (pure a) = pure a := rfl

@[simp] theorem ask_bind (q : Query α) (f : α → Query β) :
    ask (q >>= f) = ask q >>= fun a => ask (f a) := rfl

@[simp] theorem part_ok (a : α) : part (.ok a) = pure a := rfl

end Attempt

open Attempt Loose

-- ================================================================== names

namespace Name

variable (n : Name)

@[simp] theorem dotted_loose : n.loose.dotted = .ok n.dotted := by
  induction n with
  | simple i type => rfl
  | qualified lead outer last type ih =>
      rw [loose, Loose.dotted, ih]
      rfl

@[simp] theorem last_loose : n.loose.last = .ok n.last := by
  cases n <;> rfl

@[simp] theorem type_loose : n.loose.type = n.type := by
  cases n <;> rfl

@[simp] theorem withType_loose (type : Option JavaType) :
    Loose.withType type n.loose = .ok (n.withType type).loose := by
  cases n <;> rfl

/-- A name is looked up by its words, which it has. -/
@[simp] theorem resolveName?_loose (f : FileNames) (cp : ClassPath) :
    Loose.resolveName? f cp n.loose = .ok (f.resolveName? cp n) := by
  cases n with
  | simple i type => rfl
  | qualified lead outer last type =>
      have h := dotted_loose (.qualified lead outer last type)
      rw [loose] at h ⊢
      rw [Loose.resolveName?, h]
      rfl

/-- A name in the place of a type is attributed as a name. -/
theorem typedType_loose (env : Env) :
    typedType env n.loose = loose <$> ask (n.typed env) := by
  have h := n.resolveName?_loose env.names env.classPath
  cases n with
  | simple i type =>
      rw [loose] at h ⊢
      rw [typedType, h]
      simp only [part_ok, typed, pure_bind, ask_bind, ask_pure,
        map_bind, map_pure]
      rfl
  | qualified lead outer last type =>
      rw [loose] at h ⊢
      rw [typedType, h]
      simp only [part_ok, typed, pure_bind, ask_bind, ask_pure,
        map_bind, map_pure]
      rfl

end Name

-- ========================================================== written types

namespace TypeTree

@[simp] theorem type_loose (t : TypeTree) : t.loose.type = t.type := by
  cases t with
  | named n => exact n.type_loose
  | _ => rfl

/-- Types in a row are attributed without a fault, if each is. -/
theorem typedTypes_loose {env : Env} {ps : List (RightPadded TypeTree)}
    (h : ∀ p ∈ ps, typedType env p.element.loose = loose <$>
      ask (p.element.typed env)) :
    typedTypes env (looseAll ps) = looseAll <$> ask (typedAll env ps) := by
  induction ps with
  | nil => rfl
  | cons p ps ih =>
      obtain ⟨hp, hps⟩ := List.forall_mem_cons.1 h
      simp only [looseAll, typedTypes, typedAll, hp, ih hps, ask_bind, ask_pure,
        bind_map_left, map_bind, map_pure]

/-- A written type is attributed as such, without a fault. -/
theorem typedType_loose (env : Env) (t : TypeTree) :
    typedType env t.loose = loose <$> ask (t.typed env) := by
  induction t using TypeTree.induction_on with
  | named n =>
      rw [loose, n.typedType_loose]
      simp only [typed, ask_bind, ask_pure, map_bind, map_pure]
      rfl
  | generic lead base args type ih =>
      simp only [loose, typedType, typed, base.typedType_loose,
        typedTypes_loose ih, ask_bind, ask_pure, bind_map_left, map_bind,
        map_pure, Name.type_loose]
  | primitive lead word type => rfl
  | array lead element dimension type ih =>
      simp only [loose, typedType, typed, ih, ask_bind, ask_pure, bind_map_left,
        map_bind, map_pure, type_loose]
  | union lead alternatives ih =>
      simp only [loose, typedType, typed, typedTypes_loose ih, ask_bind,
        ask_pure, bind_map_left, map_bind, map_pure]

theorem typedList_loose (env : Env) (o : Option (Container TypeTree)) :
    Loose.typedList env (looseList o) = looseList <$>
      ask (typedList env o) := by
  cases o with
  | none => rfl
  | some c =>
      simp only [looseList, Loose.typedList, typedList,
        typedTypes_loose fun p _ => p.element.typedType_loose env, ask_bind,
        ask_pure, bind_map_left, map_bind, map_pure]

end TypeTree

-- =========================================================== expressions

namespace Expr

@[simp] theorem type_loose (e : Expr) : e.loose.type = e.type := by
  cases e <;> rfl

/-- A chain of words stays one as a node of any kind. -/
@[simp] theorem isNameChain_loose (e : Expr) :
    e.loose.isNameChain = e.isNameChain := by
  induction e using Expr.induction_on with
  | access lead target name type ih =>
      rw [loose, Loose.isNameChain, isNameChain, ih]
  | _ => rfl

/-- A chain of words has a dotted text. -/
theorem exists_dotted_of_isNameChain {e : Expr} (h : e.isNameChain = true) :
    ∃ text, e.dotted? = some text ∧ e.loose.dotted = .ok text := by
  induction e using Expr.induction_on with
  | ident i type => exact ⟨i.name, rfl, rfl⟩
  | access lead target name type ih =>
      obtain ⟨text, htext, hloose⟩ := ih h
      refine ⟨text ++ "." ++ name.element.name, ?_, ?_⟩
      · rw [dotted?, htext]
        rfl
      · rw [loose, Loose.dotted, hloose]
        rfl
  | _ => cases h

/-- The words of an access can always be told. -/
@[simp] theorem chainText?_loose (target : Expr) (name : LeftPadded Ident) :
    Loose.chainText? target.loose name = .ok (chainText? target name) := by
  unfold Loose.chainText? chainText?
  rw [isNameChain_loose]
  split
  · next h =>
    obtain ⟨text, htext, hloose⟩ := exists_dotted_of_isNameChain h
    rw [htext, Loose.dotted, hloose]
    rfl
  · rfl

@[simp] theorem accessType_loose (env : Env) (target : Expr)
    (name : LeftPadded Ident) :
    Loose.accessType env target.loose name = accessType env target name := by
  cases target <;> rfl

/-- A chain of words in front of `.class` is read as a class name. -/
theorem typedType_loose (env : Env) {e : Expr} (h : e.isNameChain = true) :
    typedType env e.loose = loose <$> ask (e.typedAsClass env) := by
  obtain ⟨text, htext, hloose⟩ := exists_dotted_of_isNameChain h
  cases e with
  | ident i type =>
      simp only [loose, typedType, typedAsClass, Loose.resolveName?, part_ok,
        pure_bind, ask_bind, ask_pure, map_bind, map_pure]
  | access lead target name type =>
      have hchain : chainText? target name = some text := by
        rw [chainText?]
        exact (if_pos h).trans htext
      rw [loose] at hloose
      have hname : Loose.resolveName? env.names env.classPath
          (.access lead target.loose name type) =
          .ok (some (env.names.resolveDotted env.classPath text)) := by
        rw [Loose.resolveName?, hloose]
        rfl
      simp only [loose, typedType, typedAsClass, hname, hchain, part_ok,
        pure_bind, ask_bind, ask_pure, map_bind, map_pure]
  | _ => cases h

/-- Expressions in a row are attributed without a fault, if each is. -/
theorem typedExprs_loose {env : Env} {ps : List (RightPadded Expr)}
    (h : ∀ p ∈ ps, typedExpr env p.element.loose = loose <$>
      ask (p.element.typed env)) :
    typedExprs env (looseAll ps) = looseAll <$> ask (typedAll env ps) := by
  induction ps with
  | nil => rfl
  | cons p ps ih =>
      obtain ⟨hp, hps⟩ := List.forall_mem_cons.1 h
      simp only [looseAll, typedExprs, typedAll, hp, ih hps, ask_bind, ask_pure,
        bind_map_left, map_bind, map_pure]

@[simp] theorem length_looseAll (ps : List (RightPadded Expr)) :
    (looseAll ps).length = ps.length := by
  induction ps with
  | nil => rfl
  | cons p ps ih => rw [looseAll, List.length_cons, List.length_cons, ih]

/-- An expression is attributed as such, without a fault. -/
theorem typedExpr_loose (env : Env) (e : Expr) :
    typedExpr env e.loose = loose <$> ask (e.typed env) := by
  induction e using Expr.induction_on with
  | ident i type =>
      simp only [loose, typedExpr, typed, ask_bind, ask_pure,
        map_bind, map_pure]
  | access lead target name type ih =>
      simp only [loose, typedExpr, typed, isNameChain_loose, chainText?_loose,
        part_ok, pure_bind]
      split
      · split
        · next hchain =>
          simp only [typedType_loose env hchain, ask_bind, ask_pure,
            bind_map_left, map_bind, map_pure, loose]
        · simp only [ih, ask_bind, ask_pure, bind_map_left, map_bind,
            map_pure, loose]
      · cases (chainText? target name).filter env.classPath.contains with
        | some text => simp only [ask_bind, ask_pure, map_bind, map_pure, loose]
        | none => simp only [ih, ask_bind, ask_pure, bind_map_left, map_bind,
              map_pure, loose, accessType_loose]
  | call lead select name args method ihs iha =>
      cases select with
      | none =>
          simp only [loose, looseSelect, typedExpr, typed, typedExprs_loose iha,
            ask_bind, ask_pure, bind_map_left, map_bind, map_pure,
            length_looseAll]
      | some p =>
          simp only [loose, looseSelect, typedExpr, typed, typedExprs_loose iha,
            ihs p rfl, ask_bind, ask_pure, bind_map_left, map_bind, map_pure,
            length_looseAll, type_loose]
  | new lead base args constructor type ih =>
      simp only [loose, typedExpr, typed, base.typedType_loose,
        typedExprs_loose ih, ask_bind, ask_pure, bind_map_left, map_bind,
        map_pure, length_looseAll, TypeTree.type_loose]
  | literal lead text type =>
      simp only [loose, typedExpr, typed]
      split <;> simp only [ask_bind, ask_pure, map_bind, map_pure, loose]
  | assign lead target value type iht ihv =>
      simp only [loose, typedExpr, typed, iht, ihv, ask_bind, ask_pure,
        bind_map_left, map_bind, map_pure, type_loose]
  | binary lead left operator right type ihl ihr =>
      simp only [loose, typedExpr, typed, ihl, ihr, ask_bind, ask_pure,
        bind_map_left, map_bind, map_pure, type_loose]
  | unary lead operator operand type ih =>
      cases operator <;>
        simp only [loose, typedExpr, typed, ih, ask_bind, ask_pure,
          bind_map_left, map_bind, map_pure, type_loose]
  | parens lead inner type ih =>
      simp only [loose, typedExpr, typed, ih, ask_bind, ask_pure, bind_map_left,
        map_bind, map_pure, type_loose]

end Expr

-- ========================================================== declarations

theorem Expr.typedCondition_loose (env : Env) (c : Parens Expr) :
    Loose.typedCondition env (looseCondition c) = looseCondition <$>
      ask (typedCondition env c) := by
  simp only [Loose.typedCondition, looseCondition, typedCondition,
    typedExpr_loose, ask_bind, ask_pure, bind_map_left, map_bind, map_pure]

theorem Modifier.typedModifier_loose (env : Env) (m : Modifier) :
    typedModifier env m.loose = loose <$> ask (m.typed env) := by
  cases m with
  | keyword lead word => rfl
  | annotated lead name args =>
      cases args with
      | none =>
          simp only [loose, Option.map_none, typedModifier, typed,
            name.typedType_loose, ask_bind, ask_pure, bind_map_left,
            map_bind, map_pure]
      | some c =>
          simp only [loose, Option.map_some, typedModifier, typed,
            name.typedType_loose, Expr.typedExprs_loose fun p _ =>
              p.element.typedExpr_loose env, ask_bind, ask_pure,
            bind_map_left, map_bind, map_pure]

theorem Modifier.typedModifiers_loose (env : Env) (ms : List Modifier) :
    typedModifiers env (ms.map loose) = List.map loose <$>
      ask (typedAll env ms) := by
  unfold typedModifiers typedAll
  induction ms with
  | nil => rfl
  | cons m ms ih =>
      simp only [List.map_cons, List.mapM_cons, typedModifier_loose, ih,
        ask_bind, ask_pure, bind_map_left, map_bind, map_pure]

/-- Variables are attributed one after the other, each where those before are
declared. -/
theorem Variable.typedDeclarators_loose (type : Option JavaType) (env : Env)
    (ps : List (RightPadded Variable)) :
    typedDeclarators type env (looseAll ps) =
      Prod.map looseAll id <$> ask (typedAll type env ps) := by
  induction ps generalizing env with
  | nil => rfl
  | cons p ps ih =>
      simp only [looseAll, loose, typedDeclarators, typedAll, Name.last_loose,
        Name.withType_loose, part_ok, ih]
      cases p.element.initializer with
      | none =>
          simp only [Option.map_none, pure_bind, ask_bind, ask_pure,
            bind_map_left, map_bind, map_pure, Prod.map, looseAll, loose, id]
      | some i =>
          simp only [Option.map_some, i.element.typedExpr_loose, pure_bind,
            ask_bind, ask_pure, bind_map_left, map_bind, map_pure, Prod.map,
            looseAll, loose, id]

theorem Variables.length_looseAll (ps : List (RightPadded Variables)) :
    (looseAll ps).length = ps.length := by
  induction ps with
  | nil => rfl
  | cons p ps ih => rw [looseAll, List.length_cons, List.length_cons, ih]

/-- A declaration is attributed without a fault. -/
theorem Variables.typedVariables_loose (env : Env) (d : Variables) :
    typedVariables env d.loose = Prod.map loose id <$> ask (d.typed env) := by
  simp only [loose, typedVariables, typed, d.typeTree.typedType_loose,
    Variable.typedDeclarators_loose, TypeTree.type_loose,
    Modifier.typedModifiers_loose, Prod.map,
    ask_bind, ask_pure, bind_map_left, map_bind, map_pure, id]

theorem Variables.typedParameters_loose (env : Env)
    (ps : List (RightPadded Variables)) :
    typedParameters env (looseAll ps) = Prod.map looseAll id <$>
      ask (typedAll env ps) := by
  induction ps generalizing env with
  | nil => rfl
  | cons p ps ih =>
      simp only [looseAll, typedParameters, typedAll, typedVariables_loose, ih,
        Prod.map, ask_bind, ask_pure, bind_map_left, map_bind, map_pure, id]

-- ============================================================ statements

section

variable {env : Env} {outer : String}

/-- Statements in a row are attributed without a fault, if each is. -/
theorem Stmt.typedStatements_loose {ps : List (RightPadded Stmt)}
    (h : ∀ p ∈ ps, ∀ env,
      typedStatement env outer p.element.loose =
        Prod.map loose id <$> ask (p.element.typed env)) :
    typedStatements env outer (looseAll ps) = looseAll <$>
      ask (typedAll env ps) := by
  induction ps generalizing env with
  | nil => rfl
  | cons p ps ih =>
      obtain ⟨hp, hps⟩ := List.forall_mem_cons.1 h
      simp only [looseAll, typedStatements, typedAll, hp, ih hps, Prod.map,
        ask_bind, ask_pure, bind_map_left, map_bind, map_pure, id]

theorem Stmt.typedBlock_loose {b : Block Stmt} (h : ∀ p ∈ b.statements, ∀ env,
      typedStatement env outer p.element.loose =
        Prod.map loose id <$> ask (p.element.typed env)) :
    typedStatement env outer (.block (looseBlock b)) =
      (fun b => (.block (looseBlock b), env)) <$> ask (typedBlock env b) := by
  simp only [looseBlock, typedStatement, typedBlock, typedStatements_loose h,
    ask_bind, ask_pure, bind_map_left, map_bind, map_pure]

theorem Catch.typedClauses_loose {cs : List (Catch Stmt)}
    (h : ∀ c ∈ cs, ∀ p ∈ c.body.statements, ∀ env,
      typedStatement env outer p.element.loose =
        Prod.map Stmt.loose id <$> ask (p.element.typed env)) :
    typedClauses env outer (looseAll cs) = looseAll <$>
      ask (typedAll env cs) := by
  induction cs with
  | nil => rfl
  | cons c cs ih =>
      obtain ⟨hc, hcs⟩ := List.forall_mem_cons.1 h
      simp only [looseAll, loose, typedClauses, typedAll, Catch.typed,
        Catch.declaration, Variables.typedVariables_loose,
        Stmt.typedBlock_loose hc, ih hcs, Prod.map, ask_bind,
        ask_pure, bind_map_left, map_bind, map_pure, bind_assoc, pure_bind, id]

end

/-- An expression in the place of a statement is attributed as an expression. -/
theorem Stmt.typedStatement_expr (env : Env) (outer : String) (e : Expr) :
    typedStatement env outer e.loose = (fun e => (e.loose, env)) <$>
      ask (e.typed env) := by
  have h := e.typedExpr_loose env
  have hloose : typedStatement env outer e.loose =
      do return (← typedExpr env e.loose, env) := by
    cases e <;> rfl
  rw [hloose, h, bind_map_left, map_eq_pure_bind]

/-- A statement is attributed as such, without a fault. -/
theorem Stmt.typedStatement_loose (env : Env) (outer : String) (s : Stmt) :
    typedStatement env outer s.loose = Prod.map loose id <$>
      ask (s.typed env) := by
  induction s using Stmt.induction_on generalizing env with
  | block b ih =>
      rw [loose, typedBlock_loose ih, map_eq_pure_bind]
      simp only [typed, ask_bind, ask_pure, map_bind, map_pure,
        Prod.map, loose, id]
  | declaration d =>
      have hd : typedStatement env outer d.loose =
          typedVariables env d.loose := rfl
      rw [loose, hd, d.typedVariables_loose, map_eq_pure_bind]
      simp only [typed, ask_bind, ask_pure, map_bind, map_pure,
        Prod.map, loose, id]
  | expr e =>
      rw [loose, typedStatement_expr, map_eq_pure_bind]
      simp only [typed, ask_bind, ask_pure, map_bind, map_pure,
        Prod.map, loose, id]
  | empty lead => rfl
  | tryCatch t ihb ihc ihf =>
      rw [loose, Try.loose, typedStatement]
      simp only [typed, Try.typed, typedBlock_loose ihb,
        Catch.typedClauses_loose ihc, ask_bind, ask_pure, bind_assoc, pure_bind,
        bind_map_left, map_bind, map_pure, Prod.map, loose,
        Try.loose, id]
      cases hf : t.finally? with
      | none =>
          simp only [looseFinally, typedFinally, ask_pure, pure_bind]
      | some f =>
          simp only [looseFinally, typedFinally, typedBlock_loose (ihf f hf),
            ask_bind, ask_pure, bind_assoc, pure_bind, bind_map_left]
  | throwing lead exception =>
      simp only [loose, typed, typedStatement, exception.typedExpr_loose,
        ask_bind, ask_pure, bind_map_left, map_bind, map_pure, Prod.map, id]
  | returning lead value =>
      cases value with
      | none => rfl
      | some e =>
          simp only [loose, typed, typedStatement, Option.map_some,
            e.typedExpr_loose, ask_bind, ask_pure, bind_map_left, map_bind,
            map_pure, Prod.map, id]
  | ifElse lead condition thenPart elsePart iht ihe =>
      simp only [loose, typed, typedStatement, Expr.typedCondition_loose, iht,
        ask_bind, ask_pure, bind_map_left, map_bind, map_pure, Prod.map, id]
      cases elsePart with
      | none =>
          simp only [looseElse, typedElse, ask_pure, pure_bind]
      | some e =>
          simp only [looseElse, Else.loose, typedElse, Else.typed, ihe e rfl,
            ask_bind, ask_pure, bind_assoc, pure_bind, bind_map_left,
            Prod.map, id]
  | whileLoop lead condition body ih =>
      simp only [loose, typed, typedStatement, Expr.typedCondition_loose, ih,
        ask_bind, ask_pure, bind_map_left, map_bind, map_pure, Prod.map, id]

-- ========================================================= members and classes

theorem Method.typedStatement_loose (env : Env) (outer : String) (m : Method) :
    typedStatement env outer m.loose = (fun m => (m.loose, env)) <$>
      ask (m.typed env) := by
  have hbody (env : Env) (b : Block Stmt) :
      typedStatement env outer (.block (Stmt.looseBlock b)) =
        (fun b => (.block (Stmt.looseBlock b), env)) <$>
          ask (Stmt.typedBlock env b) :=
    Stmt.typedBlock_loose fun p _ env =>
      p.element.typedStatement_loose env outer
  obtain ⟨lead, modifiers, returnType, name, parameters, throws,
      body, type⟩ := m
  cases returnType <;> cases body
  -- the step for methods first: the one for blocks must not be taken in the
  -- body
  all_goals
    simp only [loose, Option.map_none, Option.map_some]
    rw [typedStatement]
    simp only [typed, Variables.typedParameters_loose,
      Modifier.typedModifiers_loose, TypeTree.typedType_loose,
      TypeTree.typedList_loose, Variables.length_looseAll, Prod.map,
      bind_map_left, pure_bind, hbody, ask_bind, ask_pure, map_bind, map_pure,
      Option.map_none, Option.map_some, id]

namespace Member

/-- The names that a declaration declares can always be told. -/
theorem declaredNames_loose (ps : List (RightPadded Variable)) :
    declaredNames (Variable.looseAll ps) =
      .ok (ps.map fun p => p.element.name.last) := by
  induction ps with
  | nil => rfl
  | cons p ps ih =>
      rw [Variable.looseAll, Variable.loose, declaredNames, ih, Name.last_loose]
      rfl

theorem fieldScope_loose (env : Env) (scope : Scope)
    (ps : List (RightPadded Member)) :
    Loose.fieldScope env scope (looseAll ps) =
      ask (fieldScope env scope ps) := by
  induction ps generalizing scope with
  | nil => rfl
  | cons p ps ih =>
      obtain ⟨m, after⟩ := p
      cases m with
      | field d =>
          simp only [looseAll, fieldScope, loose, Variables.loose,
            Loose.fieldScope, d.typeTree.typedType_loose,
            declaredNames_loose, part_ok, pure_bind, bind_map_left,
            TypeTree.type_loose, List.map_map, Function.comp_def, ih, ask_bind]
      | method m => simp only [looseAll, fieldScope, loose, Method.loose,
            Loose.fieldScope, ih]
      | nested c => simp only [looseAll, fieldScope, loose, ClassDecl.loose,
            Loose.fieldScope, ih]

/-- Members in a row are attributed without a fault, if each is. -/
theorem typedStatements_loose {outer : String} {ps : List (RightPadded Member)}
    (h : ∀ p ∈ ps, ∀ env outer, typedStatement env outer p.element.loose =
      Prod.map loose id <$> ask (p.element.typed env outer)) (env : Env) :
    typedStatements env outer (looseAll ps) = looseAll <$>
      ask (typedAll env outer ps) := by
  induction ps generalizing env with
  | nil => rfl
  | cons p ps ih =>
      obtain ⟨hp, hps⟩ := List.forall_mem_cons.1 h
      simp only [looseAll, typedStatements, typedAll, hp, ih hps, Prod.map,
        ask_bind, ask_pure, bind_map_left, map_bind, map_pure, id]

theorem typedStatement_loose_of_members {c : JavaClass}
    (h : ∀ p ∈ c.body.statements, ∀ env outer,
      typedStatement env outer p.element.loose =
      Prod.map loose id <$> ask (p.element.typed env outer)) (env : Env)
    (outer : String) : typedStatement env outer c.loose =
      (fun c => (c.loose, env)) <$> ask (c.typed env outer) := by
  rw [ClassDecl.loose, typedStatement, ClassDecl.typed]
  simp only [looseBlock, typedBlock, Name.last_loose, Name.withType_loose,
    fieldScope_loose, typedStatements_loose h, Modifier.typedModifiers_loose,
    TypeTree.typedList_loose, part_ok,
    pure_bind, ask_bind, ask_pure, bind_assoc, bind_map_left, map_bind,
    map_pure, ClassDecl.loose]

/-- A member is attributed as such, without a fault. -/
theorem typedStatement_loose (env : Env) (outer : String) (m : Member) :
    typedStatement env outer m.loose = Prod.map loose id <$>
      ask (m.typed env outer) := by
  induction m using Member.induction_on generalizing env outer with
  | field d =>
      have hd : typedStatement env outer d.loose =
          typedVariables env d.loose := rfl
      rw [loose, hd, d.typedVariables_loose, map_eq_pure_bind]
      simp only [typed, ask_bind, ask_pure, map_bind, map_pure,
        Prod.map, loose, id]
  | method m =>
      rw [loose, m.typedStatement_loose, map_eq_pure_bind]
      simp only [typed, ask_bind, ask_pure, map_bind, map_pure,
        Prod.map, loose, id]
  | nested c ih =>
      rw [loose, typedStatement_loose_of_members ih, map_eq_pure_bind]
      simp only [typed, ask_bind, ask_pure, map_bind, map_pure,
        Prod.map, loose, id]

end Member

/-- A class of a file is attributed as such, without a fault. -/
theorem ClassDecl.typedClass_loose (env : Env) (outer : String)
    (c : JavaClass) :
    typedClass env outer c.loose = loose <$> ask (c.typed env outer) := by
  have hkind : c.loose.kind = .classDeclaration := by
    rw [ClassDecl.loose]
    rfl
  rw [typedClass, if_pos hkind,
    Member.typedStatement_loose_of_members fun p _ env outer =>
    p.element.typedStatement_loose env outer, Functor.map_map]

-- ========================================== what the classes of a file declare

/-- How a type is called in a class path can always be told. -/
theorem TypeTree.typeText_loose (f : FileNames) (cp : ClassPath)
    (t : TypeTree) : Loose.typeText f cp t.loose = .ok (f.typeText cp t) := by
  induction t using TypeTree.induction_on with
  | named n =>
      have hname : Loose.typeText f cp n.loose =
          do return (← Loose.resolveName? f cp n.loose).getD "" := by
        cases n <;> rfl
      rw [loose, hname, Name.resolveName?_loose]
      rfl
  | generic lead base args type _ =>
      rw [loose, Loose.typeText, Loose.resolveName?, Name.resolveName?_loose]
      · rfl
      all_goals nofun
  | primitive lead word type => rfl
  | array lead element dimension type ih =>
      rw [loose, Loose.typeText, ih]
      rfl
  | union lead alternatives _ => rfl

theorem TypeTree.typeTexts_loose (f : FileNames) (cp : ClassPath)
    (o : Option (Container TypeTree)) :
    Loose.typeTexts f cp (looseList o) = .ok (f.listTexts cp o) := by
  have hall (ps : List (RightPadded TypeTree)) :
      (looseAll ps).mapM (fun p => Loose.typeText f cp p.element) =
        .ok (ps.map fun p => f.typeText cp p.element) := by
    induction ps with
    | nil => rfl
    | cons p ps ih =>
        rw [looseAll, List.mapM_cons, ih, typeText_loose]
        rfl
  cases o with
  | none => rfl
  | some c =>
      rw [looseList, Loose.typeTexts, hall, FileNames.listTexts,
        Container.items, List.map_map]
      rfl

/-- What a class path tells of a method is found without a fault. -/
theorem Method.methodInfo_loose (f : FileNames) (cp : ClassPath) (m : Method) :
    methodInfo f cp (m.returnType.map TypeTree.loose) m.name
        ⟨m.parameters.before, Variables.looseAll m.parameters.elements,
          m.parameters.close⟩
        (TypeTree.looseList m.throws) = .ok (m.info f cp) := by
  have hparams (ps : List (RightPadded Variables)) :
      (Variables.looseAll ps).mapM (fun p => parameterText f cp p.element) =
        .ok (ps.map fun p => f.typeText cp p.element.typeTree) := by
    induction ps with
    | nil => rfl
    | cons p ps ih =>
        rw [Variables.looseAll, List.mapM_cons, ih, Variables.loose,
          parameterText, TypeTree.typeText_loose]
        rfl
  rw [methodInfo, hparams, TypeTree.typeTexts_loose, info, Container.items,
    List.map_map]
  cases m.returnType with
  | none =>
      cases m.throws <;> rfl
  | some t =>
      rw [Option.map_some]
      dsimp only
      rw [TypeTree.typeText_loose]
      cases m.throws <;> rfl

theorem Member.methodInfos_loose (f : FileNames) (cp : ClassPath)
    (constructors : Bool) (ps : List (RightPadded Member)) :
    methodInfos f cp constructors (looseAll ps) =
      .ok (((methods ps).filter fun m => m.returnType.isNone = constructors).map
        (Method.info f cp)) := by
  induction ps with
  | nil => rfl
  | cons p ps ih =>
      obtain ⟨m, after⟩ := p
      cases m with
      | field d => simp only [looseAll, loose, Variables.loose, methodInfos,
            ih, methods, List.filterMap_cons]
      | method m =>
          have hmethods :
              methods (⟨.method m, after⟩ :: ps) = m :: methods ps := by
            simp only [methods, List.filterMap_cons]
          rw [looseAll, loose, Method.loose, methodInfos, m.methodInfo_loose,
            ih, hmethods, List.filter_cons, Option.isNone_map]
          by_cases hm : m.returnType.isNone = constructors
          · rw [if_pos (decide_eq_true hm), List.map_cons]
            exact congrArg Except.ok (if_pos hm)
          · rw [if_neg (by rw [decide_eq_false hm]; exact Bool.false_ne_true)]
            exact congrArg Except.ok (if_neg hm)
      | nested c => simp only [looseAll, loose, ClassDecl.loose, methodInfos,
            ih, methods, List.filterMap_cons]

theorem ClassDecl.classInfo_loose (f : FileNames) (cp : ClassPath)
    (fqn : String) (c : JavaClass) :
    classInfo f cp fqn c.loose = .ok (c.info f cp fqn) := by
  have hsome : (fun m : Method => decide (m.returnType.isNone = false)) =
      fun m => m.returnType.isSome := by
    funext m
    cases m.returnType <;> rfl
  have hnone : (fun m : Method => decide (m.returnType.isNone = true)) =
      fun m => m.returnType.isNone := by
    funext m
    cases m.returnType <;> rfl
  rw [loose, classInfo, Member.looseBlock, TypeTree.typeTexts_loose,
    TypeTree.typeTexts_loose, Member.methodInfos_loose,
    Member.methodInfos_loose, hsome, hnone, info_eq]
  rfl

/-- The classes a class declares, as loose trees, with their words and full
names. -/
def looseDeclared (ds : List (JavaClass × String)) :
    List (Loose × String × String) :=
  ds.map fun d => (d.1.loose, d.1.name.last, d.2)

theorem looseDeclared_append (ds es : List (JavaClass × String)) :
    looseDeclared (ds ++ es) = looseDeclared ds ++ looseDeclared es :=
  List.map_append

/-- The classes that members declare are found, if those of each are. -/
theorem Member.declaredIn_loose {ps : List (RightPadded Member)}
    (h : ∀ p ∈ ps, ∀ outer,
      Loose.declared outer p.element.loose =
        .ok (looseDeclared (p.element.declared outer))) (outer : String) :
    declaredIn outer (looseAll ps) =
      .ok (looseDeclared (declaredAll outer ps)) := by
  induction ps with
  | nil => rfl
  | cons p ps ih =>
      obtain ⟨hp, hps⟩ := List.forall_mem_cons.1 h
      rw [looseAll, declaredIn, hp outer, ih hps, declaredAll,
        looseDeclared_append]
      rfl

theorem ClassDecl.declared_loose_of_members {c : JavaClass}
    (h : ∀ p ∈ c.body.statements, ∀ outer,
      Loose.declared outer p.element.loose =
        .ok (looseDeclared (p.element.declared outer))) (outer : String) :
    Loose.declared outer c.loose = .ok (looseDeclared (c.declared outer)) := by
  have hcons : looseDeclared (c.declared outer) =
      (c.loose, c.name.last, Text.qualify outer c.name.last) ::
        looseDeclared (Member.declaredAll (Text.qualify outer c.name.last)
          c.body.statements) := by
    rw [declared, Member.declaredBlock]
    rfl
  rw [hcons, loose, Loose.declared, Name.last_loose, Member.looseBlock]
  dsimp only [bind, Except.bind]
  rw [Member.declaredIn_loose h]
  rfl

/-- The classes that a member declares are found. -/
theorem Member.declared_loose (m : Member) (outer : String) :
    Loose.declared outer m.loose = .ok (looseDeclared (m.declared outer)) := by
  induction m using Member.induction_on generalizing outer with
  | field d => rfl
  | method m => rfl
  | nested c ih => rw [loose, ClassDecl.declared_loose_of_members ih, declared]

/-- The classes that a class declares are found, itself first. -/
theorem ClassDecl.declared_loose (c : JavaClass) (outer : String) :
    Loose.declared outer c.loose = .ok (looseDeclared (c.declared outer)) :=
  declared_loose_of_members (fun p _ => p.element.declared_loose) outer

-- ================================================================= files

namespace CompilationUnit

variable (cu : CompilationUnit) (cp : ClassPath)

/-- The name of the package can be told. -/
theorem packageName_loose :
    Loose.packageName cu.loose = .ok cu.packageName := by
  unfold Loose.packageName loose packageName
  cases cu.package? with
  | none => rfl
  | some p => exact p.element.name.dotted_loose

/-- What imports show, where each has a package to be asked for. -/
theorem importedNames_loose {ps : List (RightPadded Import)}
    (h : ∀ p ∈ ps, p.element.name.outer?.isSome = true) :
    importedNames (ps.map fun p => ⟨p.element.loose, p.after⟩) =
      let imports := (ps.map RightPadded.element).filter fun i => !i.isStatic
      .ok ((imports.filter fun i => !i.isWildcard).map fun i =>
        (i.className, i.typeName),
        (imports.filter Import.isWildcard).filterMap Import.packageName?) := by
  induction ps with
  | nil => rfl
  | cons p ps ih =>
      obtain ⟨hp, hps⟩ := List.forall_mem_cons.1 h
      obtain ⟨⟨lead, static?, name⟩, after⟩ := p
      rw [List.map_cons, importedNames, ih hps]
      cases static? with
      | some before => rfl
      | none =>
          cases name with
          | simple i type => cases hp
          | qualified lead' outer last type =>
              have hdotted :=
                (Name.qualified lead' outer last type).dotted_loose
              refine (if_neg Bool.false_ne_true).trans ?_
              simp only [Import.loose, Loose.last, Loose.outer, Name.loose,
                bind, Except.bind]
              rw [Name.loose] at hdotted
              have hwild : Import.isWildcard ⟨lead, none,
                  .qualified lead' outer last type⟩ =
                  decide (last.element.name = "*") := rfl
              by_cases hstar : last.element.name = "*"
              · rw [if_pos hstar, outer.dotted_loose]
                simp only [List.map_cons, List.filter_cons, Import.isStatic,
                  Option.isSome_none, Bool.not_false, if_true, hwild,
                  decide_eq_true hstar, Bool.not_true,
                  Bool.false_eq_true, if_false, List.filterMap_cons]
                rfl
              · rw [if_neg hstar, hdotted]
                simp only [List.map_cons, List.filter_cons, Import.isStatic,
                  Option.isSome_none, Bool.not_false, if_true, hwild,
                  decide_eq_false hstar, Bool.false_eq_true,
                  if_false]
                rfl

/-- The classes that a file declares are found, class by class. -/
theorem declaredClasses_loose :
    cu.loose.classes.mapM (Loose.declared cu.packageName) =
      .ok (cu.classes.map fun c =>
        looseDeclared (c.declared cu.packageName)) := by
  have hdeclared : Loose.declared cu.packageName ∘ ClassDecl.loose =
      fun c => pure (looseDeclared (c.declared cu.packageName)) :=
    funext fun c => c.declared_loose cu.packageName
  rw [loose, List.mapM_map, hdeclared, List.mapM_pure]
  rfl

/-- Put together they are those of the file. -/
theorem flatten_looseDeclared :
    (cu.classes.map fun c =>
      looseDeclared (c.declared cu.packageName)).flatten =
      looseDeclared cu.declaredClasses := by
  rw [looseDeclared, declaredClasses, List.map_flatMap, List.flatMap_def]
  rfl

/-- What the file brings to a class path is found without a fault. -/
theorem classInfos_loose (f : FileNames) (ds : List (JavaClass × String)) :
    (looseDeclared ds).mapM (fun d => classInfo f cp d.2.2 d.1) =
      .ok (ds.map fun d => d.1.info f cp d.2) := by
  have hinfo : (fun d : Loose × String × String => classInfo f cp d.2.2 d.1) ∘
      (fun d : JavaClass × String => (d.1.loose, d.1.name.last, d.2)) =
      fun d => pure (d.1.info f cp d.2) :=
    funext fun d => d.1.classInfo_loose f cp d.2
  rw [looseDeclared, List.mapM_map, hinfo, List.mapM_pure]
  rfl

/-- What a file says outside of all its classes is found. -/
theorem unitEnv_loose (h : ∀ p ∈ cu.imports,
    p.element.name.outer?.isSome = true) :
    unitEnv cp cu.loose cu.packageName = .ok (cu.env cp) := by
  have himports : importedNames cu.loose.imports =
      .ok (cu.fileNames.imported, cu.fileNames.wildcards) :=
    importedNames_loose h
  have hnames : (looseDeclared cu.declaredClasses).map Prod.snd =
      cu.fileNames.declared :=
    List.map_map
  rw [unitEnv, himports, declaredClasses_loose]
  dsimp only [bind, Except.bind]
  rw [flatten_looseDeclared, hnames]
  exact congrArg (Except.map fun infos =>
    (⟨cp.extend infos, cu.fileNames, [], []⟩ : Env))
    (classInfos_loose cp cu.fileNames cu.declaredClasses)

/-- The classes of a file are attributed one after the other. -/
theorem typedClasses_loose (env : Env) (cs : List JavaClass) :
    (cs.map ClassDecl.loose).mapM (typedClass env cu.packageName) =
      List.map ClassDecl.loose <$>
        ask (cs.mapM (ClassDecl.typed env cu.packageName)) := by
  induction cs with
  | nil => rfl
  | cons c cs ih =>
      simp only [List.map_cons, List.mapM_cons, ClassDecl.typedClass_loose, ih,
        ask_bind, ask_pure, bind_map_left, map_bind, map_pure]

/-- A file whose imports have a dot in their names is attributed as such,
without a fault. -/
theorem typedUnit_loose (h : ∀ p ∈ cu.imports,
    p.element.name.outer?.isSome = true) :
    typedUnit cp cu.loose = .ok (cu.typed cp).loose := by
  rw [typedUnit, packageName_loose]
  dsimp only [bind, Except.bind]
  rw [unitEnv_loose cu cp h]
  dsimp only
  have hclasses := congrFun (cu.typedClasses_loose (cu.env cp) cu.classes) []
  rw [show cu.loose.classes = cu.classes.map ClassDecl.loose from rfl, hclasses]
  rfl

end CompilationUnit

/-- Of the tree of a file no node is of a kind that attribution does not know,
whatever the class path: there is a result, which is the tree with types, and
without its types it is the tree. -/
theorem typedUnit_parseTree {source : String} {path : Option String}
    {cu : CompilationUnit} (h : parseTree source path = .ok cu)
    (cp : ClassPath) :
    typedUnit cp cu.loose = .ok (cu.typed cp).loose ∧
    (cu.typed cp).untyped = cu := by
  obtain ⟨ts, hspells⟩ := parseTree_eq_ok_iff.1 h
  have himports : ∀ p ∈ cu.imports, p.element.name.outer?.isSome = true :=
    fun p hp => Option.isSome_iff_ne_none.2 (hspells.imports p hp)
  have hplain : cu.untyped = cu := keeps_unit hspells.spells
  exact ⟨cu.typedUnit_loose cp himports, (cu.untyped_typed cp).trans hplain⟩

/-- Two classes that extend each other. -/
def circularClassPath : ClassPath :=
  .ofList [⟨"Hen", .ordinary, some "Egg", [], [], []⟩,
    ⟨"Egg", .ordinary, some "Hen", [], [], []⟩]

/-- A class over classes that run in a circle, with a call and a clause of two
types. -/
def circularText : String :=
  "class C extends Egg \x7b void m(Hen h) \x7b try \x7b h.lay(1); \x7d catch (Egg | Hen e) \x7b \x7d \x7d \x7d"

theorem typedUnit_circular :
    ∃ cu, parseTree circularText none = .ok cu ∧
      typedUnit circularClassPath cu.loose =
        .ok (cu.typed circularClassPath).loose ∧
      (cu.typed circularClassPath).untyped = cu := by
  have hok : (parseTree circularText none).isOk = true := by decide +kernel
  obtain ⟨cu, hcu⟩ := exists_of_isOk hok
  exact ⟨cu, hcu, typedUnit_parseTree hcu circularClassPath⟩

end JavaRefit
