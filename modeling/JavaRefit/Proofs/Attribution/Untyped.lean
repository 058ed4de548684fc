/-
Attribution puts types in and changes nothing else.

# Answers

Attribution asks the class path for types, and an answer depends on what
was asked before. None of that matters here: whatever is remembered, a
typed node is the node it was made from once the types are taken away
(`Yields`). The proofs go with the recursion of attribution, one step for
each node.

# Files

A file with its types is the file, types aside, so it prints the text it
was read from.

Chain: after `Tree/Untyped`; read by the proofs about running the rule
more than once.
-/
import JavaRefit.Attribution.Unit
import JavaRefit.Proofs.Reading.Unit
import JavaRefit.Proofs.Tree.Untyped

namespace JavaRefit

open ClassPath (Query)

-- =============================================================== answers

namespace ClassPath

variable {α β : Type}

/-- Whatever is remembered, the answer to a question has the property. -/
def Yields (q : Query α) (P : α → Prop) : Prop :=
  ∀ memo, P (q memo).1

/-- A known answer. -/
theorem Yields.pure {P : α → Prop} {a : α} (h : P a) : Yields (Pure.pure a) P :=
  fun _ => h

/-- One question after the other. -/
theorem Yields.bind {q : Query α} {f : α → Query β} {P : α → Prop}
    {Q : β → Prop} (hq : Yields q P) (hf : ∀ a, P a → Yields (f a) Q) :
    Yields (q >>= f) Q :=
  fun memo => hf (q memo).1 (hq memo) (q memo).2

/-- Questions whose answer does not matter. -/
theorem Yields.skip {q : Query α} {f : α → Query β} {Q : β → Prop}
    (hf : ∀ a, Yields (f a) Q) : Yields (q >>= f) Q :=
  fun memo => hf (q memo).1 (q memo).2

/-- An answer put into another form. -/
theorem Yields.map {q : Query α} {f : α → β} {P : α → Prop} {Q : β → Prop}
    (hq : Yields q P) (hf : ∀ a, P a → Q (f a)) : Yields (f <$> q) Q :=
  fun memo => hf (q memo).1 (hq memo)

end ClassPath

open ClassPath

-- ======================================================= names and types

/-- Attribution changes nothing of a name but its type. -/
theorem Name.typed_yields (env : Env) (n : Name) :
    Yields (n.typed env) fun n' => n'.untyped = n.untyped :=
  .skip fun type => .pure (n.untyped_withType type)

theorem TypeTree.typedAll_yields {env : Env} {ps : List (RightPadded TypeTree)}
    (h : ∀ p ∈ ps, Yields (p.element.typed env) fun t =>
      t.untyped = p.element.untyped) :
    Yields (TypeTree.typedAll env ps) fun ps' =>
      ps'.map (RightPadded.map TypeTree.untyped) =
        ps.map (RightPadded.map TypeTree.untyped) := by
  induction ps with
  | nil => exact .pure rfl
  | cons p ps ih =>
      obtain ⟨hp, hps⟩ := List.forall_mem_cons.1 h
      rw [TypeTree.typedAll]
      refine .bind hp fun t ht => .bind (ih hps) fun ts hts => .pure ?_
      show ⟨t.untyped, p.after⟩ :: ts.map (RightPadded.map TypeTree.untyped) = _
      rw [ht, hts]
      rfl

/-- Attribution changes nothing of a written type but the types of its names. -/
theorem TypeTree.typed_yields (env : Env) (t : TypeTree) :
    Yields (t.typed env) fun t' => t'.untyped = t.untyped := by
  induction t using TypeTree.induction_on with
  | named n =>
      rw [TypeTree.typed]
      exact .bind (n.typed_yields env) fun n' h =>
        .pure (congrArg TypeTree.named h)
  | generic lead base args type ih =>
      rw [TypeTree.typed]
      refine .bind (base.typed_yields env) fun base' hb =>
        .bind (typedAll_yields ih) fun ts hts => .pure ?_
      rw [untyped_generic, untyped_generic, hb, Container.map,
        Container.map, hts]
  | primitive lead keyword type => exact .pure rfl
  | array lead element dimension type ih =>
      rw [TypeTree.typed]
      refine .bind ih fun t h => .pure ?_
      rw [untyped_array, untyped_array, h]
  | union lead alternatives ih =>
      rw [TypeTree.typed]
      refine .bind (typedAll_yields ih) fun ts hts => .pure ?_
      rw [untyped_union, untyped_union, hts]

theorem TypeTree.typedList_yields (env : Env)
    (o : Option (Container TypeTree)) :
    Yields (TypeTree.typedList env o) fun o' =>
      o'.map (Container.map TypeTree.untyped) =
        o.map (Container.map TypeTree.untyped) := by
  cases o with
  | none => exact .pure rfl
  | some c =>
      refine .bind (typedAll_yields fun p _ => p.element.typed_yields env)
        fun ts hts => .pure ?_
      show some (Container.mk c.before (ts.map (.map TypeTree.untyped))
        c.close) = _
      rw [hts]
      rfl

-- =========================================================== expressions

theorem Expr.typedAll_yields {env : Env} {ps : List (RightPadded Expr)}
    (h : ∀ p ∈ ps, Yields (p.element.typed env) fun e =>
      e.untyped = p.element.untyped) :
    Yields (Expr.typedAll env ps) fun ps' =>
      ps'.map (RightPadded.map Expr.untyped) =
        ps.map (RightPadded.map Expr.untyped) := by
  induction ps with
  | nil => exact .pure rfl
  | cons p ps ih =>
      obtain ⟨hp, hps⟩ := List.forall_mem_cons.1 h
      rw [Expr.typedAll]
      refine .bind hp fun e he => .bind (ih hps) fun es hes => .pure ?_
      show ⟨e.untyped, p.after⟩ :: es.map (RightPadded.map Expr.untyped) = _
      rw [he, hes]
      rfl

theorem Expr.typedAsClass_yields (env : Env) (e : Expr) :
    Yields (e.typedAsClass env) fun e' => e'.untyped = e.untyped := by
  cases e with
  | ident i type => exact .skip fun _ => .pure rfl
  | access lead target name type =>
      rw [Expr.typedAsClass]
      split
      · exact .skip fun _ => .pure rfl
      · exact .pure rfl
  | _ => exact .pure rfl

/-- Attribution changes nothing of an expression but its types. -/
theorem Expr.typed_yields (env : Env) (e : Expr) :
    Yields (e.typed env) fun e' => e'.untyped = e.untyped := by
  induction e using Expr.induction_on with
  | ident i type => exact .skip fun _ => .pure rfl
  | access lead target name type ih =>
      have hstep : ∀ target' type', target'.untyped = target.untyped →
          (Expr.access lead target' name type').untyped =
            (Expr.access lead target name type).untyped := by
        intro target' type' h
        show Expr.access lead target'.untyped name none = _
        rw [h]
        rfl
      rw [Expr.typed]
      split
      · split
        · exact .bind (target.typedAsClass_yields env) fun target' h =>
            .skip fun _ =>
            .pure (hstep target' _ h)
        · exact .bind ih fun target' h => .skip fun _ =>
            .pure (hstep target' _ h)
      · split
        · exact .skip fun _ => .pure rfl
        · exact .bind ih fun target' h => .pure (hstep target' _ h)
  | call lead select name args method ihs iha =>
      cases select with
      | none =>
          rw [Expr.typed]
          refine .bind (typedAll_yields iha) fun es hes =>
            .skip fun _ => .pure ?_
          rw [untyped_call, untyped_call, Container.map, Container.map, hes]
      | some p =>
          rw [Expr.typed]
          refine .bind (typedAll_yields iha) fun es hes =>
            .bind (ihs p rfl) fun target ht =>
            .skip fun _ => .pure ?_
          rw [untyped_call, untyped_call, Container.map, Container.map, hes]
          show Expr.call lead (some ⟨target.untyped, p.after⟩) name _ none = _
          rw [ht]
          rfl
  | new lead base args constructor type ih =>
      rw [Expr.typed]
      refine .bind (base.typed_yields env) fun base' hb =>
        .bind (typedAll_yields ih)
        fun es hes => .skip fun _ => .pure ?_
      rw [untyped_new, untyped_new, hb, Container.map, Container.map, hes]
  | literal lead text type =>
      rw [Expr.typed]
      split
      · exact .skip fun _ => .pure rfl
      · exact .pure rfl
  | assign lead target value type iht ihv =>
      rw [Expr.typed]
      refine .bind iht fun target' ht => .bind ihv fun value' hv => .pure ?_
      show Expr.assign lead target'.untyped
        ⟨value.before, value'.untyped⟩ none = _
      rw [ht, hv]
      rfl
  | binary lead left operator right type ihl ihr =>
      rw [Expr.typed]
      refine .bind ihl fun left' hl => .bind ihr fun right' hr =>
        .skip fun _ => .pure ?_
      show Expr.binary lead left'.untyped operator right'.untyped none = _
      rw [hl, hr]
      rfl
  | unary lead operator operand type ih =>
      rw [Expr.typed]
      refine .bind ih fun operand' h => .pure ?_
      show Expr.unary lead operator operand'.untyped none = _
      rw [h]
      rfl
  | parens lead inner type ih =>
      rw [Expr.typed]
      refine .bind ih fun e h => .pure ?_
      show Expr.parens lead ⟨e.untyped, inner.after⟩ none = _
      rw [h]
      rfl

theorem Expr.typedCondition_yields (env : Env) (c : Parens Expr) :
    Yields (Expr.typedCondition env c) fun c' =>
      c'.map Expr.untyped = c.map Expr.untyped := by
  refine .bind (c.inner.element.typed_yields env) fun e h => .pure ?_
  show (⟨c.lead, ⟨e.untyped, c.inner.after⟩⟩ : Parens Expr) = _
  rw [h]
  rfl

-- ========================================================== declarations

theorem Modifier.typed_yields (env : Env) (m : Modifier) :
    Yields (m.typed env) fun m' => m'.untyped = m.untyped := by
  cases m with
  | keyword lead word => exact .pure rfl
  | annotated lead name args =>
      cases args with
      | none =>
          refine .bind (name.typed_yields env) fun name' h => .pure ?_
          rw [untyped_annotated, untyped_annotated, h]
      | some c =>
          refine .bind (name.typed_yields env) fun name' h =>
            .bind (Expr.typedAll_yields fun p _ => p.element.typed_yields env)
              fun es hes =>
              .pure ?_
          rw [untyped_annotated, untyped_annotated, h, Option.map_some,
            Option.map_some, Container.map, Container.map, hes]

theorem Modifier.typedAll_yields (env : Env) (ms : List Modifier) :
    Yields (Modifier.typedAll env ms) fun ms' =>
      ms'.map Modifier.untyped = ms.map Modifier.untyped := by
  rw [Modifier.typedAll]
  induction ms with
  | nil => exact .pure rfl
  | cons m ms ih =>
      rw [List.mapM_cons]
      refine .bind (m.typed_yields env) fun m' h =>
        .bind ih fun ms' hs => .pure ?_
      rw [List.map_cons, List.map_cons, h, hs]

theorem Variable.typedAll_yields (type : Option JavaType) (env : Env)
    (ps : List (RightPadded Variable)) :
    Yields (Variable.typedAll type env ps) fun r =>
      r.1.map (RightPadded.map Variable.untyped) =
        ps.map (RightPadded.map Variable.untyped) := by
  induction ps generalizing env with
  | nil => exact .pure rfl
  | cons p ps ih =>
      have hv (i : Option (LeftPadded Expr)) (type' : Option JavaType)
          (hi : i.map (LeftPadded.map Expr.untyped) =
            p.element.initializer.map (LeftPadded.map Expr.untyped)) :
          (⟨p.element.lead, p.element.name.withType type', i, type'⟩ :
            Variable).untyped = p.element.untyped := by
        rw [Variable.untyped_eq, Variable.untyped_eq, Name.untyped_withType, hi]
      have hrest (v : Variable) (h : v.untyped = p.element.untyped) :
          Yields (do
            let r ← Variable.typedAll type
                (env.declare p.element.name.last type) ps
            return ((⟨v, p.after⟩ :: r.1, r.2) :
              List (RightPadded Variable) × Env)) fun r =>
              r.1.map (RightPadded.map Variable.untyped) =
                (p :: ps).map (RightPadded.map Variable.untyped) := by
        refine .bind (ih _) fun r hr => .pure ?_
        show ⟨v.untyped, p.after⟩ :: r.1.map
          (RightPadded.map Variable.untyped) = _
        rw [h, hr]
        rfl
      rw [Variable.typedAll]
      dsimp only
      cases hi : p.element.initializer with
      | none => exact hrest _ (hv none type (by rw [hi]))
      | some i =>
          refine .bind (i.element.typed_yields env) fun e he =>
            hrest _ (hv _ type ?_)
          rw [hi, Option.map_some, Option.map_some, LeftPadded.map,
            LeftPadded.map, he]

theorem Variables.typed_yields (env : Env) (d : Variables) :
    Yields (d.typed env) fun r => r.1.untyped = d.untyped := by
  refine .bind (d.typeTree.typed_yields env) fun t ht =>
    .bind (Variable.typedAll_yields t.type env d.declarators) fun r hr =>
      .bind (Modifier.typedAll_yields r.2 d.modifiers) fun ms hms => .pure ?_
  rw [Variables.untyped_eq, Variables.untyped_eq, ht, hr, hms]

theorem Variables.typedAll_yields (env : Env)
    (ps : List (RightPadded Variables)) :
    Yields (Variables.typedAll env ps) fun r =>
      r.1.map (RightPadded.map Variables.untyped) =
        ps.map (RightPadded.map Variables.untyped) := by
  induction ps generalizing env with
  | nil => exact .pure rfl
  | cons p ps ih =>
      rw [Variables.typedAll]
      refine .bind (p.element.typed_yields env) fun d hd =>
        .bind (ih d.2) fun ds hds => .pure ?_
      show ⟨d.1.untyped, p.after⟩ :: ds.1.map
        (RightPadded.map Variables.untyped) = _
      rw [hd, hds]
      rfl

-- ============================================================ statements

theorem Stmt.typedBlock_yields {env : Env} {b : Block Stmt}
    (h : ∀ p ∈ b.statements, ∀ env,
      Yields (p.element.typed env) fun r => r.1.untyped = p.element.untyped) :
    Yields (Stmt.typedBlock env b) fun b' =>
      b'.map Stmt.untyped = b.map Stmt.untyped := by
  have hs : ∀ (ps : List (RightPadded Stmt)) (env : Env), (∀ p ∈ ps, ∀ env,
      Yields (p.element.typed env) fun r => r.1.untyped = p.element.untyped) →
        Yields (Stmt.typedAll env ps) fun ps' =>
          ps'.map (RightPadded.map Stmt.untyped) =
            ps.map (RightPadded.map Stmt.untyped) := by
    intro ps
    induction ps with
    | nil => exact fun _ _ => .pure rfl
    | cons p ps ih =>
        intro env h
        obtain ⟨hp, hps⟩ := List.forall_mem_cons.1 h
        rw [Stmt.typedAll]
        refine .bind (hp env) fun s hs =>
          .bind (ih s.2 hps) fun ss hss => .pure ?_
        show ⟨s.1.untyped, p.after⟩ :: ss.map (RightPadded.map Stmt.untyped) = _
        rw [hs, hss]
        rfl
  rw [Stmt.typedBlock]
  refine .bind (hs b.statements _ h) fun ss hss => .pure ?_
  rw [Block.map, Block.map, hss]

theorem Catch.typed_yields {env : Env} {c : Catch Stmt}
    (h : ∀ p ∈ c.body.statements, ∀ env,
      Yields (p.element.typed env) fun r => r.1.untyped = p.element.untyped) :
    Yields (c.typed env) fun c' => c'.untyped = c.untyped := by
  rw [Catch.typed]
  refine .bind (c.declaration.typed_yields _) fun d hd =>
    .bind (Stmt.typedBlock_yields h)
    fun b hb => .pure ?_
  show (⟨c.lead, ⟨c.parameter.lead, ⟨d.1.untyped, c.parameter.inner.after⟩⟩,
    b.map Stmt.untyped⟩ : Catch Stmt) = _
  rw [hd, hb]
  rfl

/-- Attribution changes nothing of a statement but the types in it. -/
theorem Stmt.typed_yields (env : Env) (s : Stmt) :
    Yields (s.typed env) fun r => r.1.untyped = s.untyped := by
  induction s using Stmt.induction_on generalizing env with
  | block b ih =>
      rw [Stmt.typed]
      refine .bind (typedBlock_yields ih) fun b' hb => .pure ?_
      show (Stmt.block b').untyped = _
      rw [untyped_block, untyped_block, hb]
  | declaration d =>
      rw [Stmt.typed]
      exact .bind (d.typed_yields env) fun d' hd =>
        .pure (congrArg Stmt.declaration hd)
  | expr e =>
      rw [Stmt.typed]
      exact .bind (e.typed_yields env) fun e' he =>
        .pure (congrArg Stmt.expr he)
  | empty lead => exact .pure rfl
  | tryCatch t ihb ihc ihf =>
      have hc : ∀ cs : List (Catch Stmt),
          (∀ c ∈ cs, ∀ p ∈ c.body.statements, ∀ env,
          Yields (p.element.typed env) fun r =>
            r.1.untyped = p.element.untyped) →
            Yields (Catch.typedAll env cs) fun cs' =>
              cs'.map Catch.untyped = cs.map Catch.untyped := by
        intro cs
        induction cs with
        | nil => exact fun _ => .pure rfl
        | cons c cs ih =>
            intro h
            obtain ⟨h₁, h₂⟩ := List.forall_mem_cons.1 h
            rw [Catch.typedAll]
            refine .bind (Catch.typed_yields h₁) fun c' hc =>
              .bind (ih h₂) fun cs' hcs =>
              .pure ?_
            rw [List.map_cons, List.map_cons, hc, hcs]
      have hf : Yields (Stmt.typedFinally env t.finally?) fun o =>
          o.map (LeftPadded.map (Block.map Stmt.untyped)) =
            t.finally?.map (LeftPadded.map (Block.map Stmt.untyped)) := by
        cases hf : t.finally? with
        | none => exact .pure rfl
        | some f =>
            rw [Stmt.typedFinally]
            refine .bind (typedBlock_yields (ihf f hf)) fun b hb => .pure ?_
            rw [Option.map_some, Option.map_some, LeftPadded.map,
              LeftPadded.map, hb]
      have ht : Yields (Try.typed env t) fun t' => t'.untyped = t.untyped := by
        rw [Try.typed]
        refine .bind (typedBlock_yields ihb) fun b hb =>
          .bind (hc t.catches ihc)
          fun cs hcs => .bind hf fun o ho => .pure ?_
        rw [Try.untyped, Try.untyped, hb, hcs, ho]
      rw [Stmt.typed]
      refine .bind ht fun t' ht' => .pure ?_
      show (Stmt.tryCatch t').untyped = _
      rw [untyped_tryCatch, untyped_tryCatch, ht']
  | throwing lead exception =>
      rw [Stmt.typed]
      exact .bind (exception.typed_yields env) fun e he =>
        .pure (congrArg (Stmt.throwing lead) he)
  | returning lead value =>
      cases value with
      | none => exact .pure rfl
      | some e =>
          rw [Stmt.typed]
          exact .bind (e.typed_yields env) fun e' he =>
            .pure (congrArg (fun e => Stmt.returning lead (some e)) he)
  | ifElse lead condition thenPart elsePart iht ihe =>
      have he (env : Env) : Yields (Stmt.typedElse env elsePart) fun r =>
          r.1.map Else.untyped = elsePart.map Else.untyped := by
        cases elsePart with
        | none => exact .pure rfl
        | some e =>
            have h : Yields (e.typed env) fun r => r.1.untyped = e.untyped := by
              rw [Else.typed]
              refine .bind (ihe e rfl env) fun s hs => .pure ?_
              show (⟨e.lead, ⟨s.1.untyped, e.body.after⟩⟩ : Else Stmt) = _
              rw [hs]
              rfl
            rw [Stmt.typedElse]
            exact .bind h fun r hr => .pure (congrArg some hr)
      rw [Stmt.typed]
      refine .bind (Expr.typedCondition_yields env condition) fun c hc =>
        .bind (iht env)
        fun s hs => .bind (he s.2) fun o ho => .pure ?_
      show (Stmt.ifElse lead c ⟨s.1, thenPart.after⟩ o.1).untyped = _
      rw [untyped_ifElse, untyped_ifElse, hc, ho, RightPadded.map,
        RightPadded.map, hs]
  | whileLoop lead condition body ih =>
      rw [Stmt.typed]
      refine .bind (Expr.typedCondition_yields env condition) fun c hc =>
        .bind (ih env)
        fun s hs => .pure ?_
      show Stmt.whileLoop lead (c.map Expr.untyped)
        ⟨s.1.untyped, body.after⟩ = _
      rw [hc, hs]
      rfl

-- =================================================== classes and files

theorem Method.typed_yields (env : Env) (m : Method) :
    Yields (m.typed env) fun m' => m'.untyped = m.untyped := by
  have hend {params : List (RightPadded Variables)} {body : Option (Block Stmt)}
      {modifiers : List Modifier} {returnType : Option TypeTree}
        (type : Option MethodType)
      (hp : params.map (RightPadded.map Variables.untyped) =
        m.parameters.elements.map (RightPadded.map Variables.untyped))
      (hb : body.map (Block.map Stmt.untyped) =
        m.body.map (Block.map Stmt.untyped))
      (hm : modifiers.map Modifier.untyped = m.modifiers.map Modifier.untyped)
      (hr : returnType.map TypeTree.untyped =
        m.returnType.map TypeTree.untyped) :
      Yields (do
        let throws ← TypeTree.typedList env m.throws
        return (⟨m.lead, modifiers, returnType, m.name,
          ⟨m.parameters.before, params, m.parameters.close⟩, throws, body,
          type⟩ : Method))
        fun m' => m'.untyped = m.untyped := by
    refine .bind (TypeTree.typedList_yields env m.throws) fun ts ht => .pure ?_
    rw [untyped_eq, untyped_eq, hm, hr, Container.map,
      Container.map, hp, ht, hb]
  have hbody (env : Env) {b : Block Stmt} (h : m.body = some b) :
      Yields (some <$> Stmt.typedBlock env b) fun o =>
        o.map (Block.map Stmt.untyped) =
          m.body.map (Block.map Stmt.untyped) := by
    refine .map (Stmt.typedBlock_yields fun p _ env =>
      p.element.typed_yields env) fun b' hb => ?_
    rw [h, Option.map_some, Option.map_some, hb]
  have hreturn {t : TypeTree} (h : m.returnType = some t) :
      Yields (some <$> t.typed env) fun o =>
        o.map TypeTree.untyped = m.returnType.map TypeTree.untyped := by
    refine .map (t.typed_yields env) fun t' ht => ?_
    rw [h, Option.map_some, Option.map_some, ht]
  have hmodifiers := Modifier.typedAll_yields env m.modifiers
  rw [Method.typed]
  simp only [pure_bind]
  cases hr : m.returnType with
  | none =>
      refine .skip fun type => .bind (Variables.typedAll_yields _ _)
        fun ps hp => ?_
      cases hb : m.body with
      | none =>
          exact .bind hmodifiers fun ms hm =>
            hend type hp (by rw [hb]) hm (by rw [hr])
      | some b =>
          exact .bind (hbody _ hb) fun o ho => .bind hmodifiers fun ms hm =>
            hend type hp ho hm (by rw [hr])
  | some t =>
      refine .skip fun type => .bind (Variables.typedAll_yields _ _)
        fun ps hp => ?_
      cases hb : m.body with
      | none =>
          exact .bind hmodifiers fun ms hm => .bind (hreturn hr) fun o ho =>
            hend type hp (by rw [hb]) hm ho
      | some b =>
          exact .bind (hbody _ hb) fun o ho => .bind hmodifiers fun ms hm =>
            .bind (hreturn hr) fun rt hrt => hend type hp ho hm hrt

/-- A class with its types is the class, types aside, if that holds of its
members. -/
theorem ClassDecl.typed_yields_of_members {c : JavaClass} (env : Env)
    (outer : String) (h : ∀ p ∈ c.body.statements, ∀ env outer,
      Yields (p.element.typed env outer) fun r =>
        r.1.untyped = p.element.untyped) :
    Yields (c.typed env outer) fun c' => c'.untyped = c.untyped := by
  have hs : ∀ (ps : List (RightPadded Member)) (env : Env) (outer : String),
      (∀ p ∈ ps, ∀ env outer,
        Yields (p.element.typed env outer) fun r =>
          r.1.untyped = p.element.untyped) →
      Yields (Member.typedAll env outer ps) fun ps' =>
        ps'.map (RightPadded.map Member.untyped) =
          ps.map (RightPadded.map Member.untyped) := by
    intro ps
    induction ps with
    | nil => exact fun _ _ _ => .pure rfl
    | cons p ps ih =>
        intro env outer h
        obtain ⟨hp, hps⟩ := List.forall_mem_cons.1 h
        rw [Member.typedAll]
        refine .bind (hp env outer) fun m hm =>
          .bind (ih m.2 outer hps) fun ms hms => .pure ?_
        show ⟨m.1.untyped, p.after⟩ :: ms.map
          (RightPadded.map Member.untyped) = _
        rw [hm, hms]
        rfl
  have hb (env : Env) (outer : String) :
      Yields (Member.typedBlock env outer c.body) fun b =>
      b.map Member.untyped = c.body.map Member.untyped := by
    rw [Member.typedBlock]
    refine .bind (hs c.body.statements env outer h) fun ms hms => .pure ?_
    rw [Block.map, Block.map, hms]
  rw [ClassDecl.typed]
  refine .skip fun type => .skip fun fields => .bind (hb _ _) fun b hb =>
    .bind (Modifier.typedAll_yields env c.modifiers) fun ms hms =>
      .bind (TypeTree.typedList_yields env c.extends?) fun es hes =>
        .bind (TypeTree.typedList_yields env c.implements?)
          fun is his => .pure ?_
  rw [ClassDecl.untyped_eq, ClassDecl.untyped_eq, hb, hms, hes, his,
    Name.untyped_withType]

/-- Attribution changes nothing of a member but the types in it. -/
theorem Member.typed_yields (env : Env) (outer : String) (m : Member) :
    Yields (m.typed env outer) fun r => r.1.untyped = m.untyped := by
  induction m using Member.induction_on generalizing env outer with
  | field d =>
      rw [Member.typed]
      exact .bind (d.typed_yields env) fun d' hd =>
        .pure (congrArg Member.field hd)
  | method m =>
      rw [Member.typed]
      exact .bind (m.typed_yields env) fun m' hm =>
        .pure (congrArg Member.method hm)
  | nested c ih =>
      rw [Member.typed]
      exact .bind (ClassDecl.typed_yields_of_members env outer ih) fun c' hc =>
        .pure (congrArg Member.nested hc)

theorem CompilationUnit.typedQuery_yields (cu : CompilationUnit)
    (cp : ClassPath) :
    Yields (cu.typedQuery cp) fun cu' => cu'.untyped = cu.untyped := by
  have hs : ∀ cs : List JavaClass,
      Yields (cs.mapM (ClassDecl.typed (cu.env cp) cu.packageName))
      fun cs' => cs'.map ClassDecl.untyped = cs.map ClassDecl.untyped := by
    intro cs
    induction cs with
    | nil => exact .pure rfl
    | cons c cs ih =>
        rw [List.mapM_cons]
        refine .bind (ClassDecl.typed_yields_of_members _ _ fun p _ env outer =>
          p.element.typed_yields env outer) fun c' hc =>
            .bind ih fun cs' hcs => .pure ?_
        rw [List.map_cons, List.map_cons, hc, hcs]
  refine .bind (hs cu.classes) fun cs hcs => .pure ?_
  rw [CompilationUnit.untyped_eq, CompilationUnit.untyped_eq, hcs]

/-- A file with its types is the file, types aside. -/
theorem CompilationUnit.untyped_typed (cu : CompilationUnit) (cp : ClassPath) :
    (cu.typed cp).untyped = cu.untyped :=
  cu.typedQuery_yields cp []

/-- A file with its types shows as it did. -/
theorem CompilationUnit.pieces_typed (cu : CompilationUnit) (cp : ClassPath) :
    (cu.typed cp).pieces = cu.pieces := by
  rw [← CompilationUnit.pieces_untyped, untyped_typed,
    CompilationUnit.pieces_untyped]

/-- A file with its types is the same text. -/
theorem CompilationUnit.print_typed (cu : CompilationUnit) (cp : ClassPath) :
    (cu.typed cp).print = cu.print :=
  congrArg Piece.textAll (cu.pieces_typed cp)

/-- A file read with its types is printed as it was. -/
theorem print_parseUnit {source : String} {cp : ClassPath}
    {path : Option String} {cu : CompilationUnit}
    (h : parseUnit source cp path = .ok cu) : cu.print = source := by
  unfold parseUnit at h
  cases ht : parseTree source path with
  | error e =>
      rw [ht] at h
      cases h
  | ok tree =>
      rw [ht] at h
      cases h
      obtain ⟨⟨rest, hunit⟩, hstop, -⟩ := unit_of_parseTree ht
      rw [CompilationUnit.print_typed]
      exact print_of_unit hunit hstop

end JavaRefit
