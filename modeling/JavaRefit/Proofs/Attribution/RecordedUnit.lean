/-
What attribution leaves at the nodes of a file.

Declarations, statements, members and classes on top of written types and
expressions: one statement for each construct, by the recursion of
attribution. Every place that it comes to is in the file that it started
in, and that is all a place has to be (`Env.SameFile`).

Chain: after `Recorded`; read by the proofs about renaming in a typed
file.
-/
import JavaRefit.Proofs.Attribution.Recorded
import JavaRefit.Proofs.Grammar.Plain
import JavaRefit.Proofs.Grammar.Text

namespace JavaRefit

open ClassPath

variable {base env : Env} (hbase : base.names.NamesPlainly)
include hbase

omit hbase in

/-- Nothing is asked of what is not there. -/
theorem forall_mem_none {α : Type} (P : α → Prop) :
    ∀ a ∈ (none : Option α), P a :=
  fun _ h => by cases h

-- ========================================================== declarations

/-- A modifier fits once attributed. -/
theorem Modifier.answers_typed (h : env.SameFile base) (m : Modifier) :
    base.classPath.Answers (m.untyped.typed env) fun m' =>
      (Node.modifier m').Fits base := by
  cases m with
  | keyword lead word =>
      exact .pure (Node.fits_of_children (.modifier _) rfl rfl trivial
        (List.forall_mem_nil _))
  | annotated lead name args =>
      rw [untyped_annotated]
      cases args with
      | none =>
          rw [Option.map_none, Modifier.typed]
          exact (name.answers_typed hbase h).bind fun name' hn => .pure
            (Node.fits_of_children (.modifier _) rfl rfl trivial
              (List.forall_mem_singleton.2 (Node.fits_name hn.1 hn.2)))
      | some c =>
          rw [Option.map_some, Modifier.typed]
          refine (name.answers_typed hbase h).bind fun name' hn =>
            (Expr.answers_typedAll fun p _ =>
              p.element.answers_typed hbase h).bind fun es hes => .pure ?_
          refine Node.fits_of_children (.modifier _) rfl rfl trivial
            (List.forall_mem_cons.2 ⟨Node.fits_name hn.1 hn.2, ?_⟩)
          rw [List.forall_mem_flatMap]
          exact List.forall_mem_singleton.2
            (List.forall_mem_map.2 (List.forall_mem_map.2 hes))

theorem Modifier.answers_typedAll (h : env.SameFile base) (ms : List Modifier) :
    base.classPath.Answers (Modifier.typedAll env (ms.map Modifier.untyped))
      fun ms' =>
      ∀ m ∈ ms', (Node.modifier m).Fits base := by
  rw [Modifier.typedAll]
  induction ms with
  | nil => exact .pure (List.forall_mem_nil _)
  | cons m ms ih =>
      rw [List.map_cons, List.mapM_cons]
      exact (m.answers_typed hbase h).bind fun m' hm =>
        ih.bind fun ms' hms => .pure
        (List.forall_mem_cons.2 ⟨hm, hms⟩)

/-- The variable and its name have the type. -/
structure Variable.HasType (base : Env) (v : Variable)
    (type : Option JavaType) : Prop where
  fits : (Node.declarator v).Fits base
  self : v.type = type
  name : v.name.type = type

omit hbase in
/-- The name of a variable names no class. -/
theorem Node.meansIn_declarator {v : Variable}
    (hi : ∀ e ∈ v.initializer, (Node.expr e.element).Fits base) :
    (Node.declarator v).MeansIn base := by
  refine .intro (fun m hm c hc => ?_) (fun e he hnone => ?_)
    fun m hm hnone => ?_
  · obtain rfl | hm := List.mem_cons.1 hm
    · cases hc
    · obtain ⟨e, he, rfl⟩ := List.mem_map.1 hm
      exact (hi e (Option.mem_toList.1 he)).whole c hc
  · obtain he | he := List.mem_cons.1 he
    · cases he
    · obtain ⟨i, hmem, heq⟩ := List.mem_map.1 he
      obtain rfl := Node.expr.inj heq
      exact (hi i (Option.mem_toList.1 hmem)).free _ rfl hnone
  · obtain rfl | hm := List.mem_cons.1 hm
    · exact Node.allClasses_name v.name
    · obtain ⟨e, he, rfl⟩ := List.mem_map.1 hm
      exact (hi e (Option.mem_toList.1 he)).classes hnone

omit hbase in

/-- A variable that is given a type has it in both places. -/
theorem Variable.hasType {lead : Trivia} {name : Name}
    {i : Option (LeftPadded Expr)} {type : Option JavaType}
    (hi : ∀ e ∈ i, (Node.expr e.element).Fits base) :
    Variable.HasType base ⟨lead, name.withType type, i, type⟩ type := by
  refine ⟨Node.fits_of_walk rfl rfl (Node.isAttributed_walk (.declarator _)
    ⟨trivial, trivial, fun _ _ _ h => by cases h⟩ ?_)
      (Node.meansIn_declarator hi), rfl,
    by cases name <;> rfl⟩
  refine List.forall_mem_cons.2 ⟨Name.isAttributed_walk _,
    List.forall_mem_map.2 fun e he => ?_⟩
  exact (hi e (Option.mem_toList.1 he)).walk

/-- The variables of a declaration have its type once attributed. -/
theorem Variable.answers_typedAll (h : env.SameFile base)
    (type : Option JavaType) (ps : List (RightPadded Variable)) :
    base.classPath.Answers (Variable.typedAll type env
      (ps.map (.map Variable.untyped))) fun r =>
      (∀ p ∈ r.1, p.element.HasType base type) ∧ r.2.SameFile base := by
  induction ps generalizing env with
  | nil => exact .pure ⟨List.forall_mem_nil _, h⟩
  | cons p ps ih =>
      have hrest (i : Option (LeftPadded Expr))
          (hi : ∀ e ∈ i, (Node.expr e.element).Fits base) :
          base.classPath.Answers (do
            let r ← Variable.typedAll type
                (env.declare p.element.name.untyped.last type)
              (ps.map (.map Variable.untyped))
            return ((⟨⟨p.element.lead, p.element.name.untyped.withType type, i,
              type⟩, p.after⟩ :: r.1,
              r.2) : List (RightPadded Variable) × Env)) fun r =>
            (∀ p ∈ r.1, p.element.HasType base type) ∧ r.2.SameFile base :=
        (ih (h.declare _ type)).bind fun r hr => .pure
          ⟨List.forall_mem_cons.2 ⟨Variable.hasType hi, hr.1⟩, hr.2⟩
      rw [List.map_cons, Variable.typedAll, RightPadded.map,
        Variable.untyped_eq]
      dsimp only
      cases p.element.initializer with
      | none => exact hrest none (forall_mem_none _)
      | some i =>
          refine (i.element.answers_typed hbase h).bind fun e he =>
            hrest (some ⟨i.before, e⟩) fun e' he' => ?_
          cases he'
          exact he

/-- A declaration fits once attributed, and leaves a place in the file. -/
theorem Variables.answers_typed (h : env.SameFile base) (d : Variables) :
    base.classPath.Answers (d.untyped.typed env) fun r =>
      (Node.declaration r.1).Fits base ∧ r.2.SameFile base := by
  rw [Variables.untyped_eq, Variables.typed]
  refine (d.typeTree.answers_typed hbase h).bind fun t ht =>
    (Variable.answers_typedAll hbase h t.type d.declarators).bind fun r hr =>
      (Modifier.answers_typedAll hbase hr.2 d.modifiers).bind fun ms hms =>
        .pure ⟨?_, hr.2⟩
  refine Node.fits_of_children (.declaration _) rfl rfl
    (fun v hv => ⟨(hr.1 v hv).self, (hr.1 v hv).name⟩) ?_
  exact List.forall_mem_append.2 ⟨List.forall_mem_map.2 hms,
    List.forall_mem_cons.2 ⟨ht, List.forall_mem_map.2 fun v hv =>
      (hr.1 v hv).fits⟩⟩

theorem Variables.answers_typedAll (h : env.SameFile base)
    (ps : List (RightPadded Variables)) :
    base.classPath.Answers (Variables.typedAll env
      (ps.map (.map Variables.untyped))) fun r =>
      (∀ p ∈ r.1, (Node.declaration p.element).Fits base) ∧
      r.2.SameFile base := by
  induction ps generalizing env with
  | nil => exact .pure ⟨List.forall_mem_nil _, h⟩
  | cons p ps ih =>
      rw [List.map_cons, Variables.typedAll]
      exact (p.element.answers_typed hbase h).bind fun r hr =>
        (ih hr.2).bind fun r' hr' => .pure
        ⟨List.forall_mem_cons.2 ⟨hr.1, hr'.1⟩, hr'.2⟩

/-- A condition fits once attributed. -/
theorem Expr.answers_typedCondition (h : env.SameFile base) (c : Parens Expr) :
    base.classPath.Answers (Expr.typedCondition env (c.map Expr.untyped))
      fun c' =>
      (Node.condition c').Fits base :=
  (c.inner.element.answers_typed hbase h).bind fun _ he => .pure
    (Node.fits_of_children (.condition _) rfl rfl trivial
      (List.forall_mem_singleton.2 he))

-- ============================================================ statements

omit hbase in
/-- The statement is attributed, wherever it stands in the file. -/
def Stmt.IsAttributedIn (base : Env) (s : Stmt) : Prop :=
  ∀ {env : Env}, env.SameFile base →
    base.classPath.Answers (s.untyped.typed env) fun r =>
    r.1.node.Fits base ∧ r.2.SameFile base

omit hbase in

/-- A block does, if its statements do. -/
theorem Stmt.answers_typedBlock {b : Block Stmt}
    (hb : ∀ p ∈ b.statements, p.element.IsAttributedIn base)
    (h : env.SameFile base) :
    base.classPath.Answers (Stmt.typedBlock env (b.map Stmt.untyped)) fun b' =>
      (Node.block b').Fits base := by
  have hall {ps : List (RightPadded Stmt)}
      (hps : ∀ p ∈ ps, p.element.IsAttributedIn base)
      {env : Env} (h : env.SameFile base) :
      base.classPath.Answers (Stmt.typedAll env (ps.map (.map Stmt.untyped)))
        fun ps' =>
        ∀ p ∈ ps', p.element.node.Fits base := by
    induction ps generalizing env with
    | nil => exact .pure (List.forall_mem_nil _)
    | cons p ps ih =>
        obtain ⟨hp, hps⟩ := List.forall_mem_cons.1 hps
        rw [List.map_cons, Stmt.typedAll]
        exact (hp h).bind fun r hr => (ih hps hr.2).bind fun ps' hps' => .pure
          (List.forall_mem_cons.2 ⟨hr.1, hps'⟩)
  rw [Block.map, Stmt.typedBlock]
  exact (hall hb (h.push [])).bind fun ps' hps' => .pure
    (Node.fits_of_children (.block _) rfl rfl trivial
      (List.forall_mem_map.2 hps'))

/-- A catch clause does, if the statements of its body do. -/
theorem Catch.answers_typed {c : Catch Stmt}
    (hb : ∀ p ∈ c.body.statements, p.element.IsAttributedIn base)
    (h : env.SameFile base) :
    base.classPath.Answers (c.untyped.typed env) fun c' =>
      (Node.catchClause c').Fits base := by
  rw [Catch.untyped, Catch.typed]
  refine (c.declaration.answers_typed hbase (h.push [])).bind fun r hr =>
    (Stmt.answers_typedBlock hb hr.2).bind fun b hb => .pure ?_
  have hparameter :
      (Node.parameter ⟨c.parameter.lead, ⟨r.1, c.parameter.inner.after⟩⟩).Fits
        base :=
    Node.fits_of_children (.parameter _) rfl rfl trivial
      (List.forall_mem_singleton.2 hr.1)
  exact Node.fits_of_children (.catchClause _) rfl rfl trivial
    (List.forall_mem_cons.2 ⟨hparameter, List.forall_mem_singleton.2 hb⟩)

/-- A `try` does, if all statements in it do. -/
theorem Try.answers_typed {t : Try Stmt}
    (hb : ∀ p ∈ t.body.statements, p.element.IsAttributedIn base)
    (hc : ∀ c ∈ t.catches, ∀ p ∈ c.body.statements,
      p.element.IsAttributedIn base)
    (hf : ∀ f ∈ t.finally?, ∀ p ∈ f.element.statements,
      p.element.IsAttributedIn base) (h : env.SameFile base) :
    base.classPath.Answers (t.untyped.typed env) fun t' =>
      (Node.stmt (.tryCatch t')).Fits base := by
  have hcatches {cs : List (Catch Stmt)}
      (hc : ∀ c ∈ cs, ∀ p ∈ c.body.statements, p.element.IsAttributedIn base) :
      base.classPath.Answers (Catch.typedAll env (cs.map Catch.untyped))
        fun cs' =>
        ∀ c ∈ cs', (Node.catchClause c).Fits base := by
    induction cs with
    | nil => exact .pure (List.forall_mem_nil _)
    | cons c cs ih =>
        obtain ⟨hc, hcs⟩ := List.forall_mem_cons.1 hc
        rw [List.map_cons, Catch.typedAll]
        exact (Catch.answers_typed hbase hc h).bind fun c' hc' =>
          (ih hcs).bind fun cs' hcs' => .pure
          (List.forall_mem_cons.2 ⟨hc', hcs'⟩)
  have hfinally : base.classPath.Answers
      (Stmt.typedFinally env (t.finally?.map (.map (.map Stmt.untyped))))
        fun o =>
        ∀ f ∈ o, (Node.block f.element).Fits base := by
    cases ho : t.finally? with
    | none => exact .pure (forall_mem_none _)
    | some f =>
        rw [Option.map_some, Stmt.typedFinally]
        refine (Stmt.answers_typedBlock (hf f ho) h).bind fun b hb =>
          .pure fun f' hf' => ?_
        cases hf'
        exact hb
  rw [Try.untyped, Try.typed]
  refine (Stmt.answers_typedBlock hb h).bind fun b hb =>
    (hcatches hc).bind fun cs hcs =>
    hfinally.bind fun o ho => .pure ?_
  refine Node.fits_of_children (Stmt.isProper_node (.tryCatch _))
    rfl rfl trivial
    (List.forall_mem_cons.2 ⟨hb,
      List.forall_mem_append.2 ⟨List.forall_mem_map.2 hcs, ?_⟩⟩)
  exact List.forall_mem_map.2 fun f hf => ho f (Option.mem_toList.1 hf)

/-- A statement fits once attributed, whatever scopes are around it. -/
theorem Stmt.isAttributedIn (s : Stmt) : s.IsAttributedIn base := by
  induction s using Stmt.induction_on with
  | block b ih =>
      intro env h
      rw [Stmt.untyped_block, Stmt.typed]
      exact (Stmt.answers_typedBlock ih h).bind fun b' hb => .pure ⟨hb, h⟩
  | declaration d =>
      intro env h
      show base.classPath.Answers (Stmt.typed env (.declaration d.untyped)) _
      rw [Stmt.typed]
      exact (d.answers_typed hbase h).bind fun r hr => .pure hr
  | expr e =>
      intro env h
      show base.classPath.Answers (Stmt.typed env (.expr e.untyped)) _
      rw [Stmt.typed]
      exact (e.answers_typed hbase h).bind fun e' he => .pure ⟨he, h⟩
  | empty lead =>
      intro env h
      exact .pure ⟨Node.fits_of_children (Stmt.isProper_node (.empty _))
        rfl rfl trivial (List.forall_mem_nil _), h⟩
  | tryCatch t ihb ihc ihf =>
      intro env h
      rw [Stmt.untyped_tryCatch, Stmt.typed]
      exact (Try.answers_typed hbase ihb ihc ihf h).bind fun t' ht =>
        .pure ⟨ht, h⟩
  | throwing lead exception =>
      intro env h
      show base.classPath.Answers
        (Stmt.typed env (.throwing lead exception.untyped)) _
      rw [Stmt.typed]
      exact (exception.answers_typed hbase h).bind fun e he => .pure
        ⟨Node.fits_of_children (Stmt.isProper_node (.throwing ..))
          rfl rfl trivial (List.forall_mem_singleton.2 he), h⟩
  | returning lead value =>
      intro env h
      rw [Stmt.untyped_returning]
      cases value with
      | none =>
          exact .pure ⟨Node.fits_of_children
            (Stmt.isProper_node (.returning ..)) rfl rfl trivial
            (List.forall_mem_nil _), h⟩
      | some e =>
          rw [Option.map_some, Stmt.typed]
          exact (e.answers_typed hbase h).bind fun e' he => .pure
            ⟨Node.fits_of_children (Stmt.isProper_node (.returning ..))
              rfl rfl trivial (List.forall_mem_singleton.2 he), h⟩
  | ifElse lead condition thenPart elsePart iht ihe =>
      intro env h
      have helse {env : Env} (h : env.SameFile base) :
          base.classPath.Answers
            (Stmt.typedElse env (elsePart.map Else.untyped)) fun r =>
            (∀ e ∈ r.1, (Node.elseBranch e).Fits base) ∧ r.2.SameFile base := by
        cases elsePart with
        | none => exact .pure ⟨forall_mem_none _, h⟩
        | some e =>
            have he : base.classPath.Answers (e.untyped.typed env) fun r =>
                (Node.elseBranch r.1).Fits base ∧ r.2.SameFile base := by
              rw [Else.untyped, Else.typed]
              exact (ihe e rfl h).bind fun r hr => .pure
                ⟨Node.fits_of_children (.elseBranch _) rfl rfl trivial
                  (List.forall_mem_singleton.2 hr.1), hr.2⟩
            rw [Option.map_some, Stmt.typedElse]
            refine he.bind fun r hr => .pure ⟨fun e' he' => ?_, hr.2⟩
            cases he'
            exact hr.1
      rw [Stmt.untyped_ifElse, Stmt.typed]
      refine (Expr.answers_typedCondition hbase h condition).bind fun c hc =>
        (iht h).bind fun r hr =>
        (helse hr.2).bind fun r' hr' => .pure ⟨?_, hr'.2⟩
      refine Node.fits_of_children (Stmt.isProper_node (.ifElse ..))
        rfl rfl trivial
        (List.forall_mem_cons.2 ⟨hc,
          List.forall_mem_cons.2 ⟨hr.1, List.forall_mem_map.2 fun e he => ?_⟩⟩)
      exact hr'.1 e (Option.mem_toList.1 he)
  | whileLoop lead condition body ih =>
      intro env h
      show base.classPath.Answers (Stmt.typed env
        (.whileLoop lead (condition.map Expr.untyped)
          (body.map Stmt.untyped))) _
      rw [Stmt.typed]
      exact (Expr.answers_typedCondition hbase h condition).bind fun c hc =>
        (ih h).bind fun r hr => .pure
        ⟨Node.fits_of_children (Stmt.isProper_node (.whileLoop ..))
          rfl rfl trivial
          (List.forall_mem_cons.2 ⟨hc, List.forall_mem_singleton.2 hr.1⟩), hr.2⟩

-- =================================================== classes and files

/-- A method fits once attributed. -/
theorem Method.answers_typed (h : env.SameFile base) (m : Method) :
    base.classPath.Answers (m.untyped.typed env) fun m' =>
      (Node.method m').Fits base := by
  have hend {params : List (RightPadded Variables)} {modifiers : List Modifier}
      (returnType : Option TypeTree) (body : Option (Block Stmt))
        (type : Option MethodType)
      (hp : ∀ p ∈ params, (Node.declaration p.element).Fits base)
      (hm : ∀ m ∈ modifiers, (Node.modifier m).Fits base)
        (hr : ∀ t ∈ returnType, t.node.Fits base)
      (hb : ∀ b ∈ body, (Node.block b).Fits base) :
      base.classPath.Answers (do
        let throws ← TypeTree.typedList env
            (m.throws.map (.map TypeTree.untyped))
        return (⟨m.lead, modifiers, returnType, m.name,
          ⟨m.parameters.before, params, m.parameters.close⟩, throws, body,
          type⟩ : Method))
        fun m' => (Node.method m').Fits base := by
    refine (TypeTree.answers_typedList hbase h m.throws).bind
      fun ts ht => .pure ?_
    refine Node.fits_of_children (.method _) rfl rfl trivial ?_
    refine List.forall_mem_append.2
      ⟨List.forall_mem_append.2 ⟨List.forall_mem_map.2 hm, ?_⟩,
      List.forall_mem_cons.2 ⟨Node.fits_ident m.name, List.forall_mem_append.2
        ⟨List.forall_mem_append.2 ⟨?_, ht⟩, ?_⟩⟩⟩
    · exact List.forall_mem_map.2 fun t ht => hr t (Option.mem_toList.1 ht)
    · exact List.forall_mem_map.2 (List.forall_mem_map.2 hp)
    · exact List.forall_mem_map.2 fun b hb' => hb b (Option.mem_toList.1 hb')
  have hbody {inner : Env} (h : inner.SameFile base) (b : Block Stmt) :
      base.classPath.Answers (some <$>
        Stmt.typedBlock inner (b.map Stmt.untyped)) fun o =>
        ∀ b ∈ o, (Node.block b).Fits base := by
    refine (Stmt.answers_typedBlock (fun p _ =>
      p.element.isAttributedIn hbase) h).map
      fun b hb b' hb' => ?_
    cases hb'
    exact hb
  have hreturn (t : TypeTree) :
      base.classPath.Answers (some <$> t.untyped.typed env) fun o =>
      ∀ t ∈ o, t.node.Fits base := by
    refine (t.answers_typed hbase h).map fun t ht t' ht' => ?_
    cases ht'
    exact ht
  have hmodifiers := Modifier.answers_typedAll hbase h m.modifiers
  have hparameters :=
    Variables.answers_typedAll hbase (h.push []) m.parameters.elements
  rw [Method.untyped_eq, Method.typed, h.classPath]
  simp only [pure_bind]
  cases m.returnType with
  | none =>
      refine (answers_findConstructor _ _).bind fun type _ =>
        hparameters.bind fun r hr => ?_
      cases m.body with
      | none =>
          exact hmodifiers.bind fun ms hms =>
            hend none none type hr.1 hms (forall_mem_none _) (forall_mem_none _)
      | some b =>
          exact (hbody hr.2 b).bind fun o ho => hmodifiers.bind fun ms hms =>
            hend none o type hr.1 hms (forall_mem_none _) ho
  | some t =>
      refine (answers_findMethod _ _ _).bind fun type _ =>
        hparameters.bind fun r hr => ?_
      cases m.body with
      | none =>
          exact hmodifiers.bind fun ms hms => (hreturn t).bind fun rt hrt =>
            hend rt none type hr.1 hms hrt (forall_mem_none _)
      | some b =>
          exact (hbody hr.2 b).bind fun o ho => hmodifiers.bind fun ms hms =>
            (hreturn t).bind fun rt hrt => hend rt o type hr.1 hms hrt ho

omit hbase in
/-- The member is attributed, wherever it stands in the file. -/
def Member.IsAttributedIn (base : Env) (m : Member) : Prop :=
  ∀ {env : Env} (outer : String), env.SameFile base →
    base.classPath.Answers (m.untyped.typed env outer) fun r =>
      r.1.node.Fits base ∧ r.2.SameFile base

/-- To enter the fields of a class leaves what is remembered in order. -/
theorem Member.answers_fieldScope (h : env.SameFile base) (scope : Scope)
    (ps : List (RightPadded Member)) :
    base.classPath.Answers (Member.fieldScope env scope
      (ps.map (.map Member.untyped)))
      fun _ => True := by
  induction ps generalizing scope with
  | nil => exact .pure trivial
  | cons p ps ih =>
      rw [List.map_cons, Member.fieldScope, RightPadded.map]
      cases p.element with
      | field d =>
          refine ((d.typeTree.answers_typed hbase h).imp fun _ _ =>
            trivial).bind fun t _ => ih _
      | method | nested => exact ih scope

omit hbase in
/-- A class fits when what is below it does; the name it is declared with
refers to none. -/
theorem Node.fits_classDecl {c : JavaClass} (hname : c.name.NamesClass)
    (hparts : ∀ m ∈ (Node.classDecl c).parts, m.Fits base) :
    (Node.classDecl c).Fits base := by
  refine Node.fits_of_walk rfl rfl (Node.isAttributed_walk (.classDecl c)
    ⟨trivial, trivial, fun m hm k hk => ?_⟩ fun m hm => ?_)
      (Node.meansIn_of_fits rfl hparts)
  · rcases Node.mem_children_classDecl hm with rfl | hm
    · exact Option.some.inj hk ▸ hname
    · exact ((hparts m hm).name k (Node.name?_of_className? rfl hk)).1
  · rcases Node.mem_children_classDecl hm with rfl | hm
    · exact c.name.isAttributed_walk
    · exact (hparts m hm).walk

/-- A class fits once attributed, if its members do. -/
theorem ClassDecl.answers_typed {c : JavaClass}
    (hm : ∀ p ∈ c.body.statements, p.element.IsAttributedIn base)
    (h : env.SameFile base) (outer : String) :
    base.classPath.Answers (c.untyped.typed env outer) fun c' =>
      (Node.classDecl c').Fits base := by
  have hall {ps : List (RightPadded Member)}
      (hps : ∀ p ∈ ps, p.element.IsAttributedIn base)
      {env : Env} (outer : String) (h : env.SameFile base) :
      base.classPath.Answers (Member.typedAll env outer
        (ps.map (.map Member.untyped))) fun ps' =>
        ∀ p ∈ ps', p.element.node.Fits base := by
    induction ps generalizing env with
    | nil => exact .pure (List.forall_mem_nil _)
    | cons p ps ih =>
        obtain ⟨hp, hps⟩ := List.forall_mem_cons.1 hps
        rw [List.map_cons, Member.typedAll]
        exact (hp outer h).bind fun r hr =>
          (ih hps hr.2).bind fun ps' hps' => .pure
          (List.forall_mem_cons.2 ⟨hr.1, hps'⟩)
  have hbody {env : Env} (outer : String) (h : env.SameFile base) :
      base.classPath.Answers (Member.typedBlock env outer
        (c.body.map Member.untyped)) fun b =>
        (Node.classBody b).Fits base := by
    rw [Block.map, Member.typedBlock]
    exact (hall hm outer h).bind fun ps' hps' => .pure
      (Node.fits_of_children (.classBody _) rfl rfl trivial
        (List.forall_mem_map.2 hps'))
  rw [ClassDecl.untyped_eq, ClassDecl.typed, h.classPath]
  refine (answers_typeOf _).bind fun type htype =>
    (Member.answers_fieldScope hbase h [] _).bind fun fields _ =>
    (hbody _ (h.enter type fields)).bind fun b hb =>
      (Modifier.answers_typedAll hbase h c.modifiers).bind fun ms hms =>
        (TypeTree.answers_typedList hbase h c.extends?).bind fun es hes =>
          (TypeTree.answers_typedList hbase h c.implements?).bind
            fun is his => .pure ?_
  have hname :
      (c.name.untyped.withType (some (.reference type))).NamesClass := by
    refine ⟨fun o ho => ?_, fun c' hc' => ?_⟩
    · have houter : (c.name.untyped.withType (some (.reference type))).outer? =
          c.name.untyped.outer? := by
        cases c.name <;> rfl
      exact c.name.namesClass_untyped.outer o (houter ▸ ho)
    · have hwith : (c.name.untyped.withType (some (.reference type))).type =
          some (.reference type) := by
        cases c.name <;> rfl
      cases hwith.symm.trans hc'
      rw [Name.last_withType, htype.1, Text.simpleName_qualify]
  exact Node.fits_classDecl hname
    (List.forall_mem_append.2 ⟨List.forall_mem_map.2 hms,
    List.forall_mem_append.2 ⟨List.forall_mem_append.2 ⟨hes, his⟩,
      List.forall_mem_singleton.2 hb⟩⟩)

/-- A member fits once attributed. -/
theorem Member.isAttributedIn (m : Member) : m.IsAttributedIn base := by
  induction m using Member.induction_on with
  | field d =>
      intro env outer h
      show base.classPath.Answers (Member.typed env outer (.field d.untyped)) _
      rw [Member.typed]
      exact (d.answers_typed hbase h).bind fun r hr => .pure hr
  | method m =>
      intro env outer h
      show base.classPath.Answers (Member.typed env outer (.method m.untyped)) _
      rw [Member.typed]
      exact (m.answers_typed hbase h).bind fun m' hm => .pure ⟨hm, h⟩
  | nested c ih =>
      intro env outer h
      show base.classPath.Answers (Member.typed env outer (.nested c.untyped)) _
      rw [Member.typed]
      exact (ClassDecl.answers_typed hbase ih h outer).bind fun c' hc =>
        .pure ⟨hc, h⟩

omit hbase in
/-- What only wraps the name of a package fits. -/
theorem Node.fits_of_name {n : Node} {name : Name} (hn : n.IsProper)
    (hname : n.name? = none) (haccess : n.isAccess = false)
    (hconsistent : n.IsConsistent Eq) (hwhole : n.IsTypedWhole)
    (hparts : n.parts = [.name name]) (hchildren : n.children = [.name name])
    (hnone : n.className? (.name name) = none) : n.Fits base := by
  refine Node.fits_of_walk hname haccess
    (Node.isAttributed_walk hn ⟨hconsistent, hwhole, ?_⟩ ?_)
    (.intro ?_ ?_ ?_)
  · rw [hchildren, List.forall_mem_singleton, hnone]
    exact fun c hc => absurd hc (Option.not_mem_none c)
  · rw [hchildren, List.forall_mem_singleton]
    exact name.isAttributed_walk
  · rw [hparts, List.forall_mem_singleton, Node.classIn?, hnone]
    exact fun c hc => absurd hc (Option.not_mem_none c)
  · intro e he
    rw [hparts, List.mem_singleton] at he
    cases he
  · rw [hparts, List.forall_mem_singleton]
    exact fun _ => Node.allClasses_name name

omit hbase in
/-- A file without types fits once it is typed. -/
theorem CompilationUnit.fits_typed {cu : CompilationUnit} (h : cu.untyped = cu)
    (cp : ClassPath) : (Node.unit (cu.typed cp)).Fits (cu.env cp) := by
  have hbase : (cu.env cp).names.NamesPlainly := cu.namesPlainly_fileNames
  have hclasses (cs : List JavaClass) : (cu.env cp).classPath.Answers
      ((cs.map ClassDecl.untyped).mapM
        (ClassDecl.typed (cu.env cp) cu.packageName)) fun cs' =>
        ∀ c ∈ cs', (Node.classDecl c).Fits (cu.env cp) := by
    induction cs with
    | nil => exact .pure (List.forall_mem_nil _)
    | cons c cs ih =>
        rw [List.map_cons, List.mapM_cons]
        exact (ClassDecl.answers_typed hbase
          (fun p _ => p.element.isAttributedIn hbase) .refl _).bind
          fun c' hc => ih.bind fun cs' hcs =>
            .pure (List.forall_mem_cons.2 ⟨hc, hcs⟩)
  have hcu : cu.classes.map ClassDecl.untyped = cu.classes := by
    rw [untyped_eq] at h
    exact congrArg CompilationUnit.classes h
  have htyped := (hclasses cu.classes [] faithful_nil).2
  rw [hcu] at htyped
  have hpackage (p : Package) : (Node.package p).Fits (cu.env cp) :=
    Node.fits_of_name (.package p) rfl rfl trivial trivial rfl rfl rfl
  have himport (i : Import) : (Node.importDecl i).Fits (cu.env cp) :=
    Node.fits_of_name (.importDecl i) rfl rfl trivial trivial rfl rfl rfl
  refine Node.fits_of_children (.unit _) rfl rfl trivial
    (List.forall_mem_append.2
    ⟨List.forall_mem_append.2 ⟨?_, ?_⟩, List.forall_mem_map.2 htyped⟩)
  · exact List.forall_mem_map.2 fun p _ => hpackage p.element
  · exact List.forall_mem_map.2 fun p _ => himport p.element

omit hbase in
/-- A file that was read fits: what its names of classes mean is found in the
file without types. -/
theorem fits_parseUnit {source : String} {cp : ClassPath} {path : Option String}
    {cu : CompilationUnit} (h : parseUnit source cp path = .ok cu) :
    ∃ tree, parseTree source path = .ok tree ∧ cu = tree.typed cp ∧
      (Node.unit cu).Fits (tree.env cp) := by
  unfold parseUnit at h
  cases htree : parseTree source path with
  | error e => rw [htree] at h; cases h
  | ok tree =>
      rw [htree] at h
      cases h
      obtain ⟨ts, hspells⟩ := parseTree_eq_ok_iff.1 htree
      exact ⟨tree, rfl, rfl,
        CompilationUnit.fits_typed (keeps_unit hspells.spells) cp⟩

omit hbase in
/-- What attribution leaves at each node of a file that was read. -/
theorem isAttributed_parseUnit {source : String} {cp : ClassPath}
    {path : Option String} {cu : CompilationUnit}
    (h : parseUnit source cp path = .ok cu) :
    ∀ n ∈ cu.walk, n.IsAttributed := by
  obtain ⟨tree, -, -, hfits⟩ := fits_parseUnit h
  exact hfits.walk

end JavaRefit
