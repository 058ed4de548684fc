/-
Attribution does not look at trivia.

The types of a tree without its trivia are those of the tree: attributing
and blanking can be done in either order, and ask the class path the same
questions in the same order (`CompilationUnit.typed_blank`). What a file
declares, and which names it sees, is read off its words too.

Chain: after the blank trees; the rule comes next.
-/
import JavaRefit.Attribution.Unit
import JavaRefit.Proofs.Tree.Blank

namespace JavaRefit

open ClassPath (Query)

-- ======================================================= names and types

@[simp] theorem Name.type_blank (n : Name) : n.blank.type = n.type := by
  cases n <;> rfl

@[simp] theorem Name.last_blank (n : Name) : n.blank.last = n.last := by
  cases n <;> rfl

@[simp] theorem Name.dotted_blank (n : Name) : n.blank.dotted = n.dotted := by
  induction n with
  | simple i type => rfl
  | qualified lead outer last type ih =>
      rw [blank_qualified, dotted, dotted, ih]
      rfl

/-- A name gets its type before or after the trivia go. -/
@[simp] theorem Name.withType_blank (n : Name) (type : Option JavaType) :
    n.blank.withType type = (n.withType type).blank := by
  cases n <;> rfl

/-- Names are looked up by their words, not by their trivia. -/
@[simp] theorem FileNames.resolveName?_blank (f : FileNames) (cp : ClassPath)
    (n : Name) : f.resolveName? cp n.blank = f.resolveName? cp n := by
  cases n with
  | simple i type => rfl
  | qualified lead outer last type =>
      exact congrArg (fun dotted => some (f.resolveDotted cp dotted))
        (Name.dotted_blank (.qualified lead outer last type))

/-- A blank name is attributed as the name is. -/
theorem Name.typed_blank (env : Env) (n : Name) :
    n.blank.typed env = Name.blank <$> n.typed env := by
  simp only [Name.typed, FileNames.resolveName?_blank, withType_blank,
    map_bind, map_pure]

@[simp] theorem TypeTree.type_blank (t : TypeTree) : t.blank.type = t.type := by
  cases t with
  | named n => exact n.type_blank
  | generic => rw [blank_generic, type, type]
  | union => rw [blank_union, type, type]
  | primitive | array => rfl

/-- Blank types in a row are attributed as the types are, if each is. -/
theorem TypeTree.typedAll_blank {env : Env} {ps : List (RightPadded TypeTree)}
    (h : ∀ p ∈ ps, p.element.blank.typed env = TypeTree.blank <$>
      p.element.typed env) :
    TypeTree.typedAll env (ps.map (.blank TypeTree.blank)) =
      List.map (RightPadded.blank TypeTree.blank) <$>
        TypeTree.typedAll env ps := by
  induction ps with
  | nil => rfl
  | cons p ps ih =>
      obtain ⟨hp, hps⟩ := List.forall_mem_cons.1 h
      simp only [List.map_cons, typedAll, RightPadded.blank, hp, ih hps,
        bind_map_left, map_bind, map_pure]

/-- A blank type is attributed as the type is. -/
theorem TypeTree.typed_blank (env : Env) (t : TypeTree) :
    t.blank.typed env = TypeTree.blank <$> t.typed env := by
  induction t using TypeTree.induction_on with
  | named n => simp only [blank_named, typed, n.typed_blank, bind_map_left,
        map_bind, map_pure]
  | generic lead base args type ih =>
      simp only [blank_generic, typed, base.typed_blank, Container.blank,
        typedAll_blank ih, bind_map_left, map_bind, map_pure, Name.type_blank]
  | primitive lead keyword type => rfl
  | array lead element dimension type ih =>
      simp only [blank_array, typed, ih, bind_map_left, map_bind,
        map_pure, type_blank]
  | union lead alternatives ih =>
      simp only [blank_union, typed, typedAll_blank ih, bind_map_left,
        map_bind, map_pure]

theorem TypeTree.typedList_blank (env : Env) (o : Option (Container TypeTree)) :
    TypeTree.typedList env (o.map (.blank TypeTree.blank)) =
      Option.map (Container.blank TypeTree.blank) <$>
        TypeTree.typedList env o := by
  cases o with
  | none => rfl
  | some c =>
      simp only [Option.map_some, typedList, Container.blank,
        typedAll_blank fun p _ => p.element.typed_blank env, bind_map_left,
        map_bind, map_pure]

-- =========================================================== expressions

@[simp] theorem Expr.type_blank (e : Expr) : e.blank.type = e.type := by
  cases e with
  | call => rw [blank_call, type, type]
  | new => rw [blank_new, type, type]
  | _ => rfl

/-- A chain of words is one without trivia. -/
@[simp] theorem Expr.isNameChain_blank (e : Expr) :
    e.blank.isNameChain = e.isNameChain := by
  induction e using Expr.induction_on with
  | access lead target name type ih =>
      rw [blank_access, isNameChain, isNameChain, ih]
  | call => rw [blank_call]; rfl
  | new => rw [blank_new]; rfl
  | _ => rfl

/-- The words of a chain are no trivia. -/
@[simp] theorem Expr.dotted?_blank (e : Expr) :
    e.blank.dotted? = e.dotted? := by
  induction e using Expr.induction_on with
  | access lead target name type ih =>
      rw [blank_access, dotted?, dotted?, ih]
      rfl
  | call => rw [blank_call]; rfl
  | new => rw [blank_new]; rfl
  | _ => rfl

@[simp] theorem Expr.chainText?_blank (target : Expr)
    (name : LeftPadded Ident) :
    chainText? target.blank (name.blank Ident.blank) =
      chainText? target name := by
  simp only [chainText?, isNameChain_blank, dotted?_blank]
  rfl

@[simp] theorem isClassLiteral_blank (name : LeftPadded Ident) :
    isClassLiteral (name.blank Ident.blank) = isClassLiteral name := rfl

/-- What an access is worth is told without trivia. -/
@[simp] theorem accessType_blank (env : Env) (target : Expr)
    (name : LeftPadded Ident) :
    accessType env target.blank (name.blank Ident.blank) =
      accessType env target name := by
  cases target with
  | call => rw [Expr.blank_call]; rfl
  | new => rw [Expr.blank_new]; rfl
  | _ => rfl

/-- A blank chain of words is attributed as a class as the chain is. -/
theorem Expr.typedAsClass_blank (env : Env) (e : Expr) :
    e.blank.typedAsClass env = Expr.blank <$> e.typedAsClass env := by
  cases e with
  | ident i type =>
      simp only [blank_ident, typedAsClass, map_bind, map_pure]; rfl
  | access lead target name type =>
      simp only [blank_access, typedAsClass, chainText?_blank]
      split <;> simp only [map_bind, map_pure, blank_access]
  | call => simp only [blank_call, typedAsClass, map_pure]
  | new => simp only [blank_new, typedAsClass, map_pure]
  | _ => rfl

/-- Blank expressions in a row are attributed as they are, if each is. -/
theorem Expr.typedAll_blank {env : Env} {ps : List (RightPadded Expr)}
    (h : ∀ p ∈ ps, p.element.blank.typed env = Expr.blank <$>
      p.element.typed env) :
    Expr.typedAll env (ps.map (.blank Expr.blank)) =
      List.map (RightPadded.blank Expr.blank) <$> Expr.typedAll env ps := by
  induction ps with
  | nil => rfl
  | cons p ps ih =>
      obtain ⟨hp, hps⟩ := List.forall_mem_cons.1 h
      simp only [List.map_cons, typedAll, RightPadded.blank, hp, ih hps,
        bind_map_left, map_bind, map_pure]

/-- A blank expression is attributed as the expression is. -/
theorem Expr.typed_blank (env : Env) (e : Expr) :
    e.blank.typed env = Expr.blank <$> e.typed env := by
  induction e using Expr.induction_on with
  | ident i type => simp only [blank_ident, typed, map_bind, map_pure]; rfl
  | access lead target name type ih =>
      simp only [blank_access, typed, isClassLiteral_blank, chainText?_blank,
        isNameChain_blank]
      split
      · split
        · simp only [typedAsClass_blank, bind_map_left, map_bind, map_pure,
            blank_access]
        · simp only [ih, bind_map_left, map_bind, map_pure, blank_access]
      · split
        · simp only [map_bind, map_pure, blank_access]
        · simp only [ih, bind_map_left, map_bind, map_pure, blank_access,
            accessType_blank]
  | call lead select name args method ihs iha =>
      cases select with
      | none =>
          simp only [blank_call, Option.map_none, typed, Container.blank,
            typedAll_blank iha, bind_map_left, map_bind, map_pure,
            List.length_map]
          rfl
      | some p =>
          simp only [blank_call, Option.map_some, typed, Container.blank,
            RightPadded.blank, typedAll_blank iha, ihs p rfl, bind_map_left,
            map_bind, map_pure, List.length_map,
            type_blank]
          rfl
  | new lead base args constructor type ih =>
      simp only [blank_new, typed, Container.blank, base.typed_blank,
        typedAll_blank ih, bind_map_left, map_bind, map_pure, List.length_map,
        TypeTree.type_blank]
  | literal lead text type =>
      simp only [blank_literal, typed]
      split <;> simp only [map_bind, map_pure, blank_literal]
  | assign lead target value type iht ihv =>
      simp only [blank_assign, typed, LeftPadded.blank, iht, ihv, bind_map_left,
        map_bind, map_pure, type_blank]
  | binary lead left operator right type ihl ihr =>
      simp only [blank_binary, typed, LeftPadded.blank, ihl, ihr, bind_map_left,
        map_bind, map_pure, type_blank, id]
  | unary lead operator operand type ih =>
      simp only [blank_unary, typed, ih, bind_map_left, map_bind,
        map_pure, type_blank]
  | parens lead inner type ih =>
      simp only [blank_parens, typed, RightPadded.blank, ih, bind_map_left,
        map_bind, map_pure, type_blank]

theorem Expr.typedCondition_blank (env : Env) (c : Parens Expr) :
    Expr.typedCondition env (c.blank Expr.blank) =
      Parens.blank Expr.blank <$> Expr.typedCondition env c := by
  simp only [typedCondition, Parens.blank, RightPadded.blank, typed_blank,
    bind_map_left, map_bind, map_pure]

-- ========================================================== declarations

/-- A blank modifier is attributed as the modifier is. -/
theorem Modifier.typed_blank (env : Env) (m : Modifier) :
    m.blank.typed env = Modifier.blank <$> m.typed env := by
  cases m with
  | keyword lead word => rfl
  | annotated lead name args =>
      cases args with
      | none =>
          simp only [blank_annotated, Option.map_none, typed, name.typed_blank,
            bind_map_left, map_bind, map_pure]
      | some c =>
          simp only [blank_annotated, Option.map_some, typed, name.typed_blank,
            Container.blank, Expr.typedAll_blank fun p _ =>
              p.element.typed_blank env, bind_map_left, map_bind,
            map_pure]

theorem Modifier.typedAll_blank (env : Env) (ms : List Modifier) :
    Modifier.typedAll env (ms.map Modifier.blank) =
      List.map Modifier.blank <$> Modifier.typedAll env ms := by
  unfold Modifier.typedAll
  induction ms with
  | nil => rfl
  | cons m ms ih =>
      simp only [List.map_cons, List.mapM_cons, typed_blank, ih, bind_map_left,
        map_bind, map_pure]

/-- Blank variables are attributed as they are, and leave the same scopes. -/
theorem Variable.typedAll_blank (type : Option JavaType) (env : Env)
    (ps : List (RightPadded Variable)) :
    Variable.typedAll type env (ps.map (.blank Variable.blank)) =
      Prod.map (List.map (RightPadded.blank Variable.blank)) id <$>
        Variable.typedAll type env ps := by
  induction ps generalizing env with
  | nil => rfl
  | cons p ps ih =>
      simp only [List.map_cons, typedAll, RightPadded.blank, blank_eq,
        Name.last_blank, ih]
      cases p.element.initializer with
      | none =>
          simp only [Option.map_none, pure_bind, bind_map_left, map_bind,
            map_pure, Prod.map, List.map_cons, RightPadded.blank, blank_eq,
            Name.withType_blank, id]
      | some i =>
          simp only [Option.map_some, LeftPadded.blank,
            i.element.typed_blank, pure_bind, bind_map_left, map_bind, map_pure,
            Prod.map, List.map_cons, RightPadded.blank, blank_eq,
            Name.withType_blank, id]

theorem Variables.typed_blank (env : Env) (d : Variables) :
    d.blank.typed env = Prod.map Variables.blank id <$> d.typed env := by
  simp only [blank_eq, typed, d.typeTree.typed_blank, Variable.typedAll_blank,
    TypeTree.type_blank, Modifier.typedAll_blank, Prod.map, bind_map_left,
    map_bind, map_pure, id]

theorem Variables.typedAll_blank (env : Env)
    (ps : List (RightPadded Variables)) :
    Variables.typedAll env (ps.map (.blank Variables.blank)) =
      Prod.map (List.map (RightPadded.blank Variables.blank)) id <$>
        Variables.typedAll env ps := by
  induction ps generalizing env with
  | nil => rfl
  | cons p ps ih =>
      simp only [List.map_cons, typedAll, RightPadded.blank, typed_blank, ih,
        Prod.map, bind_map_left, map_bind, map_pure, id]

-- ============================================================ statements

section

variable {env : Env}

/-- Blank statements in a row are attributed as they are, if each is. -/
theorem Stmt.typedAll_blank {ps : List (RightPadded Stmt)} (h : ∀ p ∈ ps, ∀ env,
      p.element.blank.typed env = Prod.map Stmt.blank id <$>
        p.element.typed env) :
    Stmt.typedAll env (ps.map (.blank Stmt.blank)) =
      List.map (RightPadded.blank Stmt.blank) <$> Stmt.typedAll env ps := by
  induction ps generalizing env with
  | nil => rfl
  | cons p ps ih =>
      obtain ⟨hp, hps⟩ := List.forall_mem_cons.1 h
      simp only [List.map_cons, typedAll, RightPadded.blank, hp, ih hps,
        Prod.map, bind_map_left, map_bind, map_pure, id]

/-- A block is, if its statements are. -/
theorem Stmt.typedBlock_blank {b : Block Stmt} (h : ∀ p ∈ b.statements, ∀ env,
      p.element.blank.typed env = Prod.map Stmt.blank id <$>
        p.element.typed env) :
    Stmt.typedBlock env (b.blank Stmt.blank) = Block.blank Stmt.blank <$>
      Stmt.typedBlock env b := by
  simp only [typedBlock, Block.blank, typedAll_blank h, bind_map_left,
    map_bind, map_pure]

/-- A catch clause is, if the statements of its body are. -/
theorem Catch.typed_blank {c : Catch Stmt} (h : ∀ p ∈ c.body.statements, ∀ env,
      p.element.blank.typed env = Prod.map Stmt.blank id <$>
        p.element.typed env) :
    c.blank.typed env = Catch.blank <$> c.typed env := by
  simp only [typed, blank, declaration, Parens.blank, RightPadded.blank,
    Variables.typed_blank, Stmt.typedBlock_blank h, Prod.map, bind_map_left,
    map_bind, map_pure, id]

theorem Catch.typedAll_blank {cs : List (Catch Stmt)}
    (h : ∀ c ∈ cs, ∀ p ∈ c.body.statements, ∀ env,
      p.element.blank.typed env = Prod.map Stmt.blank id <$>
        p.element.typed env) :
    Catch.typedAll env (cs.map Catch.blank) = List.map Catch.blank <$>
      Catch.typedAll env cs := by
  induction cs with
  | nil => rfl
  | cons c cs ih =>
      obtain ⟨hc, hcs⟩ := List.forall_mem_cons.1 h
      simp only [List.map_cons, typedAll, typed_blank hc, ih hcs, bind_map_left,
        map_bind, map_pure]

theorem Stmt.typedFinally_blank {o : Option (LeftPadded (Block Stmt))}
    (h : ∀ f ∈ o, ∀ p ∈ f.element.statements, ∀ env,
      p.element.blank.typed env = Prod.map Stmt.blank id <$>
        p.element.typed env) :
    Stmt.typedFinally env (o.map (.blank (.blank Stmt.blank))) =
      Option.map (LeftPadded.blank (Block.blank Stmt.blank)) <$>
        Stmt.typedFinally env o := by
  cases o with
  | none => rfl
  | some f =>
      simp only [Option.map_some, typedFinally, LeftPadded.blank,
        typedBlock_blank (h f rfl), bind_map_left, map_bind, map_pure]

theorem Stmt.typedElse_blank {o : Option (Else Stmt)} (h : ∀ e ∈ o, ∀ env,
      e.body.element.blank.typed env = Prod.map Stmt.blank id <$>
        e.body.element.typed env) :
    Stmt.typedElse env (o.map Else.blank) =
      Prod.map (Option.map Else.blank) id <$> Stmt.typedElse env o := by
  cases o with
  | none => rfl
  | some e =>
      simp only [Option.map_some, typedElse, Else.typed, Else.blank,
        RightPadded.blank, h e rfl, Prod.map, bind_assoc, pure_bind,
        bind_map_left, map_bind, map_pure, id]

end

/-- A blank statement is attributed as the statement is, and leaves the same
scopes. -/
theorem Stmt.typed_blank (env : Env) (s : Stmt) :
    s.blank.typed env = Prod.map Stmt.blank id <$> s.typed env := by
  induction s using Stmt.induction_on generalizing env with
  | block b ih =>
      simp only [blank_block, typed, typedBlock_blank ih, bind_map_left,
        map_bind, map_pure, Prod.map, id]
  | declaration d =>
      simp only [blank_declaration, typed, d.typed_blank, bind_map_left,
        map_bind, map_pure, Prod.map, id]
  | expr e => simp only [blank_expr, typed, e.typed_blank, bind_map_left,
        map_bind, map_pure, Prod.map, id]
  | empty lead => rfl
  | tryCatch t ihb ihc ihf =>
      simp only [blank_tryCatch, typed, Try.typed, Try.blank,
        typedBlock_blank ihb, Catch.typedAll_blank ihc, typedFinally_blank ihf,
        bind_assoc, pure_bind, bind_map_left,
        map_bind, map_pure, Prod.map, id]
  | throwing lead exception =>
      simp only [blank_throwing, typed, exception.typed_blank, bind_map_left,
        map_bind, map_pure, Prod.map, id]
  | returning lead value =>
      cases value with
      | none => rfl
      | some e =>
          simp only [blank_returning, Option.map_some, typed, e.typed_blank,
            bind_map_left, map_bind, map_pure, Prod.map, id]
  | ifElse lead condition thenPart elsePart iht ihe =>
      simp only [blank_ifElse, typed, Expr.typedCondition_blank,
        RightPadded.blank, iht, typedElse_blank ihe, bind_map_left, map_bind,
        map_pure, Prod.map, id]
  | whileLoop lead condition body ih =>
      simp only [blank_whileLoop, typed, Expr.typedCondition_blank,
        RightPadded.blank, ih, bind_map_left, map_bind, map_pure, Prod.map, id]

-- ========================================== what the classes of a file declare

/-- How a type is called in a class path hangs on no trivia. -/
@[simp] theorem FileNames.typeText_blank (f : FileNames) (cp : ClassPath)
    (t : TypeTree) : f.typeText cp t.blank = f.typeText cp t := by
  induction t using TypeTree.induction_on with
  | named n => simp only [TypeTree.blank_named, typeText, resolveName?_blank]
  | generic lead base args type _ =>
      simp only [TypeTree.blank_generic, typeText, resolveName?_blank]
  | primitive lead keyword type => rfl
  | array lead element dimension type ih =>
      simp only [TypeTree.blank_array, typeText, ih]
  | union lead alternatives _ => simp only [TypeTree.blank_union, typeText]

theorem Container.items_blank {α : Type} (f : α → α) (c : Container α) :
    (c.blank f).items = c.items.map f := by
  simp only [items, blank, List.map_map]
  rfl

/-- What a class path tells of a method hangs on no trivia. -/
theorem Method.info_blank (f : FileNames) (cp : ClassPath) (m : Method) :
    m.blank.info f cp = m.info f cp := by
  have htexts (o : Option TypeTree) :
      (o.map TypeTree.blank).map (f.typeText cp) = o.map (f.typeText cp) := by
    cases o <;> simp only [Option.map_none, Option.map_some,
      FileNames.typeText_blank]
  have hlist (ts : List TypeTree) :
      (ts.map TypeTree.blank).map (f.typeText cp) = ts.map (f.typeText cp) := by
    simp only [List.map_map, Function.comp_def, FileNames.typeText_blank]
  have hparams (ds : List Variables) :
      (ds.map Variables.blank).map (fun d => f.typeText cp d.typeTree) =
        ds.map fun d => f.typeText cp d.typeTree := by
    simp only [List.map_map, Function.comp_def, Variables.blank_eq,
      FileNames.typeText_blank]
  rw [blank_eq]
  unfold info
  dsimp only
  rw [Container.items_blank, hparams, htexts, Option.isNone_map]
  cases m.throws with
  | none => rfl
  | some ts =>
      rw [Option.map_some]
      dsimp only
      rw [Container.items_blank, hlist]
      rfl

/-- The methods and constructors among some members. -/
def Member.methods (ps : List (RightPadded Member)) : List Method :=
  ps.filterMap fun p => match p.element with
    | .method m => some m
    | _ => none

/-- The methods of blank members are those of the members, blank. -/
theorem Member.methods_blank (ps : List (RightPadded Member)) :
    methods (ps.map (.blank Member.blank)) = (methods ps).map Method.blank := by
  rw [methods, methods, List.filterMap_map, List.map_filterMap]
  congr 1
  funext p
  rw [Function.comp, RightPadded.blank]
  cases p.element <;> rfl

/-- The spellings of the types after a keyword. -/
def FileNames.listTexts (f : FileNames) (cp : ClassPath) :
    Option (Container TypeTree) → List String
  | none => []
  | some ts => ts.items.map (f.typeText cp)

/-- How the types in a list are called hangs on no trivia. -/
theorem FileNames.listTexts_blank (f : FileNames) (cp : ClassPath)
    (o : Option (Container TypeTree)) :
    f.listTexts cp (o.map (.blank TypeTree.blank)) = f.listTexts cp o := by
  cases o with
  | none => rfl
  | some c =>
      simp only [Option.map_some, listTexts, Container.items_blank,
        List.map_map, Function.comp_def, typeText_blank]

/-- What a class declares is read off its kind, the types after its keywords
and its methods. -/
theorem ClassDecl.info_eq (f : FileNames) (cp : ClassPath) (c : JavaClass)
    (fqn : String) : c.info f cp fqn =
      { fqn
        kind := c.kind
        supertype := match c.kind with
          | .interface => none
          | .ordinary => match f.listTexts cp c.extends? with
            | [] => some objectName
            | t :: _ => some (if t = "" then objectName else t)
        interfaces := match c.kind with
          | .interface => (f.listTexts cp c.extends?).filter (· != "")
          | .ordinary => (f.listTexts cp c.implements?).filter (· != "")
        methods := ((Member.methods c.body.statements).filter fun m =>
          m.returnType.isSome).map
          (Method.info f cp)
        constructors := ((Member.methods c.body.statements).filter fun m =>
          m.returnType.isNone).map
          (Method.info f cp) } := rfl

/-- What a class path tells of a class hangs on no trivia. -/
theorem ClassDecl.info_blank (f : FileNames) (cp : ClassPath) (c : JavaClass)
    (fqn : String) : c.blank.info f cp fqn = c.info f cp fqn := by
  have hmethods (p : Method → Bool) (hp : ∀ m, p m.blank = p m) :
      ((Member.methods c.body.statements).map Method.blank |>.filter p).map
        (Method.info f cp) =
        ((Member.methods c.body.statements).filter p).map
          (Method.info f cp) := by
    rw [List.filter_map, List.map_map]
    simp only [Function.comp_def, hp, Method.info_blank]
  rw [info_eq, info_eq, blank_eq]
  dsimp only [Block.blank]
  rw [FileNames.listTexts_blank, FileNames.listTexts_blank,
    Member.methods_blank, hmethods, hmethods]
  · intro m
    rw [Method.blank_eq, Option.isNone_map]
  · intro m
    rw [Method.blank_eq, Option.isSome_map]

/-- Blank members declare the blank classes, if each of them does. -/
theorem Member.declaredAll_blank {ps : List (RightPadded Member)}
    (h : ∀ p ∈ ps, ∀ outer, p.element.blank.declared outer =
      (p.element.declared outer).map (Prod.map ClassDecl.blank id))
    (outer : String) : Member.declaredAll outer (ps.map (.blank Member.blank)) =
      (Member.declaredAll outer ps).map (Prod.map ClassDecl.blank id) := by
  induction ps with
  | nil => rfl
  | cons p ps ih =>
      obtain ⟨hp, hps⟩ := List.forall_mem_cons.1 h
      simp only [List.map_cons, declaredAll, RightPadded.blank, hp, ih hps,
        List.map_append]

/-- A blank member declares the blank classes, by the same names. -/
theorem Member.declared_blank (m : Member) (outer : String) :
    m.blank.declared outer = (m.declared outer).map
      (Prod.map ClassDecl.blank id) := by
  induction m using Member.induction_on generalizing outer with
  | field d => rfl
  | method m => rfl
  | nested c ih =>
      rw [blank_nested, declared, declared, ClassDecl.declared,
        ClassDecl.declared, List.map_cons, declaredBlock, declaredBlock,
        ← declaredAll_blank ih]
      simp only [ClassDecl.blank_eq, Name.last_blank, Block.blank, Prod.map, id]

theorem ClassDecl.declared_blank (c : JavaClass) (outer : String) :
    ClassDecl.declared outer c.blank =
      (ClassDecl.declared outer c).map (Prod.map ClassDecl.blank id) :=
  Member.declared_blank (.nested c) outer

-- =================================================================== files

namespace Import

variable (i : Import)

@[simp] theorem isStatic_blank : i.blank.isStatic = i.isStatic :=
  Option.isSome_map

@[simp] theorem isWildcard_blank : i.blank.isWildcard = i.isWildcard :=
  congrArg (· == "*") i.name.last_blank

@[simp] theorem className_blank : i.blank.className = i.className :=
  i.name.last_blank

@[simp] theorem typeName_blank : i.blank.typeName = i.typeName :=
  i.name.dotted_blank

@[simp] theorem packageName?_blank : i.blank.packageName? = i.packageName? := by
  unfold packageName? blank
  cases i.name with
  | simple j type => rfl
  | qualified lead outer last type => exact congrArg some outer.dotted_blank

end Import

namespace CompilationUnit

variable (cu : CompilationUnit) (cp : ClassPath)

@[simp] theorem packageName_blank : cu.blank.packageName = cu.packageName := by
  rw [packageName, packageName, blank_eq]
  cases cu.package? with
  | none => rfl
  | some p => exact p.element.name.dotted_blank

/-- A blank file declares the blank classes, by the same names. -/
theorem declaredClasses_blank :
    cu.blank.declaredClasses = cu.declaredClasses.map
      (Prod.map ClassDecl.blank id) := by
  unfold declaredClasses
  rw [packageName_blank, blank_eq, List.flatMap_map, List.map_flatMap]
  exact congrArg (List.flatMap · cu.classes)
    (funext fun c => c.declared_blank cu.packageName)

/-- Names are looked up in a blank file as in the file. -/
theorem fileNames_blank : cu.blank.fileNames = cu.fileNames := by
  unfold fileNames
  rw [packageName_blank, declaredClasses_blank, blank_eq]
  simp only [List.map_map, List.filter_map, List.filterMap_map,
    Function.comp_def, RightPadded.blank, Import.isStatic_blank,
    Import.isWildcard_blank, Import.className_blank,
    Import.typeName_blank, Import.packageName?_blank, Prod.map,
    ClassDecl.blank_eq, Name.last_blank, id]

/-- A blank file brings the same classes to a class path. -/
theorem extendClassPath_blank :
    cu.blank.extendClassPath cp = cu.extendClassPath cp := by
  unfold extendClassPath
  rw [fileNames_blank, declaredClasses_blank, List.map_map]
  simp only [Function.comp_def, Prod.map, ClassDecl.info_blank, id]

/-- The attribution of a blank file starts where that of the file does. -/
theorem env_blank : cu.blank.env cp = cu.env cp := by
  rw [env, env, extendClassPath_blank, fileNames_blank]

end CompilationUnit

-- ==================================================== members and whole files

/-- A blank method is attributed as the method is. -/
theorem Method.typed_blank (env : Env) (m : Method) :
    m.blank.typed env = Method.blank <$> m.typed env := by
  have hbody (env : Env) (b : Block Stmt) :
      Stmt.typedBlock env (b.blank Stmt.blank) = Block.blank Stmt.blank <$>
        Stmt.typedBlock env b :=
    Stmt.typedBlock_blank fun p _ env => p.element.typed_blank env
  unfold typed
  rw [blank_eq]
  simp only [Container.blank, List.length_map, Variables.typedAll_blank,
    Modifier.typedAll_blank, TypeTree.typedList_blank, Prod.map,
    bind_map_left, id]
  cases m.returnType <;> cases m.body <;>
    simp only [Option.map_none, Option.map_some, pure_bind, hbody,
      TypeTree.typed_blank, bind_map_left, map_bind, map_pure, blank_eq,
      Container.blank, Ident.blank]

/-- The fields of blank members are those of the members. -/
theorem Member.fieldScope_blank (env : Env) (scope : Scope)
    (ps : List (RightPadded Member)) :
    Member.fieldScope env scope (ps.map (.blank Member.blank)) =
      Member.fieldScope env scope ps := by
  induction ps generalizing scope with
  | nil => rfl
  | cons p ps ih =>
      rw [List.map_cons, fieldScope, fieldScope, RightPadded.blank]
      cases p.element with
      | field d =>
          simp only [blank_field, Variables.blank_eq, TypeTree.typed_blank,
            bind_map_left, TypeTree.type_blank, List.map_map, Function.comp_def,
            RightPadded.blank,
            Variable.blank_eq, Name.last_blank, ih]
      | method m => exact ih scope
      | nested c => exact ih scope

/-- Blank members in a row are attributed as they are, if each is. -/
theorem Member.typedAll_blank {env : Env} {outer : String}
    {ps : List (RightPadded Member)}
    (h : ∀ p ∈ ps, ∀ env outer, p.element.blank.typed env outer =
      Prod.map Member.blank id <$> p.element.typed env outer) :
    Member.typedAll env outer (ps.map (.blank Member.blank)) =
      List.map (RightPadded.blank Member.blank) <$>
        Member.typedAll env outer ps := by
  induction ps generalizing env with
  | nil => rfl
  | cons p ps ih =>
      obtain ⟨hp, hps⟩ := List.forall_mem_cons.1 h
      simp only [List.map_cons, typedAll, RightPadded.blank, hp, ih hps,
        Prod.map, bind_map_left, map_bind, map_pure, id]

/-- A blank class is attributed as the class is, if its members are. -/
theorem ClassDecl.typed_blank_of {c : JavaClass}
    (h : ∀ p ∈ c.body.statements, ∀ env outer, p.element.blank.typed env outer =
      Prod.map Member.blank id <$> p.element.typed env outer) (env : Env)
    (outer : String) :
    c.blank.typed env outer = ClassDecl.blank <$> c.typed env outer := by
  rw [typed, typed, blank_eq]
  simp only [Name.last_blank, Block.blank, Member.fieldScope_blank,
    Member.typedBlock, Member.typedAll_blank h, Modifier.typedAll_blank,
    TypeTree.typedList_blank,
    Name.withType_blank, bind_map_left, map_bind, map_pure, bind_assoc,
    pure_bind, blank_eq]

/-- A blank member is attributed as the member is. -/
theorem Member.typed_blank (env : Env) (outer : String) (m : Member) :
    m.blank.typed env outer = Prod.map Member.blank id <$>
      m.typed env outer := by
  induction m using Member.induction_on generalizing env outer with
  | field d =>
      simp only [blank_field, typed, d.typed_blank, bind_map_left, map_bind,
        map_pure, Prod.map, id]
  | method m =>
      simp only [blank_method, typed, m.typed_blank, bind_map_left, map_bind,
        map_pure, Prod.map, id]
  | nested c ih =>
      simp only [blank_nested, typed, ClassDecl.typed_blank_of ih,
        bind_map_left, map_bind, map_pure, Prod.map, id]

/-- A blank class is attributed as the class is. -/
theorem ClassDecl.typed_blank (env : Env) (outer : String) (c : JavaClass) :
    c.blank.typed env outer = ClassDecl.blank <$> c.typed env outer :=
  typed_blank_of (fun p _ env outer =>
    p.element.typed_blank env outer) env outer

/-- The types of a file without its trivia are those of the file. -/
theorem CompilationUnit.typed_blank (cu : CompilationUnit) (cp : ClassPath) :
    cu.blank.typed cp = (cu.typed cp).blank := by
  have hclasses (env : Env) (outer : String) (cs : List JavaClass) :
      (cs.map ClassDecl.blank).mapM (ClassDecl.typed env outer) =
        List.map ClassDecl.blank <$> cs.mapM (ClassDecl.typed env outer) := by
    induction cs with
    | nil => rfl
    | cons c cs ih =>
        simp only [List.map_cons, List.mapM_cons, ClassDecl.typed_blank, ih,
          bind_map_left, map_bind, map_pure]
  have hquery : cu.blank.typedQuery cp = CompilationUnit.blank <$>
      cu.typedQuery cp := by
    unfold typedQuery
    rw [env_blank, packageName_blank]
    simp only [blank_eq, hclasses, bind_map_left, map_bind, map_pure]
  rw [typed, hquery]
  rfl

end JavaRefit
