/-
What attribution walks over.

# Walks

Attribution walks over a file with a stack of scopes. Each construct
leads from the scopes before it to those behind it (`Env.Carries`): an
expression stays where it is and reads the scopes there, a declaration
adds to the innermost scope, and what opens a scope leads back. There is
one lemma for each, by the recursion of attribution.

Two things are known of the answer to a question: what holds whatever is
remembered (`Yields`), such as which file the next place is in, and what
holds once all that it leaves remembered is so in the end (`Asks`).

# Fields

A class enters its fields before it is walked over, and declares them
again on the way. Both give a field the type that it is declared with,
since the class path does not change its mind (`TypeTree.typed_typeMeant`).
Where two fields share a name, the class knows it by the last of them at
first and then by the one that came last; either is a field of the name
(`Env.Crosses`).

Chain: after `Follows` and `ClassPath/Memory`; files come in `Lexical`.
-/
import JavaRefit.Proofs.Attribution.Follows
import JavaRefit.Proofs.Attribution.Untyped
import JavaRefit.Proofs.ClassPath.Memory
import Mathlib.Data.List.Nodup

namespace JavaRefit

open ClassPath

-- =============================================================== questions

namespace ClassPath.Asks

variable {cp : ClassPath} {final : Memo} {α β : Type} {q : Query α}
  {f : α → Query β}
  {P U : α → Prop} {Q : β → Prop}

/-- The next question may rely on what its argument is whatever was
remembered. -/
theorem bindOf (hq : cp.Asks final q P) (hU : Yields q U)
    (hf : ∀ a, U a → cp.Asks final (f a) fun b => P a → Q b) :
    cp.Asks final (q >>= f) Q := by
  intro memo hmemo
  obtain ⟨hdeclares, hkept, hP⟩ := hq memo hmemo
  obtain ⟨hdeclares', hkept', hQ⟩ :=
    hf (q memo).1 (hU memo) (q memo).2 hdeclares
  exact ⟨hdeclares', hkept.trans hkept', fun hfinal =>
    hQ hfinal (hP (hkept'.trans hfinal))⟩

/-- What holds of every answer holds of this one too. -/
theorem andYields (hq : cp.Asks final q P) (hU : Yields q U) :
    cp.Asks final q fun a => P a ∧ U a :=
  fun memo hmemo =>
    ⟨(hq memo hmemo).1, (hq memo hmemo).2.1, fun hfinal =>
      ⟨(hq memo hmemo).2.2 hfinal, hU memo⟩⟩

end ClassPath.Asks

-- ================================================================== places

namespace Env

/-- The places are in the same file. -/
structure SameFile (env base : Env) : Prop where
  classPath : env.classPath = base.classPath
  names : env.names = base.names

/-- The class that a word means in the file, as its type is remembered in
the end. -/
def classMeant (env : Env) (final : Memo) (name : String) : Option JavaType :=
  (env.classOf (env.names.resolve? env.classPath name) final).1

variable {base env : Env}

/-- A place is in its own file. -/
theorem SameFile.refl : base.SameFile base :=
  ⟨rfl, rfl⟩

theorem SameFile.push (h : env.SameFile base) (scope : Scope) :
    (env.push scope).SameFile base :=
  ⟨h.classPath, h.names⟩

theorem SameFile.enter (h : env.SameFile base) (c : ClassType)
    (fields : Scope) : (env.enter c fields).SameFile base :=
  ⟨h.classPath, h.names⟩

theorem SameFile.declare (h : env.SameFile base) (name : String)
    (type : Option JavaType) : (env.declare name type).SameFile base := by
  rw [Env.declare]
  split
  · exact h
  · exact ⟨h.classPath, h.names⟩

/-- The place is in the file, inside some scope. -/
structure Within (env base : Env) : Prop extends env.SameFile base where
  scopes : env.scopes ≠ []

/-- A new scope is one to declare in. -/
theorem SameFile.within_push (h : env.SameFile base) (scope : Scope) :
    (env.push scope).Within base :=
  ⟨h.push scope, List.cons_ne_nil _ _⟩

/-- It is still, with a variable declared in it. -/
theorem Within.declare (h : env.Within base) (name : String)
    (type : Option JavaType) : (env.declare name type).Within base :=
  ⟨h.toSameFile.declare name type, scopes_declare_ne_nil h.scopes type⟩

end Env

variable {base env : Env} {final : Memo}

-- ========================================================= classes and types

/-- Types in a row last if each of them does. -/
theorem TypeTree.typedAll_lasting {ps : List (RightPadded TypeTree)}
    (h : ∀ p ∈ ps, base.classPath.Lasting final (p.element.typed env)) :
    base.classPath.Lasting final (TypeTree.typedAll env ps) := by
  induction ps with
  | nil => exact .pure []
  | cons p ps ih =>
      obtain ⟨hp, hps⟩ := List.forall_mem_cons.1 h
      rw [TypeTree.typedAll]
      exact hp.bind fun _ => (ih hps).bind fun _ => .pure _

/-- A written type is read alike in all of a file. -/
theorem TypeTree.typed_congr (h : env.SameFile base) (t : TypeTree) :
    t.typed env = t.typed base := by
  have hname (n : Name) : n.typed env = n.typed base := by
    unfold Name.typed Env.classOf
    rw [h.classPath, h.names]
  have hall {ps : List (RightPadded TypeTree)}
      (h : ∀ p ∈ ps, p.element.typed env = p.element.typed base) :
      TypeTree.typedAll env ps = TypeTree.typedAll base ps := by
    induction ps with
    | nil => rfl
    | cons p ps ih =>
        obtain ⟨hp, hps⟩ := List.forall_mem_cons.1 h
        rw [TypeTree.typedAll, TypeTree.typedAll, hp, ih hps]
  induction t using TypeTree.induction_on with
  | named n => rw [TypeTree.typed, TypeTree.typed, hname]
  | generic lead b args type ih =>
      rw [TypeTree.typed, TypeTree.typed, hname, hall ih]
  | primitive lead keyword type => rfl
  | array lead element dimension type ih =>
      rw [TypeTree.typed, TypeTree.typed, ih]
  | union lead alternatives ih => rw [TypeTree.typed, TypeTree.typed, hall ih]

/-- The type that a written type means in the file, as it is remembered in
the end. -/
def Env.typeMeant (env : Env) (final : Memo) (t : TypeTree) : Option JavaType :=
  (t.typed env final).1.type

section

variable (hfinal : base.classPath.Declares final)
include hfinal

/-- The class of a name is the same in the end. -/
theorem Env.classOf_lasting (h : env.SameFile base) (fqn? : Option String) :
    base.classPath.Lasting final (env.classOf fqn?) := by
  cases fqn? with
  | none => exact .pure none
  | some fqn =>
      rw [Env.classOf, h.classPath]
      split
      · exact .pure none
      · exact (typeOf_lasting hfinal fqn).bind fun _ => .pure _

/-- A name means the same in the end. -/
theorem Name.typed_lasting (h : env.SameFile base) (n : Name) :
    base.classPath.Lasting final (n.typed env) :=
  (Env.classOf_lasting hfinal h _).bind fun _ => .pure _

/-- A written type means the same in the end. -/
theorem TypeTree.typed_lasting (h : env.SameFile base) (t : TypeTree) :
    base.classPath.Lasting final (t.typed env) := by
  induction t using TypeTree.induction_on with
  | named n =>
      rw [TypeTree.typed]
      exact (Name.typed_lasting hfinal h n).bind fun _ => .pure _
  | generic lead b args type ih =>
      rw [TypeTree.typed]
      exact (Name.typed_lasting hfinal h b).bind fun _ =>
        (typedAll_lasting ih).bind fun _ => .pure _
  | primitive lead keyword type => exact .pure _
  | array lead element dimension type ih =>
      rw [TypeTree.typed]
      exact ih.bind fun _ => .pure _
  | union lead alternatives ih =>
      rw [TypeTree.typed]
      exact (typedAll_lasting ih).bind fun _ => .pure _

/-- A written type has the type that it means in the file. -/
theorem TypeTree.typed_typeMeant (h : env.SameFile base) (t : TypeTree) :
    base.classPath.Asks final (t.typed env) fun t' =>
      t'.type = base.typeMeant final t := by
  refine (typed_lasting hfinal h t).imp fun t' ht => ?_
  rw [Env.typeMeant, ← typed_congr h, ht]

/-- The types in a list mean the same in the end. -/
theorem TypeTree.typedList_lasting (h : env.SameFile base)
    (o : Option (Container TypeTree)) :
    base.classPath.Lasting final (TypeTree.typedList env o) := by
  cases o with
  | none => exact .pure none
  | some c =>
      rw [TypeTree.typedList]
      exact (typedAll_lasting fun p _ => typed_lasting hfinal h p.element).bind
        fun _ => .pure _

-- =========================================================== expressions

/-- The method around is the same in the end. -/
theorem findEnclosingMethod_lasting (name : String) (arity : Nat)
    (cs : List ClassType) :
    base.classPath.Lasting final
      (findEnclosingMethod base.classPath name arity cs) := by
  induction cs with
  | nil => exact .pure none
  | cons c cs ih =>
      rw [findEnclosingMethod]
      refine (findMethod_lasting hfinal _ name arity).bind fun m => ?_
      cases m with
      | none => exact ih
      | some m => exact .pure _

/-- An operation has the same type in the end. -/
theorem binaryType_lasting (h : env.SameFile base) (op : BinaryOp)
    (left right : Option JavaType) :
    base.classPath.Lasting final (binaryType env op left right) := by
  rw [binaryType, h.classPath]
  split
  · exact .pure _
  · split
    · exact (typeOf_lasting hfinal stringName).bind fun _ => .pure _
    · exact .pure _

/-- A word has the type of the variable that it is known as, and else that of
the class it means. -/
theorem identType_reads (h : env.SameFile base) (name : String) :
    base.classPath.Asks final (identType env name) fun type =>
      name ≠ "this" →
      type = (env.lookup? name).getD (base.classMeant final name) := by
  rw [identType]
  split
  next hthis => exact .pure fun hne => absurd hthis hne
  next hne =>
    cases hlookup : env.lookup? name with
    | some type => exact .pure fun _ => rfl
    | none =>
        refine (Env.classOf_lasting hfinal h _).imp fun type htype _ => ?_
        have hclass (fqn? : Option String) :
            env.classOf fqn? = base.classOf fqn? := by
          unfold Env.classOf
          rw [h.classPath]
        rw [hclass, h.classPath, h.names] at htype
        rw [Option.getD_none, Env.classMeant, htype]

/-- A chain of words in the place of a class means the same in the end. -/
theorem Expr.typedAsClass_lasting (h : env.SameFile base) (e : Expr) :
    base.classPath.Lasting final (e.typedAsClass env) := by
  cases e with
  | ident i type => exact (Env.classOf_lasting hfinal h _).bind fun _ => .pure _
  | access lead target name type =>
      rw [Expr.typedAsClass]
      split
      · exact (Env.classOf_lasting hfinal h _).bind fun _ => .pure _
      · exact .pure _
  | _ => exact .pure _

end

/-- The words of an access are no matter of types. -/
theorem Expr.chainText?_congr {e e' : Expr} (h : e'.untyped = e.untyped)
    (name : LeftPadded Ident) :
    Expr.chainText? e' name = Expr.chainText? e name := by
  rw [chainText?, chainText?, ← isNameChain_untyped e', ← dotted?_untyped e', h,
    isNameChain_untyped, dotted?_untyped]

theorem Expr.isNameChain_congr {e e' : Expr} (h : e'.untyped = e.untyped) :
    e'.isNameChain = e.isNameChain := by
  rw [← isNameChain_untyped e', h, isNameChain_untyped]

/-- The uses in the expression have the types that their names have at the
place. -/
def Expr.ReadsAt (base : Env) (final : Memo) (env : Env) (e : Expr) : Prop :=
  ∀ m ∈ e.marks base.classPath, m.IsReadAt (base.classMeant final) env

/-- Uses in expressions in a row are read at the place, if those of each are. -/
theorem Expr.typedAll_reads {ps : List (RightPadded Expr)}
    (h : ∀ p ∈ ps, base.classPath.Asks final (p.element.typed env)
      (Expr.ReadsAt base final env)) :
    base.classPath.Asks final (Expr.typedAll env ps) fun ps' =>
      ∀ m ∈ Expr.marksAll base.classPath ps',
        m.IsReadAt (base.classMeant final) env := by
  induction ps with
  | nil => exact .pure nofun
  | cons p ps ih =>
      obtain ⟨hp, hps⟩ := List.forall_mem_cons.1 h
      rw [Expr.typedAll]
      exact hp.bind fun e => (ih hps).bind fun es => .pure fun hes he =>
        List.forall_mem_append.2 ⟨he, hes⟩

/-- All uses in an expression are read at the place where it stands. -/
theorem Expr.typed_readsAt (hfinal : base.classPath.Declares final)
    (h : env.SameFile base) (e : Expr) :
    base.classPath.Asks final (e.typed env) (Expr.ReadsAt base final env) := by
  induction e using Expr.induction_on with
  | ident i type =>
      rw [Expr.typed]
      refine (identType_reads hfinal h i.name).bind fun type' =>
        .pure fun htype m hm => ?_
      rw [Expr.marks] at hm
      split at hm
      next => cases hm
      next hne =>
        rw [List.mem_singleton.1 hm]
        exact htype hne
  | access lead target name type ih =>
      rw [Expr.typed, h.classPath]
      split
      next hliteral =>
        split
        next hchain =>
          refine (target.typedAsClass_lasting hfinal h).bindOf
            (target.typedAsClass_yields env)
            fun target' ht => .skip (typeOf_lasting hfinal _) fun _ =>
              .pure fun _ m hm => ?_
          rw [Expr.marks, if_pos hliteral,
            if_pos ((isNameChain_congr ht).trans hchain)] at hm
          cases hm
        next hchain =>
          refine ih.bindOf (target.typed_yields env) fun target' ht =>
            .skip (typeOf_lasting hfinal _) fun _ => .pure fun hreads m hm => ?_
          rw [Expr.marks, if_pos hliteral, isNameChain_congr ht,
            if_neg hchain] at hm
          exact hreads m hm
      next hliteral =>
        split
        next dotted hclass =>
          refine .skip (typeOf_lasting hfinal dotted) fun _ =>
            .pure fun m hm => ?_
          rw [Expr.marks, if_neg hliteral, hclass] at hm
          cases hm
        next hclass =>
          refine ih.bindOf (target.typed_yields env) fun target' ht =>
            .pure fun hreads m hm => ?_
          rw [Expr.marks, if_neg hliteral, chainText?_congr ht, hclass] at hm
          obtain hm | hm := List.mem_append.1 hm
          · exact hreads m hm
          · cases target' with
            | ident i type' =>
                rw [Expr.ownField] at hm
                split at hm
                next hthis =>
                  rw [List.mem_singleton.1 hm]
                  exact if_pos hthis
                next => cases hm
            | _ => cases hm
  | call lead select name args method ihs iha =>
      cases select with
      | none =>
          rw [Expr.typed, h.classPath]
          refine (typedAll_reads iha).bind fun es =>
            .skip (findEnclosingMethod_lasting hfinal _ _ _) fun _ =>
              .pure fun hes m hm => ?_
          rw [Expr.marks, Expr.marksSelect, List.nil_append] at hm
          exact hes m hm
      | some p =>
          rw [Expr.typed, h.classPath]
          refine (typedAll_reads iha).bind fun es =>
            (ihs p rfl).bind fun target =>
            .skip (findMethod_lasting hfinal _ _ _) fun _ =>
              .pure fun ht hes m hm => ?_
          rw [Expr.marks, Expr.marksSelect] at hm
          obtain hm | hm := List.mem_append.1 hm
          · exact ht m hm
          · exact hes m hm
  | new lead b args constructor type ih =>
      rw [Expr.typed, h.classPath]
      refine .skip (b.typed_lasting hfinal h) fun _ =>
        (typedAll_reads ih).bind fun es =>
        .skip (findConstructor_lasting hfinal _ _) fun _ =>
          .pure fun hes m hm => ?_
      rw [Expr.marks] at hm
      exact hes m hm
  | literal lead text type =>
      rw [Expr.typed, h.classPath]
      split
      · exact .skip (typeOf_lasting hfinal _) fun _ => .pure fun m hm =>
          absurd hm List.not_mem_nil
      · exact .pure fun m hm => absurd hm List.not_mem_nil
  | assign lead target value type iht ihv =>
      rw [Expr.typed]
      exact iht.bind fun target' => ihv.bind fun value' => .pure fun hv ht =>
        List.forall_mem_append.2 ⟨ht, hv⟩
  | binary lead left operator right type ihl ihr =>
      rw [Expr.typed]
      exact ihl.bind fun left' => ihr.bind fun right' =>
        .skip (binaryType_lasting hfinal h _ _ _) fun _ => .pure fun hr hl =>
          List.forall_mem_append.2 ⟨hl, hr⟩
  | unary lead operator operand type ih =>
      rw [Expr.typed]
      exact ih.bind fun operand' => .pure fun ho => ho
  | parens lead inner type ih =>
      rw [Expr.typed]
      exact ih.bind fun e => .pure fun he => he

theorem Expr.typedCondition_reads (hfinal : base.classPath.Declares final)
    (h : env.SameFile base) (c : Parens Expr) :
    base.classPath.Asks final (Expr.typedCondition env c) fun c' =>
      Expr.ReadsAt base final env c'.inner.element :=
  (c.inner.element.typed_readsAt hfinal h).bind fun _ => .pure fun he => he

-- ========================================================== declarations

/-- The marks of a chain of words are among those of the expression it is in. -/
theorem Expr.marks_chain_subset (cp : ClassPath) (e : Expr) :
    ∀ c ∈ e.chains, c.marks cp ⊆ e.marks cp := by
  have hall {ps : List (RightPadded Expr)}
      (ih : ∀ p ∈ ps, ∀ c ∈ p.element.chains,
        c.marks cp ⊆ p.element.marks cp) :
      ∀ c ∈ chainsAll ps, c.marks cp ⊆ marksAll cp ps := by
    induction ps with
    | nil => exact List.forall_mem_nil _
    | cons p ps ihps =>
        obtain ⟨hp, hps⟩ := List.forall_mem_cons.1 ih
        rw [chainsAll, marksAll, List.forall_mem_append]
        exact ⟨fun c hc => List.subset_append_of_subset_left _ (hp c hc),
          fun c hc => List.subset_append_of_subset_right _ (ihps hps c hc)⟩
  induction e using Expr.induction_on with
  | ident i type => exact List.forall_mem_singleton.2 (List.Subset.refl _)
  | access lead target name type ih =>
      rw [chains]
      split
      · exact List.forall_mem_singleton.2 (List.Subset.refl _)
      · next hdotted =>
        have hchain : ¬target.isNameChain = true := fun hchain =>
          hdotted (isSome_dotted?_of_isNameChain hchain)
        have hnone : chainText? target name = none := if_neg hchain
        rw [marks, if_neg hchain, hnone]
        split
        · exact ih
        · exact fun c hc => List.subset_append_of_subset_left _ (ih c hc)
  | call lead select name args method ihs iha =>
      rw [chains, marks, List.forall_mem_append]
      refine ⟨?_, fun c hc =>
        List.subset_append_of_subset_right _ (hall iha c hc)⟩
      cases select with
      | none => exact List.forall_mem_nil _
      | some p =>
          exact fun c hc =>
            List.subset_append_of_subset_left _ (ihs p rfl c hc)
  | new lead base args constructor type ih => exact hall ih
  | literal lead text type => exact List.forall_mem_nil _
  | assign lead target value type iht ihv =>
      rw [chains, marks, List.forall_mem_append]
      exact ⟨fun c hc => List.subset_append_of_subset_left _ (iht c hc),
        fun c hc => List.subset_append_of_subset_right _ (ihv c hc)⟩
  | binary lead left operator right type ihl ihr =>
      rw [chains, marks, List.forall_mem_append]
      exact ⟨fun c hc => List.subset_append_of_subset_left _ (ihl c hc),
        fun c hc => List.subset_append_of_subset_right _ (ihr c hc)⟩
  | unary lead operator operand type ih => exact ih
  | parens lead inner type ih => exact ih

/-- What is used by itself in a chain is used in the expression. -/
theorem Expr.uses_mem_of_mention {cp : ClassPath} {e : Expr}
    {u : String × Option JavaType} (hu : (e.mention cp).use? = some u) :
    .uses u.1 u.2 ∈ e.marks cp := by
  obtain ⟨m, hm, hused⟩ := List.exists_of_findSome?_eq_some hu
  cases m with
  | uses name type =>
      obtain rfl := Option.some.inj hused
      exact hm
  | _ => cases hused

/-- An annotation is read at its place. -/
theorem Modifier.typedAll_reads (hfinal : base.classPath.Declares final)
    (h : env.SameFile base) (ms : List Modifier) :
    base.classPath.Asks final (Modifier.typedAll env ms) fun ms' =>
      ∀ m ∈ Modifier.marksAll base.classPath ms',
        m.IsReadAt (base.classMeant final) env := by
  have hone (m : Modifier) : base.classPath.Asks final (m.typed env) fun m' =>
      ∀ k ∈ m'.marks base.classPath,
        k.IsReadAt (base.classMeant final) env := by
    cases m with
    | keyword lead word => exact .pure (List.forall_mem_nil _)
    | annotated lead name args =>
        have hname := name.typed_lasting hfinal h
        cases args with
        | none => exact .skip hname fun _ => .pure (List.forall_mem_nil _)
        | some c =>
            have hargs : ∀ p ∈ c.elements, base.classPath.Asks final
                (p.element.typed env) (Expr.ReadsAt base final env) :=
              fun p _ => p.element.typed_readsAt hfinal h
            replace hargs := Expr.typedAll_reads hargs
            refine .skip hname fun _ => hargs.bind fun es => .pure fun hes => ?_
            refine List.forall_mem_singleton.2
              (List.forall_mem_map.2 fun e he u hu => ?_)
            rw [Modifier.chains, Expr.chainsAll_eq, List.mem_flatMap] at he
            obtain ⟨p, hp, he⟩ := he
            rw [Expr.marksAll_eq, List.forall_mem_flatMap] at hes
            exact hes p hp _ (p.element.marks_chain_subset _ e he
              (Expr.uses_mem_of_mention hu))
  rw [Modifier.typedAll]
  induction ms with
  | nil => exact .pure (List.forall_mem_nil _)
  | cons m ms ih =>
      rw [List.mapM_cons]
      exact (hone m).bind fun m' => ih.bind fun ms' => .pure fun hms hm =>
        List.forall_mem_append.2 ⟨hm, hms⟩

/-- A type is no part of the last word. -/
theorem Name.last_withType (n : Name) (type : Option JavaType) :
    (n.withType type).last = n.last := by
  cases n <;> rfl

/-- Variables leave a scope to declare in. -/
theorem Variable.typedAll_within (h : env.Within base) (type : Option JavaType)
    (ps : List (RightPadded Variable)) :
    Yields (Variable.typedAll type env ps) fun r => r.2.Within base := by
  induction ps generalizing env with
  | nil => exact .pure h
  | cons p ps ih =>
      have hrest (v : Variable) : Yields (do
          let r ← Variable.typedAll type
              (env.declare p.element.name.last type) ps
          return ((⟨v, p.after⟩ :: r.1, r.2) :
            List (RightPadded Variable) × Env)) fun r =>
            r.2.Within base :=
        .bind (ih (h.declare p.element.name.last type)) fun r hr => .pure hr
      rw [Variable.typedAll]
      dsimp only
      cases p.element.initializer with
      | none => exact hrest _
      | some i => exact .skip fun _ => hrest _

theorem Variables.typed_within (h : env.Within base) (d : Variables) :
    Yields (d.typed env) fun r => r.2.Within base := by
  rw [Variables.typed]
  exact .skip fun t =>
    .bind (Variable.typedAll_within h t.type d.declarators) fun r hr =>
    .skip fun _ => .pure hr

/-- Variables of a type read one after the other from a place to another: the
value of each is read before it is declared. -/
inductive Variable.Read (base : Env) (final : Memo) (type : Option JavaType) :
    Env → List (RightPadded Variable) → Env → Prop
  | nil {here : Env} : Variable.Read base final type here [] here
  | cons {here there : Env} {p ps} : here.scopes ≠ [] →
      (∀ m ∈ p.element.marks base.classPath,
        m.IsReadAt (base.classMeant final) here) →
      Variable.Read base final type (here.declare p.element.name.last type)
        ps there →
      Variable.Read base final type here (p :: ps) there

/-- The variables of a declaration are read one after the other. -/
theorem Variable.typedAll_read (hfinal : base.classPath.Declares final)
    (h : env.Within base) (type : Option JavaType)
    (ps : List (RightPadded Variable)) :
    base.classPath.Asks final (Variable.typedAll type env ps) fun r =>
      Variable.Read base final type env r.1 r.2 := by
  induction ps generalizing env with
  | nil => exact .pure .nil
  | cons p ps ih =>
      have hrest (i : Option (LeftPadded Expr)) : base.classPath.Asks final (do
          let r ← Variable.typedAll type
              (env.declare p.element.name.last type) ps
          return ((⟨⟨p.element.lead, p.element.name.withType type, i, type⟩,
            p.after⟩ :: r.1, r.2) : List (RightPadded Variable) × Env)) fun r =>
              (∀ e ∈ i, Expr.ReadsAt base final env e.element) →
                Variable.Read base final type env r.1 r.2 := by
        refine (ih (h.declare p.element.name.last type)).bind fun r =>
          .pure fun hr hi => ?_
        refine .cons h.scopes ?_
          ((Name.last_withType p.element.name type).symm ▸ hr)
        cases i with
        | none => exact fun m hm => absurd hm List.not_mem_nil
        | some e => exact hi e rfl
      rw [Variable.typedAll]
      dsimp only
      cases p.element.initializer with
      | none =>
          refine (hrest none).imp fun r hr => hr fun e he => ?_
          cases he
      | some i =>
          refine (i.element.typed_readsAt hfinal h.toSameFile).bind fun e =>
            (hrest (some ⟨i.before, e⟩)).imp fun r hr he => hr fun e' he' => ?_
          cases he'
          exact he

namespace Variable.Read

variable {type : Option JavaType} {env' : Env}
  {vs : List (RightPadded Variable)}

/-- Local variables and parameters count from there on. -/
theorem carries (h : Variable.Read base final type env vs env') :
    env.Carries (base.classMeant final) env' (vs.flatMap fun p =>
      p.element.marks base.classPath ++
        [.declares p.element.name.last type]) := by
  induction h with
  | nil => exact .refl
  | cons hscopes hv _ ih =>
      exact ((Env.Carries.uses hv).trans (.declares hscopes _ type)).trans ih

/-- Fields are read and declared again. -/
theorem crosses (h : Variable.Read base final type env vs env')
    {fields : List (String × Option JavaType)}
    (hmem : ∀ p ∈ vs, (p.element.name.last, type) ∈ fields) :
    env.Crosses (base.classMeant final) fields env'
      (vs.flatMap fun p => p.element.marks base.classPath) := by
  induction h with
  | nil => exact .refl
  | cons hscopes hv _ ih =>
      obtain ⟨hp, hps⟩ := List.forall_mem_cons.1 hmem
      have hfirst := (Env.Crosses.uses hv).trans (.declaresAgain hscopes hp)
      rw [List.append_nil] at hfirst
      exact hfirst.trans (ih hps)

/-- The values of fields are not classes. -/
theorem classless (h : Variable.Read base final type env vs env')
    (fields : List (String × Option JavaType)) :
    .opensClass fields ∉ vs.flatMap fun p =>
      p.element.marks base.classPath := by
  induction h with
  | nil => exact List.not_mem_nil
  | cons hscopes hv _ ih =>
      rw [List.flatMap_cons, List.mem_append]
      exact not_or.2 ⟨(Env.Carries.uses hv).classless fields, ih⟩

end Variable.Read

/-- Local variables and parameters are read and declared. -/
theorem Variables.typed_carries (hfinal : base.classPath.Declares final)
    (h : env.Within base) (d : Variables) :
    base.classPath.Asks final (d.typed env) fun r =>
      env.Carries (base.classMeant final) r.2 (r.1.marks base.classPath) := by
  rw [Variables.typed]
  exact .skip (d.typeTree.typed_lasting hfinal h.toSameFile) fun t =>
    (Variable.typedAll_read hfinal h t.type d.declarators).bindOf
      (Variable.typedAll_within h t.type d.declarators) fun r hr =>
        (Modifier.typedAll_reads hfinal hr.toSameFile d.modifiers).bind
          fun ms =>
          .pure fun hms hread => hread.carries.trans (.uses hms)

/-- Parameters leave a scope to declare in. -/
theorem Variables.typedAll_within (h : env.Within base)
    (ps : List (RightPadded Variables)) :
    Yields (Variables.typedAll env ps) fun r => r.2.Within base := by
  induction ps generalizing env with
  | nil => exact .pure h
  | cons p ps ih =>
      rw [Variables.typedAll]
      exact .bind (p.element.typed_within h) fun r hr =>
        .bind (ih hr) fun r' hr' => .pure hr'

/-- Parameters are read and declared. -/
theorem Variables.typedAll_carries (hfinal : base.classPath.Declares final)
    (h : env.Within base) (ps : List (RightPadded Variables)) :
    base.classPath.Asks final (Variables.typedAll env ps) fun r =>
      env.Carries (base.classMeant final) r.2
        (r.1.flatMap fun p => p.element.marks base.classPath) := by
  induction ps generalizing env with
  | nil => exact .pure .refl
  | cons p ps ih =>
      rw [Variables.typedAll]
      exact (p.element.typed_carries hfinal h).bindOf
        (p.element.typed_within h) fun r hr =>
        (ih hr).bind fun r' => .pure fun hps hp => hp.trans hps

-- ============================================================ statements

/-- A statement leaves a scope to declare in. -/
theorem Stmt.typed_within (h : env.Within base) (s : Stmt) :
    Yields (s.typed env) fun r => r.2.Within base := by
  induction s using Stmt.induction_on generalizing env with
  | block | expr | tryCatch | throwing =>
      rw [Stmt.typed]
      exact .skip fun _ => .pure h
  | declaration d =>
      rw [Stmt.typed]
      exact .bind (d.typed_within h) fun r hr => .pure hr
  | empty lead => exact .pure h
  | returning lead value =>
      cases value with
      | none => exact .pure h
      | some e =>
          rw [Stmt.typed]
          exact .skip fun _ => .pure h
  | ifElse lead condition thenPart elsePart iht ihe =>
      have helse {env : Env} (h : env.Within base) :
          Yields (Stmt.typedElse env elsePart) fun r => r.2.Within base := by
        cases elsePart with
        | none => exact .pure h
        | some e =>
            have he : Yields (e.typed env) fun r => r.2.Within base := by
              rw [Else.typed]
              exact .bind (ihe e rfl h) fun r hr => .pure hr
            rw [Stmt.typedElse]
            exact .bind he fun r hr => .pure hr
      rw [Stmt.typed]
      exact .skip fun _ => .bind (iht h) fun r hr =>
        .bind (helse hr) fun r' hr' => .pure hr'
  | whileLoop lead condition body ih =>
      rw [Stmt.typed]
      exact .skip fun _ => .bind (ih h) fun r hr => .pure hr

/-- The statement leads from the place before it to the place behind it. -/
def Stmt.Walks (base : Env) (final : Memo) (s : Stmt) : Prop :=
  ∀ {env : Env}, env.Within base →
    base.classPath.Asks final (s.typed env) fun r =>
    env.Carries (base.classMeant final) r.2 (r.1.marks base.classPath)

/-- A block leads back to where it starts. -/
theorem Stmt.typedBlock_carries {b : Block Stmt}
    (hb : ∀ p ∈ b.statements, p.element.Walks base final)
    (h : env.SameFile base) :
    base.classPath.Asks final (Stmt.typedBlock env b) fun b' =>
      env.Carries (base.classMeant final) env
        (Stmt.marksBlock base.classPath b') := by
  have hall {ps : List (RightPadded Stmt)}
      (hps : ∀ p ∈ ps, p.element.Walks base final) {env : Env}
      (h : env.Within base) :
      base.classPath.Asks final (Stmt.typedAll env ps) fun ps' =>
        ∃ env', env.Carries (base.classMeant final) env'
          (Stmt.marksAll base.classPath ps') := by
    induction ps generalizing env with
    | nil => exact .pure ⟨env, .refl⟩
    | cons p ps ih =>
        obtain ⟨hp, hps⟩ := List.forall_mem_cons.1 hps
        rw [Stmt.typedAll]
        exact (hp h).bindOf (p.element.typed_within h) fun r hr =>
          (ih hps hr).bind fun ps' => .pure fun hrest hfirst =>
            hrest.imp fun _ hrest => hfirst.trans hrest
  rw [Stmt.typedBlock]
  refine (hall hb (h.within_push [])).bind fun ps' => .pure fun hwalk => ?_
  obtain ⟨env', hwalk⟩ := hwalk
  exact hwalk.scope

theorem Catch.typed_carries (hfinal : base.classPath.Declares final)
    {c : Catch Stmt} (hb : ∀ p ∈ c.body.statements, p.element.Walks base final)
    (h : env.SameFile base) :
    base.classPath.Asks final (c.typed env) fun c' =>
      env.Carries (base.classMeant final) env (c'.marks base.classPath) := by
  rw [Catch.typed]
  exact (c.declaration.typed_carries hfinal (h.within_push [])).bindOf
    (c.declaration.typed_within (h.within_push [])) fun r hr =>
      (Stmt.typedBlock_carries hb hr.toSameFile).bind fun b =>
        .pure fun hbody hparameter =>
        (hparameter.trans hbody).scope

theorem Try.typed_carries (hfinal : base.classPath.Declares final)
    {t : Try Stmt} (hb : ∀ p ∈ t.body.statements, p.element.Walks base final)
    (hc : ∀ c ∈ t.catches, ∀ p ∈ c.body.statements, p.element.Walks base final)
    (hf : ∀ f ∈ t.finally?, ∀ p ∈ f.element.statements,
      p.element.Walks base final) (h : env.SameFile base) :
    base.classPath.Asks final (t.typed env) fun t' =>
      env.Carries (base.classMeant final) env (t'.marks base.classPath) := by
  have hcatches {cs : List (Catch Stmt)}
      (hc : ∀ c ∈ cs, ∀ p ∈ c.body.statements, p.element.Walks base final) :
      base.classPath.Asks final (Catch.typedAll env cs) fun cs' =>
        env.Carries (base.classMeant final) env
          (Catch.marksAll base.classPath cs') := by
    induction cs with
    | nil => exact .pure .refl
    | cons c cs ih =>
        obtain ⟨hc, hcs⟩ := List.forall_mem_cons.1 hc
        rw [Catch.typedAll]
        exact (Catch.typed_carries hfinal hc h).bind fun c' =>
          (ih hcs).bind fun cs' =>
          .pure fun hrest hfirst => hfirst.trans hrest
  have hfinally : base.classPath.Asks final
      (Stmt.typedFinally env t.finally?) fun o =>
      env.Carries (base.classMeant final) env
        (Stmt.marksFinally base.classPath o) := by
    cases ho : t.finally? with
    | none => exact .pure .refl
    | some f =>
        rw [Stmt.typedFinally]
        exact (Stmt.typedBlock_carries (hf f ho) h).bind fun b =>
          .pure fun hblock => hblock
  rw [Try.typed]
  exact (Stmt.typedBlock_carries hb h).bind fun b =>
    (hcatches hc).bind fun cs => hfinally.bind fun o =>
    .pure fun ho hcs hb => (hb.trans hcs).trans ho

/-- Every statement leads from the place before it to the place behind it. -/
theorem Stmt.typed_walks (hfinal : base.classPath.Declares final) (s : Stmt) :
    s.Walks base final := by
  induction s using Stmt.induction_on with
  | block b ih =>
      intro env h
      rw [Stmt.typed]
      exact (Stmt.typedBlock_carries ih h.toSameFile).bind fun b' =>
        .pure fun hb => hb
  | declaration d =>
      intro env h
      rw [Stmt.typed]
      exact (d.typed_carries hfinal h).bind fun r => .pure fun hd => hd
  | expr e =>
      intro env h
      rw [Stmt.typed]
      exact (e.typed_readsAt hfinal h.toSameFile).bind fun e' =>
        .pure fun he => .uses he
  | empty lead =>
      intro env h
      exact .pure .refl
  | tryCatch t ihb ihc ihf =>
      intro env h
      rw [Stmt.typed]
      exact (Try.typed_carries hfinal ihb ihc ihf h.toSameFile).bind fun t' =>
        .pure fun ht => ht
  | throwing lead exception =>
      intro env h
      rw [Stmt.typed]
      exact (exception.typed_readsAt hfinal h.toSameFile).bind fun e =>
        .pure fun he => .uses he
  | returning lead value =>
      intro env h
      cases value with
      | none => exact .pure .refl
      | some e =>
          rw [Stmt.typed]
          exact (e.typed_readsAt hfinal h.toSameFile).bind fun e' =>
            .pure fun he => .uses he
  | ifElse lead condition thenPart elsePart iht ihe =>
      intro env h
      have helse {env : Env} (h : env.Within base) :
          base.classPath.Asks final (Stmt.typedElse env elsePart) fun r =>
            env.Carries (base.classMeant final) r.2
              (Stmt.marksElse base.classPath r.1) := by
        cases elsePart with
        | none => exact .pure .refl
        | some e =>
            have he : base.classPath.Asks final (e.typed env) fun r =>
                env.Carries (base.classMeant final) r.2
                  (r.1.marks base.classPath) := by
              rw [Else.typed]
              exact (ihe e rfl h).bind fun r => .pure fun hs => hs
            rw [Stmt.typedElse]
            exact he.bind fun r => .pure fun he => he
      rw [Stmt.typed]
      exact (Expr.typedCondition_reads hfinal h.toSameFile condition).bind
        fun c =>
        (iht h).bindOf (thenPart.element.typed_within h) fun r hr =>
          (helse hr).bind fun r' =>
          .pure fun he ht hc => ((Env.Carries.uses hc).trans ht).trans he
  | whileLoop lead condition body ih =>
      intro env h
      rw [Stmt.typed]
      exact (Expr.typedCondition_reads hfinal h.toSameFile condition).bind
        fun c => (ih h).bind fun r =>
        .pure fun hb hc => (Env.Carries.uses hc).trans hb

-- ================================================================ fields

/-- The fields that a declaration declares, with the type it means. -/
def Variables.fieldsMeant (base : Env) (final : Memo) (d : Variables) :
    List (String × Option JavaType) :=
  d.declarators.map fun p =>
    (p.element.name.last, base.typeMeant final d.typeTree)

/-- The fields that a member declares, with the types they mean. -/
def Member.fieldsMeant (base : Env) (final : Memo) :
    Member → List (String × Option JavaType)
  | .field d => d.fieldsMeant base final
  | _ => []

/-- What a class enters before it is walked over. -/
theorem Member.fieldScope_eq (hfinal : base.classPath.Declares final)
    (h : env.SameFile base) (scope : Scope) (ps : List (RightPadded Member)) :
    base.classPath.Asks final (Member.fieldScope env scope ps) fun fields =>
      fields = (ps.flatMap fun p => p.element.fieldsMeant base final).reverse ++
        scope := by
  induction ps generalizing scope with
  | nil => exact .pure rfl
  | cons p ps ih =>
      rw [Member.fieldScope]
      cases hp : p.element with
      | field d =>
          refine (d.typeTree.typed_typeMeant hfinal h).bind fun t =>
            (ih _).imp fun fields hfields ht => ?_
          rw [hfields, ht, List.flatMap_cons, hp, List.reverse_append,
            List.append_assoc]
          rfl
      | method | nested =>
          refine (ih scope).imp fun fields hfields => ?_
          rw [hfields, List.flatMap_cons, hp]
          rfl

/-- The fields of an attributed declaration have the type that it means. -/
theorem Variables.fields_of_untyped {d d' : Variables}
    (h : d'.untyped = d.untyped)
    (htype : d'.typeTree.type = base.typeMeant final d.typeTree) :
    d'.fields = d.fieldsMeant base final := by
  have hnames : (d'.declarators.map fun p => p.element.name.last) =
      d.declarators.map fun p => p.element.name.last := by
    have hlast (p : RightPadded Variable) :
        (RightPadded.map Variable.untyped p).element.name.last =
          p.element.name.last := by
      show p.element.untyped.name.last = _
      rw [Variable.untyped_eq]
      exact p.element.name.last_untyped
    rw [Variables.untyped_eq, Variables.untyped_eq] at h
    have := congrArg (List.map fun p => p.element.name.last)
      (Variables.mk.inj h).2.2.2
    simpa only [List.map_map, Function.comp_def, hlast] using this
  have hpair : d'.fields =
      (d'.declarators.map fun p => p.element.name.last).map fun name =>
      (name, d'.typeTree.type) := by
    rw [fields, List.map_map]
    rfl
  rw [hpair, hnames, htype, fieldsMeant, List.map_map]
  rfl

/-- What is not known in either order is not known. -/
theorem lookup_eq_none_of_reverse {fields : List (String × Option JavaType)}
    {name : String} (h : fields.reverse.lookup name = none) :
    fields.lookup name = none := by
  rw [List.lookup_eq_none_iff] at h ⊢
  exact fun p hp => h p (List.mem_reverse.2 hp)

-- ================================================================ classes

/-- Fields are read and declared where the class knows them. -/
theorem Variables.typed_again (hfinal : base.classPath.Declares final)
    (h : env.Within base) (d : Variables) :
    base.classPath.Asks final (d.typed env) fun r =>
      r.1.fields = d.fieldsMeant base final ∧
      (∀ fields, .opensClass fields ∉ r.1.fieldMarks base.classPath) ∧
      ∀ fields, d.fieldsMeant base final ⊆ fields →
        env.Crosses (base.classMeant final) fields r.2
          (r.1.fieldMarks base.classPath) := by
  have hread : base.classPath.Asks final (d.typed env) fun r =>
      r.1.typeTree.type = base.typeMeant final d.typeTree ∧
        Variable.Read base final r.1.typeTree.type env r.1.declarators r.2 ∧
        ∀ m ∈ Modifier.marksAll base.classPath r.1.modifiers,
          m.IsReadAt (base.classMeant final) r.2 := by
    rw [Variables.typed]
    exact (d.typeTree.typed_typeMeant hfinal h.toSameFile).bind fun t =>
      (Variable.typedAll_read hfinal h t.type d.declarators).bindOf
        (Variable.typedAll_within h t.type d.declarators) fun r hr =>
          (Modifier.typedAll_reads hfinal hr.toSameFile d.modifiers).bind
            fun _ =>
            .pure fun hms hread htype => ⟨htype, hread, hms⟩
  refine (hread.andYields (d.typed_yields env)).imp fun r hr => ?_
  obtain ⟨⟨htype, hread, hms⟩, huntyped⟩ := hr
  have hfields := Variables.fields_of_untyped huntyped htype
  refine ⟨hfields, fun fields => ?_, fun fields hsubset => ?_⟩
  · rw [Variables.fieldMarks, List.mem_append]
    exact not_or.2
      ⟨hread.classless fields, (Env.Carries.uses hms).classless fields⟩
  · have hmem : ∀ p ∈ r.1.declarators,
        (p.element.name.last, r.1.typeTree.type) ∈ fields := fun p hp => by
      have hfield : (p.element.name.last, r.1.typeTree.type) ∈ r.1.fields :=
        List.mem_map.2 ⟨p, hp, rfl⟩
      exact hsubset (hfields ▸ hfield)
    exact (hread.crosses hmem).trans (.uses hms)

/-- A method leads back to where it starts, and has no class in it. -/
theorem Method.typed_crosses (hfinal : base.classPath.Declares final)
    (h : env.SameFile base) (m : Method) :
    base.classPath.Asks final (m.typed env) fun m' =>
      (∀ fields, .opensClass fields ∉ m'.marks base.classPath) ∧
      env.Crosses (base.classMeant final) [] env (m'.marks base.classPath) := by
  have hend (params : List (RightPadded Variables)) (body : Option (Block Stmt))
      (modifiers : List Modifier)
      (returnType : Option TypeTree) (type : Option MethodType)
        {inner there : Env} :
      base.classPath.Asks final (do
        let throws ← TypeTree.typedList env m.throws
        return (⟨m.lead, modifiers, returnType, m.name,
          ⟨m.parameters.before, params, m.parameters.close⟩, throws, body,
          type⟩ : Method)) fun m' =>
        inner.Carries (base.classMeant final) there
            (Stmt.marksBody base.classPath body) →
          (env.push []).Carries (base.classMeant final) inner
            (params.flatMap fun p => p.element.marks base.classPath) →
          (∀ k ∈ Modifier.marksAll base.classPath modifiers,
            k.IsReadAt (base.classMeant final) env) →
          (∀ fields, .opensClass fields ∉ m'.marks base.classPath) ∧
          env.Crosses (base.classMeant final) [] env
            (m'.marks base.classPath) := by
    refine .skip (TypeTree.typedList_lasting hfinal h m.throws) fun _ =>
      .pure fun hb hp hms => ?_
    have hinner := hp.trans hb
    exact ⟨((Env.Carries.uses hms).trans hinner.scope).classless,
      (Env.Crosses.uses hms).trans (.ofCarries
        (fun _ => .scope rfl hinner.closed .nil) hinner.scope)⟩
  have hparameters :=
    Variables.typedAll_carries hfinal (h.within_push []) m.parameters.elements
  have hwithin := Variables.typedAll_within (h.within_push [])
    m.parameters.elements
  have hbody {inner : Env} (b : Block Stmt) (h : inner.SameFile base) :=
    Stmt.typedBlock_carries (fun p (_ : p ∈ b.statements) =>
      p.element.typed_walks hfinal) h
  have hmodifiers := Modifier.typedAll_reads hfinal h m.modifiers
  rw [Method.typed, h.classPath]
  simp only [pure_bind]
  cases m.returnType with
  | none =>
      refine .skip (findConstructor_lasting hfinal _ _) fun type =>
        hparameters.bindOf hwithin fun r hr => ?_
      cases m.body with
      | none =>
          exact hmodifiers.bind fun ms =>
            (hend r.1 none ms none type).imp fun m' hm' hms hp =>
              hm' .refl hp hms
      | some b =>
          exact (hbody b hr.toSameFile).bind fun b' => hmodifiers.bind fun ms =>
            (hend r.1 (some b') ms none type).imp fun m' hm' hms hb hp =>
              hm' hb hp hms
  | some t =>
      have hreturn := t.typed_lasting hfinal h
      refine .skip (findMethod_lasting hfinal _ _ _) fun type =>
        hparameters.bindOf hwithin fun r hr => ?_
      cases m.body with
      | none =>
          exact hmodifiers.bind fun ms => .skip hreturn.map fun t' =>
            (hend r.1 none ms t' type).imp fun m' hm' hms hp => hm' .refl hp hms
      | some b =>
          exact (hbody b hr.toSameFile).bind fun b' => hmodifiers.bind fun ms =>
            .skip hreturn.map fun t' => (hend r.1 (some b') ms t' type).imp
              fun m' hm' hms hb hp => hm' hb hp hms

/-- No class among these has two fields of a name. -/
def DistinctFields (classes : List (JavaClass × String)) : Prop :=
  ∀ c ∈ classes, (c.1.fields.map Prod.fst).Nodup

instance (classes : List (JavaClass × String)) :
    Decidable (DistinctFields classes) :=
  inferInstanceAs (Decidable (∀ c ∈ classes, (c.1.fields.map Prod.fst).Nodup))

/-- No class among the marks has two fields of a name. -/
def Mark.FieldsDistinct (ms : List Mark) : Prop :=
  ∀ fields, .opensClass fields ∈ ms → (fields.map Prod.fst).Nodup

namespace Mark.FieldsDistinct

variable {ms ns : List Mark}

/-- Marks without classes have no two fields of a name. -/
theorem of_classless (h : ∀ fields, .opensClass fields ∉ ms) :
    FieldsDistinct ms :=
  fun fields hmem => absurd hmem (h fields)

theorem append (h : FieldsDistinct ms) (h' : FieldsDistinct ns) :
    FieldsDistinct (ms ++ ns) :=
  fun fields hmem => (List.mem_append.1 hmem).elim (h fields) (h' fields)

end Mark.FieldsDistinct

/-- The member leads from a place between the members of a class that has its
fields, with whatever others, to the next. -/
def Member.Walks (base : Env) (final : Memo) (m : Member) : Prop :=
  ∀ {env : Env} {outer : String}, env.Within base →
    base.classPath.Asks final (m.typed env outer) fun r =>
      r.1.fields = m.fieldsMeant base final ∧
      (DistinctFields (m.declared outer) →
        Mark.FieldsDistinct (r.1.marks base.classPath)) ∧
      ∀ fields, m.fieldsMeant base final ⊆ fields →
        env.Crosses (base.classMeant final) fields r.2
          (r.1.marks base.classPath)

/-- A member leaves a scope to declare in. -/
theorem Member.typed_within (h : env.Within base) (outer : String)
    (m : Member) : Yields (m.typed env outer) fun r => r.2.Within base := by
  cases m with
  | field d =>
      rw [Member.typed]
      exact .bind (d.typed_within h) fun r hr => .pure hr
  | method | nested =>
      rw [Member.typed]
      exact .skip fun _ => .pure h

/-- The members of a class lead from the first to behind the last. -/
theorem Member.typedAll_crosses {ps : List (RightPadded Member)}
    (hm : ∀ p ∈ ps, p.element.Walks base final) {outer : String}
    (h : env.Within base) :
    base.classPath.Asks final (Member.typedAll env outer ps) fun ps' =>
      (ps'.flatMap fun p => p.element.fields) =
        ps.flatMap (fun p => p.element.fieldsMeant base final) ∧
      (DistinctFields (Member.declaredAll outer ps) →
        Mark.FieldsDistinct (Member.marksAll base.classPath ps')) ∧
      ∀ fields, ps.flatMap (fun p => p.element.fieldsMeant base final) ⊆
        fields → ∃ env', env.Crosses (base.classMeant final) fields env'
          (Member.marksAll base.classPath ps') := by
  induction ps generalizing env with
  | nil =>
      exact .pure ⟨rfl, fun _ => .of_classless fun _ => List.not_mem_nil,
        fun _ _ => ⟨env, .refl⟩⟩
  | cons p ps ih =>
      obtain ⟨hp, hps⟩ := List.forall_mem_cons.1 hm
      rw [Member.typedAll]
      refine (hp h).bindOf (p.element.typed_within h outer) fun r hr =>
        (ih hps hr).bind fun ps' => .pure fun hrest hfirst => ?_
      obtain ⟨hfields, hdistinct, hrest⟩ := hrest
      obtain ⟨hfield, hfirstDistinct, hfirst⟩ := hfirst
      refine ⟨?_, fun hall => ?_, fun fields hsubset => ?_⟩
      · rw [List.flatMap_cons, List.flatMap_cons]
        exact congrArg₂ _ hfield hfields
      · rw [Member.declaredAll, DistinctFields, List.forall_mem_append] at hall
        exact (hfirstDistinct hall.1).append (hdistinct hall.2)
      · rw [List.flatMap_cons, List.append_subset] at hsubset
        obtain ⟨env', hcrosses⟩ := hrest fields hsubset.2
        exact ⟨env', (hfirst fields hsubset.1).trans hcrosses⟩

/-- The fields have the names that they are declared with. -/
theorem Member.names_fieldsMeant (m : Member) :
    (m.fieldsMeant base final).map Prod.fst = m.fields.map Prod.fst := by
  cases m with
  | field d => simp only [fieldsMeant, Variables.fieldsMeant, fields,
      Variables.fields, List.map_map, Function.comp_def]
  | method | nested => rfl

/-- A class leads back to where it starts. -/
theorem ClassDecl.typed_crosses (hfinal : base.classPath.Declares final)
    {c : JavaClass} (hm : ∀ p ∈ c.body.statements, p.element.Walks base final)
    (h : env.SameFile base) (outer : String) :
    base.classPath.Asks final (c.typed env outer) fun c' =>
      (DistinctFields (c.declared outer) →
        Mark.FieldsDistinct (c'.marks base.classPath)) ∧
      env.Crosses (base.classMeant final) [] env (c'.marks base.classPath) := by
  rw [ClassDecl.typed, h.classPath]
  refine .skip (typeOf_lasting hfinal _) fun type =>
    (Member.fieldScope_eq hfinal h [] c.body.statements).bind fun scope => ?_
  have hbody : base.classPath.Asks final
      (Member.typedBlock (env.enter type scope)
        (Text.qualify outer c.name.last) c.body) fun b =>
      scope = (c.body.statements.flatMap fun p =>
          p.element.fieldsMeant base final).reverse ++ [] →
        (DistinctFields (c.declared outer) → Mark.FieldsDistinct
          (.opensClass (b.statements.flatMap fun p => p.element.fields) ::
            (Member.marksBlock base.classPath b ++ [.closes]))) ∧
        env.Crosses (base.classMeant final) [] env
          (.opensClass (b.statements.flatMap fun p => p.element.fields) ::
            (Member.marksBlock base.classPath b ++ [.closes])) := by
    rw [Member.typedBlock]
    refine (Member.typedAll_crosses hm
      ⟨h.enter type scope, List.cons_ne_nil _ _⟩).bind fun ps =>
        .pure fun hmembers hscope => ?_
    obtain ⟨hfields, hdistinct, hwalk⟩ := hmembers
    rw [List.append_nil] at hscope
    refine ⟨fun hall fields hmem => ?_, ?_⟩
    · rw [DistinctFields, ClassDecl.declared, List.forall_mem_cons,
        Member.declaredBlock] at hall
      obtain ⟨hnames, hall⟩ := hall
      obtain heq | hmem := List.mem_cons.1 hmem
      · rw [Mark.opensClass.inj heq, hfields, List.map_flatMap]
        simpa only [Member.names_fieldsMeant, ← List.map_flatMap,
          ClassDecl.fields] using hnames
      · obtain hmem | hmem := List.mem_append.1 hmem
        · exact hdistinct hall fields hmem
        · cases List.mem_singleton.1 hmem
    · obtain ⟨env', hwalk⟩ := hwalk _ (List.Subset.refl _)
      rw [hfields]
      refine .classScope (fun name type hlookup => ?_)
        (fun name hlookup => ?_) hwalk
      · rw [hscope] at hlookup
        exact List.mem_reverse.1 (mem_of_lookup hlookup)
      · rw [hscope] at hlookup
        exact lookup_eq_none_of_reverse hlookup
  refine hbody.bind fun b =>
    (Modifier.typedAll_reads hfinal h c.modifiers).bind fun ms =>
      .skip (TypeTree.typedList_lasting hfinal h c.extends?) fun _ =>
        .skip (TypeTree.typedList_lasting hfinal h c.implements?) fun _ =>
          .pure fun hms hb hscope => ?_
  obtain ⟨hdistinct, hcrosses⟩ := hb hscope
  have hannotations := Env.Carries.uses hms
  exact ⟨fun hall =>
    (Mark.FieldsDistinct.of_classless hannotations.classless).append
      (hdistinct hall), (Env.Crosses.uses hms).trans hcrosses⟩

/-- Every member leads from one place between the members to the next. -/
theorem Member.typed_walks (hfinal : base.classPath.Declares final)
    (m : Member) : m.Walks base final := by
  induction m using Member.induction_on with
  | field d =>
      intro env outer h
      rw [Member.typed]
      refine (d.typed_again hfinal h).bind fun r => .pure fun hr => ?_
      obtain ⟨hfields, hclassless, hcrosses⟩ := hr
      exact ⟨hfields, fun _ => .of_classless hclassless, hcrosses⟩
  | method m =>
      intro env outer h
      rw [Member.typed]
      refine (m.typed_crosses hfinal h.toSameFile).bind fun m' =>
        .pure fun hm' => ?_
      obtain ⟨hclassless, hcrosses⟩ := hm'
      exact ⟨rfl, fun _ => .of_classless hclassless,
        fun _ _ => hcrosses.mono⟩
  | nested c ih =>
      intro env outer h
      rw [Member.typed]
      refine (ClassDecl.typed_crosses hfinal ih h.toSameFile outer).bind
        fun c' => .pure fun hc' => ?_
      obtain ⟨hdistinct, hcrosses⟩ := hc'
      exact ⟨rfl, hdistinct, fun _ _ => hcrosses.mono⟩

end JavaRefit
