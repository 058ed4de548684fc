/-
Which declaration a use goes back to.

A use is bound by the last declaration of its name in front of it whose
scope has not ended there, if no scope in between that has not ended
either has the name (`Mark.Binds`); the declared type is then what the
name means (`Mark.Binds.means`). It is a matter of places and names: marks
that are the same without types bind the same uses (`Mark.binds_congr`),
whatever annotations mention.

Statements whose catch clauses declare alike have marks that are alike
(`Stmt.Recaught.marksAlike`), and so have files
(`CompilationUnit.marksAlike_recaught`); what alike is to mean is
left open. A file has the marks that it has without its types, with all that
annotations mention (`CompilationUnit.marks_spelled`).

Chain: after `Scopes` and `Tree/Recaught`; what the catch rule does to the
variables of clauses and to what words mean reads it.
-/
import JavaRefit.Proofs.Attribution.Scopes
import JavaRefit.Proofs.Tree.Recaught

namespace JavaRefit

-- =============================================================== bindings

namespace Mark

/-- The mark without types; of an annotation it says that there is one. -/
def untyped : Mark → Mark
  | opens => opens
  | opensClass fields => opensClass (fields.map fun f => (f.1, none))
  | closes => closes
  | declares name _ => declares name none
  | uses name _ => uses name none
  | usesField name _ => usesField name none
  | annotates _ => annotates []

/-- The variable declared at the first place is the one used at the second. -/
def Binds (ms : List Mark) (i j : Nat) : Prop :=
  ∃ name type type', ms[i]? = some (.declares name type) ∧
    ms[j]? = some (.uses name type') ∧
    i < j ∧ Means name ((ms.take j).drop (i + 1)) none

/-- A bound use means what is declared where it is bound. -/
theorem Binds.means {ms : List Mark} {i j : Nat} (h : Binds ms i j) :
    ∃ name type type', ms[i]? = some (.declares name type) ∧
    ms[j]? = some (.uses name type') ∧
      Means name (ms.take j) (some type) := by
  obtain ⟨name, type, type', hi, hj, hlt, hbetween⟩ := h
  refine ⟨name, type, type', hi, hj, ?_⟩
  have hbefore : (ms.take j).take (i + 1) =
      ms.take i ++ [.declares name type] := by
    rw [List.take_take, Nat.min_eq_left hlt, List.take_add_one, hi]
    rfl
  rw [← List.take_append_drop (i + 1) (ms.take j), hbefore]
  exact hbetween.shows (.declared .nil)

-- ---------------------------------------------------------- without types

/-- Scopes start where they did, types aside. -/
theorem opensScope_untyped (m : Mark) :
    m.untyped.opensScope = m.opensScope := by
  cases m <;> rfl

theorem staysInScope_untyped (m : Mark) :
    m.untyped.staysInScope = m.staysInScope := by
  cases m <;> rfl

/-- The same variables are declared. -/
theorem declared?_untyped (m : Mark) : m.untyped.declared? = m.declared? := by
  cases m <;> rfl

/-- A mark that closes a scope without its type closes one. -/
theorem eq_closes_of_untyped {m : Mark} (h : m.untyped = closes) :
    m = closes := by
  cases m <;> first | rfl | cases h

theorem eq_opens_of_untyped {m : Mark} (h : m.untyped = opens) : m = opens := by
  cases m <;> first | rfl | cases h

/-- A class without types is the body of a class, with fields of the same
names. -/
theorem exists_of_untyped_eq_opensClass {m : Mark}
    {fields : List (String × Option JavaType)}
    (h : m.untyped = (opensClass fields).untyped) {name : String}
    (hnone : fields.lookup name = none) :
    ∃ fields', m = opensClass fields' ∧ fields'.lookup name = none := by
  cases m with
  | opensClass fields' =>
      refine ⟨fields', rfl, ?_⟩
      have hnames : fields'.map Prod.fst = fields.map Prod.fst := by
        have hmap := congrArg (List.map Prod.fst) (opensClass.inj h)
        rwa [List.map_map, List.map_map] at hmap
      rw [List.lookup_eq_none_iff] at hnone ⊢
      intro f hf
      have hmem : f.1 ∈ fields.map Prod.fst := hnames ▸ List.mem_map_of_mem hf
      obtain ⟨f', hf', heq⟩ := List.mem_map.1 hmem
      rw [← heq]
      exact hnone f' hf'
  | _ => cases h

end Mark

open Mark

variable {name : String} {ms ms' : List Mark}

/-- What is a scope without types is one. -/
theorem exists_scope_of_untyped {m : Mark} {inner : List Mark}
    (heq : ms'.map Mark.untyped =
      (m :: (inner ++ .closes :: ms)).map Mark.untyped) :
    ∃ m' inner' after, ms' = m' :: (inner' ++ .closes :: after) ∧
    m'.untyped = m.untyped ∧
      inner'.map Mark.untyped = inner.map Mark.untyped ∧
      after.map Mark.untyped = ms.map Mark.untyped := by
  rw [List.map_cons, List.map_append, List.map_cons] at heq
  obtain ⟨m', rest, rfl, hm', hrest⟩ := List.map_eq_cons_iff.1 heq
  obtain ⟨inner', rest, rfl, hinner, hrest'⟩ := List.map_eq_append_iff.1 hrest
  obtain ⟨c, after, rfl, hc, hafter⟩ := List.map_eq_cons_iff.1 hrest'
  obtain rfl := eq_closes_of_untyped hc
  exact ⟨m', inner', after, rfl, hm', hinner, hafter⟩

/-- Whether the scopes of some marks are closed is no matter of types. -/
theorem Closed.of_untyped (h : Closed ms)
    (heq : ms'.map Mark.untyped = ms.map Mark.untyped) : Closed ms' := by
  induction h generalizing ms' with
  | nil =>
      rw [List.map_nil, List.map_eq_nil_iff] at heq
      rw [heq]
      exact .nil
  | mark hm _ ih =>
      rw [List.map_cons] at heq
      obtain ⟨m', ms', rfl, hm', hms⟩ := List.map_eq_cons_iff.1 heq
      exact .mark (by
        rw [← staysInScope_untyped, hm', staysInScope_untyped, hm]) (ih hms)
  | scope hm _ _ ihi ih =>
      obtain ⟨m', inner, after, rfl, hm', hinner, hafter⟩ :=
        exists_scope_of_untyped heq
      exact .scope (by rw [← opensScope_untyped, hm', opensScope_untyped, hm])
        (ihi hinner)
        (ih hafter)

theorem Passed.of_untyped (h : Passed name ms)
    (heq : ms'.map Mark.untyped = ms.map Mark.untyped) : Passed name ms' := by
  induction h generalizing ms' with
  | nil =>
      rw [List.map_nil, List.map_eq_nil_iff] at heq
      rw [heq]
      exact .nil
  | mark hm hdeclared _ ih =>
      rw [List.map_cons] at heq
      obtain ⟨m', ms', rfl, hm', hms⟩ := List.map_eq_cons_iff.1 heq
      refine .mark ?_ ?_ (ih hms)
      · rw [← staysInScope_untyped, hm', staysInScope_untyped, hm]
      · rwa [← declared?_untyped, hm', declared?_untyped]
  | scope hm hinner _ ih =>
      obtain ⟨m', inner, after, rfl, hm', hinner', hafter⟩ :=
        exists_scope_of_untyped heq
      exact .scope (by rw [← opensScope_untyped, hm', opensScope_untyped, hm])
        (hinner.of_untyped hinner') (ih hafter)

/-- Whether a name is declared in the scopes that start within the marks is
read off their names. -/
theorem Means.of_untyped (h : Means name ms none)
    (heq : ms'.map Mark.untyped = ms.map Mark.untyped) :
    Means name ms' none := by
  generalize hnone : (none : Option (Option JavaType)) = meaning at h
  induction h generalizing ms' with
  | outermost hp => exact hnone ▸ .outermost (hp.of_untyped heq)
  | declared | field => cases hnone
  | around hp _ ih =>
      rw [List.map_append, List.map_cons] at heq
      obtain ⟨before, rest, rfl, hbefore, hrest⟩ := List.map_eq_append_iff.1 heq
      obtain ⟨o, after, rfl, ho, hafter⟩ := List.map_eq_cons_iff.1 hrest
      obtain rfl := eq_opens_of_untyped ho
      exact .around (hp.of_untyped hafter) (ih hbefore hnone)
  | aroundClass hp hfields _ ih =>
      rw [List.map_append, List.map_cons] at heq
      obtain ⟨before, rest, rfl, hbefore, hrest⟩ := List.map_eq_append_iff.1 heq
      obtain ⟨o, after, rfl, ho, hafter⟩ := List.map_eq_cons_iff.1 hrest
      obtain ⟨fields', rfl, hfields'⟩ :=
        exists_of_untyped_eq_opensClass ho hfields
      exact .aroundClass (hp.of_untyped hafter) hfields' (ih hbefore hnone)

namespace Mark

/-- What declares a name without its type declares it. -/
theorem exists_of_untyped_eq_declares {m : Mark} {type : Option JavaType}
    (h : m.untyped = (declares name type).untyped) :
    ∃ type', m = declares name type' := by
  cases m with
  | declares name' type' =>
      obtain ⟨rfl, -⟩ := declares.inj h
      exact ⟨type', rfl⟩
  | _ => cases h

/-- What uses a name without its type uses it. -/
theorem exists_of_untyped_eq_uses {m : Mark} {type : Option JavaType}
    (h : m.untyped = (uses name type).untyped) :
    ∃ type', m = uses name type' := by
  cases m with
  | uses name' type' =>
      obtain ⟨rfl, -⟩ := uses.inj h
      exact ⟨type', rfl⟩
  | _ => cases h

/-- An annotation stays one, whatever its words are worth. -/
theorem exists_of_untyped_eq_annotates {m : Mark} {ns : List Mention}
    (h : m.untyped = (annotates ns).untyped) : ∃ ns', m = annotates ns' := by
  cases m with
  | annotates ns' => exact ⟨ns', rfl⟩
  | _ => cases h

/-- A place has the mark it had, types aside. -/
theorem exists_getElem?_of_untyped (heq : ms'.map untyped = ms.map untyped)
    {i : Nat} {m : Mark} (h : ms[i]? = some m) :
    ∃ m', ms'[i]? = some m' ∧ m'.untyped = m.untyped := by
  have hi := congrArg (·[i]?) heq
  simp only [List.getElem?_map, h, Option.map_some,
    Option.map_eq_some_iff] at hi
  exact hi

/-- Uses are bound to the same declarations, types aside. -/
theorem Binds.of_untyped {i j : Nat} (h : Binds ms i j)
    (heq : ms'.map untyped = ms.map untyped) : Binds ms' i j := by
  obtain ⟨name, type, type', hi, hj, hlt, hbetween⟩ := h
  obtain ⟨d, hd, hdeclares⟩ := exists_getElem?_of_untyped heq hi
  obtain ⟨u, hu, huses⟩ := exists_getElem?_of_untyped heq hj
  obtain ⟨dtype, rfl⟩ := exists_of_untyped_eq_declares hdeclares
  obtain ⟨utype, rfl⟩ := exists_of_untyped_eq_uses huses
  refine ⟨name, dtype, utype, hd, hu, hlt, hbetween.of_untyped ?_⟩
  rw [List.map_drop, List.map_take, heq, List.map_drop, List.map_take]

/-- Marks that are the same without types bind the same uses. -/
theorem binds_congr (heq : ms'.map untyped = ms.map untyped) (i j : Nat) :
    Binds ms' i j ↔ Binds ms i j :=
  ⟨fun h => h.of_untyped heq.symm, fun h => h.of_untyped heq⟩

end Mark

-- ============================================================= statements

/-- The marks of statements in a row, each by itself. -/
theorem Stmt.marksAll_eq (cp : ClassPath) (ps : List (RightPadded Stmt)) :
    Stmt.marksAll cp ps = ps.flatMap fun p => p.element.marks cp :=
  eq_flatMap rfl (fun _ _ => rfl) ps

/-- The marks of clauses in a row, each by itself. -/
theorem Catch.marksAll_eq (cp : ClassPath) (cs : List (Catch Stmt)) :
    Catch.marksAll cp cs = cs.flatMap (Catch.marks cp) :=
  eq_flatMap rfl (fun _ _ => rfl) cs

/-- The marks of members in a row, each by itself. -/
theorem Member.marksAll_eq (cp : ClassPath) (ps : List (RightPadded Member)) :
    Member.marksAll cp ps = ps.flatMap fun p => p.element.marks cp :=
  eq_flatMap rfl (fun _ _ => rfl) ps

/-- Marks that are alike one by one are alike as a row. -/
theorem Mark.map_untyped_of_forall₂ {ms ms' : List Mark}
    (h : List.Forall₂ (fun m m' => m'.untyped = m.untyped) ms ms') :
    ms'.map untyped = ms.map untyped := by
  rw [← List.forall₂_eq_eq_eq, List.forall₂_map_left_iff,
    List.forall₂_map_right_iff]
  exact h.flip

section

variable {P : Variables → Variables → Prop}

/-- What catch clauses declare are no fields. -/
theorem Member.Recaught.fields_eq {m m' : Member} (h : Member.Recaught P m m') :
    m'.fields = m.fields := by
  cases h <;> rfl

/-- Classes that differ in what catch clauses declare have the same fields. -/
theorem ClassDecl.Recaught.fields_eq {c c' : JavaClass}
    (h : ClassDecl.Recaught P c c') :
    ClassDecl.fields c' = ClassDecl.fields c := by
  cases h with
  | same => rfl
  | @nested _ qs hpq hafter =>
      show qs.flatMap (fun q => q.element.fields) =
        c.body.statements.flatMap fun p => p.element.fields
      rw [List.flatMap_def, List.flatMap_def]
      refine congrArg List.flatten ?_
      rw [← List.forall₂_eq_eq_eq, List.forall₂_map_left_iff,
        List.forall₂_map_right_iff]
      exact hpq.flip.imp fun q p h => h.fields_eq

end

section

variable {S : Mark → Mark → Prop} {cp : ClassPath}

/-- The marks of the declarations are related one by one. -/
def Variables.MarkedAlike (S : Mark → Mark → Prop) (cp : ClassPath)
    (d d' : Variables) : Prop :=
  List.Forall₂ S (d.marks cp) (d'.marks cp)

variable (hS : ∀ m, S m m)
include hS

/-- Marks are like themselves. -/
theorem forall₂_marks_self (ms : List Mark) : List.Forall₂ S ms ms :=
  List.forall₂_same.2 fun m _ => hS m

/-- Scopes are alike when what is in them is. -/
theorem forall₂_marks_scope (m : Mark) {inner inner' : List Mark}
    (h : List.Forall₂ S inner inner') :
    List.Forall₂ S (m :: (inner ++ [.closes])) (m :: (inner' ++ [.closes])) :=
  .cons (hS m) (List.rel_append h (forall₂_marks_self hS [.closes]))

/-- Blocks have like marks if their statements have. -/
theorem Stmt.marksAlike_block {b b' : Block Stmt}
    (ih : ∀ p ∈ b.statements, ∀ s',
      Stmt.Recaught (Variables.MarkedAlike S cp) p.element s' →
        List.Forall₂ S (p.element.marks cp) (s'.marks cp))
    (h : Stmt.Recaught (Variables.MarkedAlike S cp) (.block b) (.block b')) :
    List.Forall₂ S (Stmt.marksBlock cp b) (Stmt.marksBlock cp b') := by
  cases h with
  | same => exact forall₂_marks_self hS _
  | block hpq hafter =>
      rw [Stmt.marksBlock, Stmt.marksBlock, Stmt.marksAll_eq, Stmt.marksAll_eq]
      have hboth := (List.forall₂_and_left _ _).2 ⟨ih, hpq⟩
      exact forall₂_marks_scope hS .opens
        (List.rel_flatMap hboth fun p q ⟨hp, hq⟩ => hp _ hq)

/-- A clause that declares and does alike has marks that are alike. -/
theorem Catch.marksAlike {c c' : Catch Stmt}
    (hd : Variables.MarkedAlike S cp c.declaration c'.declaration)
    (hb : List.Forall₂ S (Stmt.marksBlock cp c.body)
      (Stmt.marksBlock cp c'.body)) :
    List.Forall₂ S (c.marks cp) (c'.marks cp) := by
  rw [Catch.marks, Catch.marks]
  exact forall₂_marks_scope hS .opens (List.rel_append hd hb)

/-- Statements whose clauses declare alike have marks that are alike. -/
theorem Stmt.Recaught.marksAlike {s s' : Stmt}
    (h : Stmt.Recaught (Variables.MarkedAlike S cp) s s') :
    List.Forall₂ S (s.marks cp) (s'.marks cp) := by
  induction s using Stmt.induction_on generalizing s' with
  | block b ih =>
      cases h with
      | same => exact forall₂_marks_self hS _
      | block hpq hafter =>
          exact Stmt.marksAlike_block hS (fun p hp s' h => ih p hp h)
            (.block hpq hafter)
  | tryCatch t ihb ihc ihf =>
      cases h with
      | same => exact forall₂_marks_self hS _
      | @tryCatch lead b b' cs cs' f f' hb hbodies hheads hf hbefore =>
          have hbody := Stmt.marksAlike_block hS
            (fun p hp s' h => ihb p hp h) hb
          have hclauses : List.Forall₂ (fun c c' : Catch Stmt =>
              List.Forall₂ S (c.marks cp) (c'.marks cp)) cs cs' := by
            have hboth := (List.forall₂_and_left _ _).2 ⟨ihc, hbodies⟩
            refine List.forall₂_iff_zip.2 ⟨hheads.length_eq,
              fun {c c'} hmem => ?_⟩
            have hhead := (List.forall₂_iff_zip.1 hheads).2 hmem
            obtain ⟨ih, hc⟩ := (List.forall₂_iff_zip.1 hboth).2 hmem
            exact Catch.marksAlike hS hhead.declaration
              (Stmt.marksAlike_block hS (fun p hp s' h => ih p hp h) hc)
          have hfinally : List.Forall₂ S (Stmt.marksFinally cp f)
              (Stmt.marksFinally cp f') := by
            cases hf with
            | none => exact .nil
            | some hg =>
                exact Stmt.marksAlike_block hS
                  (fun p hp s' h => ihf _ rfl p hp h) hg
          rw [Stmt.marks, Stmt.marks, Try.marks, Try.marks,
            Catch.marksAll_eq, Catch.marksAll_eq]
          refine List.rel_append (List.rel_append hbody ?_) hfinally
          exact List.rel_flatMap hclauses fun _ _ hc => hc
  | ifElse lead condition thenPart elsePart iht ihe =>
      cases h with
      | same => exact forall₂_marks_self hS _
      | @ifElse _ _ _ _ _ elsePart' hs hsafter he hafter =>
          have helse : List.Forall₂ S (Stmt.marksElse cp elsePart)
              (Stmt.marksElse cp elsePart') := by
            cases he with
            | none => exact .nil
            | some hg =>
                rw [Stmt.marksElse, Stmt.marksElse, Else.marks, Else.marks]
                exact ihe _ rfl hg
          rw [Stmt.marks, Stmt.marks]
          exact List.rel_append
            (List.rel_append (forall₂_marks_self hS _) (iht hs)) helse
  | whileLoop lead condition body ih =>
      cases h with
      | same => exact forall₂_marks_self hS _
      | whileLoop hs hafter =>
          rw [Stmt.marks, Stmt.marks]
          exact List.rel_append (forall₂_marks_self hS _) (ih hs)
  | _ =>
      cases h with
      | same => exact forall₂_marks_self hS _

-- ====================================================== classes and files

/-- Members whose clauses declare alike have marks that are alike. -/
theorem Member.Recaught.marksAlike {m m' : Member}
    (h : Member.Recaught (Variables.MarkedAlike S cp) m m') :
    List.Forall₂ S (m.marks cp) (m'.marks cp) := by
  induction m using Member.induction_on generalizing m' with
  | field d =>
      cases h with
      | same => exact forall₂_marks_self hS _
  | method m =>
      cases h with
      | same => exact forall₂_marks_self hS _
      | @method _ b b' hm hb =>
          have hbody : List.Forall₂ S (Stmt.marksBlock cp b)
              (Stmt.marksBlock cp b') := hb.marksAlike hS
          have hinner := List.rel_append (forall₂_marks_self hS
            (m.parameters.elements.flatMap fun p => p.element.marks cp)) hbody
          rw [Member.marks, Member.marks, Method.marks, Method.marks, hm]
          exact List.rel_append (forall₂_marks_self hS _)
            (forall₂_marks_scope hS .opens hinner)
  | nested c ih =>
      cases h with
      | same => exact forall₂_marks_self hS _
      | @nested _ qs hpq hafter =>
          have hfields : ClassDecl.fields { c with body.statements := qs } =
              ClassDecl.fields c :=
            ClassDecl.Recaught.fields_eq (.nested hpq hafter)
          have hboth := (List.forall₂_and_left _ _).2 ⟨ih, hpq⟩
          rw [Member.marks, Member.marks, ClassDecl.marks, ClassDecl.marks,
            hfields, Member.marksBlock, Member.marksBlock, Member.marksAll_eq,
            Member.marksAll_eq]
          exact List.rel_append (forall₂_marks_self hS _)
            (forall₂_marks_scope hS _
              (List.rel_flatMap hboth fun p q ⟨hp, hq⟩ => hp hq))

/-- Files whose clauses declare alike have marks that are alike. -/
theorem CompilationUnit.marksAlike_recaught {cu edited : CompilationUnit}
    (h : List.Forall₂ (ClassDecl.Recaught (Variables.MarkedAlike S cp))
      cu.classes edited.classes) :
    List.Forall₂ S (cu.marks cp) (edited.marks cp) :=
  List.rel_flatMap h fun _ _ hc => Member.Recaught.marksAlike hS hc

end

-- =========================================================== without types

/-- What is mentioned, without types. -/
def Mention.untyped (a : Mention) : Mention :=
  ⟨a.words, a.use?.map fun u => (u.1, none)⟩

namespace Mark

/-- The mark without types. -/
def spelled : Mark → Mark
  | annotates mentions => annotates (mentions.map Mention.untyped)
  | m => m.untyped

/-- Without its type a mark is what it is without its type and words. -/
theorem untyped_spelled (m : Mark) : m.spelled.untyped = m.untyped := by
  cases m with
  | opensClass fields => exact congrArg opensClass (List.map_map ..)
  | _ => rfl

/-- An annotation that is spelled like another has the same chains of words. -/
theorem exists_of_spelled_eq_annotates {m : Mark} {ns : List Mention}
    (h : m.spelled = (annotates ns).spelled) : ∃ ns', m = annotates ns' ∧
      ns'.map Mention.untyped = ns.map Mention.untyped := by
  cases m with
  | annotates ns' => exact ⟨ns', rfl, annotates.inj h⟩
  | _ => cases h

/-- What is used in a mark is used in it without its type. -/
theorem used?_spelled (m : Mark) :
    m.spelled.used? = m.used?.map fun u => (u.1, none) := by
  cases m <;> rfl

/-- Marks that are the same without types are so whatever they mention. -/
theorem map_untyped_of_spelled {ms ms' : List Mark}
    (h : ms'.map spelled = ms.map spelled) :
    ms'.map untyped = ms.map untyped := by
  have h := congrArg (List.map untyped) h
  rw [List.map_map, List.map_map] at h
  exact ((List.map_congr_left fun m _ => m.untyped_spelled.symm).trans h).trans
    (List.map_congr_left fun m _ => m.untyped_spelled)

end Mark

section

variable {cp cp' : ClassPath} (h : cp'.contains = cp.contains)
include h

/-- The marks of an expression are told without its types, by which classes
there are. -/
theorem Expr.marks_spelled (e : Expr) :
    (e.untyped.marks cp').map Mark.spelled = (e.marks cp).map Mark.spelled := by
  have hall {ps : List (RightPadded Expr)}
      (ih : ∀ p ∈ ps, (p.element.untyped.marks cp').map Mark.spelled =
        (p.element.marks cp).map Mark.spelled) :
      (Expr.marksAll cp' (ps.map (.map Expr.untyped))).map Mark.spelled =
        (Expr.marksAll cp ps).map Mark.spelled := by
    rw [marksAll_eq, marksAll_eq, List.flatMap_map, List.map_flatMap,
      List.map_flatMap]
    exact List.flatMap_congr ih
  induction e using Expr.induction_on with
  | ident i type =>
      show (if i.name = "this" then [] else [Mark.uses i.name none]).map
        Mark.spelled = _
      rw [marks]
      split <;> rfl
  | access lead target last type ih =>
      have hown : (target.untyped.ownField last.element.name none).map
          Mark.spelled =
          (target.ownField last.element.name type).map Mark.spelled := by
        cases target with
        | ident i type' =>
            show (if i.name = "this"
              then [Mark.usesField last.element.name none] else []).map _ = _
            rw [ownField]
            split <;> rfl
        | _ => rfl
      have htext : chainText? target.untyped last = chainText? target last := by
        rw [chainText?, chainText?, isNameChain_untyped, dotted?_untyped]
      show ((Expr.access lead target.untyped last none).marks cp').map
        Mark.spelled = _
      rw [marks, marks, isNameChain_untyped, htext, h]
      split
      · split
        · rfl
        · exact ih
      · split
        · rfl
        · rw [List.map_append, List.map_append, ih, hown]
  | call lead select name args method ihs iha =>
      have hselect : (marksSelect cp' (select.map (.map Expr.untyped))).map
          Mark.spelled = (marksSelect cp select).map Mark.spelled := by
        cases select with
        | none => rfl
        | some p => exact ihs p rfl
      rw [untyped_call, marks, marks, List.map_append, List.map_append, hselect]
      exact congrArg (_ ++ ·) (hall iha)
  | new lead base args constructor type ih =>
      rw [untyped_new, marks, marks]
      exact hall ih
  | literal lead text type => rfl
  | assign lead target value type iht ihv =>
      show (target.untyped.marks cp' ++ value.element.untyped.marks cp').map
        Mark.spelled = _
      rw [marks, List.map_append, List.map_append, iht, ihv]
  | binary lead left operator right type ihl ihr =>
      show (left.untyped.marks cp' ++ right.untyped.marks cp').map
        Mark.spelled = _
      rw [marks, List.map_append, List.map_append, ihl, ihr]
  | unary lead operator operand type ih => exact ih
  | parens lead inner type ih => exact ih

/-- The value of a variable has the same marks without types. -/
theorem Variable.marks_spelled (v : Variable) :
    (v.untyped.marks cp').map Mark.spelled = (v.marks cp).map Mark.spelled := by
  rw [Variable.untyped_eq, marks, marks]
  cases v.initializer with
  | none => rfl
  | some i => exact i.element.marks_spelled h

omit h in
/-- The chains of words in an expression are those that it has without its
types. -/
theorem Expr.chains_untyped (e : Expr) :
    e.untyped.chains = e.chains.map Expr.untyped := by
  have hall {ps : List (RightPadded Expr)}
      (ih : ∀ p ∈ ps,
        p.element.untyped.chains = p.element.chains.map Expr.untyped) :
      chainsAll (ps.map (.map Expr.untyped)) =
        (chainsAll ps).map Expr.untyped := by
    rw [chainsAll_eq, chainsAll_eq, List.flatMap_map, List.map_flatMap]
    exact List.flatMap_congr ih
  induction e using Expr.induction_on with
  | ident i type => rfl
  | access lead target name type ih =>
      show (Expr.access lead target.untyped name none).chains = _
      rw [chains, chains, dotted?_untyped]
      split
      · rfl
      · exact ih
  | call lead select name args method ihs iha =>
      have hselect : chainsSelect (select.map (.map Expr.untyped)) =
          (chainsSelect select).map Expr.untyped := by
        cases select with
        | none => rfl
        | some p => exact ihs p rfl
      rw [untyped_call, chains, chains, List.map_append, hselect]
      exact congrArg (_ ++ ·) (hall iha)
  | new lead base args constructor type ih =>
      rw [untyped_new, chains, chains]
      exact hall ih
  | literal lead text type => rfl
  | assign lead target value type iht ihv =>
      show target.untyped.chains ++ value.element.untyped.chains = _
      rw [chains, List.map_append, iht, ihv]
  | binary lead left operator right type ihl ihr =>
      show left.untyped.chains ++ right.untyped.chains = _
      rw [chains, List.map_append, ihl, ihr]
  | unary lead operator operand type ih => exact ih
  | parens lead inner type ih => exact ih

/-- A chain of words mentions the same without types. -/
theorem Expr.mention_spelled (e : Expr) :
    (e.untyped.mention cp').untyped = (e.mention cp).untyped := by
  have hused (ms : List Mark) :
      (ms.findSome? Mark.used?).map (fun u => (u.1, (none : Option JavaType))) =
        (ms.map Mark.spelled).findSome? Mark.used? := by
    rw [List.findSome?_map, List.map_findSome?]
    exact congrArg (List.findSome? · ms) (funext fun m => m.used?_spelled.symm)
  rw [Mention.untyped, Mention.untyped, mention, mention, hused, hused,
    e.marks_spelled h, dotted?_untyped]

omit h in

/-- The chains in an annotation without types. -/
theorem Modifier.chains_untyped (m : Modifier) :
    m.untyped.chains = m.chains.map Expr.untyped := by
  cases m with
  | keyword lead word => rfl
  | annotated lead name args =>
      rw [untyped_annotated]
      cases args with
      | none => rfl
      | some c =>
          show Expr.chainsAll (c.map Expr.untyped).elements = _
          rw [chains, Container.map, Expr.chainsAll_eq, Expr.chainsAll_eq,
            List.flatMap_map, List.map_flatMap]
          exact List.flatMap_congr fun p _ => p.element.chains_untyped

/-- An annotation mentions the same without types. -/
theorem Modifier.mentions_spelled (m : Modifier) :
    (m.untyped.chains.map (Expr.mention cp')).map Mention.untyped =
      (m.chains.map (Expr.mention cp)).map Mention.untyped := by
  rw [m.chains_untyped, List.map_map, List.map_map, List.map_map]
  exact List.map_congr_left fun e _ => e.mention_spelled h

/-- A modifier has the same mark without types. -/
theorem Modifier.marks_spelled (m : Modifier) :
    (m.untyped.marks cp').map Mark.spelled =
      (m.marks cp).map Mark.spelled := by
  have hmentions := m.mentions_spelled h
  cases m with
  | keyword lead word => rfl
  | annotated lead name args =>
      rw [untyped_annotated] at hmentions ⊢
      cases args with
      | none => rfl
      | some c => exact congrArg (fun ns => [Mark.annotates ns]) hmentions

/-- Modifiers in a row have the same marks without types. -/
theorem Modifier.marksAll_spelled (ms : List Modifier) :
    (marksAll cp' (ms.map Modifier.untyped)).map Mark.spelled =
      (marksAll cp ms).map Mark.spelled := by
  rw [marksAll, marksAll, List.flatMap_map, List.map_flatMap,
    List.map_flatMap]
  exact List.flatMap_congr fun m _ => m.marks_spelled h

/-- A declaration has the same marks without types. -/
theorem Variables.marks_spelled (d : Variables) :
    (d.untyped.marks cp').map Mark.spelled = (d.marks cp).map Mark.spelled := by
  rw [Variables.untyped_eq, marks, marks, List.map_append, List.map_append,
    Modifier.marksAll_spelled h, List.flatMap_map, List.map_flatMap,
    List.map_flatMap]
  refine congrArg (· ++ _) (List.flatMap_congr fun p _ => ?_)
  have hname : p.element.untyped.name.last = p.element.name.last := by
    rw [Variable.untyped_eq]
    exact p.element.name.last_untyped
  show (p.element.untyped.marks cp' ++
    [Mark.declares p.element.untyped.name.last _]).map _ = _
  rw [List.map_append, List.map_append, p.element.marks_spelled h, hname]
  rfl

theorem Variables.fieldMarks_spelled (d : Variables) :
    (d.untyped.fieldMarks cp').map Mark.spelled =
      (d.fieldMarks cp).map Mark.spelled := by
  rw [Variables.untyped_eq, fieldMarks, fieldMarks, List.map_append,
    List.map_append, Modifier.marksAll_spelled h, List.flatMap_map,
    List.map_flatMap, List.map_flatMap]
  exact congrArg (· ++ _)
    (List.flatMap_congr fun p _ => p.element.marks_spelled h)

/-- A statement has the same marks without types. -/
theorem Stmt.marks_spelled (s : Stmt) :
    (s.untyped.marks cp').map Mark.spelled = (s.marks cp).map Mark.spelled := by
  have hblock {b : Block Stmt}
      (ih : ∀ p ∈ b.statements, (p.element.untyped.marks cp').map Mark.spelled =
        (p.element.marks cp).map Mark.spelled) :
      (marksBlock cp' (b.map Stmt.untyped)).map Mark.spelled =
        (marksBlock cp b).map Mark.spelled := by
    have hall : (marksAll cp' (b.statements.map (.map Stmt.untyped))).map
        Mark.spelled = (marksAll cp b.statements).map Mark.spelled := by
      rw [marksAll_eq, marksAll_eq, List.flatMap_map, List.map_flatMap,
        List.map_flatMap]
      exact List.flatMap_congr ih
    simp only [marksBlock, Block.map, List.map_cons, List.map_append, hall]
  induction s using Stmt.induction_on with
  | block b ih =>
      rw [untyped_block, marks, marks]
      exact hblock ih
  | declaration d => exact d.marks_spelled h
  | expr e => exact e.marks_spelled h
  | empty lead => rfl
  | tryCatch t ihb ihc ihf =>
      have hclauses :
          (Catch.marksAll cp' (t.catches.map Catch.untyped)).map Mark.spelled =
          (Catch.marksAll cp t.catches).map Mark.spelled := by
        rw [Catch.marksAll_eq, Catch.marksAll_eq, List.flatMap_map,
          List.map_flatMap, List.map_flatMap]
        refine List.flatMap_congr fun c hc => ?_
        show (Mark.opens :: (c.declaration.untyped.marks cp' ++
          marksBlock cp' (c.body.map Stmt.untyped) ++ [.closes])).map
            Mark.spelled = _
        have hparameter :
            c.parameter.inner.element.marks cp = c.declaration.marks cp := rfl
        simp only [Catch.marks, hparameter, List.map_cons, List.map_append,
          c.declaration.marks_spelled h, hblock (ihc c hc)]
      have hfinally :
          (marksFinally cp' (t.finally?.map (.map (.map Stmt.untyped)))).map
            Mark.spelled =
          (marksFinally cp t.finally?).map Mark.spelled := by
        cases hf : t.finally? with
        | none => rfl
        | some f => exact hblock (ihf f hf)
      rw [untyped_tryCatch, marks, marks, Try.marks, Try.marks]
      simp only [Try.untyped, List.map_append, hblock ihb, hclauses, hfinally]
  | throwing lead exception => exact exception.marks_spelled h
  | returning lead value =>
      rw [untyped_returning]
      cases value with
      | none => rfl
      | some e => exact e.marks_spelled h
  | ifElse lead condition thenPart elsePart iht ihe =>
      have helse : (marksElse cp' (elsePart.map Else.untyped)).map
          Mark.spelled = (marksElse cp elsePart).map Mark.spelled := by
        cases elsePart with
        | none => rfl
        | some e =>
            simp only [Option.map_some, marksElse, Else.marks]
            exact ihe e rfl
      rw [untyped_ifElse]
      show (condition.inner.element.untyped.marks cp' ++
        thenPart.element.untyped.marks cp' ++
        marksElse cp' (elsePart.map Else.untyped)).map Mark.spelled = _
      rw [marks]
      simp only [List.map_append,
        condition.inner.element.marks_spelled h, iht, helse]
  | whileLoop lead condition body ih =>
      show (condition.inner.element.untyped.marks cp' ++
        body.element.untyped.marks cp').map _ = _
      rw [marks, List.map_append, List.map_append,
        condition.inner.element.marks_spelled h, ih]

/-- A method has the same marks without types. -/
theorem Method.marks_spelled (m : Method) :
    (m.untyped.marks cp').map Mark.spelled = (m.marks cp).map Mark.spelled := by
  have hparameters :
      ((m.parameters.elements.map (RightPadded.map Variables.untyped)).flatMap
      fun p => p.element.marks cp').map Mark.spelled =
        (m.parameters.elements.flatMap fun p => p.element.marks cp).map
          Mark.spelled := by
    rw [List.flatMap_map, List.map_flatMap, List.map_flatMap]
    exact List.flatMap_congr fun p _ => p.element.marks_spelled h
  have hbody : (Stmt.marksBody cp' (m.body.map (.map Stmt.untyped))).map
      Mark.spelled = (Stmt.marksBody cp m.body).map Mark.spelled := by
    cases m.body with
    | none => rfl
    | some b =>
        have hblock := (Stmt.block b).marks_spelled h
        rwa [Stmt.untyped_block] at hblock
  rw [Method.untyped_eq, marks, marks]
  simp only [Container.map, List.map_cons, List.map_append, hparameters, hbody,
    Modifier.marksAll_spelled h]

omit h in
/-- Fields go by the same words without types. -/
theorem Member.fields_untyped (m : Member) :
    m.untyped.fields.map (fun f => (f.1, (none : Option JavaType))) =
      m.fields.map fun f => (f.1, none) := by
  cases m with
  | field d =>
      show d.untyped.fields.map _ = d.fields.map _
      rw [Variables.untyped_eq, Variables.fields, Variables.fields,
        List.map_map, List.map_map, List.map_map]
      refine List.map_congr_left fun p _ => ?_
      show (p.element.untyped.name.last, none) = (p.element.name.last, none)
      rw [Variable.untyped_eq]
      exact Prod.ext p.element.name.last_untyped rfl
  | _ => rfl

/-- A member has the same marks without types. -/
theorem Member.marks_spelled (m : Member) :
    (m.untyped.marks cp').map Mark.spelled = (m.marks cp).map Mark.spelled := by
  induction m using Member.induction_on with
  | field d => exact d.fieldMarks_spelled h
  | method m => exact m.marks_spelled h
  | nested c ih =>
      have hfields :
          (c.body.statements.map (RightPadded.map Member.untyped)).flatMap
          (fun p => p.element.fields.map fun f =>
            (f.1, (none : Option JavaType))) =
            c.body.statements.flatMap fun p => p.element.fields.map fun f =>
              (f.1, none) := by
        rw [List.flatMap_map]
        exact List.flatMap_congr fun p _ => p.element.fields_untyped
      have hmarks :
          (c.body.statements.map (RightPadded.map Member.untyped)).flatMap
          (fun p => (p.element.marks cp').map Mark.spelled) =
            c.body.statements.flatMap fun p =>
              (p.element.marks cp).map Mark.spelled := by
        rw [List.flatMap_map]
        exact List.flatMap_congr ih
      show (c.untyped.marks cp').map Mark.spelled =
        (c.marks cp).map Mark.spelled
      rw [c.untyped_eq, ClassDecl.marks, ClassDecl.marks]
      simp only [Member.marksBlock, Member.marksAll_eq, Block.map,
        List.map_cons, List.map_append, Mark.spelled, Mark.untyped,
        ClassDecl.fields, List.map_flatMap, hfields, hmarks,
        Modifier.marksAll_spelled h]

/-- The marks of a file are told without its types. -/
theorem CompilationUnit.marks_spelled (cu : CompilationUnit) :
    (cu.untyped.marks cp').map Mark.spelled =
      (cu.marks cp).map Mark.spelled := by
  rw [CompilationUnit.untyped_eq, marks, marks, List.flatMap_map,
    List.map_flatMap, List.map_flatMap]
  exact List.flatMap_congr fun c _ => (Member.nested c).marks_spelled h

end

end JavaRefit
