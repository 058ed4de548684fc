/-
What the catch rule does to a whole file.

# The relation

A statement is rewritten from the leaves up: when the rule comes to a
`try`, the statements inside it have been rewritten already. `Follows`
says what that leaves of the nodes of a walk: the sites have the kinds
they had, in the order they had, and the `try` statements, met in one
order before and after, catch what their plans have them catch. The plan
of a rewritten `try` is therefore that of the original, and the relation
goes up through every constructor of a statement.

# The file

The rule passes a file by that has no call of the API that changed; no
plan in such a file changes anything, because the nodes of every body are
nodes of the file. Otherwise the classes are rewritten, and then the
imports, which hold no `try` statement.

Chain: after `Site` and `Retarget`; what follows for exceptions and for
a second run reads it.
-/
import JavaRefit.Attribution.Unit
import JavaRefit.Proofs.CatchRule.Retarget
import JavaRefit.Proofs.CatchRule.Site
import JavaRefit.Proofs.Import.Delta

namespace JavaRefit

namespace CatchRule

variable (r : CatchRule)

-- =========================================================== the relation

/-- The second nodes are what the rule makes of the first: the same sites, and
the `try` statements retargeted. -/
structure Follows (ns ns' : List Node) : Prop where
  sites : r.sites ns' = r.sites ns
  tries : List.Forall₂ r.Retargets (Node.tries ns) (Node.tries ns')

namespace Follows

variable {r} {ns ns' ms ms' : List Node}

theorem nil : r.Follows [] [] :=
  ⟨rfl, .nil⟩

theorem append (hn : r.Follows ns ns') (hm : r.Follows ms ms') :
    r.Follows (ns ++ ms) (ns' ++ ms') := by
  constructor
  · simp [hn.sites, hm.sites]
  · rw [Node.tries_append, Node.tries_append]
    exact List.rel_append hn.tries hm.tries

theorem flatMap {α : Type} {l : List α} {f g : α → List Node}
    (h : ∀ a ∈ l, r.Follows (f a) (g a)) :
    r.Follows (l.flatMap f) (l.flatMap g) := by
  induction l with
  | nil => exact nil
  | cons a l ih =>
      obtain ⟨ha, hl⟩ := List.forall_mem_cons.1 h
      exact append ha (ih hl)

/-- Nodes that are neither sites nor `try` statements go in front. -/
theorem cons {n n' : Node} (hs : n.isSite = false) (ht : n.asTry = none)
    (hs' : n'.isSite = false) (ht' : n'.asTry = none) (h : r.Follows ns ns') :
    r.Follows (n :: ns) (n' :: ns') := by
  constructor
  · simp [sites_cons, hs, hs', h.sites]
  · simpa [Node.tries_cons, ht, ht'] using h.tries

/-- Nodes below statements follow any others with the same sites. -/
theorem of_isBelowStmt (hn : ∀ n ∈ ns, n.isBelowStmt = true)
    (hn' : ∀ n ∈ ns', n.isBelowStmt = true) (h : r.sites ns' = r.sites ns) :
    r.Follows ns ns' :=
  ⟨h, by rw [Node.tries_eq_nil hn, Node.tries_eq_nil hn']; exact .nil⟩

theorem refl_of_tries (h : Node.tries ns = []) : r.Follows ns ns :=
  ⟨rfl, by rw [h]; exact .nil⟩

theorem refl_of_isBelowStmt (hn : ∀ n ∈ ns, n.isBelowStmt = true) :
    r.Follows ns ns :=
  refl_of_tries (Node.tries_eq_nil hn)

end Follows

-- =============================================================== the plan

variable {r}

/-- A `try` with the same sites in its body and the same caught types has the
same plan. -/
theorem plan_congr {t t' : Try Stmt}
    (hb : r.sites (Stmt.walkBlock t'.body) = r.sites (Stmt.walkBlock t.body))
    (hc : t'.caught = t.caught) : r.plan t' = r.plan t := by
  simp [plan, callsApi, raisesLegacy, catchesLegacy, catchesRelated, hb, hc]

variable (r) (qualified : Bool)

theorem caught_newClauses (hne : r.legacy ≠ r.replacement.fqn)
    (plan : Retargeting) (cs : List (Catch Stmt)) :
    (cs.map (r.newClause qualified plan)).map Catch.caughtTypes =
      (cs.map Catch.caughtTypes).map (r.retyped plan) := by
  rw [List.map_map, List.map_map]
  exact List.map_congr_left fun c _ =>
    r.caughtTypes_newClause qualified hne plan c

theorem sites_newDeclaration (plan : Retargeting) (d : Variables) :
    r.sites (r.newDeclaration qualified plan d).walk = r.sites d.walk := by
  unfold newDeclaration
  split
  · cases plan with
    | unchanged => rfl
    | substitution => exact r.sites_substituteIn qualified d
    | augmentation => exact r.sites_augmentIn qualified d
  · rfl

/-- A clause follows one whose body it follows. -/
theorem follows_newClause (plan : Retargeting) {c c' : Catch Stmt}
    (hp : c'.parameter = c.parameter)
    (hb : r.Follows (Stmt.walkBlock c.body) (Stmt.walkBlock c'.body)) :
    r.Follows c.walk (r.newClause qualified plan c').walk := by
  rw [Catch.walk, Catch.walk]
  refine .cons rfl rfl rfl rfl (.append (.of_isBelowStmt ?_ ?_ ?_) hb)
  · exact Variables.isBelowStmt_walkParameter _
  · exact Variables.isBelowStmt_walkParameter _
  · rw [Variables.walkParameter, Variables.walkParameter, sites_cons,
      sites_cons, ← hp]
    exact congrArg₂ _ rfl (r.sites_newDeclaration qualified plan c'.declaration)

-- ============================================================= statements

/-- The rule as what is done to `try` statements. -/
theorem editor_eq : r.editor qualified = .ofTry (r.retarget qualified) := rfl

variable {r} {qualified}

/-- A block follows the one it was edited from if its statements do. -/
theorem follows_editBlock {b : Block Stmt}
    (h : ∀ p ∈ b.statements,
      r.Follows p.element.walk
        (p.element.edit (.ofTry (r.retarget qualified))).value.walk) :
    r.Follows (Stmt.walkBlock b) (Stmt.walkBlock
      (Stmt.editBlock (.ofTry (r.retarget qualified)) b).value) := by
  rw [Stmt.editBlock_value, Stmt.walkBlock, Stmt.walkBlock, Stmt.walkAll_eq,
    Stmt.walkAll_eq, List.flatMap_map]
  exact .cons rfl rfl rfl rfl (.flatMap h)

variable (hne : r.legacy ≠ r.replacement.fqn)
include hne

/-- A retargeted `try` whose parts follow those of another follows the other. -/
theorem follows_retarget {t t' : Try Stmt}
    (hb : r.Follows (Stmt.walkBlock t.body) (Stmt.walkBlock t'.body))
    (hc : t'.caught = t.caught)
    (hcs : ∀ plan, r.Follows (Catch.walkAll t.catches)
      (Catch.walkAll (t'.catches.map (r.newClause qualified plan))))
    (hf : r.Follows (Stmt.walkFinally t.finally?)
      (Stmt.walkFinally t'.finally?)) :
    r.Follows t.walk (r.retarget qualified t').value.walk := by
  obtain ⟨hv, -⟩ := r.retarget_isRetargeted qualified t'
  have hplan : r.plan t' = r.plan t := plan_congr hb.sites hc
  rw [hv, hplan, Try.walk, Try.walk]
  have h := (hb.append (hcs (r.plan t))).append hf
  refine ⟨?_, ?_⟩
  · simp only [sites_cons]
    exact congrArg₂ _ rfl h.sites
  · refine .cons ⟨hb.sites, ?_⟩ h.tries
    rw [← hc]
    exact r.caught_newClauses qualified hne _ _

/-- A statement edited by the rule follows the statement. -/
theorem follows_editStmt (s : Stmt) :
    r.Follows s.walk (s.edit (.ofTry (r.retarget qualified))).value.walk := by
  induction s using Stmt.induction_on with
  | block b ih => exact follows_editBlock ih
  | declaration d =>
      rw [Stmt.edit, Variables.edit_ofTry]
      exact .refl_of_isBelowStmt d.isBelowStmt_walk
  | expr e =>
      rw [Stmt.edit, Expr.edit_ofTry]
      exact .refl_of_isBelowStmt e.isBelowStmt_walk
  | empty lead => exact .cons rfl rfl rfl rfl .nil
  | tryCatch t ihb ihc ihf =>
      have hf : r.Follows (Stmt.walkFinally t.finally?) (Stmt.walkFinally
          (Stmt.editFinally (.ofTry (r.retarget qualified))
            t.finally?).value) := by
        cases hf : t.finally? with
        | none => exact .nil
        | some f => exact follows_editBlock (ihf f hf)
      have hv :
          (Stmt.edit (.ofTry (r.retarget qualified)) (.tryCatch t)).value =
          .tryCatch (r.retarget qualified
            (Try.editParts (.ofTry (r.retarget qualified)) t).value).value :=
              rfl
      rw [hv, Try.editParts_value]
      refine follows_retarget hne (follows_editBlock ihb) ?_ (fun plan => ?_) hf
      · simp only [Try.caught, List.map_map]
        rfl
      · rw [Catch.walkAll_eq, Catch.walkAll_eq, List.map_map, List.flatMap_map]
        exact .flatMap fun c hc =>
          r.follows_newClause qualified plan rfl (follows_editBlock (ihc c hc))
  | throwing lead exception =>
      rw [Stmt.edit, Expr.edit_ofTry]
      refine .refl_of_tries ?_
      exact (Node.tries_cons _ _).trans
        (Node.tries_eq_nil exception.isBelowStmt_walk)
  | returning lead value =>
      cases value with
      | none => exact .cons rfl rfl rfl rfl .nil
      | some e =>
          rw [Stmt.edit, Expr.edit_ofTry]
          exact .cons rfl rfl rfl rfl (.refl_of_isBelowStmt e.isBelowStmt_walk)
  | ifElse lead condition thenPart elsePart iht ihe =>
      have he : r.Follows (Stmt.walkElse elsePart) (Stmt.walkElse
          (Stmt.editElse (.ofTry (r.retarget qualified)) elsePart).value) := by
        cases elsePart with
        | none => exact .nil
        | some e =>
            simp only [Stmt.editElse, Else.edit, Stmt.walkElse, Else.walk,
              Edited.value_map, Editor.ofTry_elseBranch, Edited.andThen_keep]
            exact .cons rfl rfl rfl rfl (ihe e rfl)
      rw [Stmt.edit, Expr.editCondition_ofTry]
      refine .cons rfl rfl rfl rfl
        (.append (.append (.refl_of_isBelowStmt ?_) iht) he)
      exact Expr.isBelowStmt_walkCondition condition
  | whileLoop lead condition body ih =>
      rw [Stmt.edit, Expr.editCondition_ofTry]
      refine .cons rfl rfl rfl rfl (.append (.refl_of_isBelowStmt ?_) ih)
      exact Expr.isBelowStmt_walkCondition condition

-- =================================================== classes and files

theorem follows_editMethod (m : Method) :
    r.Follows m.walk (m.edit (.ofTry (r.retarget qualified))).value.walk := by
  have hp : r.Follows (m.parameters.elements.flatMap fun p => p.element.walk)
      (m.parameters.elements.flatMap fun p => p.element.walk) :=
    .flatMap fun p _ => .refl_of_isBelowStmt p.element.isBelowStmt_walk
  rw [Method.edit_value]
  refine .cons rfl rfl rfl rfl (.append (.append (.flatMap fun m _ => ?_) ?_)
    (.cons rfl rfl rfl rfl (.append (.append hp (.refl_of_isBelowStmt ?_)) ?_)))
  · exact .refl_of_isBelowStmt m.isBelowStmt_walk
  · cases m.returnType with
    | none => exact .nil
    | some t => exact .refl_of_isBelowStmt t.isBelowStmt_walk
  · exact TypeTree.isBelowStmt_walkList _
  · cases m.body with
    | none => exact .nil
    | some b => exact follows_editBlock fun p _ =>
          follows_editStmt hne p.element

omit hne in
/-- A class follows the one it was edited from if its members do. -/
theorem follows_editClass {c : JavaClass}
    (h : ∀ p ∈ c.body.statements,
      r.Follows p.element.walk
        (p.element.edit (.ofTry (r.retarget qualified))).value.walk) :
    r.Follows c.walk (c.edit (.ofTry (r.retarget qualified))).value.walk := by
  rw [ClassDecl.edit_value, ClassDecl.walk, ClassDecl.walk]
  refine .cons rfl rfl rfl rfl
    (.append (.append (.append (.append (.flatMap fun m _ => ?_)
    (.refl_of_isBelowStmt ?_)) (.refl_of_isBelowStmt ?_))
      (.refl_of_isBelowStmt ?_)) ?_)
  · exact .refl_of_isBelowStmt m.isBelowStmt_walk
  · exact c.name.isBelowStmt_walk
  · exact TypeTree.isBelowStmt_walkList _
  · exact TypeTree.isBelowStmt_walkList _
  · rw [Member.walkBlock, Member.walkBlock, Member.walkAll_eq,
      Member.walkAll_eq, List.flatMap_map]
    exact .cons rfl rfl rfl rfl (.flatMap h)

theorem follows_editMember (m : Member) :
    r.Follows m.walk (m.edit (.ofTry (r.retarget qualified))).value.walk := by
  induction m using Member.induction_on with
  | field d =>
      rw [Member.edit, Variables.edit_ofTry]
      exact .refl_of_isBelowStmt d.isBelowStmt_walk
  | method m => exact follows_editMethod hne m
  | nested c ih => exact follows_editClass ih

/-- The `try` statements of a file edited by the rule are those of the file,
retargeted. -/
theorem tries_edit (qualified : Bool) (cu : CompilationUnit) :
    List.Forall₂ r.Retargets cu.tries
      (cu.edit (r.editor qualified)).value.tries := by
  have h : r.Follows (cu.classes.flatMap ClassDecl.walk)
      (cu.classes.flatMap fun c =>
        (c.edit (.ofTry (r.retarget qualified))).value.walk) :=
    .flatMap fun c _ => follows_editClass fun p _ =>
      follows_editMember hne p.element
  rw [editor_eq, CompilationUnit.edit_value, CompilationUnit.tries_eq,
    CompilationUnit.tries_eq, List.flatMap_map, ← Node.tries_flatMap,
    ← Node.tries_flatMap]
  exact h.tries

-- ================================================================= the run

omit hne

/-- In a file without a call of the API that changed, no `try` calls it. -/
theorem callsApi_of_not_appliesTo {cu : CompilationUnit}
    (h : r.appliesTo cu = false) {t : Try Stmt} (ht : t ∈ cu.tries) :
    r.callsApi t = false := by
  rw [← usesApi_body, usesApi, List.any_eq_false]
  rw [appliesTo, usesApi, List.any_eq_false] at h
  intro p hp hb
  obtain ⟨n, hn, hm⟩ := List.any_eq_true.1 hb
  exact h p hp (List.any_eq_true.2 ⟨n, cu.holdsBodies t ht n hn, hm⟩)

/-- A `try` whose plan changes nothing is what has to come of it. -/
theorem Retargets.refl {t : Try Stmt} (h : r.plan t = .unchanged) :
    r.Retargets t t := by
  refine ⟨rfl, ?_⟩
  rw [h]
  exact (List.map_id t.caught).symm

/-- The `try` statements of a file after the run are those before it,
retargeted. -/
theorem tries_run (hne : r.legacy ≠ r.replacement.fqn) (cp : ClassPath)
    (cu : CompilationUnit) :
    List.Forall₂ r.Retargets cu.tries (r.run cp cu).after.tries := by
  unfold run
  cases h : r.appliesTo cu with
  | false =>
      refine List.forall₂_same.2 fun t ht => .refl ?_
      exact plan_of_not_callsApi (callsApi_of_not_appliesTo h ht)
  | true =>
      have he := tries_edit hne (r.mustQualify cp cu) cu
      simp only [Bool.not_true, Bool.false_eq_true, if_false]
      split
      · rwa [CompilationUnit.tries_applyDelta]
      · exact he

/-- What a `try` catches in the end, by what is true of it in the file before
the run. -/
structure CatchesAsPlanned (r : CatchRule) (t t' : Try Stmt) : Prop where
  /-- The types stay where the body does not call the API that changed, where
  no clause catches the legacy type, and where it can still be raised and a
  type related to the replacement is caught. -/
  unchanged : r.callsApi t = false ∨ r.catchesLegacy t = false ∨
    (r.raisesLegacy t = true ∧ r.catchesRelated t = true) → t'.caught = t.caught
  /-- Where nothing else raises the legacy type, the replacement comes in its
  place. -/
  substituted : r.callsApi t = true ∧ r.catchesLegacy t = true ∧
    r.raisesLegacy t = false → t'.caught = t.caught.map r.substituted
  /-- Where something else does, the replacement comes in front of it. -/
  augmented : r.callsApi t = true ∧ r.catchesLegacy t = true ∧
    r.raisesLegacy t = true ∧
    r.catchesRelated t = false → t'.caught = t.caught.map r.augmented

/-- After a run every `try` of a file, those inside others included, has as
many clauses as before, and the types they catch are those that its plan in the
file before the run has them catch. -/
theorem caught_run (r : CatchRule) (hne : r.legacy ≠ r.replacement.fqn)
    (cp : ClassPath) (cu : CompilationUnit) :
    List.Forall₂ r.CatchesAsPlanned cu.tries (r.run cp cu).after.tries := by
  refine (tries_run hne cp cu).imp fun t t' h =>
    ⟨fun hu => ?_, fun hs => ?_, fun ha => ?_⟩
  · have hp : r.plan t = .unchanged := by
      rcases hu with hd | hl | ⟨hh, hg⟩
      · exact plan_of_not_callsApi hd
      · exact plan_of_not_catchesLegacy hl
      · simp [plan, hh, hg]
    rw [h.caught, hp]
    exact List.map_id t.caught
  · obtain ⟨hd, hl, hh⟩ := hs
    have hp : r.plan t = .substitution := by simp [plan, hd, hl, hh]
    rw [h.caught, hp]
    rfl
  · obtain ⟨hd, hl, hh, hg⟩ := ha
    have hp : r.plan t = .augmentation := by simp [plan, hd, hl, hh, hg]
    rw [h.caught, hp]
    rfl

end CatchRule

-- =============================================================== a sample

/-- Three classes: one with a method, what that raised, and what it raises
now. -/
def sampleClassPath : ClassPath :=
  .ofList
    [⟨"p.Api", .ordinary, none, [], [⟨"call", [], none, []⟩], []⟩,
     ⟨"p.Old", .ordinary, none, [], [], []⟩,
     ⟨"p.New", .ordinary, none, [], [], []⟩]

/-- The rule for the three classes. -/
def sampleRule : CatchRule :=
  let options : RuleOptions :=
    ⟨"p.Old", "p.New", (MethodPattern.parse "p.Api *(..)" true).toOption.toList⟩
  (Recipe.ruleOf options sampleClassPath []).1

/-- A file with a `try` that throws again what the `try` in its body catches. -/
def sampleText : String :=
  "import p.*;class A\x7bApi a;void f()\x7btry\x7btry\x7ba.call();\x7dcatch(Old e)" ++
    "\x7bthrow e;\x7d\x7dcatch(Old o)\x7b\x7d\x7d\x7d"

/-- A text is cut as the characters that it is put together of. -/
theorem Token.scan_ofList_append (as bs : List Char) :
    scan (String.ofList as ++ String.ofList bs) = scanChars (as ++ bs) := by
  rw [scan, String.toList_append, String.toList_ofList, String.toList_ofList]

theorem Token.scan_ofList_append_append (as bs cs : List Char) :
    scan (String.ofList as ++ String.ofList bs ++ String.ofList cs) =
      scanChars (as ++ bs ++ cs) := by
  rw [← String.ofList_append, scan_ofList_append]

/-- The tree of a text over the three classes. -/
def sampleUnit (text : String) : CompilationUnit :=
  match parseUnit text sampleClassPath none with
  | .ok cu => cu
  | .error _ => ⟨"", none, [], [], "", none⟩

theorem CatchRule.caught_run_sample :
    sampleRule.legacy ≠ sampleRule.replacement.fqn ∧
      (sampleUnit sampleText).tries.map sampleRule.plan =
        [.augmentation, .substitution] ∧
      List.Forall₂ sampleRule.CatchesAsPlanned (sampleUnit sampleText).tries
        (sampleRule.run sampleClassPath (sampleUnit sampleText)).after.tries :=
  ⟨Recipe.ne_ruleOf (by decide) sampleClassPath, by decide +kernel,
    CatchRule.caught_run sampleRule
      (Recipe.ne_ruleOf (by decide) sampleClassPath) _ _⟩

end JavaRefit
