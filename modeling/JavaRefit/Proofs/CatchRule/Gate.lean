/-
The look at a whole file that a run begins with.

A run passes a file by in which no pattern takes a call. Nothing else
would come of it if the run went through the file (`run?_eq_runUngated?`):
a `try` in such a file has no site of the API that changed in its body,
whatever has become of the statements in there by the time that the rule
comes to it.

For the search by patterns and the search for sites agree on every node,
and what the rule does to a `try` leaves the sites in it: to begin with
the clauses alone (`sites_retarget`), and then, from the leaves up, in
every node above (`sites_edited`).

Chain: after `Rerun`, the notes of a file and single nodes in an edit.
-/
import JavaRefit.Proofs.CatchRule.Rerun
import JavaRefit.Proofs.Import.Again
import JavaRefit.Proofs.Tree.Notes
import JavaRefit.Proofs.Tree.Rebuilt

namespace JavaRefit

namespace CatchRule

variable (r : CatchRule)

-- ============================================================== two searches

/-- On the nodes of a walk both searches find something or none does: the one
for calls that a pattern takes, and the one for sites of the API that
changed. -/
def SearchesAgree (nodes : List Node) : Prop :=
  (∃ p ∈ r.patterns, p.isUsedIn nodes = true) ↔
    ∃ n ∈ nodes.filter Node.isSite, r.classify n = .designatedApi

theorem usesApi_iff (nodes : List Node) :
    r.usesApi nodes = true ↔ ∃ p ∈ r.patterns, p.isUsedIn nodes = true :=
  List.any_eq_true

theorem searchesAgree (nodes : List Node) : r.SearchesAgree nodes := by
  rw [SearchesAgree, ← usesApi_iff, usesApi_eq, List.contains_iff_mem, sites,
    List.mem_map]

-- ============================================================= one statement

theorem sites_newClause (qualified : Bool) (plan : Retargeting)
    (c : Catch Stmt) :
    r.sites (r.newClause qualified plan c).walk = r.sites c.walk := by
  have hbody : (r.newClause qualified plan c).body = c.body := rfl
  have hdeclared := r.sites_newDeclaration qualified plan c.declaration
  rw [Catch.walk, Catch.walk, hbody, sites_cons, sites_cons, sites_append,
    sites_append, Variables.walkParameter, Variables.walkParameter,
    sites_cons, sites_cons]
  exact congrArg (· ++ _) hdeclared

/-- What the rule makes of a `try` has the sites of the `try`. -/
theorem sites_retarget (qualified : Bool) (t : Try Stmt) :
    r.sites (r.retarget qualified t).value.walk = r.sites t.walk := by
  obtain ⟨hvalue, -⟩ := r.retarget_isRetargeted qualified t
  have hclauses :
      r.sites
        (Catch.walkAll (t.catches.map (r.newClause qualified (r.plan t)))) =
      r.sites (Catch.walkAll t.catches) := by
    rw [Catch.walkAll_eq, Catch.walkAll_eq, sites_flatMap, sites_flatMap,
      List.flatMap_map]
    exact List.flatMap_congr fun c _ => r.sites_newClause qualified (r.plan t) c
  rw [hvalue, Try.walk, Try.walk, sites_cons, sites_cons, sites_append,
    sites_append, sites_append, sites_append, hclauses]
  rfl

-- ================================================================ all nodes

variable {r} {ω : Type} {f : Try Stmt → Edited ω (Try Stmt)}

/-- A node is the site it was when what is below it has been edited. -/
theorem sites_rebuilt {n : Node} (hn : n.IsProper) :
    r.sites [n.rebuilt (.ofTry f)] = r.sites [n] := by
  rw [sites_cons, sites_cons]
  refine congrArg (· ++ _) ?_
  cases hn with
  | name n => cases n <;> rfl
  | @typeTree t h =>
      cases t with
      | named n => exact absurd rfl (h n)
      | _ => rfl
  | expr e => cases e <;> rfl
  | modifier m =>
      cases m with
      | keyword lead word => rfl
      | annotated lead name args => cases args <;> rfl
  | @stmt s hb hd he =>
      cases s with
      | block b => exact absurd rfl (hb b)
      | declaration d => exact absurd rfl (hd d)
      | expr e => exact absurd rfl (he e)
      | throwing lead exception =>
          rw [Node.rebuilt, Stmt.rebuilt, Expr.edit_ofTry]
          rfl
      | returning lead value => cases value <;> rfl
      | _ => rfl
  | _ => rfl

/-- What is done to `try` statements that leaves the sites in them leaves the
sites in a node. -/
theorem sites_applied (hf : ∀ t, r.sites (f t).value.walk = r.sites t.walk)
    {n : Node} (hn : n.IsProper) :
    r.sites (n.applied (.ofTry f)).walk = r.sites n.walk := by
  cases hn with
  | @stmt s hb hd he =>
      cases s with
      | tryCatch t => exact hf t
      | block b => exact absurd rfl (hb b)
      | declaration d => exact absurd rfl (hd d)
      | expr e => exact absurd rfl (he e)
      | _ => rfl
  | @typeTree t h =>
      cases t with
      | named n => exact absurd rfl (h n)
      | _ => rfl
  | _ => rfl

/-- So it leaves them when it is done from the leaves up, in the node and below
it. -/
theorem sites_edited (hf : ∀ t, r.sites (f t).value.walk = r.sites t.walk)
    {n : Node} (hn : n.IsProper) :
    r.sites (n.edited (.ofTry f)).walk = r.sites n.walk := by
  refine Node.induction_on (P := fun n =>
    r.sites (n.edited (.ofTry f)).walk = r.sites n.walk) ?_ hn
  intro n hn ih
  have hchildren :
      r.sites ((n.children.map (Node.edited (.ofTry f))).flatMap Node.walk) =
      r.sites (n.children.flatMap Node.walk) := by
    rw [List.flatMap_map, sites_flatMap, sites_flatMap]
    exact List.flatMap_congr ih
  calc r.sites (n.edited (.ofTry f)).walk
      = r.sites (n.rebuilt (.ofTry f)).walk := by
        rw [Node.edited_eq hn, sites_applied hf (Node.isProper_rebuilt hn)]
    _ = r.sites [n.rebuilt (.ofTry f)] ++
          r.sites ((n.children.map (Node.edited (.ofTry f))).flatMap
            Node.walk) := by
        rw [Node.walk_eq (Node.isProper_rebuilt hn), Node.children_rebuilt hn,
          ← List.singleton_append, sites_append]
    _ = r.sites n.walk := by
        rw [sites_rebuilt hn, hchildren, ← sites_append, List.singleton_append,
          ← Node.walk_eq hn]

variable (r)

/-- The rule, at some of the `try` statements: where it is chosen, the
replacement is written in full or not, and the others stay as they are. -/
def editorAt (chosen : Try Stmt → Option Bool) : Editor RuleNote :=
  .ofTry fun t => match chosen t with
    | none => .keep t
    | some qualified => r.retarget qualified t

/-- Wherever the rule has been at work, the sites are those that were there. -/
theorem sites_editorAt (chosen : Try Stmt → Option Bool) {n : Node}
    (hn : n.IsProper) :
    r.sites (n.edited (r.editorAt chosen)).walk = r.sites n.walk := by
  refine sites_edited (fun t => ?_) hn
  cases chosen t with
  | none => rfl
  | some qualified => exact r.sites_retarget qualified t

-- ============================================================ without the look

/-- The file after the rule has gone through it, whatever is in it, unless its
imports cannot be brought in line. -/
def runUngated? (cp : ClassPath) (cu : CompilationUnit) :
    Except CompilationUnit.DeltaError RecipeResult := do
  let edited := cu.edit (r.editor (r.mustQualify cp cu))
  let delta := RuleNote.delta edited.notes
  let imported : Edited Empty CompilationUnit ←
    if edited.isNew then edited.value.applyDelta? delta
      else .ok (.keep edited.value)
  return ⟨imported.value, edited.isNew, delta, RuleNote.remarks edited.notes⟩

variable {r}

/-- The rule has nothing to say about a `try` whose body does not call the API
that changed. -/
theorem retarget_eq_keep {qualified : Bool} {t : Try Stmt}
    (h : r.callsApi t = false) : r.retarget qualified t = .keep t := by
  unfold retarget
  dsimp only
  rw [usesApi_body, h, Bool.not_false, Bool.or_true, if_pos rfl]

/-- Of a `try` whose body does not call the API nothing is noted, whatever has
been done in it. -/
theorem notes_eq_nil {qualified : Bool} {t : Try Stmt}
    (h : r.callsApi t = false) : t.notes (r.retarget qualified) = [] := by
  have hsites :
      r.sites
        (Stmt.walkBlock (Stmt.editBlock (r.editor qualified) t.body).value) =
      r.sites (Stmt.walkBlock t.body) :=
    r.sites_editorAt (fun _ => some qualified) (.block t.body)
  have hedited : r.callsApi
      (Try.editParts (.ofTry (r.retarget qualified)) t).value = false := by
    rw [Try.editParts_value, callsApi]
    rw [callsApi, ← hsites] at h
    exact h
  rw [Try.notes, retarget_eq_keep hedited]
  rfl

/-- In a file in which no pattern takes a call nothing is new and nothing is
noted. -/
theorem edit_of_not_appliesTo {cu : CompilationUnit}
    (h : r.appliesTo cu = false) (qualified : Bool) :
    cu.edit (r.editor qualified) = .keep cu := by
  have hcalls : ∀ t ∈ cu.tries, r.callsApi t = false :=
    fun t => callsApi_of_not_appliesTo h
  have hnew : (cu.edit (r.editor qualified)).isNew = false := by
    refine CompilationUnit.isNew_edit_ofTry (r.honest_retarget qualified) cu
      fun t ht => ?_
    rw [retarget_eq_keep (hcalls t ht)]
    rfl
  have hvalue : (cu.edit (r.editor qualified)).value = cu :=
    CompilationUnit.honest_edit
      (Editor.honest_ofTry (r.honest_retarget qualified)) cu hnew
  have hnotes : (cu.edit (r.editor qualified)).notes = [] := by
    refine List.eq_nil_iff_forall_not_mem.2 fun n hn => ?_
    obtain ⟨t, ht, hn⟩ := cu.mem_notes_iff.1 hn
    rw [notes_eq_nil (hcalls t ht)] at hn
    cases hn
  generalize cu.edit (r.editor qualified) = e at hnew hvalue hnotes
  obtain ⟨value, isNew, notes⟩ := e
  obtain rfl : value = cu := hvalue
  obtain rfl : isNew = false := hnew
  obtain rfl : notes = [] := hnotes
  rfl

theorem runUngated?_of_not_appliesTo {cu : CompilationUnit}
    (h : r.appliesTo cu = false) (cp : ClassPath) :
    r.runUngated? cp cu = .ok (.unchanged cu) := by
  rw [runUngated?, edit_of_not_appliesTo h]
  rfl

/-- The look at the file changes nothing about a run. -/
theorem run?_eq_runUngated? (r : CatchRule) (cp : ClassPath)
    (cu : CompilationUnit) : r.run? cp cu = r.runUngated? cp cu := by
  cases happ : r.appliesTo cu with
  | false =>
      rw [runUngated?_of_not_appliesTo happ, run?, run, happ]
      rfl
  | true =>
      rw [run?, run, runUngated?, happ]
      dsimp only
      generalize cu.edit (r.editor (r.mustQualify cp cu)) = e
      cases hnew : e.isNew with
      | false => rfl
      | true =>
          simp only [Bool.not_true, Bool.false_eq_true, if_true, if_false]
          cases happly : (e.value.applyDelta? (RuleNote.delta e.notes) :
            Except CompilationUnit.DeltaError (Edited Empty CompilationUnit))
              with
          | error error => rfl
          | ok imported =>
              rw [CompilationUnit.applyDelta?_eq_ok happly]
              rfl

/-- The look at a file is a shortcut: without it the same comes of every run,
and of one that passes a file by the file itself, with no imports asked for and
no remarks. On every node of a file the two searches agree, and so they do,
with the answer that they gave, wherever the rule has been at work on `try`
statements in there. -/
theorem appliesTo_shortcut (r : CatchRule) (cp : ClassPath)
    (cu : CompilationUnit) : r.run? cp cu = r.runUngated? cp cu ∧
      (r.appliesTo cu = false → r.runUngated? cp cu = .ok (.unchanged cu)) ∧
      ∀ n ∈ cu.walk, r.SearchesAgree n.walk ∧
        ∀ chosen, r.SearchesAgree (n.edited (r.editorAt chosen)).walk ∧
          r.usesApi (n.edited (r.editorAt chosen)).walk = r.usesApi n.walk := by
  refine ⟨r.run?_eq_runUngated? cp cu, (runUngated?_of_not_appliesTo · cp),
    fun n hn => ?_⟩
  refine ⟨r.searchesAgree _, fun chosen => ⟨r.searchesAgree _, ?_⟩⟩
  have hproper : n.IsProper := Node.isProper_of_mem_walk (.unit cu) hn
  rw [usesApi_eq, usesApi_eq, r.sites_editorAt chosen hproper]

/-- A file that catches the legacy type and calls nothing of the API. -/
def samplePassed : String :=
  "import p.*;class A\x7bvoid f()\x7btry\x7bf();\x7dcatch(Old e)\x7b\x7d\x7d\x7d"

/-- It is passed by, and nothing would come of its `try` otherwise. -/
theorem appliesTo_shortcut_sample :
    (sampleUnit samplePassed).tries.map sampleRule.catchesLegacy = [true] ∧
      sampleRule.appliesTo (sampleUnit samplePassed) = false ∧
      sampleRule.runUngated? sampleClassPath (sampleUnit samplePassed) =
        .ok (.unchanged (sampleUnit samplePassed)) := by
  have hfacts : (sampleUnit samplePassed).tries.map
      sampleRule.catchesLegacy = [true] ∧
      sampleRule.appliesTo (sampleUnit samplePassed) = false := by
    decide +kernel
  obtain ⟨htries, hpassed⟩ := hfacts
  obtain ⟨-, hshortcut, -⟩ :=
    appliesTo_shortcut sampleRule sampleClassPath (sampleUnit samplePassed)
  exact ⟨htries, hpassed, hshortcut hpassed⟩

end CatchRule

end JavaRefit
