/-
What an editor of `try` statements does to a file.

It notes something only at these, and of each it notes what it notes of
the statement with its parts edited (`CompilationUnit.mem_notes_iff`).

An honest one leaves a file alone if it leaves alone each `try` of the
file: when it comes to one, the statements inside it have been given back
as they were (`CompilationUnit.isNew_edit_ofTry`).

Chain: after `Rewrite` and `Walk`; read by the proofs about the runs of the
catch rule, which is such an editor.
-/
import JavaRefit.Proofs.Tree.Rewrite
import JavaRefit.Proofs.Tree.Walk

namespace JavaRefit

variable {ω : Type} (f : Try Stmt → Edited ω (Try Stmt))

/-- What is noted at a `try` once its parts are edited. -/
def Try.notes (t : Try Stmt) : List ω :=
  (f (Try.editParts (.ofTry f) t).value).notes

variable {f}

/-- The trys among nodes are those that a node is. -/
theorem Node.mem_tries {t : Try Stmt} {ns : List Node} :
    t ∈ tries ns ↔ ∃ n ∈ ns, n.asTry = some t :=
  List.mem_filterMap

-- ================================================================= notes

/-- Nothing is noted on a node that is no `try`. -/
theorem Node.notes_onNode_ofTry (n : Node) :
    ((Editor.ofTry f).onNode (n.rebuilt (.ofTry f))).notes =
      n.asTry.toList.flatMap (Try.notes f) := by
  cases n with
  | stmt s =>
      cases s with
      | tryCatch t => exact (List.append_nil _).symm
      | returning lead value => cases value <;> rfl
      | _ => rfl
  | _ => rfl

/-- What is noted in a file is noted at some `try` of it. -/
theorem CompilationUnit.mem_notes_iff {x : ω} (cu : CompilationUnit) :
    x ∈ (cu.edit (.ofTry f)).notes ↔ ∃ t ∈ cu.tries, x ∈ t.notes f := by
  refine (Node.mem_notes_edit_iff (n := .unit cu) (.unit cu)).trans ?_
  simp only [Node.notes_onNode_ofTry, tries, Node.mem_tries, List.mem_flatMap,
    Option.mem_toList]
  constructor
  · intro h
    obtain ⟨n, hn, t, ht, hx⟩ := h
    exact ⟨t, ⟨n, hn, ht⟩, hx⟩
  · intro h
    obtain ⟨t, ⟨n, hn, ht⟩, hx⟩ := h
    exact ⟨n, hn, t, ht, hx⟩

-- ============================================================= new files

/-- A tree is not new if no `try` in it is. -/
theorem Node.isNew_edit_ofTry (hf : ∀ t, Edited.Honest t (f t)) {n : Node}
    (hn : n.IsProper) (h : ∀ t ∈ tries n.walk, (f t).isNew = false) :
    (n.edit (.ofTry f)).isNew = false := by
  refine induction_on (P := fun n => (∀ t ∈ tries n.walk, (f t).isNew = false) →
    (n.edit (.ofTry f)).isNew = false) (fun n hn ih h => ?_) hn h
  have hchildren : ∀ m ∈ n.children, (m.edit (.ofTry f)).isNew = false := by
    refine fun m hm => ih m hm fun t ht => h t ?_
    obtain ⟨k, hk, ht⟩ := mem_tries.1 ht
    rw [walk_eq hn]
    exact mem_tries.2 ⟨k,
      List.mem_cons_of_mem _ (List.mem_flatMap.2 ⟨m, hm, hk⟩), ht⟩
  -- nothing below is new, so that the editor is called on the node itself
  rw [isNew_edit hn, rebuilt_eq_self (Editor.honest_ofTry hf) hn hchildren,
    Bool.or_eq_false_iff]
  refine ⟨List.any_eq_false.2 fun m hm => ?_, ?_⟩
  · rw [hchildren m hm]
    exact Bool.false_ne_true
  · cases n with
    | stmt s =>
        cases s with
        | tryCatch t =>
            have hself : .stmt (.tryCatch t) ∈ (stmt (.tryCatch t)).walk := by
              rw [walk_eq hn]
              exact List.mem_cons_self
            exact h t (mem_tries.2 ⟨_, hself, rfl⟩)
        | _ => rfl
    | _ => rfl

/-- A file is not new if no `try` in it is. -/
theorem CompilationUnit.isNew_edit_ofTry (hf : ∀ t, Edited.Honest t (f t))
    (cu : CompilationUnit) (h : ∀ t ∈ cu.tries, (f t).isNew = false) :
    (cu.edit (.ofTry f)).isNew = false :=
  Node.isNew_edit_ofTry hf (.unit cu) h

end JavaRefit
