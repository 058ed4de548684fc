/-
The sites that are left when a declaration is changed.

Names and written types hold no sites, and a renaming changes no
signature: so whatever the rule does to the declaration of a clause, the
sites in it, in modifiers and initializers, keep their kinds. A `try`
around the clause is then judged as if nothing had happened in it.

Chain: after `Clause`; the proofs about whole files read it.
-/
import Mathlib.Data.List.Forall2
import JavaRefit.Proofs.CatchRule.Clause

namespace JavaRefit

namespace CatchRule

variable (r : CatchRule)

-- ================================================================== lists

@[simp] theorem sites_nil : r.sites [] = [] := rfl

theorem sites_cons (n : Node) (ns : List Node) :
    r.sites (n :: ns) = (if n.isSite then [r.classify n] else []) ++
      r.sites ns := by
  cases h : n.isSite <;> simp [sites, h]

@[simp] theorem sites_append (ns ms : List Node) :
    r.sites (ns ++ ms) = r.sites ns ++ r.sites ms := by
  simp [sites]

theorem sites_flatMap {α : Type} (l : List α) (f : α → List Node) :
    r.sites (l.flatMap f) = l.flatMap fun a => r.sites (f a) := by
  simp [sites, List.filter_flatMap, List.map_flatMap]

theorem sites_eq_nil {ns : List Node} (h : ∀ n ∈ ns, n.isSite = false) :
    r.sites ns = [] := by
  simp only [sites, List.map_eq_nil_iff, List.filter_eq_nil_iff]
  simpa using h

-- ======================================================== names and types

theorem sites_of_isName {ns : List Node} (h : ∀ n ∈ ns, n.isName = true) :
    r.sites ns = [] := by
  refine r.sites_eq_nil fun n hn => ?_
  have h := h n hn
  cases n with
  | ident i => rfl
  | name n => cases n <;> rfl
  | typeTree t =>
      cases t with
      | named n => cases n <;> rfl
      | _ => rfl
  | _ => cases h

@[simp] theorem sites_name (n : Name) : r.sites n.walk = [] :=
  r.sites_of_isName n.isName_walk

@[simp] theorem sites_typeTree (t : TypeTree) : r.sites t.walk = [] :=
  r.sites_of_isName t.isName_walk

-- ============================================================ expressions

/-- Dotted names as expressions hold no sites. -/
theorem sites_ofName (n : Name) : r.sites (Expr.ofName n).walk = [] := by
  induction n with
  | simple i type => rfl
  | qualified lead outer last type ih =>
      simp [Expr.ofName, Expr.walk, sites_cons, ih, Node.isSite, Node.kind,
        Node.exprKind]

theorem sites_of_dotted {e : Expr} {s : String} (h : e.dotted? = some s) :
    r.sites e.walk = [] := by
  induction e using Expr.induction_on generalizing s with
  | ident i type => rfl
  | access lead target name type ih =>
      obtain ⟨outer, ho, -⟩ := Option.map_eq_some_iff.1 h
      simp [Expr.walk, sites_cons, ih ho, Node.isSite, Node.kind, Node.exprKind]
  | _ => cases h

/-- What a call or construction can raise depends on its signature only. -/
theorem classify_expr {e e' : Expr} (h : e'.method? = e.method?) :
    r.classify (.expr e') = r.classify (.expr e) := by
  simp [classify, isDesignated, MethodPattern.matchesNode, Node.method?, h]

theorem isSite_expr {e e' : Expr} (h : Node.exprKind e' = Node.exprKind e) :
    (Node.expr e').isSite = (Node.expr e).isSite := by
  simp [Node.isSite, Node.kind, h]

theorem sites_consExpr {e e' : Expr} {ns ns' : List Node}
    (hk : Node.exprKind e' = Node.exprKind e) (hm : e'.method? = e.method?)
    (h : r.sites ns' = r.sites ns) :
    r.sites (.expr e' :: ns') = r.sites (.expr e :: ns) := by
  rw [sites_cons, sites_cons, isSite_expr hk, r.classify_expr hm, h]

variable {ω : Type} (R : Renaming)

/-- A renamed node holds the sites of the node. -/
theorem sites_renamed (e : Expr) :
    r.sites (R.expr e : Edited ω Expr).value.walk = r.sites e.walk := by
  unfold Renaming.expr
  split
  · rfl
  · split
    · cases e with
      | ident i type => exact r.sites_ofName _
      | access lead target name type =>
          simp only [Edited.value_replace]
          split
          · next h => rw [r.sites_ofName, r.sites_of_dotted h]
          · exact r.sites_consExpr rfl rfl rfl
      | _ => exact r.sites_consExpr rfl rfl rfl
    · rfl

/-- Lists of expressions hold the sites they held if each expression does. -/
theorem sites_editAll {ps : List (RightPadded Expr)}
    (h : ∀ p ∈ ps, r.sites (p.element.edit (R.editor : Editor ω)).value.walk =
      r.sites p.element.walk) :
    r.sites (Expr.walkAll (Expr.editAll (R.editor : Editor ω) ps).value) =
      r.sites (Expr.walkAll ps) := by
  rw [Expr.editAll_value, Expr.walkAll_eq, Expr.walkAll_eq, sites_flatMap,
    sites_flatMap, List.flatMap_map]
  exact List.flatMap_congr h

/-- A renamed expression holds the sites of the expression. -/
theorem sites_editExpr (e : Expr) :
    r.sites (e.edit (R.editor : Editor ω)).value.walk = r.sites e.walk := by
  induction e using Expr.induction_on with
  | ident i type => exact r.sites_renamed R (.ident i type)
  | literal lead text type => exact r.sites_renamed R (.literal lead text type)
  | access lead target name type ih =>
      refine (r.sites_renamed R _).trans (r.sites_consExpr rfl rfl ?_)
      rw [sites_append, sites_append, ih]
      rfl
  | call lead select name args method ihs iha =>
      have hs :
          r.sites (Expr.walkSelect
            (Expr.editSelect (R.editor : Editor ω) select).value) =
          r.sites (Expr.walkSelect select) := by
        cases select with
        | none => rfl
        | some p => exact ihs p rfl
      refine (r.sites_renamed R _).trans (r.sites_consExpr rfl rfl ?_)
      rw [sites_append, sites_append, sites_cons, sites_cons]
      exact congrArg₂ _ hs (congrArg₂ _ rfl (r.sites_editAll R iha))
  | new lead base args constructor type ih =>
      refine (r.sites_renamed R _).trans (r.sites_consExpr rfl rfl ?_)
      simp [r.sites_editAll R ih]
  | assign lead target value type iht ihv =>
      exact (r.sites_renamed R _).trans
        (r.sites_consExpr rfl rfl (by simp [iht, ihv]))
  | binary lead left operator right type ihl ihr =>
      exact (r.sites_renamed R _).trans
        (r.sites_consExpr rfl rfl (by simp [ihl, ihr]))
  | unary lead operator operand type ih =>
      exact (r.sites_renamed R _).trans
        (r.sites_consExpr rfl rfl (by simp [ih]))
  | parens lead inner type ih =>
      exact (r.sites_renamed R _).trans
        (r.sites_consExpr rfl rfl (by simp [ih]))

-- =========================================================== declarations

theorem sites_editModifier (m : Modifier) :
    r.sites (m.edit (R.editor : Editor ω)).value.walk = r.sites m.walk := by
  have hm (m : Modifier) : (Node.modifier m).isSite = false := by
    cases m <;> rfl
  cases m with
  | keyword lead word => rfl
  | annotated lead name args =>
      cases args with
      | none => simp [Modifier.edit, Modifier.walk, sites_cons,
            Renaming.editor, hm]
      | some c =>
          have ha := r.sites_editAll (ω := ω) R fun p (_ : p ∈ c.elements) =>
            r.sites_editExpr R p.element
          simpa [Modifier.edit, Modifier.walk, sites_cons, Renaming.editor,
            hm] using ha

/-- The sites of a declared variable are those of its initializer. -/
theorem sites_variable (v : Variable) :
    r.sites v.walk = v.initializer.toList.flatMap fun i =>
      r.sites i.element.walk := by
  obtain ⟨lead, name, initializer, type⟩ := v
  cases initializer <;> simp [Variable.walk, sites_cons, Node.isSite, Node.kind]

theorem sites_editVariable (v : Variable) :
    r.sites (v.edit (R.editor : Editor ω)).value.walk = r.sites v.walk := by
  have hd (v : Variable) :
      (R.declarator v : Edited ω Variable).value.initializer =
        v.initializer := by
    unfold Renaming.declarator
    split <;> rfl
  obtain ⟨lead, name, initializer, type⟩ := v
  rw [sites_variable, sites_variable]
  refine (congrArg (fun o => Option.toList o |>.flatMap _) (hd _)).trans ?_
  cases initializer with
  | none => rfl
  | some i => simpa [LeftPadded.editExpr]
        using r.sites_editExpr (ω := ω) R i.element

/-- The sites of a declaration are those of its modifiers and of its
variables. -/
theorem sites_variables (d : Variables) :
    r.sites d.walk = (d.modifiers.flatMap fun m => r.sites m.walk) ++
      d.declarators.flatMap fun p => r.sites p.element.walk := by
  simp [Variables.walk, sites_cons, sites_flatMap, Node.isSite, Node.kind]

/-- A renamed declaration holds the sites of the declaration. -/
theorem sites_editVariables (d : Variables) :
    r.sites (d.edit (R.editor : Editor ω)).value.walk = r.sites d.walk := by
  have hd : (d.edit (R.editor : Editor ω)).value =
      ⟨d.lead, (Modifier.editAll R.editor d.modifiers : Edited ω _).value,
        (d.typeTree.edit (R.editor : Editor ω)).value,
        (Variable.editAll R.editor d.declarators : Edited ω _).value⟩ := rfl
  rw [hd, sites_variables, sites_variables, Modifier.editAll_value,
    Variable.editAll_value, List.flatMap_map, List.flatMap_map]
  exact congrArg₂ _ (List.flatMap_congr fun m _ => r.sites_editModifier R m)
    (List.flatMap_congr fun p _ => r.sites_editVariable R p.element)

/-- A substitution keeps the sites of a declaration. -/
theorem sites_substituteIn (qualified : Bool) (d : Variables) :
    r.sites (r.substituteIn qualified d : Edited ω Variables).value.walk =
      r.sites d.walk := by
  unfold substituteIn
  split
  · split
    · rw [Edited.value_replace, dropFrom]
      split
      · simp [sites_variables, sites_variable, List.flatMap_map]
      · simp [sites_variables]
    · exact r.sites_editVariables _ d
  · exact r.sites_editVariables _ d

/-- An augmentation keeps the sites of a declaration. -/
theorem sites_augmentIn (qualified : Bool) (d : Variables) :
    r.sites (r.augmentIn qualified d).walk = r.sites d.walk := by
  unfold augmentIn
  split <;> simp [sites_variables]

end CatchRule

end JavaRefit
