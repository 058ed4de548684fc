/-
Renaming at a place.

Where a class is renamed in a tree, every node is renamed. A word or a
chain that spells the class may give way to another chain; any other node
gets no more than another type, and has the renamed children of the node
it was (`Node.children_renamed`). So what stands at a place stands there
renamed, as long as the place is not inside a chain that gave way.

Chain: after `Tree/Rebuilt`; what is said of references and of the types in
a renamed tree goes from place to place.
-/
import JavaRefit.Proofs.CatchRule.Clause
import JavaRefit.Proofs.Tree.ClassName
import JavaRefit.Proofs.Tree.Rebuilt
import JavaRefit.Proofs.Tree.Untyped
import JavaRefit.Rename

namespace JavaRefit

/-- A renaming of one class to another. -/
def sampleRenaming : Renaming := ⟨"p.Old", .bare "p.New", false⟩

variable {ω : Type} (r : Renaming)

-- =========================================================== one node

variable (ω) in
/-- The node with a class renamed in it. -/
def Node.renamed (n : Node) : Node :=
  n.edited (r.editor : Editor ω)

variable (ω) in
/-- What the node is spelled with may give way to another chain. -/
def Renaming.Respells : Node → Prop
  | .name _ => True
  | .expr (.ident _ _) => True
  | .expr (.access lead target name type) =>
    r.concerns type = true ∧
      (Expr.access lead (target.edit (r.editor : Editor ω)).value name
        type).dotted? = some r.old
  | _ => False

/-- Of a declared variable only the type is renamed. -/
theorem Renaming.value_declarator (v : Variable) :
    (r.declarator v : Edited ω Variable).value =
      { v with type := r.typeOf v.type } := by
  unfold Renaming.declarator Renaming.typeOf
  split <;> rfl

/-- Of a declared class only the type is renamed. -/
theorem Renaming.value_classDecl (c : JavaClass) :
    (r.classDecl c : Edited ω JavaClass).value =
      { c with type := r.typeOf c.type } := by
  unfold Renaming.classDecl Renaming.typeOf
  split <;> rfl

/-- A renamed variable has the renamed type, and its name and value are
renamed. -/
theorem Variable.renamed_eq (v : Variable) :
    (v.edit (r.editor : Editor ω)).value =
      ⟨v.lead, (v.name.edit (r.editor : Editor ω)).value,
        (LeftPadded.editExpr (r.editor : Editor ω) v.initializer).value,
        r.typeOf v.type⟩ :=
  r.value_declarator _

/-- A renamed class has the renamed type, and its parts are renamed. -/
theorem ClassDecl.renamed_eq (c : JavaClass) :
    (c.edit (r.editor : Editor ω)).value =
      ⟨c.lead, (Modifier.editAll (r.editor : Editor ω) c.modifiers).value,
        c.kindLead, c.kind, (c.name.edit (r.editor : Editor ω)).value,
        (TypeTree.editList (r.editor : Editor ω) c.extends?).value,
        (TypeTree.editList (r.editor : Editor ω) c.implements?).value,
        (Member.editBlock (r.editor : Editor ω) c.body).value,
        r.typeOf c.type⟩ := by
  rw [ClassDecl.edit]
  exact r.value_classDecl _

/-- A name without types is what it was when a class has been renamed. -/
theorem Name.edit_of_untyped {n : Name} (h : n.untyped = n) :
    (n.edit (r.editor : Editor ω)).value = n := by
  induction n with
  | simple i type =>
      obtain ⟨-, rfl⟩ := Name.simple.inj h
      rfl
  | qualified lead outer last type ih =>
      rw [Name.untyped_qualified] at h
      obtain ⟨-, houter, -, rfl⟩ := Name.qualified.inj h
      show (r.name (.qualified lead (outer.edit r.editor).value last none) :
        Edited ω Name).value = _
      rw [ih houter]
      rfl

-- ============================================================== children

namespace Node

variable {r}

theorem typeTreeChildren_typeTree {t : TypeTree} (h : ∀ n, t ≠ .named n) :
    typeTreeChildren (r.typeTree t : Edited ω TypeTree).value =
      typeTreeChildren t := by
  unfold Renaming.typeTree
  split
  · cases t <;> rfl
  · rfl

/-- What is done to an expression that does not give way leaves its parts. -/
theorem exprChildren_expr {e : Expr} (h : ∀ i type, e ≠ .ident i type)
    (haccess : r.concerns e.type = true → e.dotted? ≠ some r.old) :
    exprChildren (r.expr e : Edited ω Expr).value = exprChildren e := by
  unfold Renaming.expr
  split
  · rfl
  · split
    · next hconcerns =>
      rw [Edited.value_replace]
      split
      · exact absurd rfl (h _ _)
      · rw [if_neg (haccess hconcerns)]
        rfl
      all_goals rfl
    · rfl

/-- The children of a renamed node that did not give way are its renamed
children. -/
theorem children_renamed {n : Node} (hn : n.IsProper) (h : ¬ r.Respells ω n) :
    (n.renamed ω r).children = n.children.map (renamed ω r) := by
  rw [renamed, edited_eq hn]
  refine Eq.trans ?_ (children_rebuilt hn)
  have hrebuilt := isProper_rebuilt (r := (r.editor : Editor ω)) hn
  cases hn with
  | name n => exact absurd trivial h
  | @typeTree t _ =>
      cases hrebuilt with | typeTree ht =>
      exact (TypeTree.children_node _).trans (typeTreeChildren_typeTree ht)
  | expr e =>
      refine exprChildren_expr (e := e.rebuilt _) ?_ ?_
      · cases e with
        | ident i type => exact absurd trivial h
        | _ => rintro _ _ ⟨⟩
      · cases e with
        | ident i type => exact absurd trivial h
        | access lead target name type =>
            exact fun hconcerns hold => h ⟨hconcerns, hold⟩
        | _ => rintro _ ⟨⟩
  | declarator v =>
      show (declarator (r.declarator _).value).children = _
      rw [r.value_declarator]
      rfl
  | stmt _ _ _ => exact Stmt.children_node _
  | classDecl c =>
      show (classDecl (r.classDecl _).value).children = _
      rw [r.value_classDecl]
      rfl
  | _ => rfl

/-- A proper node stays one. -/
theorem isProper_renamed {n : Node} (hn : n.IsProper) :
    (n.renamed ω r).IsProper :=
  isProper_edited hn

end Node

-- ============================================================== spellings

theorem Expr.dotted?_ofName (n : Name) :
    (ofName n).dotted? = some n.dotted := by
  induction n with
  | simple i type => rfl
  | qualified lead outer last type ih => rw [ofName, dotted?, ih]; rfl

/-- An expression is a chain of words before and after. -/
theorem Expr.isSome_dotted?_expr (e : Expr) :
    (r.expr e : Edited ω Expr).value.dotted?.isSome = e.dotted?.isSome := by
  unfold Renaming.expr
  split
  · rfl
  · split
    · rw [Edited.value_replace]
      split
      · rw [dotted?_ofName]
        rfl
      · split
        · next h =>
          rw [dotted?_ofName, h]
          rfl
        · rfl
      all_goals rfl
    · rfl

/-- A chain of words stays one, and nothing else becomes one. -/
theorem Expr.isSome_dotted?_renamed (e : Expr) :
    (e.edit (r.editor : Editor ω)).value.dotted?.isSome = e.dotted?.isSome := by
  cases e with
  | ident i type => exact isSome_dotted?_expr r (.ident i type)
  | literal lead text type =>
      exact isSome_dotted?_expr r (.literal lead text type)
  | access lead target name type =>
      refine (isSome_dotted?_expr r
        (.access lead (target.edit (r.editor : Editor ω)).value
        name type)).trans ?_
      rw [dotted?, dotted?, Option.isSome_map, Option.isSome_map]
      exact target.isSome_dotted?_renamed
  | _ => exact isSome_dotted?_expr r _

namespace Node

variable {r}

/-- What is spelled anew is a spelling. -/
theorem isSpelling_of_respells {n : Node} (h : r.Respells ω n) :
    n.IsSpelling := by
  cases n with
  | name n => trivial
  | expr e =>
      cases e with
      | ident i type => rfl
      | access lead target name type =>
          rw [IsSpelling, ← Expr.isSome_dotted?_renamed (ω := ω) r, Expr.edit]
          exact (Expr.isSome_dotted?_expr r _).trans (h.2 ▸ rfl)
      | _ => cases h
  | _ => cases h

/-- A spelling stays one. -/
theorem IsSpelling.renamed {n : Node} (h : n.IsSpelling) :
    (n.renamed ω r).IsSpelling := by
  cases n with
  | ident i => trivial
  | name n => trivial
  | expr e => exact (Expr.isSome_dotted?_renamed r e).trans h
  | _ => cases h

/-- A node of a renamed tree is a renamed node of the tree or part of what a
class is spelled with. -/
theorem mem_walk_renamed {n m : Node} (hn : n.IsProper)
    (hm : m ∈ (n.renamed ω r).walk) :
    (∃ k ∈ n.walk, m = k.renamed ω r) ∨ m.IsSpelling := by
  refine induction_on (P := fun n => ∀ m ∈ (n.renamed ω r).walk,
    (∃ k ∈ n.walk, m = k.renamed ω r) ∨ m.IsSpelling) ?_ hn m hm
  intro n hn ih m hm
  by_cases hspells : r.Respells ω n
  · exact .inr ((isSpelling_of_respells hspells).renamed.walk
      (isProper_renamed hn) m hm)
  · rw [walk_eq (isProper_renamed hn), children_renamed hn hspells] at hm
    rw [walk_eq hn]
    obtain rfl | hm := List.mem_cons.1 hm
    · exact .inl ⟨n, List.mem_cons_self, rfl⟩
    · obtain ⟨_, hchild, hm⟩ := List.mem_flatMap.1 hm
      obtain ⟨k, hk, rfl⟩ := List.mem_map.1 hchild
      refine (ih k hk m hm).imp_left fun ⟨l, hl, hml⟩ => ⟨l, ?_, hml⟩
      exact List.mem_cons_of_mem n (List.mem_flatMap.2 ⟨k, hk, hl⟩)

end Node

end JavaRefit
