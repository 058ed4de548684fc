/-
What a renaming does to annotations.

An annotation names classes: by its own name, in front of `.class`, in what
it constructs, and by chains of words that spell a class of the class path.
Each name stands renamed where it stood (`Node.nameAt?_renamed_term`). One
of another class stays as it is and is the name of a class again
(`Node.classAt?_renamed_term`), since nothing around it gives way and no
chain around it has other words than before.

Any other chain of words is an expression, and its first word alone has a
type of its own. So it is told by this word what becomes of the chain
(`Expr.exists_renamesUse`).

Chain: after `References`, `CatchRule/Names` and `Attribution/Chains`; what
files mean after a run is read off it.
-/
import JavaRefit.Proofs.Attribution.Chains
import JavaRefit.Proofs.CatchRule.Names

namespace JavaRefit

variable {ω : Type} {r : Renaming} {isClass : String → Bool}

-- ============================================================ other classes

/-- The name of another class stays as it is. -/
theorem Name.NamesClass.edit_eq_self {c : Name} (h : c.NamesClass)
    (hother : ¬r.concerns c.type = true) :
    (c.edit (r.editor : Editor ω)).value = c := by
  have hkept (n : Name) (h : ¬r.concerns n.type = true) :
      (r.name n : Edited ω Name).value = n := by
    unfold Renaming.name
    rw [if_neg h, Edited.value_keep]
  cases c with
  | simple i type => exact hkept _ hother
  | qualified lead outer last type =>
      show (r.name (.qualified lead (outer.edit (r.editor : Editor ω)).value
        last type) : Edited ω Name).value = _
      rw [Name.edit_of_untyped r (h.outer outer rfl), hkept _ hother]

namespace Node

/-- So does a node that is such a name. -/
theorem renamed_eq_self {m : Node} {c : Name} (hname : m.asName? = some c)
    (h : c.NamesClass) (hother : ¬r.concerns c.type = true) :
    m.renamed ω r = m := by
  cases m with
  | name n =>
      obtain rfl := Option.some.inj hname
      exact congrArg Node.name (h.edit_eq_self hother)
  | expr e =>
      obtain rfl := Expr.eq_ofName_of_name? hname
      show Node.expr (Expr.edit (r.editor : Editor ω) _).value = _
      rw [Expr.edit_ofName, h.edit_eq_self hother]
  | _ => cases hname

-- ================================================================== terms

/-- The node is a word, a name, a type, an expression or an annotation. -/
def isTerm : Node → Bool
  | ident _ | name _ | typeTree _ | expr _ | modifier _ => true
  | _ => false

@[simp] theorem isTerm_ident (i : Ident) : (ident i).isTerm = true := rfl

@[simp] theorem isTerm_name (n : Name) : (name n).isTerm = true := rfl

@[simp] theorem isTerm_expr (e : Expr) : (expr e).isTerm = true := rfl

@[simp] theorem isTerm_node (t : TypeTree) : t.node.isTerm = true := by
  cases t <;> rfl

/-- Below a term there are terms only. -/
theorem isTerm_of_mem_children {n : Node} (h : n.isTerm = true) :
    ∀ m ∈ n.children, m.isTerm = true := by
  cases n with
  | ident i => exact List.forall_mem_nil _
  | name n => cases n <;> simp [children, nameChildren]
  | typeTree t =>
      cases t with
      | named n => cases n <;> simp [children, typeTreeChildren, nameChildren]
      | _ => simp [children, typeTreeChildren]
  | expr e => cases e <;> simp [children, exprChildren, or_imp, forall_and]
  | modifier m =>
      rcases m with _ | ⟨lead, n, _ | args⟩ <;>
        simp [children, modifierChildren, or_imp, forall_and]
  | _ => cases h

/-- Of a term all children are left. -/
theorem rest_of_isTerm {n : Node} (h : n.isTerm = true) :
    n.rest = n.children := by
  cases n <;> first | rfl | cases h

/-- A term stays one when it is renamed. -/
theorem isTerm_renamed {n : Node} (h : n.isTerm = true) :
    (n.renamed ω r).isTerm = true := by
  cases n with
  | typeTree t => exact isTerm_node _
  | ident | name | expr | modifier => rfl
  | _ => cases h

/-- Of a node without names of classes no place leads to one. -/
theorem classAt?_eq_none {n : Node}
    (h : n.AllClasses isClass (fun _ => False) fun _ => True)
    (place : List Nat) : n.classAt? isClass place = none :=
  Option.eq_none_iff_forall_not_mem.2 fun _ hc => h.of_classAt? hc

/-- What has a class named below it does not give way. -/
theorem not_respells_of_classAt? {m : Node}
    (hfree : ∀ e, m = expr e → e.IsUntypedAccess) {place : List Nat}
    {c : Name} (hc : m.classAt? isClass place = some c) :
    ¬r.Respells ω m := by
  cases m with
  | name n =>
      rw [classAt?_eq_none (allClasses_name n)] at hc
      cases hc
  | expr e =>
      cases e with
      | ident i type =>
          rw [classAt?_eq_none (.of_parts_eq_nil rfl)] at hc
          cases hc
      | access lead target last type =>
          intro hrespells
          obtain ⟨hconcerns, hspells⟩ := hrespells
          have hown := hfree _ rfl
          rw [Expr.IsUntypedAccess] at hown
          split at hown
          next hliteral =>
            -- the class of class literals is not called `class`
            obtain ⟨text, -, hold⟩ := Option.map_eq_some_iff.1 hspells
            have hclass : last.element.name = "class" := beq_iff_eq.1 hliteral
            have hsimple := congrArg Text.simpleName
              (hold.trans (isClassNamed_inj hconcerns hown))
            rw [Text.simpleName_append, hclass] at hsimple
            exact absurd hsimple (by decide)
          next hliteral =>
            rcases hown with htype | ⟨i, type', rfl, -⟩
            · rw [htype] at hconcerns
              cases hconcerns
            · have hnone : (expr (.access lead (.ident i type') last
                  type)).AllClasses isClass (fun _ => False) fun _ => True := by
                refine .intro (fun m hm c hc => ?_) (fun _ _ _ => trivial)
                  fun m hm _ => ?_
                · rcases List.mem_cons.1 hm with rfl | hm
                  · rw [classIn?, className?, Bool.eq_false_iff.2 hliteral,
                      Bool.false_and] at hc
                    cases hc
                  · rw [List.mem_singleton.1 hm] at hc
                    cases hc
                · rcases List.mem_cons.1 hm with rfl | hm
                  · exact .of_parts_eq_nil rfl
                  · exact List.mem_singleton.1 hm ▸ allClasses_ident _
              rw [classAt?_eq_none hnone] at hc
              cases hc
      | _ => exact id
  | _ => exact id

/-- A name of a class below a term stands renamed where it stood. -/
theorem nameAt?_renamed_term {P : Name → Prop} {n : Node} (hn : n.IsProper)
    (hterm : n.isTerm = true) (hstays : ¬r.Respells ω n)
    (hnamed : n.AllClasses isClass P Expr.IsUntypedAccess) {place : List Nat}
    {c : Name} (hc : n.classAt? isClass place = some c) :
    (n.renamed ω r).nameAt? place =
      some (c.edit (r.editor : Editor ω)).value := by
  induction place generalizing n with
  | nil => cases hc
  | cons i place ih =>
      have hrest := rest_of_isTerm hterm
      rw [classAt?_cons, hrest, Option.bind_eq_some_iff] at hc
      obtain ⟨m, hm, hc⟩ := hc
      have hmem := List.mem_of_getElem? hm
      have hpart : m ∈ n.parts := rest_subset n (hrest ▸ hmem)
      rw [nameAt?, at?_cons, children_renamed hn hstays, List.getElem?_map, hm,
        Option.map_some, Option.bind_some]
      cases hin : n.classIn? isClass m with
      | some c' =>
          rw [hin] at hc
          obtain ⟨rfl, hc⟩ := Option.ite_none_right_eq_some.1 hc
          obtain rfl := Option.some.inj hc
          exact asName?_renamed r (asName?_of_classIn? hin)
      | none =>
          rw [hin] at hc
          refine ih (isProper_of_mem_children m hmem)
            (isTerm_of_mem_children hterm m hmem)
            (not_respells_of_classAt? (fun e he => ?_) hc)
            (hnamed.inside m hpart hin) hc
          subst he
          exact hnamed.free e hpart hin

/-- A chain that did not give way has another type at most. -/
theorem renamed_access {lead : Trivia} {target : Expr}
    {last : LeftPadded Ident} {type : Option JavaType}
    (h : ¬r.Respells ω (expr (.access lead target last type))) :
    ((Expr.access lead target last type).edit (r.editor : Editor ω)).value =
      .access lead (target.edit (r.editor : Editor ω)).value last
        (r.typeOf type) := by
  show (r.expr (.access lead (target.edit (r.editor : Editor ω)).value last
    type) : Edited ω Expr).value = _
  by_cases hconcerns : r.concerns type = true
  · have hspells := fun hspells => h ⟨hconcerns, hspells⟩
    simp only [Renaming.expr, Renaming.typeOf, Expr.type, hconcerns, if_true,
      Edited.value_replace, if_neg hspells]
  · simp only [Renaming.expr, Renaming.typeOf, Expr.type, hconcerns]
    rfl

/-- What is no chain of words becomes none. -/
theorem words_renamed_of_dotted? {e : Expr} (h : e.dotted? = none) :
    (e.edit (r.editor : Editor ω)).value.dotted? = e.dotted? ∧
      (e.edit (r.editor : Editor ω)).value.isNameChain = e.isNameChain := by
  have hchain {e : Expr} (h : e.dotted? = none) : e.isNameChain = false := by
    by_contra hnot
    have hsome :=
      Expr.isSome_dotted?_of_isNameChain (Bool.of_not_eq_false hnot)
    rw [h] at hsome
    cases hsome
  have hafter : (e.edit (r.editor : Editor ω)).value.dotted? = none := by
    rw [← Option.isNone_iff_eq_none, ← Option.not_isSome,
      Expr.isSome_dotted?_renamed, h]
    rfl
  exact ⟨hafter.trans h.symm, (hchain hafter).trans (hchain h).symm⟩

/-- An expression around the name of another class has the words it had. -/
theorem words_renamed_of_classAt? {e : Expr} (hown : e.IsUntypedAccess)
    (hnamed : (expr e).AllClasses isClass Name.NamesClass Expr.IsUntypedAccess)
    {place : List Nat} {c : Name}
    (hc : (expr e).classAt? isClass place = some c)
    (hother : ¬r.concerns c.type = true) :
    (e.edit (r.editor : Editor ω)).value.dotted? = e.dotted? ∧
      (e.edit (r.editor : Editor ω)).value.isNameChain = e.isNameChain := by
  induction place generalizing e with
  | nil => cases hc
  | cons i place ih =>
      have hstays : ¬r.Respells ω (expr e) :=
        not_respells_of_classAt? (fun _ he => expr.inj he ▸ hown) hc
      cases e with
      | access lead target last type =>
          rw [classAt?_cons, Option.bind_eq_some_iff] at hc
          obtain ⟨m, hm, hc⟩ := hc
          have hmem : m ∈ [expr target, ident last.element] :=
            List.mem_of_getElem? hm
          suffices htarget : (target.edit (r.editor : Editor ω)).value.dotted? =
              target.dotted? ∧
              (target.edit (r.editor : Editor ω)).value.isNameChain =
                target.isNameChain by
            rw [renamed_access hstays, Expr.dotted?, Expr.dotted?, htarget.1]
            exact ⟨rfl, htarget.2⟩
          rcases List.mem_cons.1 hmem with rfl | hlast
          · cases hin : (expr (.access lead target last type)).classIn? isClass
                (expr target) with
            | some c' =>
                rw [hin] at hc
                obtain ⟨-, hc⟩ := Option.ite_none_right_eq_some.1 hc
                obtain rfl := Option.some.inj hc
                have hself : (expr target).renamed ω r = expr target :=
                  renamed_eq_self (asName?_of_classIn? hin)
                    (hnamed.named _ List.mem_cons_self c' hin) hother
                have hsame : (target.edit (r.editor : Editor ω)).value =
                    target :=
                  expr.inj hself
                rw [hsame]
                exact ⟨rfl, rfl⟩
            | none =>
                rw [hin] at hc
                exact ih (hnamed.free _ List.mem_cons_self hin)
                  (hnamed.inside _ List.mem_cons_self hin) hc
          · obtain rfl := List.mem_singleton.1 hlast
            have hin : (expr (.access lead target last type)).classIn? isClass
                (ident last.element) = none := rfl
            rw [hin] at hc
            dsimp only at hc
            rw [classAt?_eq_none (allClasses_ident _)] at hc
            cases hc
      | ident i type => exact absurd trivial hstays
      | _ => exact words_renamed_of_dotted? rfl

/-- A renamed type is no name, and no class literal. -/
theorem kind_renamed_typeTree {t : TypeTree} (h : ∀ n, t ≠ .named n) :
    (t.edit (r.editor : Editor ω)).value.node.bindsName = false ∧
      (t.edit (r.editor : Editor ω)).value.node.isLiteral = false := by
  have hnode {t : TypeTree} (h : ∀ n, t ≠ .named n) :
      (r.typeTree t : Edited ω TypeTree).value.node.bindsName = false ∧
        (r.typeTree t : Edited ω TypeTree).value.node.isLiteral = false := by
    unfold Renaming.typeTree
    cases t with
    | named n => exact absurd rfl (h n)
    | _ => split <;> exact ⟨rfl, rfl⟩
  cases t with
  | named n => exact absurd rfl (h n)
  | _ => exact hnode (by simp)

/-- A renamed expression is a class literal if it was one. -/
theorem isLiteral_renamed_expr {e : Expr} (h : ¬r.Respells ω (expr e)) :
    (expr (e.edit (r.editor : Editor ω)).value).isLiteral =
      (expr e).isLiteral := by
  have hnode {e : Expr} (hident : ∀ i type, e ≠ .ident i type)
      (haccess : ∀ lead target last type, e ≠ .access lead target last type) :
      (expr (r.expr e : Edited ω Expr).value).isLiteral = false := by
    unfold Renaming.expr
    cases e with
    | ident i type => exact absurd rfl (hident i type)
    | access lead target last type => exact absurd rfl (haccess _ _ _ _)
    | call => rfl
    | _ => dsimp only; split <;> rfl
  cases e with
  | ident i type => exact absurd trivial h
  | access lead target last type =>
      rw [renamed_access h]
      rfl
  | literal lead text type =>
      exact hnode (e := .literal lead text type) (by simp) (by simp)
  | _ => exact hnode (by simp) (by simp)

/-- In a renamed term the same children are in the place of a class. -/
theorem className?_renamed {n : Node} (hn : n.IsProper)
    (hterm : n.isTerm = true) (hstays : ¬r.Respells ω n) (m : Node) :
    (n.renamed ω r).className? m = n.className? m := by
  rw [className?_eq, className?_eq]
  cases hn with
  | ident i => rfl
  | name n => exact absurd trivial hstays
  | typeTree h =>
      obtain ⟨hbinds, hliteral⟩ := kind_renamed_typeTree (ω := ω) (r := r) h
      rw [renamed, edited, hbinds, hliteral]
      rfl
  | expr e =>
      rw [renamed, edited, isLiteral_renamed_expr hstays]
      rfl
  | modifier m => rfl
  | _ => cases hterm

/-- The name of another class is one in the renamed term. -/
theorem classIn?_renamed_of_named {n m : Node} (hn : n.IsProper)
    (hterm : n.isTerm = true) (hstays : ¬r.Respells ω n) {c : Name}
    (hin : n.classIn? isClass m = some c) (hnames : c.NamesClass)
    (hother : ¬r.concerns c.type = true) :
    (n.renamed ω r).classIn? isClass (m.renamed ω r) = some c := by
  rw [renamed_eq_self (asName?_of_classIn? hin) hnames hother, classIn?,
    className?_renamed hn hterm hstays]
  exact hin

/-- An expression around the name of another class spells none after a
renaming, if it did not before. -/
theorem spelled?_renamed_of_words {e : Expr} (hstays : ¬r.Respells ω (expr e))
    (hwords : (e.edit (r.editor : Editor ω)).value.dotted? = e.dotted? ∧
      (e.edit (r.editor : Editor ω)).value.isNameChain = e.isNameChain)
    (h : (expr e).spelled? isClass = none) :
    (expr (e.edit (r.editor : Editor ω)).value).spelled? isClass = none := by
  rw [spelled?_eq_none_iff] at h ⊢
  intro lead target last type heq hliteral hchain
  rw [hwords.1]
  rw [hwords.2] at hchain
  cases e with
  | access lead' target' last' type' =>
      rw [renamed_access hstays] at heq
      obtain ⟨-, -, rfl, -⟩ := Expr.access.inj heq
      exact h _ _ _ _ rfl hliteral hchain
  | ident i type => exact absurd trivial hstays
  | _ => cases hchain

/-- A node that is no name and no chain names no class. -/
theorem className?_eq_none {n m : Node} (hname : m.name? = none)
    (hchain : m.chain? = none) : n.className? m = none := by
  rw [className?_eq, hname, hchain, ite_self, ite_self]

/-- A node around the name of another class is no name of a class in the
renamed term. -/
theorem classIn?_renamed_of_around {n m : Node} (hn : n.IsProper)
    (hterm : n.isTerm = true) (hstays : ¬r.Respells ω n)
    (hm : m.IsProper) (hmterm : m.isTerm = true)
    (hin : n.classIn? isClass m = none)
    (hfree : ∀ e, m = expr e → e.IsUntypedAccess)
    (hnamed : m.AllClasses isClass Name.NamesClass Expr.IsUntypedAccess)
    {place : List Nat} {c : Name} (hc : m.classAt? isClass place = some c)
    (hother : ¬r.concerns c.type = true) :
    (n.renamed ω r).classIn? isClass (m.renamed ω r) = none := by
  obtain ⟨hname, hspelled⟩ := Option.or_eq_none_iff.1 hin
  rw [classIn?, className?_renamed hn hterm hstays, Option.or_eq_none_iff]
  have hmstays := not_respells_of_classAt? (ω := ω) (r := r) hfree hc
  cases hm with
  | ident i =>
      rw [classAt?_eq_none (allClasses_ident i)] at hc
      cases hc
  | name n => exact absurd trivial hmstays
  | @typeTree t h =>
      have hbinds := (kind_renamed_typeTree (ω := ω) (r := r) h).1
      show n.className? (t.edit (r.editor : Editor ω)).value.node = none ∧
        (t.edit (r.editor : Editor ω)).value.node.spelled? isClass = none
      generalize (t.edit (r.editor : Editor ω)).value = t' at hbinds
      cases t' with
      | named n => cases hbinds
      | _ => exact ⟨className?_eq_none rfl rfl, rfl⟩
  | expr e =>
      have hwords := words_renamed_of_classAt? (ω := ω) (hfree e rfl) hnamed hc
        hother
      refine ⟨?_, spelled?_renamed_of_words hmstays hwords hspelled⟩
      rw [className?_eq] at hname ⊢
      split
      · rfl
      · next hbinds =>
        rw [if_neg hbinds] at hname
        split
        · next hliteral =>
          rw [if_pos hliteral, chain?] at hname
          have hchain : e.isNameChain = false := by
            by_contra hnot
            have hchain := Bool.of_not_eq_false hnot
            have hsome := Expr.isSome_name?_of_isNameChain hchain
            rw [if_pos hchain] at hname
            rw [hname] at hsome
            cases hsome
          exact if_neg (Bool.eq_false_iff.1 (hwords.2.trans hchain))
        · rfl
  | modifier m => exact ⟨className?_eq_none rfl rfl, rfl⟩
  | _ => cases hmterm

/-- The name of another class below a term is the name of a class there
afterwards. -/
theorem classAt?_renamed_term {n : Node} (hn : n.IsProper)
    (hterm : n.isTerm = true) (hstays : ¬r.Respells ω n)
    (hnamed : n.AllClasses isClass Name.NamesClass Expr.IsUntypedAccess)
    {place : List Nat} {c : Name} (hc : n.classAt? isClass place = some c)
    (hother : ¬r.concerns c.type = true) :
    (n.renamed ω r).classAt? isClass place = some c := by
  induction place generalizing n with
  | nil => cases hc
  | cons i place ih =>
      have hrest := rest_of_isTerm hterm
      rw [classAt?_cons, hrest, Option.bind_eq_some_iff] at hc
      obtain ⟨m, hm, hc⟩ := hc
      have hmem := List.mem_of_getElem? hm
      have hpart : m ∈ n.parts := rest_subset n (hrest ▸ hmem)
      have hproper := isProper_of_mem_children m hmem
      have hmterm := isTerm_of_mem_children hterm m hmem
      rw [classAt?_cons, rest_of_isTerm (isTerm_renamed hterm),
        children_renamed hn hstays, List.getElem?_map, hm, Option.map_some,
        Option.bind_some]
      cases hin : n.classIn? isClass m with
      | some c' =>
          rw [hin] at hc
          obtain ⟨rfl, hc⟩ := Option.ite_none_right_eq_some.1 hc
          obtain rfl := Option.some.inj hc
          rw [classIn?_renamed_of_named hn hterm hstays hin
            (hnamed.named m hpart c' hin) hother]
          rfl
      | none =>
          rw [hin] at hc
          have hfree : ∀ e, m = expr e → e.IsUntypedAccess := by
            intro e he
            subst he
            exact hnamed.free e hpart hin
          have hinside := hnamed.inside m hpart hin
          rw [classIn?_renamed_of_around hn hterm hstays hproper hmterm hin
            hfree hinside hc hother]
          exact ih hproper hmterm (not_respells_of_classAt? hfree hc) hinside hc

-- ------------------------------------------------------- without types

/-- The node at a place without types. -/
theorem at?_untyped {n : Node} (hn : n.IsProper) (place : List Nat) :
    n.untyped.at? place = (n.at? place).map untyped := by
  induction place generalizing n with
  | nil => rfl
  | cons i place ih =>
      rw [at?_cons, at?_cons, children_untyped hn, List.getElem?_map]
      cases hm : n.children[i]? with
      | none => rfl
      | some m =>
          exact ih (isProper_of_mem_children m (List.mem_of_getElem? hm))

/-- The name a node is, without types. -/
theorem asName?_untyped {n : Node} (hn : n.IsProper) :
    n.untyped.asName? = n.asName?.map Name.untyped := by
  cases hn with
  | @typeTree t h =>
      show t.untyped.node.asName? = none
      cases t with
      | named n => exact absurd rfl (h n)
      | _ => rfl
  | @stmt s hb hd he =>
      cases s with
      | expr e => exact absurd rfl (he e)
      | returning lead e => cases e <;> rfl
      | _ => rfl
  | expr e => exact e.name?_untyped
  | _ => rfl

/-- The names at the places of a tree are those that it has without its
types. -/
theorem nameAt?_untyped {n : Node} (hn : n.IsProper) (place : List Nat) :
    n.untyped.nameAt? place = (n.nameAt? place).map Name.untyped := by
  rw [nameAt?, nameAt?, at?_untyped hn]
  cases hm : n.at? place with
  | none => rfl
  | some m =>
      exact asName?_untyped (isProper_of_mem_walk hn (mem_walk_of_at? hn hm))

end Node

-- ================================================================== chains

namespace Expr

/-- The chains of a renamed expression are its chains renamed. -/
theorem chains_renamed (e : Expr) :
    (e.edit (r.editor : Editor ω)).value.chains =
      e.chains.map fun c => (c.edit (r.editor : Editor ω)).value := by
  have hnode {e : Expr} (h : e.dotted? = none) :
      (r.expr e : Edited ω Expr).value.chains = e.chains := by
    unfold Renaming.expr
    cases e with
    | ident i type => cases h
    | access lead target name type =>
        dsimp only
        split
        · have htarget : ¬target.dotted?.isSome = true := by
            rw [Option.map_eq_none_iff.1 h]
            exact Bool.false_ne_true
          rw [Edited.value_replace, h, if_neg (Option.some_ne_none _).symm,
            chains, if_neg htarget, chains, if_neg htarget]
        · rfl
    | call => rfl
    | _ => dsimp only; split <;> rfl
  have hall {ps : List (RightPadded Expr)}
      (ih : ∀ p ∈ ps, (p.element.edit (r.editor : Editor ω)).value.chains =
        p.element.chains.map fun c => (c.edit (r.editor : Editor ω)).value) :
      chainsAll (editAll (r.editor : Editor ω) ps).value =
        (chainsAll ps).map fun c => (c.edit (r.editor : Editor ω)).value := by
    rw [editAll_value, chainsAll_eq, chainsAll_eq, List.flatMap_map,
      List.map_flatMap]
    exact List.flatMap_congr ih
  have hdotted {e : Expr} (h : e.dotted?.isSome = true) :
      (e.edit (r.editor : Editor ω)).value.chains =
        e.chains.map fun c => (c.edit (r.editor : Editor ω)).value := by
    rw [chains_of_dotted? h,
      chains_of_dotted? ((isSome_dotted?_renamed r e).trans h)]
    rfl
  induction e using Expr.induction_on with
  | ident i type => exact hdotted rfl
  | access lead target name type ih =>
      by_cases htarget : target.dotted?.isSome = true
      · exact hdotted (Option.isSome_map.trans htarget)
      · have hafter :
            ¬(target.edit (r.editor : Editor ω)).value.dotted?.isSome = true :=
          (isSome_dotted?_renamed r target).symm ▸ htarget
        refine (hnode (e := .access lead (target.edit r.editor).value name type)
          ?_).trans ?_
        · rw [dotted?, Option.not_isSome_iff_eq_none.1 hafter, Option.map_none]
        · rw [chains, if_neg hafter, ih, chains, if_neg htarget]
  | call lead select name args method ihs iha =>
      have hselect : chainsSelect
          (editSelect (r.editor : Editor ω) select).value =
          (chainsSelect select).map fun c =>
            (c.edit (r.editor : Editor ω)).value := by
        cases select with
        | none => rfl
        | some p => exact ihs p rfl
      show chainsSelect (editSelect (r.editor : Editor ω) select).value ++
        chainsAll (editAll (r.editor : Editor ω) args.elements).value = _
      rw [hselect, hall iha, chains, List.map_append]
  | new lead base args constructor type ih =>
      exact (hnode (e := .new lead (base.edit r.editor).value ⟨args.before,
        (editAll (r.editor : Editor ω) args.elements).value, args.close⟩
          constructor type) rfl).trans (hall ih)
  | literal lead text type => exact hnode (e := .literal lead text type) rfl
  | assign lead target value type iht ihv =>
      refine (hnode (e := .assign lead (target.edit r.editor).value
        ⟨value.before, (value.element.edit r.editor).value⟩ type) rfl).trans ?_
      rw [chains, iht, ihv, chains, List.map_append]
  | binary lead left operator right type ihl ihr =>
      refine (hnode (e := .binary lead (left.edit r.editor).value operator
        (right.edit r.editor).value type) rfl).trans ?_
      rw [chains, ihl, ihr, chains, List.map_append]
  | unary lead operator operand type ih =>
      exact (hnode (e :=
        .unary lead operator (operand.edit r.editor).value type) rfl).trans ih
  | parens lead inner type ih =>
      exact (hnode (e := .parens lead ⟨(inner.element.edit r.editor).value,
        inner.after⟩ type) rfl).trans ih

end Expr

/-- What is written for a word that has the class to rename. -/
theorem Renaming.dotted_simple_eq (i : Ident) : (r.simple i).dotted =
    if i.name = Text.simpleName r.old then r.written else i.name := by
  split
  · next hname => exact r.dotted_simple hname
  · next hname =>
    unfold simple
    rw [if_neg hname]
    rfl

/-- What a chain of words comes to in a renaming is told by the word that it
uses: where this has the class to rename, it is written anew, and what is
behind it stays. -/
structure Expr.RenamesUse (ω : Type) (r : Renaming) (e : Expr) (name : String)
    (type : Option JavaType) (rest : String) : Prop where
  words : e.dotted? = some (name ++ rest)
  kept : ¬r.concerns type = true → (e.edit (r.editor : Editor ω)).value = e
  written : r.concerns type = true →
    (e.edit (r.editor : Editor ω)).value.dotted? = some
      ((if name = Text.simpleName r.old then r.written else name) ++ rest)

/-- So it is with the chains in a file that uses single words. -/
theorem Expr.exists_renamesUse {P : Name → Prop} {cp : ClassPath} {e : Expr}
    (hdotted : e.dotted?.isSome = true) (h : e.IsRecorded cp.contains P)
    {name : String} {type : Option JavaType}
    (huse : (e.mention cp).use? = some (name, type)) :
    ∃ rest, e.RenamesUse ω r name type rest := by
  change (e.marks cp).findSome? Mark.used? = some (name, type) at huse
  induction e using Expr.induction_on with
  | ident i type' =>
      rw [marks] at huse
      split at huse
      · cases huse
      · obtain ⟨rfl, rfl⟩ := Prod.mk.inj (Option.some.inj huse)
        refine ⟨"", by rw [String.append_empty]; rfl, fun hconcerns => ?_,
          fun hconcerns => ?_⟩
        · show (r.expr (.ident i type') : Edited ω Expr).value = _
          simp only [Renaming.expr, Expr.type, hconcerns]
          rfl
        · show (r.expr (.ident i type') : Edited ω Expr).value.dotted? = _
          simp only [Renaming.expr, Expr.type, hconcerns, if_true,
            Edited.value_replace, dotted?_ofName, Renaming.dotted_simple_eq,
            String.append_empty]
  | access lead target last type' ih =>
      obtain ⟨hspelled, hchain, hliteral, hword⟩ := used?_access hdotted huse
      obtain ⟨huntyped, hnamed⟩ := h hspelled
      rw [IsUntypedAccess, hliteral, if_neg Bool.false_ne_true] at huntyped
      have htype : type' = none := by
        rcases huntyped with htype | ⟨i, type, rfl, hthis⟩
        · exact htype
        · exact absurd hthis (bne_iff_ne.1 hchain)
      subst htype
      have hedit : ((Expr.access lead target last none).edit
          (r.editor : Editor ω)).value =
            .access lead (target.edit (r.editor : Editor ω)).value last none :=
        rfl
      rw [dotted?, Option.isSome_map] at hdotted
      obtain ⟨rest, hrenames⟩ := ih hdotted (hnamed.isRecorded
        List.mem_cons_self fun hnot =>
          absurd hnot (Bool.eq_false_iff.1 hliteral))
          hword
      refine ⟨rest ++ "." ++ last.element.name, ?_, fun hconcerns => ?_,
        fun hconcerns => ?_⟩
      · rw [dotted?, hrenames.words, Option.map_some, String.append_assoc]
        simp [String.append_assoc]
      · rw [hedit, hrenames.kept hconcerns]
      · rw [hedit, dotted?, hrenames.written hconcerns, Option.map_some]
        simp [String.append_assoc]
  | _ => cases hdotted

-- ============================================================= annotations

namespace Modifier

/-- The chains of a renamed annotation are its chains renamed. -/
theorem chains_renamed (m : Modifier) :
    (m.edit (r.editor : Editor ω)).value.chains =
      m.chains.map fun e => (e.edit (r.editor : Editor ω)).value := by
  cases m with
  | keyword lead word => rfl
  | annotated lead name args =>
      cases args with
      | none => rfl
      | some c =>
          show Expr.chainsAll
            (Expr.editAll (r.editor : Editor ω) c.elements).value =
              (Expr.chainsAll c.elements).map _
          rw [Expr.editAll_value, Expr.chainsAll_eq, Expr.chainsAll_eq,
            List.flatMap_map, List.map_flatMap]
          exact List.flatMap_congr fun p _ => p.element.chains_renamed

end Modifier

end JavaRefit
