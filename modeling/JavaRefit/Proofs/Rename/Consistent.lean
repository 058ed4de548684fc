/-
Types that are kept twice, after a renaming.

In a typed file the types that are kept twice are the same type. A
renaming gives a new type to each node that has the class as its own
type, so of two types that are the same it changes both or none, with two
exceptions (`Node.lagsBehind`). The type of an array is that of no class
and stays, also where its elements are of the class; and the type of a
call is in the signature that was found for it, which stays, while an
assignment to it or parentheses around it get the new type. Everywhere
else both are renamed (`isConsistent_renamed_iff`).

Chain: after `Place` and the proofs about what attribution leaves; nothing
reads it.
-/
import JavaRefit.Proofs.Attribution.RecordedUnit
import JavaRefit.Proofs.CatchRule.Run
import JavaRefit.Proofs.Rename.Place

namespace JavaRefit

-- ================================================================== types

/-- What tells types apart: of a class no more than its name. -/
def nominal : Option JavaType → Option JavaType
  | some (.reference c) => some (.reference (.bare c.fqn))
  | some (.array element) => some (.array (nominal element))
  | type => type

/-- The types are told apart by nothing. -/
def SameType (a b : Option JavaType) : Prop :=
  nominal a = nominal b

/-- Equal types are the same. -/
theorem SameType.of_eq {a b : Option JavaType} (h : a = b) : SameType a b :=
  congrArg nominal h

/-- Arrays are the same iff their elements are. -/
theorem sameType_array_iff {a b : Option JavaType} :
    SameType (some (.array a)) (some (.array b)) ↔ SameType a b := by
  simp [SameType, nominal]

variable (r : Renaming)

/-- A renamed type is another one where it is the class and the new class is
another one. -/
theorem Renaming.sameType_typeOf_iff (type : Option JavaType) :
    SameType (r.typeOf type) type ↔
    (r.old != r.new.fqn && r.concerns type) = false := by
  unfold Renaming.typeOf
  split
  next h =>
    obtain ⟨c, rfl, hc⟩ : ∃ c, type = some (.reference c) ∧ c.fqn = r.old := by
      unfold concerns isClassNamed at h
      split at h
      · exact ⟨_, rfl, beq_iff_eq.1 h⟩
      · cases h
    rw [h, Bool.and_true, bne_eq_false_iff_eq, ← hc]
    simp only [SameType, nominal, newType, ClassType.bare, Option.some.injEq,
      JavaType.reference.injEq, ClassType.mk.injEq, and_true]
    exact eq_comm
  next h =>
    exact iff_of_true rfl (by rw [Bool.eq_false_iff.2 h, Bool.and_false])

-- ============================================================ expressions

/-- The expression is a call that returns the class. -/
def Expr.isCallOf (fqn : String) : Expr → Bool
  | .call _ _ _ _ method => isClassNamed fqn (method.bind MethodType.returns)
  | _ => false

/-- A chain of words has the type of its name. -/
theorem Expr.type_ofName (n : Name) : (ofName n).type = n.type := by
  cases n <;> rfl

/-- A chain of words is no call. -/
theorem Expr.isCallOf_ofName (fqn : String) (n : Name) :
    (ofName n).isCallOf fqn = false := by
  cases n <;> rfl

/-- The expression has the type of another one below it. -/
def Expr.keepsTypeBelow : Expr → Bool
  | .assign .. => true
  | .parens .. => true
  | _ => false

/-- A chain of words keeps no type below it. -/
theorem Expr.keepsTypeBelow_ofName (n : Name) :
    (ofName n).keepsTypeBelow = false := by
  cases n <;> rfl

namespace Renaming

/-- What an expression is renamed to has the renamed type. -/
theorem type_expr {e : Expr} (h : ∀ lead select name args method,
    e ≠ .call lead select name args method) :
    (r.expr e : Edited Empty Expr).value.type = r.typeOf e.type ∧
      (r.expr e : Edited Empty Expr).value.isCallOf r.old = false := by
  unfold expr typeOf
  split
  · exact absurd rfl (h _ _ _ _ _)
  · split
    · rw [Edited.value_replace]
      split
      · rw [Expr.type_ofName, type_simple, Expr.isCallOf_ofName]
        exact ⟨rfl, rfl⟩
      · split
        · rw [Expr.type_ofName, type_fullName, Expr.isCallOf_ofName]
          exact ⟨rfl, rfl⟩
        · exact ⟨rfl, rfl⟩
      · exact absurd rfl (h _ _ _ _ _)
      all_goals exact ⟨rfl, rfl⟩
    · refine ⟨rfl, ?_⟩
      cases e with
      | call lead select name args method => exact absurd rfl (h _ _ _ _ _)
      | _ => rfl

/-- An expression keeps a type below it before and after. -/
theorem keepsTypeBelow_expr (e : Expr) :
    (r.expr e : Edited Empty Expr).value.keepsTypeBelow = e.keepsTypeBelow := by
  unfold expr
  split
  · rfl
  · split
    · rw [Edited.value_replace]
      split
      · exact Expr.keepsTypeBelow_ofName _
      · split
        · exact Expr.keepsTypeBelow_ofName _
        · rfl
      all_goals rfl
    · rfl

theorem keepsTypeBelow_renamed (e : Expr) :
    (e.edit (r.editor : Editor Empty)).value.keepsTypeBelow =
      e.keepsTypeBelow := by
  cases e with
  | ident i type => exact r.keepsTypeBelow_expr (.ident i type)
  | literal lead text type =>
      exact r.keepsTypeBelow_expr (.literal lead text type)
  | _ => exact r.keepsTypeBelow_expr _

/-- The type that a renamed expression is to have is the one it has, unless it
is a call. -/
theorem sameType_renamed_iff (e : Expr) :
    SameType (r.typeOf e.type) (e.edit (r.editor : Editor Empty)).value.type ↔
      (r.old != r.new.fqn && (e.edit (r.editor : Editor Empty)).value.isCallOf
        r.old) = false := by
  have hother (e' : Expr) (htype : e'.type = e.type)
      (h : ∀ lead select name args method,
        e' ≠ .call lead select name args method) :
      SameType (r.typeOf e.type) (r.expr e' : Edited Empty Expr).value.type ↔
        (r.old != r.new.fqn && (r.expr e' : Edited Empty Expr).value.isCallOf
          r.old) = false := by
    obtain ⟨hrenamed, hcall⟩ := r.type_expr h
    rw [hrenamed, htype, hcall]
    exact iff_of_true rfl (Bool.and_false _)
  cases e with
  | call lead select name args method => exact r.sameType_typeOf_iff _
  | ident i type => exact hother (.ident i type) rfl nofun
  | literal lead text type => exact hother (.literal lead text type) rfl nofun
  | _ => exact hother _ rfl nofun

end Renaming

-- ================================================================== nodes

namespace Node

/-- One of two types of the node that were the same was renamed and the other
one was not: that of the elements of an array, and that of an assignment to a
call or of parentheses around one. -/
def lagsBehind (r : Renaming) : Node → Bool
  | .typeTree (.array _ _ _ (some (.array element))) =>
      r.old != r.new.fqn && r.concerns element
  | .expr (.assign _ target _ _) => r.old != r.new.fqn && target.isCallOf r.old
  | .expr (.parens _ inner _) =>
      r.old != r.new.fqn && inner.element.isCallOf r.old
  | _ => false

variable {r}

/-- Only assignments and expressions in parentheses keep the type of another
expression. -/
theorem isConsistent_of_not_keepsTypeBelow {e : Expr}
    (h : e.keepsTypeBelow = false) (same : Option JavaType → Option JavaType →
      Prop) : (expr e).IsConsistent same := by
  cases e with
  | assign lead target value type => cases h
  | parens lead inner type => cases h
  | _ => trivial

/-- What keeps no type below it never lags behind. -/
theorem lagsBehind_of_not_keepsTypeBelow {e : Expr}
    (h : e.keepsTypeBelow = false) : (expr e).lagsBehind r = false := by
  cases e with
  | assign lead target value type => cases h
  | parens lead inner type => cases h
  | _ => rfl

/-- A spelling is consistent iff it does not lag behind. -/
theorem isConsistent_iff_of_isSpelling {n : Node} (h : n.IsSpelling) :
    n.IsConsistent SameType ↔ n.lagsBehind r = false := by
  cases n with
  | expr e =>
      have hbelow : e.keepsTypeBelow = false := by
        cases e with
        | assign lead target value type => cases h
        | parens lead inner type => cases h
        | _ => rfl
      exact iff_of_true (isConsistent_of_not_keepsTypeBelow hbelow SameType)
        (lagsBehind_of_not_keepsTypeBelow hbelow)
  | typeTree t => cases h
  | declaration d => cases h
  | _ => exact iff_of_true trivial rfl

theorem renamed_generic (lead : Trivia) (base : Name)
    (args : Container TypeTree) (type : Option JavaType) :
    ∃ args', (typeTree (.generic lead base args type)).renamed Empty r =
      .typeTree (.generic lead (base.edit (r.editor : Editor Empty)).value args'
        (r.typeOf type)) := by
  refine ⟨⟨args.before,
    (TypeTree.editAll (r.editor : Editor Empty) args.elements).value,
    args.close⟩, ?_⟩
  show TypeTree.node
    (r.typeTree (.generic lead (base.edit (r.editor : Editor Empty)).value
    ⟨args.before, (TypeTree.editAll (r.editor : Editor Empty)
      args.elements).value, args.close⟩ type) : Edited Empty TypeTree).value = _
  by_cases hc : r.concerns type = true <;>
    simp [Renaming.typeTree, Renaming.typeOf, TypeTree.type, TypeTree.node, hc]

theorem renamed_array (lead : Trivia) (element : TypeTree)
    (dimension : LeftPadded Trivia) (type : Option JavaType) :
    (typeTree (.array lead element dimension type)).renamed Empty r =
      .typeTree
        (.array lead (element.edit (r.editor : Editor Empty)).value dimension
        (r.typeOf type)) := by
  show TypeTree.node (r.typeTree
    (.array lead (element.edit (r.editor : Editor Empty)).value dimension
    type) : Edited Empty TypeTree).value = _
  by_cases hc : r.concerns type = true <;>
    simp [Renaming.typeTree, Renaming.typeOf, TypeTree.type, TypeTree.node, hc]

theorem renamed_assign (lead : Trivia) (target : Expr) (value : LeftPadded Expr)
    (type : Option JavaType) : ∃ value',
      (expr (.assign lead target value type)).renamed Empty r =
      .expr (.assign lead (target.edit (r.editor : Editor Empty)).value value'
        (r.typeOf type)) := by
  refine ⟨⟨value.before, (value.element.edit (r.editor : Editor Empty)).value⟩,
    ?_⟩
  show expr (r.expr (.assign lead (target.edit (r.editor : Editor Empty)).value
    ⟨value.before, (value.element.edit (r.editor : Editor Empty)).value⟩ type) :
    Edited Empty Expr).value = _
  by_cases hc : r.concerns type = true <;>
    simp [Renaming.expr, Renaming.typeOf, Expr.type, hc]

theorem renamed_parens (lead : Trivia) (inner : RightPadded Expr)
    (type : Option JavaType) :
    (expr (.parens lead inner type)).renamed Empty r =
      .expr (.parens lead ⟨(inner.element.edit (r.editor : Editor Empty)).value,
        inner.after⟩ (r.typeOf type)) := by
  show expr
    (r.expr (.parens lead ⟨(inner.element.edit (r.editor : Editor Empty)).value,
      inner.after⟩
    type) : Edited Empty Expr).value = _
  by_cases hc : r.concerns type = true <;>
    simp [Renaming.expr, Renaming.typeOf, Expr.type, hc]

/-- A renamed node whose own types were the same as those below it. -/
theorem isConsistent_renamed_iff {n : Node} (hn : n.IsProper)
    (h : n.IsConsistent Eq) :
    (n.renamed Empty r).IsConsistent SameType ↔
    (n.renamed Empty r).lagsBehind r = false := by
  cases n with
  | typeTree t =>
      cases t with
      | named n => exact iff_of_true trivial rfl
      | generic lead base args type =>
          have hbase : type = base.type := h
          obtain ⟨args', heq⟩ := renamed_generic (r := r) lead base args type
          rw [heq, hbase]
          exact iff_of_true (.of_eq (r.type_editName base).symm) rfl
      | primitive lead keyword type =>
          simp only [renamed, edited, TypeTree.edit, Renaming.editor,
            Renaming.typeTree]
          split <;> exact iff_of_true trivial rfl
      | array lead element dimension type =>
          have helement : type = some (.array element.type) := h
          rw [renamed_array, helement]
          show SameType (some (.array element.type)) (some (.array _)) ↔ _
          rw [sameType_array_iff, r.type_editTypeTree]
          exact Iff.trans eq_comm (r.sameType_typeOf_iff element.type)
      | union lead alternatives => exact iff_of_true trivial rfl
  | expr e =>
      cases hbelow : e.keepsTypeBelow with
      | false =>
          have hafter := (r.keepsTypeBelow_renamed e).trans hbelow
          exact iff_of_true (isConsistent_of_not_keepsTypeBelow hafter SameType)
            (lagsBehind_of_not_keepsTypeBelow hafter)
      | true =>
          cases e with
          | assign lead target value type =>
              have htarget : type = target.type := h
              obtain ⟨value', heq⟩ :=
                renamed_assign (r := r) lead target value type
              rw [heq, htarget]
              exact r.sameType_renamed_iff target
          | parens lead inner type =>
              have hinner : type = inner.element.type := h
              rw [renamed_parens, hinner]
              exact r.sameType_renamed_iff inner.element
          | _ => cases hbelow
  | declaration d =>
      refine iff_of_true (fun v hv => ?_) rfl
      have hdeclarators :
          ((d.edit (r.editor : Editor Empty)).value).declarators =
          d.declarators.map (.map fun v =>
            (v.edit (r.editor : Editor Empty)).value) :=
        Variable.editAll_value _ _
      rw [hdeclarators] at hv
      obtain ⟨p, hp, rfl⟩ := List.mem_map.1 hv
      obtain ⟨hself, hname⟩ := h p hp
      have htype : ((d.edit (r.editor : Editor Empty)).value).typeTree.type =
          r.typeOf d.typeTree.type :=
        r.type_editTypeTree d.typeTree
      rw [htype, RightPadded.map, Variable.renamed_eq]
      exact ⟨.of_eq (congrArg r.typeOf hself),
        .of_eq ((r.type_editName _).trans (congrArg r.typeOf hname))⟩
  | stmt s =>
      cases s with
      | block b => exact absurd rfl (by cases hn with | stmt hb => exact hb b)
      | declaration d =>
          exact absurd rfl (by cases hn with | stmt _ hd => exact hd d)
      | expr e =>
          exact absurd rfl (by cases hn with | stmt _ _ he => exact he e)
      | returning lead value => cases value <;> exact iff_of_true trivial rfl
      | _ => exact iff_of_true trivial rfl
  | _ => exact iff_of_true trivial rfl

end Node

-- ================================================================== files

/-- A node that is consistent stays so under a wider notion of sameness. -/
theorem Node.IsConsistent.imp {n : Node}
    {same same' : Option JavaType → Option JavaType → Prop}
    (h : n.IsConsistent same) (himp : ∀ {a b}, same a b → same' a b) :
    n.IsConsistent same' := by
  cases n with
  | typeTree t => cases t <;> first | exact himp h | trivial
  | declaration d => exact fun v hv => ⟨himp (h v hv).1, himp (h v hv).2⟩
  | expr e => cases e <;> first | exact himp h | trivial
  | _ => trivial

/-- In a renamed file the nodes that do not lag behind are the
consistent ones. -/
theorem CompilationUnit.isConsistent_iff_of_mem_renamed {cu : CompilationUnit}
    (h : ∀ n ∈ cu.walk, n.IsAttributed) {n : Node}
    (hn : n ∈ (cu.edit (r.editor : Editor Empty)).value.walk) :
    n.IsConsistent SameType ↔ n.lagsBehind r = false := by
  obtain ⟨k, hk, rfl⟩ | hspelling :=
    Node.mem_walk_renamed (r := r) (.unit cu) hn
  · exact Node.isConsistent_renamed_iff
      (Node.isProper_of_mem_walk (.unit cu) hk) (h k hk).consistent
  · exact Node.isConsistent_iff_of_isSpelling hspelling

/-- In a file that was read the types that are kept twice are the same. After a
renaming they are the same but for arrays of the old class, and assignments to
calls that return it and parentheses around such calls. -/
theorem CompilationUnit.isConsistent_unless_lagsBehind {source : String}
    {cp : ClassPath} {path : Option String} {cu : CompilationUnit}
    (h : parseUnit source cp path = .ok cu) :
    (∀ n ∈ cu.walk, n.IsConsistent SameType) ∧
      ∀ n ∈ (cu.edit (r.editor : Editor Empty)).value.walk,
        n.IsConsistent SameType ↔ n.lagsBehind r = false := by
  have hattributed := isAttributed_parseUnit h
  exact ⟨fun n hn => (hattributed n hn).consistent.imp .of_eq, fun n hn =>
    isConsistent_iff_of_mem_renamed r hattributed hn⟩

/-- An array of the class, and calls that return it. -/
def sampleKeptTwice : String :=
  "import p.*;class A\x7bOld[] o;Old f()\x7bf()=null;return (f());\x7d\x7d"

/-- The renaming of the class in that file. -/
def sampleKeptTwiceRenamed : CompilationUnit :=
  ((sampleUnit sampleKeptTwice).edit (sampleRenaming.editor :
    Editor Empty)).value

theorem CompilationUnit.isConsistent_unless_lagsBehind_sample :
    ∃ cu, parseUnit sampleKeptTwice sampleClassPath none = .ok cu ∧
      (∀ n ∈ cu.walk, n.IsConsistent SameType) ∧
        ∀ n ∈ (cu.edit (sampleRenaming.editor : Editor Empty)).value.walk,
          n.IsConsistent SameType ↔ n.lagsBehind sampleRenaming = false := by
  have hok : (parseUnit sampleKeptTwice sampleClassPath none).isOk = true := by
    decide +kernel
  obtain ⟨cu, hcu⟩ := exists_of_isOk hok
  exact ⟨cu, hcu, isConsistent_unless_lagsBehind sampleRenaming hcu⟩

/-- The array, the assignment and the parentheses are left with two types that
are not the same. -/
theorem CompilationUnit.isConsistent_unless_lagsBehind_sample_not :
    ∃ cu, parseUnit sampleKeptTwice sampleClassPath none = .ok cu ∧
      ∀ kind ∈ [NodeKind.arrayType, NodeKind.assignment, NodeKind.parentheses],
        ∃ n ∈ (cu.edit (sampleRenaming.editor : Editor Empty)).value.walk,
          n.kind = kind ∧ ¬ n.IsConsistent SameType := by
  have hok : (parseUnit sampleKeptTwice sampleClassPath none).isOk = true := by
    decide +kernel
  obtain ⟨cu, hcu⟩ := exists_of_isOk hok
  have hunit : sampleUnit sampleKeptTwice = cu := by rw [sampleUnit, hcu]
  have hbehind : ∀ kind ∈ [NodeKind.arrayType, NodeKind.assignment,
      NodeKind.parentheses],
      ∃ n ∈ sampleKeptTwiceRenamed.walk,
        n.kind = kind ∧ n.lagsBehind sampleRenaming = true := by
    decide +kernel
  rw [sampleKeptTwiceRenamed, hunit] at hbehind
  refine ⟨cu, hcu, fun kind hkind => ?_⟩
  obtain ⟨n, hn, hnkind, hlags⟩ := hbehind kind hkind
  refine ⟨n, hn, hnkind, fun hconsistent => ?_⟩
  rw [(isConsistent_iff_of_mem_renamed sampleRenaming
    (isAttributed_parseUnit hcu) hn).1 hconsistent] at hlags
  cases hlags

end JavaRefit
