/-
Where a tree names classes.

A class is named by a name in the place of one, or by a chain of words
that spells a class of the class path and counts as a whole. A name is in
the place of a class for the node it is right below, so both are told of a
node and a node below it (`Node.classIn?`). What is inside such a name
names nothing by itself.

The name that a class is declared with refers to no class, and neither do
those of variables, packages and imports. So the parts of a node are its
children but for the first of these (`Node.parts`). What holds of all
names of classes below a node, and what holds of the expressions there
that are none, is told by the parts (`Node.AllClasses`).

# Places

A class can be found by the numbers of the parts that lead to its name
(`Node.classAt?`). Of a file only the classes count there, so that imports
may come and go.

Chain: after `Place`; read by the proofs about what
attribution leaves and about what names mean after a run.
-/
import JavaRefit.Attribution.Expr
import JavaRefit.Proofs.Tree.Place
import JavaRefit.Proofs.Tree.Untyped

namespace JavaRefit

-- ================================================================== names

/-- A chain of words as a name. -/
def Expr.name? : Expr → Option Name
  | .ident i type => some (.simple i type)
  | .access lead target last type =>
      target.name?.map fun outer => .qualified lead outer last type
  | _ => none

namespace Expr

/-- A chain of words is a name. -/
theorem isSome_name?_of_isNameChain {e : Expr} (h : e.isNameChain = true) :
    e.name?.isSome = true := by
  induction e using Expr.induction_on with
  | ident i type => rfl
  | access lead target name type ih => exact Option.isSome_map.trans (ih h)
  | _ => cases h

/-- The words of a chain are those of its name. -/
theorem dotted?_of_name? {e : Expr} {n : Name} (h : e.name? = some n) :
    e.dotted? = some n.dotted := by
  induction e using Expr.induction_on generalizing n with
  | ident i type => rw [← Option.some.inj h, dotted?, Name.dotted]
  | access lead target name type ih =>
      obtain ⟨outer, houter, rfl⟩ := Option.map_eq_some_iff.1 h
      rw [dotted?, ih houter, Name.dotted, Option.map_some]
  | _ => cases h

/-- Whether an expression is a name is no matter of types. -/
theorem name?_untyped (e : Expr) :
    e.untyped.name? = e.name?.map Name.untyped := by
  induction e using Expr.induction_on with
  | ident i type => rfl
  | access lead target name type ih =>
      show (name? target.untyped).map _ = _
      rw [ih, name?, Option.map_map, Option.map_map]
      rfl
  | _ => rfl

end Expr

namespace Node

/-- The name that the node is. -/
def name? : Node → Option Name
  | .name n => some n
  | _ => none

/-- The name or the chain of words that the node is. -/
def asName? : Node → Option Name
  | .name n => some n
  | .expr e => e.name?
  | _ => none

/-- The name in the place of a class that the second node is, right below the
first. The names of variables, packages and imports are in no such place, and
neither is what a longer name starts with. -/
def className? : Node → Node → Option Name
  | .name _, _ => none
  | .declarator _, _ => none
  | .package _, _ => none
  | .importDecl _, _ => none
  | .expr (.access _ _ last _), .expr e =>
    if isClassLiteral last && e.isNameChain then e.name? else none
  | _, .name n => some n
  | _, _ => none

/-- The chain of words that the node is, where it spells a class as a whole. -/
def spelled? (isClass : String → Bool) : Node → Option Name
  | .expr (.access lead target last type) =>
    if isClassLiteral last then none
    else ((Expr.chainText? target last).filter isClass).bind fun _ =>
      (Expr.access lead target last type).name?
  | _ => none

/-- The name of a class that the second node is, right below the first. -/
def classIn? (isClass : String → Bool) (n m : Node) : Option Name :=
  (n.className? m).or (m.spelled? isClass)

-- ============================================================== spellings

/-- The node is a word, a name or a chain of words. -/
def IsSpelling : Node → Prop
  | .ident _ => True
  | .name _ => True
  | .expr e => e.dotted?.isSome = true
  | _ => False

/-- Below a spelling there are spellings only. -/
theorem IsSpelling.of_mem_children {n : Node} (h : n.IsSpelling) :
    ∀ m ∈ n.children, m.IsSpelling := by
  cases n with
  | ident i => exact List.forall_mem_nil _
  | name n => cases n <;> simp [children, nameChildren, IsSpelling]
  | expr e =>
      cases e with
      | ident i type => exact List.forall_mem_nil _
      | access lead target name type =>
          have htarget : target.dotted?.isSome = true := by
            simpa [IsSpelling, Expr.dotted?] using h
          simp [children, exprChildren, IsSpelling, htarget]
      | _ => cases h
  | _ => cases h

/-- So all nodes at and below a spelling are spellings. -/
theorem IsSpelling.walk {n : Node} (hn : n.IsProper) (h : n.IsSpelling) :
    ∀ m ∈ n.walk, m.IsSpelling := by
  revert h
  refine induction_on (P := fun n => n.IsSpelling → ∀ m ∈ n.walk,
    m.IsSpelling) ?_ hn
  intro n hn ih h
  rw [walk_eq hn, List.forall_mem_cons, List.forall_mem_flatMap]
  exact ⟨h, fun k hk => ih k hk (h.of_mem_children k hk)⟩

/-- A name is a spelling. -/
theorem isSpelling_of_asName? {n : Node} {c : Name} (h : n.asName? = some c) :
    n.IsSpelling := by
  cases n with
  | name n => trivial
  | expr e =>
      show e.dotted?.isSome = true
      rw [Expr.dotted?_of_name? h]
      rfl
  | _ => cases h

/-- A node that names a class is a name. -/
theorem asName?_of_className? {n m : Node} {c : Name}
    (h : n.className? m = some c) : m.asName? = some c := by
  unfold className? at h
  split at h
  · cases h
  · cases h
  · cases h
  · cases h
  · split at h
    · exact h
    · cases h
  · exact h
  · cases h

/-- A node that spells a class is a name. -/
theorem asName?_of_spelled? {isClass : String → Bool} {m : Node} {c : Name}
    (h : m.spelled? isClass = some c) : m.asName? = some c := by
  unfold spelled? at h
  split at h
  · split at h
    · cases h
    · obtain ⟨-, -, h⟩ := Option.bind_eq_some_iff.1 h
      exact h
  · cases h

/-- The name of a class is a name or a chain of words. -/
theorem asName?_of_classIn? {isClass : String → Bool} {n m : Node} {c : Name}
    (h : n.classIn? isClass m = some c) : m.asName? = some c := by
  rcases Option.or_eq_some_iff.1 h with h | ⟨-, h⟩
  · exact asName?_of_className? h
  · exact asName?_of_spelled? h

-- ================================================================== parts

/-- The nodes right below a node, but for the name that a class is declared
with. -/
def parts : Node → List Node
  | classDecl c =>
    c.modifiers.map modifier ++
      (TypeTree.listNodes c.extends? ++ TypeTree.listNodes c.implements? ++
        [classBody c.body])
  | n => n.children

/-- The parts of a node are among its children. -/
theorem parts_subset (n : Node) : n.parts ⊆ n.children := by
  cases n with
  | classDecl c =>
      refine List.append_subset.2 ⟨List.subset_append_left _ _, ?_⟩
      exact List.Subset.trans (List.subset_cons_self _ _)
        (List.subset_append_right _ _)
  | _ => exact List.Subset.refl _

/-- The names of classes below the node have the one property, and the
expressions that are no such names, and inside none, have the other. -/
inductive AllClasses (isClass : String → Bool) (P : Name → Prop)
    (Q : Expr → Prop) : Node → Prop
  | intro {n : Node}
      (here : ∀ m ∈ n.parts, ∀ c, n.classIn? isClass m = some c → P c)
      (free : ∀ e, expr e ∈ n.parts →
        n.classIn? isClass (expr e) = none → Q e)
      (below : ∀ m ∈ n.parts, n.classIn? isClass m = none →
        AllClasses isClass P Q m) :
      AllClasses isClass P Q n

variable {isClass : String → Bool} {P : Name → Prop} {Q : Expr → Prop}

/-- What holds of all classes named holds of each part that names one. -/
theorem AllClasses.named {n : Node} (h : n.AllClasses isClass P Q) :
    ∀ m ∈ n.parts, ∀ c, n.classIn? isClass m = some c → P c := by
  cases h
  assumption

/-- What holds of all other expressions holds of each part that names no
class. -/
theorem AllClasses.free {n : Node} (h : n.AllClasses isClass P Q) :
    ∀ e, expr e ∈ n.parts → n.classIn? isClass (expr e) = none → Q e := by
  cases h
  assumption

/-- What holds of all classes named holds inside each part that names none. -/
theorem AllClasses.inside {n : Node} (h : n.AllClasses isClass P Q) :
    ∀ m ∈ n.parts, n.classIn? isClass m = none →
      m.AllClasses isClass P Q := by
  cases h
  assumption

/-- Where there are no parts, no class is named. -/
theorem AllClasses.of_parts_eq_nil {n : Node} (h : n.parts = []) :
    n.AllClasses isClass P Q := by
  have hnone (m : Node) : m ∉ n.parts := h ▸ List.not_mem_nil
  exact .intro (fun m hm => absurd hm (hnone m))
    (fun e he => absurd he (hnone _)) fun m hm => absurd hm (hnone m)

/-- What holds of all classes named may be weakened. -/
theorem AllClasses.imp {P' : Name → Prop} (hP : ∀ c, P c → P' c) {n : Node}
    (h : n.AllClasses isClass P Q) : n.AllClasses isClass P' Q := by
  induction h with
  | intro here free _ ih =>
      exact .intro (fun m hm c hc => hP c (here m hm c hc)) free ih

theorem allClasses_ident (i : Ident) : (ident i).AllClasses isClass P Q :=
  .of_parts_eq_nil rfl

/-- A name by itself names no class. -/
theorem allClasses_name (n : Name) : (name n).AllClasses isClass P Q := by
  induction n with
  | simple i type => exact .of_parts_eq_nil rfl
  | qualified lead outer last type ih =>
      have hparts : (name (.qualified lead outer last type)).parts =
          [name outer, ident last.element] :=
        rfl
      refine .intro (fun m hm c hc => ?_) (fun e he => ?_) fun m hm _ => ?_
      · rw [hparts, List.mem_cons, List.mem_singleton] at hm
        rcases hm with rfl | rfl <;> cases hc
      · rw [hparts, List.mem_cons, List.mem_singleton] at he
        rcases he with he | he <;> cases he
      · rw [hparts, List.mem_cons, List.mem_singleton] at hm
        rcases hm with rfl | rfl
        · exact ih
        · exact allClasses_ident last.element

/-- What is below a class is its name or a part. -/
theorem mem_children_classDecl {c : JavaClass} {m : Node}
    (hm : m ∈ (classDecl c).children) :
    m = name c.name ∨ m ∈ (classDecl c).parts := by
  rw [children, List.mem_append, List.mem_cons] at hm
  rw [parts, List.mem_append]
  rcases hm with hm | hm | hm
  · exact .inr (.inl hm)
  · exact .inl hm
  · exact .inr (.inr hm)

/-- A child that is no part is a name. -/
theorem isSpelling_of_not_mem_parts {n m : Node} (hm : m ∈ n.children)
    (hpart : m ∉ n.parts) : m.IsSpelling := by
  cases n with
  | classDecl c =>
      rcases mem_children_classDecl hm with rfl | hm
      · trivial
      · exact absurd hm hpart
  | _ => exact absurd hm hpart

/-- What holds of all names of classes in a tree holds below every node that is
not spelled itself. -/
theorem AllClasses.of_mem_walk {n m : Node} (hn : n.IsProper)
    (h : n.AllClasses isClass P Q) (hm : m ∈ n.walk)
    (hspelling : ¬ m.IsSpelling) : m.AllClasses isClass P Q := by
  revert hm h
  refine induction_on (P := fun n => n.AllClasses isClass P Q → m ∈ n.walk →
    m.AllClasses isClass P Q) ?_ hn
  intro n hn ih h hm
  rw [walk_eq hn] at hm
  obtain rfl | hm := List.mem_cons.1 hm
  · exact h
  · obtain ⟨k, hk, hm⟩ := List.mem_flatMap.1 hm
    have hwords (hword : k.IsSpelling) : m.AllClasses isClass P Q :=
      absurd (hword.walk (isProper_of_mem_children k hk) m hm) hspelling
    by_cases hpart : k ∈ n.parts
    · cases hin : n.classIn? isClass k with
      | some c => exact hwords (isSpelling_of_asName? (asName?_of_classIn? hin))
      | none => exact ih k hk (h.inside k hpart hin) hm
    · exact hwords (isSpelling_of_not_mem_parts hk hpart)

-- ================================================================= places

/-- The parts of a node but for the package and the imports of a file. -/
def rest : Node → List Node
  | unit cu => cu.classes.map classDecl
  | n => n.parts

/-- The parts that are left are parts. -/
theorem rest_subset (n : Node) : n.rest ⊆ n.parts := by
  cases n with
  | unit cu => exact List.subset_append_right _ _
  | _ => exact List.Subset.refl _

/-- The name of a class that the numbers of parts lead to. -/
def classAt? (isClass : String → Bool) : Node → List Nat → Option Name
  | _, [] => none
  | n, i :: place => n.rest[i]?.bind fun m =>
    match n.classIn? isClass m with
    | some c => if place = [] then some c else none
    | none => m.classAt? isClass place

/-- The class at a place is looked for in the part the place begins with. -/
theorem classAt?_cons (n : Node) (i : Nat) (place : List Nat) :
    n.classAt? isClass (i :: place) = n.rest[i]?.bind fun m =>
      match n.classIn? isClass m with
      | some c => if place = [] then some c else none
      | none => m.classAt? isClass place := rfl

/-- What holds of all names of classes holds of the one at a place. -/
theorem AllClasses.of_classAt? {n : Node} (h : n.AllClasses isClass P Q)
    {place : List Nat} {c : Name} (hc : n.classAt? isClass place = some c) :
    P c := by
  induction place generalizing n with
  | nil => cases hc
  | cons i place ih =>
      rw [classAt?_cons, Option.bind_eq_some_iff] at hc
      obtain ⟨m, hm, hc⟩ := hc
      have hmem : m ∈ n.parts := rest_subset n (List.mem_of_getElem? hm)
      cases hin : n.classIn? isClass m with
      | some c' =>
          rw [hin] at hc
          obtain rfl : c' = c := (Option.ite_none_right_eq_some.1 hc).2 |>
            Option.some.inj
          exact h.named m hmem c' hin
      | none =>
          rw [hin] at hc
          exact ih (h.inside m hmem hin) hc

end Node

end JavaRefit
