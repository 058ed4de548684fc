/-
Rewriting a tree from the leaves up.

# Two ways

A node function is called on each node of a tree, after the nodes below
it. The plain way (`Node.rewrite`) makes every node anew of its rewritten
children and hands that to the function. The other way (`Node.transform`)
keeps a node as it is for as long as none of its children is new, and knows
of the result whether it is the tree it was made from.

Both come to the same tree, or to none where a node is put in a slot that
is not for nodes of its sort. The second way calls the function once for
each node, on what the plain way has made of it by then, and its result is
new just where one of these calls gave another node
(`Node.rewritesExactly`).

# Editors

An editor is a node function that gives each node one of its sort, and so
there is always a result. The edit of a tree sort by sort is the second way
for that function (`Node.transform_onNode`).

Chain: after `Refill` and `Except`; read by the proofs on when a renaming
and a run change a file.
-/
import Mathlib.Data.List.Perm.Basic
import JavaRefit.Proofs.Except
import JavaRefit.Proofs.Tree.Refill

namespace JavaRefit

variable {ω β : Type}

/-- The node of a type that is no name. -/
theorem TypeTree.node_eq {t : TypeTree} (h : ∀ n, t ≠ .named n) :
    t.node = .typeTree t := by
  cases t with
  | named n => exact absurd rfl (h n)
  | _ => rfl

/-- The node of a statement that is no block, declaration or expression. -/
theorem Stmt.node_eq {s : Stmt} (hb : ∀ b, s ≠ .block b)
    (hd : ∀ d, s ≠ .declaration d) (he : ∀ e, s ≠ .expr e) :
    s.node = .stmt s := by
  cases s with
  | block b => exact absurd rfl (hb b)
  | declaration d => exact absurd rfl (hd d)
  | expr e => exact absurd rfl (he e)
  | _ => rfl

namespace Node

-- ================================================================= folds

/-- A walk is one node and the walks of the children. -/
theorem exists_walk_eq (n : Node) :
    ∃ m, n.walk = m :: n.children.flatMap walk := by
  cases n with
  | typeTree t =>
      have h := walk_eq t.isProper_node
      rw [TypeTree.walk_node, TypeTree.children_node] at h
      exact ⟨t.node, h⟩
  | stmt s =>
      have h := walk_eq s.isProper_node
      rw [Stmt.walk_node, Stmt.children_node] at h
      exact ⟨s.node, h⟩
  | _ => exact ⟨_, walk_eq (by constructor)⟩

/-- Below a node there are fewer nodes. -/
theorem length_walk_lt {m n : Node} (h : m ∈ n.children) :
    m.walk.length < n.walk.length := by
  obtain ⟨k, hk⟩ := n.exists_walk_eq
  obtain ⟨before, after, hn⟩ := List.append_of_mem h
  rw [hk, hn, List.flatMap_append, List.flatMap_cons]
  simp only [List.length_cons, List.length_append]
  omega

/-- What is made of a node and of what was made of its children. -/
def fold (h : Node → List β → β) (n : Node) : β :=
  h n (n.children.attach.map fun m => m.1.fold h)
termination_by n.walk.length
decreasing_by exact length_walk_lt m.2

/-- A fold is made of the folds of the children. -/
theorem fold_eq (h : Node → List β → β) (n : Node) :
    n.fold h = h n (n.children.map (fold h)) := by
  rw [fold, List.attach_map_val (f := fold h)]

/-- All nodes of a tree, each after the nodes below it. -/
def postorder : Node → List Node :=
  fold fun n parts => parts.flatten ++ [n]

/-- The children come before the node. -/
theorem postorder_eq (n : Node) :
    n.postorder = n.children.flatMap postorder ++ [n] := by
  rw [postorder, fold_eq, List.flatMap_def]

/-- They are the nodes that a walk meets. -/
theorem postorder_perm {n : Node} (hn : n.IsProper) :
    n.postorder.Perm n.walk := by
  refine induction_on (P := fun n => n.postorder.Perm n.walk)
    (fun n hn ih => ?_) hn
  rw [postorder_eq, walk_eq hn]
  exact (List.perm_append_singleton n _).trans
    ((List.Perm.flatMap_left n.children ih).cons n)

-- ============================================================== two ways

/-- Each node made anew of its rewritten children, and then rewritten itself;
none if a node does not fit into its slot. -/
def rewrite (g : Node → Node) : Node → Option Node :=
  fold fun n parts => ((parts.mapM id).bind n.withChildren?).map g

/-- A node made anew of its rewritten children. -/
def rebuilt? (g : Node → Node) (n : Node) : Option Node :=
  (n.children.mapM (rewrite g)).bind n.withChildren?

/-- The node with edited children, which is the node itself unless one of them
is new. -/
def withEdited? (n : Node) (es : List (Edited ω Node)) :
    Option (Edited ω Node) :=
  if es.any Edited.isNew then
    (n.withChildren? (es.map Edited.value)).map fun m =>
      ⟨m, true, es.flatMap Edited.notes⟩
  else some ⟨n, false, es.flatMap Edited.notes⟩

/-- The node function called on each node of a tree from the leaves up, where a
node is kept as long as its children are; none if a node does not fit into its
slot. -/
def transform (f : Node → Edited ω Node) : Node → Option (Edited ω Node) :=
  fold fun n parts => ((parts.mapM id).bind n.withEdited?).map
    fun e => e.andThen f

/-- A node function that also notes on which node it is called. -/
def traced (f : Node → Edited ω Node) (n : Node) : Edited Node Node :=
  ⟨(f n).value, (f n).isNew, [n]⟩

/-- The nodes that the function is called on, in the order of the calls. -/
def calls (f : Node → Edited ω Node) (n : Node) : Option (List Node) :=
  (n.transform (traced f)).map Edited.notes

/-- To rewrite a node is to rewrite the rebuilt one. -/
theorem rewrite_eq (g : Node → Node) (n : Node) :
    n.rewrite g = (n.rebuilt? g).map g := by
  rw [rewrite, fold_eq, List.mapM_map]
  rfl

/-- The children are transformed first, then the node that holds them. -/
theorem transform_eq (f : Node → Edited ω Node) (n : Node) :
    n.transform f =
      ((n.children.mapM (transform f)).bind n.withEdited?).map fun e =>
        e.andThen f := by
  rw [transform, fold_eq, List.mapM_map]
  rfl

-- ========================================================== what is kept

variable {r : Editor ω}

/-- The edit of a node by an honest editor is the node itself unless it is
new. -/
theorem honest_edit (hr : r.Honest) {n : Node} (hn : n.IsProper) :
    (n.edit r).Honest n := by
  cases hn with
  | ident i => exact (hr.ident i).map Node.ident
  | name n => exact (n.honest_edit hr).map Node.name
  | @typeTree t h =>
      have ht := (t.honest_edit hr).map TypeTree.node
      rwa [TypeTree.node_eq h] at ht
  | expr e => exact (e.honest_edit hr).map Node.expr
  | modifier m => exact (m.honest_edit hr).map Node.modifier
  | declarator v => exact (v.honest_edit hr).map Node.declarator
  | declaration d => exact (d.honest_edit hr).map Node.declaration
  | condition c => exact (Expr.honest_editCondition hr c).map Node.condition
  | parameter c =>
      exact (Variables.honest_editParameter hr c).map Node.parameter
  | catchClause c =>
      exact (Catch.honest_edit_of_statements hr fun p _ =>
        p.element.honest_edit hr).map _
  | elseBranch e =>
      rw [edit, Else.edit]
      exact (((e.body.element.honest_edit hr).map _).andThen
        hr.elseBranch).map _
  | block b =>
      exact (Stmt.honest_editBlock hr fun p _ => p.element.honest_edit hr).map _
  | @stmt s hb hd he =>
      have hs := (s.honest_edit hr).map Stmt.node
      rwa [Stmt.node_eq hb hd he] at hs
  | method m => exact (m.honest_edit hr).map Node.method
  | classBody b =>
      exact (Member.honest_editBlock hr fun p _ =>
        p.element.honest_edit hr).map _
  | classDecl c =>
      exact (ClassDecl.honest_edit_of_members hr fun p _ =>
        p.element.honest_edit hr).map _
  | package p =>
      exact (((p.name.honest_edit hr).map _).andThen hr.package).map _
  | importDecl i =>
      exact (((i.name.honest_edit hr).map _).andThen hr.importDecl).map _
  | unit cu => exact (cu.honest_edit hr).map Node.unit

/-- An honest editor is honest about each single node. -/
theorem honest_onNode (hr : r.Honest) {n : Node} (hn : n.IsProper) :
    (r.onNode n).Honest n := by
  cases hn with
  | ident i => exact (hr.ident i).map Node.ident
  | name n => exact (hr.name n).map Node.name
  | @typeTree t h =>
      have ht := (hr.typeTree t).map TypeTree.node
      rwa [TypeTree.node_eq h] at ht
  | expr e => exact (hr.expr e).map Node.expr
  | modifier m => exact (hr.modifier m).map Node.modifier
  | declarator v => exact (hr.declarator v).map Node.declarator
  | declaration d => exact (hr.declaration d).map Node.declaration
  | condition c => exact (hr.condition c).map Node.condition
  | parameter c => exact (hr.parameter c).map Node.parameter
  | catchClause c => exact (hr.catchClause c).map Node.catchClause
  | elseBranch e => exact (hr.elseBranch e).map Node.elseBranch
  | block b => exact (hr.block b).map Node.block
  | @stmt s hb hd he =>
      have hs := (hr.stmt s).map Stmt.node
      rwa [Stmt.node_eq hb hd he] at hs
  | method m => exact (hr.method m).map Node.method
  | classBody b => exact (hr.classBody b).map Node.classBody
  | classDecl c => exact (hr.classDecl c).map Node.classDecl
  | package p => exact (hr.package p).map Node.package
  | importDecl i => exact (hr.importDecl i).map Node.importDecl
  | unit cu => exact (hr.unit cu).map Node.unit

/-- An editor that does nothing makes nothing new. -/
theorem isNew_edit_idle {n : Node} (hn : n.IsProper) :
    (n.edit (.ofTry .keep : Editor ω)).isNew = false := by
  refine induction_on (P := fun n =>
    (n.edit (.ofTry .keep : Editor ω)).isNew = false)
    (fun n hn ih => ?_) hn
  have hone (m : Node) :
      ((.ofTry .keep : Editor ω).onNode m).isNew = false := by
    cases m with
    | stmt s => cases s <;> rfl
    | _ => rfl
  rw [isNew_edit hn, hone, Bool.or_false, List.any_eq_false]
  intro m hm
  rw [ih m hm]
  exact Bool.false_ne_true

/-- To edit nothing rebuilds the same node. -/
theorem rebuilt_idle {n : Node} (hn : n.IsProper) :
    n.rebuilt (.ofTry .keep : Editor ω) = n := by
  have hidle : (.ofTry .keep : Editor ω).Honest := Editor.honest_ofTry .keep
  have hnew := isNew_edit_idle (ω := ω) hn
  have hvalue := honest_edit hidle hn hnew
  rw [isNew_edit hn, Bool.or_eq_false_iff] at hnew
  rw [edit_eq hn, Edited.value_andThen,
    honest_onNode hidle (isProper_rebuilt hn) hnew.2] at hvalue
  exact hvalue

/-- Children that are not new are the children there were. -/
theorem values_edit (hr : r.Honest) {n : Node}
    (hnew : ∀ m ∈ n.children, (m.edit r).isNew = false) :
    (n.children.map fun m => (m.edit r).value) = n.children := by
  refine (List.map_congr_left fun m hm => ?_).trans (List.map_id _)
  exact honest_edit hr (isProper_of_mem_children m hm) (hnew m hm)

/-- A node has its children in their slots. -/
theorem withChildren?_children {n : Node} (hn : n.IsProper) :
    n.withChildren? n.children = some n := by
  have hchildren :=
    values_edit (r := (.ofTry .keep : Editor Empty)) (Editor.honest_ofTry .keep)
    fun m hm => isNew_edit_idle (isProper_of_mem_children (n := n) m hm)
  have h := withChildren?_edited (r := (.ofTry .keep : Editor Empty)) hn
  rwa [hchildren, rebuilt_idle hn] at h

/-- A node whose children are not new is rebuilt as it was. -/
theorem rebuilt_eq_self (hr : r.Honest) {n : Node} (hn : n.IsProper)
    (hnew : ∀ m ∈ n.children, (m.edit r).isNew = false) : n.rebuilt r = n := by
  have h := withChildren?_edited (r := r) hn
  rw [values_edit hr hnew, withChildren?_children hn] at h
  exact (Option.some.inj h).symm

-- ======================================================= edited children

section Children

variable {n : Node} {es : List (Edited ω Node)}

/-- What is made of honest edits is what they were made of, unless one of them
is new. -/
theorem values_eq {ns : List Node}
    (h : List.Forall₂ (fun m e => Edited.Honest m e) ns es)
    (hnew : es.any Edited.isNew = false) : es.map Edited.value = ns := by
  induction h with
  | nil => rfl
  | cons he _ ih =>
      rw [List.any_cons, Bool.or_eq_false_iff] at hnew
      rw [List.map_cons, he hnew.1, ih hnew.2]

/-- The node comes to have the edited children, be it kept or not. -/
theorem value_withEdited? (hn : n.IsProper)
    (h : List.Forall₂ (fun m e => Edited.Honest m e) n.children es) :
    (n.withEdited? es).map Edited.value =
      n.withChildren? (es.map Edited.value) := by
  unfold withEdited?
  by_cases hnew : es.any Edited.isNew = true
  · rw [if_pos hnew]
    cases n.withChildren? (es.map Edited.value) <;> rfl
  · rw [if_neg hnew, values_eq h (Bool.eq_false_iff.2 hnew),
      withChildren?_children hn]
    rfl

/-- A node is new iff a child is. -/
theorem isNew_of_withEdited? {d : Edited ω Node}
    (h : n.withEdited? es = some d) : d.isNew = es.any Edited.isNew := by
  unfold withEdited? at h
  split at h
  · next hnew =>
    obtain ⟨m, -, rfl⟩ := Option.map_eq_some_iff.1 h
    exact hnew.symm
  · next hnew =>
    cases h
    exact (Bool.eq_false_iff.2 hnew).symm

/-- The notes of a node are those of its children in order. -/
theorem notes_of_withEdited? {d : Edited ω Node}
    (h : n.withEdited? es = some d) : d.notes = es.flatMap Edited.notes := by
  unfold withEdited? at h
  split at h
  · obtain ⟨m, -, rfl⟩ := Option.map_eq_some_iff.1 h
    rfl
  · cases h
    rfl

/-- A node that takes honest children is edited honestly. -/
theorem honest_withEdited? {d : Edited ω Node} (h : n.withEdited? es = some d) :
    d.Honest n := by
  intro hnew
  have hes := isNew_of_withEdited? h
  unfold withEdited? at h
  rw [if_neg (Bool.eq_false_iff.1 (hes.symm.trans hnew))] at h
  cases h
  rfl

end Children

-- ============================================================ both agree

variable {f : Node → Edited ω Node}

/-- A tree that is not new is the tree it was made from. -/
theorem honest_transform (hf : ∀ m : Node, m.IsProper → (f m).Honest m)
    {n : Node} (hn : n.IsProper) {e : Edited ω Node}
    (h : n.transform f = some e) : e.Honest n := by
  rw [transform_eq] at h
  obtain ⟨d, hd, rfl⟩ := Option.map_eq_some_iff.1 h
  obtain ⟨es, -, hd⟩ := Option.bind_eq_some_iff.1 hd
  intro hnew
  obtain ⟨hdnew, hfnew⟩ := Bool.or_eq_false_iff.1 hnew
  have hvalue : d.value = n := honest_withEdited? hd hdnew
  rw [hvalue] at hfnew
  rw [Edited.value_andThen, hvalue, hf n hn hfnew]

/-- Where both ways agree on the children of a node, they rebuild it alike. -/
theorem rebuilt?_eq_of_children (hf : ∀ m : Node, m.IsProper → (f m).Honest m)
    {n : Node} (hn : n.IsProper) (h : ∀ m ∈ n.children,
      (m.transform f).map Edited.value = m.rewrite fun m => (f m).value) :
    n.rebuilt? (fun m => (f m).value) =
      ((n.children.mapM (transform f)).bind n.withEdited?).map
        Edited.value := by
  rw [rebuilt?, ← mapM_congr h, mapM_map_option]
  cases hes : n.children.mapM (transform f) with
  | none => rfl
  | some es =>
      have hhonest : List.Forall₂ (fun m e => Edited.Honest m e)
          n.children es :=
        forall₂_of_mapM_eq_some
          (fun m hm _ he =>
            honest_transform hf (isProper_of_mem_children m hm) he) hes
      exact (value_withEdited? hn hhonest).symm

/-- Both ways come to the same tree, or to none. -/
theorem value_transform (hf : ∀ m : Node, m.IsProper → (f m).Honest m)
    {n : Node} (hn : n.IsProper) :
    (n.transform f).map Edited.value = n.rewrite fun m => (f m).value := by
  refine induction_on
    (P := fun n => (n.transform f).map Edited.value = n.rewrite fun m =>
      (f m).value)
    (fun n hn ih => ?_) hn
  rw [rewrite_eq, rebuilt?_eq_of_children hf hn ih, transform_eq,
    Option.map_map, Option.map_map]
  rfl

/-- There is a result for a function that gives each node one that may stand
where the node did. -/
theorem exists_transform (hf : ∀ m : Node, m.Admits (f m).value) {n : Node}
    (hn : n.IsProper) : ∃ e, n.transform f = some e ∧ n.Admits e.value := by
  refine induction_on (P := fun n => ∃ e, n.transform f = some e ∧
    n.Admits e.value)
    (fun n hn ih => ?_) hn
  obtain ⟨es, hes, hadmits⟩ := exists_mapM_eq_some ih
  obtain ⟨d, hd, hnd⟩ : ∃ d, n.withEdited? es = some d ∧ n.Admits d.value := by
    unfold withEdited?
    split
    · rw [← List.forall₂_map_right_iff (f := Edited.value)] at hadmits
      obtain ⟨m, hm⟩ := exists_withChildren? hn hadmits
      rw [hm]
      exact ⟨_, rfl, admits_of_withChildren? hm⟩
    · exact ⟨_, rfl, .refl n⟩
  refine ⟨d.andThen f, ?_, hnd.trans (hf d.value)⟩
  rw [transform_eq, hes, Option.bind_some, hd]
  rfl

-- ============================================================= the calls

/-- A rewriting that has the nodes of its calls as notes, with the notes of
these calls instead. -/
def explained (f : Node → Edited ω Node) (e : Edited Node Node) :
    Edited ω Node :=
  ⟨e.value, e.isNew, e.notes.flatMap fun m => (f m).notes⟩

/-- Calls that are traced are explained by the plain edit. -/
theorem explained_andThen (e : Edited Node Node) :
    explained f (e.andThen (traced f)) = (explained f e).andThen f := by
  unfold explained traced Edited.andThen
  simp only [List.flatMap_append, List.flatMap_singleton]

/-- Children may be explained before or after they are taken. -/
theorem withEdited?_explained (n : Node) (es : List (Edited Node Node)) :
    n.withEdited? (es.map (explained f)) =
      (n.withEdited? es).map (explained f) := by
  have hnew : (es.map (explained f)).any Edited.isNew = es.any Edited.isNew :=
    List.any_map
  have hvalues : (es.map (explained f)).map Edited.value =
      es.map Edited.value := List.map_map
  have hnotes : (es.map (explained f)).flatMap Edited.notes =
      (es.flatMap Edited.notes).flatMap fun m => (f m).notes := by
    rw [List.flatMap_map, List.flatMap_assoc]
    rfl
  unfold withEdited?
  rw [hnew, hvalues, hnotes]
  split
  · cases n.withChildren? (es.map Edited.value) <;> rfl
  · rfl

/-- The notes of a rewriting are those of its calls, in their order. -/
theorem transform_eq_explained {n : Node} (hn : n.IsProper) :
    n.transform f = (n.transform (traced f)).map (explained f) := by
  refine induction_on (P := fun n =>
    n.transform f = (n.transform (traced f)).map (explained f))
    (fun n hn ih => ?_) hn
  rw [transform_eq, transform_eq, mapM_congr ih, mapM_map_option]
  cases n.children.mapM (transform (traced f)) with
  | none => rfl
  | some es =>
      show ((n.withEdited? (es.map (explained f))).map _) =
        ((n.withEdited? es).map _).map _
      rw [withEdited?_explained, Option.map_map, Option.map_map]
      exact congrArg (Option.map · (n.withEdited? es))
        (funext fun e => (explained_andThen e).symm)

/-- The notes `handed` are the nodes of the calls on a tree: what the plain way
has made of the nodes of the tree, each after the nodes below it. The result is
new just where a call gave another node. -/
structure TellsCalls (f : Node → Edited ω Node) (nodes handed : List Node)
    (isNew : Bool) : Prop where
  handed_eq : handed.map some = nodes.map (rebuilt? fun m => (f m).value)
  isNew_eq : isNew = handed.any fun m => (f m).isNew

namespace TellsCalls

variable {nodes nodes' handed handed' : List Node} {isNew isNew' : Bool}

/-- The calls at two runs of nodes, one behind the other. -/
theorem append (h : TellsCalls f nodes handed isNew)
    (h' : TellsCalls f nodes' handed' isNew') :
    TellsCalls f (nodes ++ nodes') (handed ++ handed') (isNew || isNew') where
  handed_eq := by
    rw [List.map_append, List.map_append, h.handed_eq, h'.handed_eq]
  isNew_eq := by rw [List.any_append, ← h.isNew_eq, ← h'.isNew_eq]

/-- The calls at nodes in a row are those at each. -/
theorem all {ns : List Node} {es : List (Edited Node Node)}
    (h : List.Forall₂ (fun m e => TellsCalls f m.postorder e.notes e.isNew)
      ns es) :
    TellsCalls f (ns.flatMap postorder) (es.flatMap Edited.notes)
      (es.any Edited.isNew) := by
  induction h with
  | nil => exact ⟨rfl, rfl⟩
  | cons he _ ih => exact he.append ih

/-- The call at one node is told by the node it is handed. -/
theorem single {m n : Node} (h : n.rebuilt? (fun m => (f m).value) = some m) :
    TellsCalls f [n] [m] (f m).isNew where
  handed_eq := congrArg (fun o => [o]) h.symm
  isNew_eq := (Bool.or_false _).symm

end TellsCalls

/-- The function is called once for each node of a tree. -/
theorem tellsCalls_transform (hf : ∀ m : Node, m.IsProper → (f m).Honest m)
    {n : Node} (hn : n.IsProper) {e : Edited Node Node}
    (h : n.transform (traced f) = some e) :
    TellsCalls f n.postorder e.notes e.isNew := by
  refine induction_on (P := fun n => ∀ e, n.transform (traced f) = some e →
    TellsCalls f n.postorder e.notes e.isNew) (fun n hn ih e h => ?_) hn e h
  have htraced : ∀ m : Node, m.IsProper → (traced f m).Honest m := hf
  have hrebuilt : n.rebuilt? (fun m => (f m).value) = _ :=
    rebuilt?_eq_of_children htraced hn fun m hm =>
      value_transform htraced (isProper_of_mem_children m hm)
  rw [transform_eq] at h
  obtain ⟨d, hd, rfl⟩ := Option.map_eq_some_iff.1 h
  rw [hd] at hrebuilt
  obtain ⟨es, hes, hd⟩ := Option.bind_eq_some_iff.1 hd
  have hchildren := TellsCalls.all (forall₂_of_mapM_eq_some ih hes)
  rw [← notes_of_withEdited? hd, ← isNew_of_withEdited? hd] at hchildren
  rw [postorder_eq]
  exact hchildren.append (.single hrebuilt)

-- ============================================================= exactness

/-- Rewriting a tree with `f` is exact: it comes to the tree of the plain way,
by one call for each node of the tree on what the plain way has made of it by
then. The tree is another one just where one of these calls gave another
node. -/
structure RewritesExactly (f : Node → Edited ω Node) (n : Node) : Prop where
  sameTree : (n.transform f).map Edited.value = n.rewrite fun m => (f m).value
  calls : ∀ e, n.transform f = some e → ∃ handed, n.calls f = some handed ∧
    handed.map some = n.postorder.map (rebuilt? fun m => (f m).value) ∧
    e.notes = handed.flatMap (fun m => (f m).notes) ∧
    (e.isNew = true ↔ ∃ m ∈ handed, (f m).isNew = true)
  kept : ∀ e, n.transform f = some e → e.isNew = false → e.value = n
  result : (∀ m : Node, m.Admits (f m).value) → ∃ e, n.transform f = some e

/-- An honest function on nodes rewrites exactly: by induction on the walk. -/
theorem rewritesExactly (hf : ∀ m : Node, m.IsProper → (f m).Honest m)
    {n : Node} (hn : n.IsProper) : RewritesExactly f n where
  sameTree := value_transform hf hn
  kept _ h := honest_transform hf hn h
  result hadmits := by
    obtain ⟨e, he, -⟩ := exists_transform hadmits hn
    exact ⟨e, he⟩
  calls e h := by
    rw [transform_eq_explained hn] at h
    obtain ⟨t, ht, rfl⟩ := Option.map_eq_some_iff.1 h
    have hcalls := tellsCalls_transform hf hn ht
    refine ⟨t.notes, ?_, hcalls.handed_eq, rfl, ?_⟩
    · rw [calls, ht]
      rfl
    · show t.isNew = true ↔ _
      rw [hcalls.isNew_eq, List.any_eq_true]

-- =============================================================== editors

/-- The edited children of a node, as an editor makes them, come to the rebuilt
node. -/
theorem withEdited?_edited (hr : r.Honest) {n : Node} (hn : n.IsProper) :
    n.withEdited? (n.children.map (edit r)) = some ⟨n.rebuilt r,
      n.children.any fun m => (m.edit r).isNew, n.children.flatMap fun m =>
        (m.edit r).notes⟩ := by
  have hhonest : List.Forall₂ (fun m e => Edited.Honest m e) n.children
      (n.children.map (edit r)) := by
    rw [List.forall₂_map_right_iff, List.forall₂_same]
    exact fun m hm => honest_edit hr (isProper_of_mem_children m hm)
  have hvalue := value_withEdited? hn hhonest
  rw [List.map_map] at hvalue
  replace hvalue := hvalue.trans (withChildren?_edited hn)
  obtain ⟨d, hd, hdvalue⟩ := Option.map_eq_some_iff.1 hvalue
  have hnew := isNew_of_withEdited? hd
  have hnotes := notes_of_withEdited? hd
  rw [List.any_map] at hnew
  rw [List.flatMap_map] at hnotes
  rw [hd, ← hdvalue]
  exact congrArg some (congrArg₂ (Edited.mk d.value) hnew hnotes)

/-- The edit of a tree is its rewriting with what the editor does to single
nodes. -/
theorem transform_onNode (hr : r.Honest) {n : Node} (hn : n.IsProper) :
    n.transform r.onNode = some (n.edit r) := by
  refine induction_on (P := fun n => n.transform r.onNode = some (n.edit r))
    (fun n hn ih => ?_) hn
  have hchildren : n.children.mapM (transform r.onNode) =
      some (n.children.map (edit r)) := by
    rw [mapM_eq_some_iff, List.forall₂_map_right_iff, List.forall₂_same]
    exact ih
  rw [transform_eq, hchildren, Option.bind_some,
    withEdited?_edited hr hn, edit_eq hn]
  rfl

end Node

end JavaRefit
