/-
The children of a node in an edit.

An edit of a node takes the edited children into their slots, is new as
soon as one of them is and has their notes in their order (`Refill.Takes`);
then the editor's function for nodes of its sort is called once
(`Node.takes_refill`). This is the one place where the edit of a node is
compared with the node, sort by sort.

Chain: after `Slot`, `Rebuilt` and `Honest`; read by the proofs about
rewriting.
-/
import Mathlib.Data.List.Forall2
import JavaRefit.Proofs.Tree.Honest
import JavaRefit.Proofs.Tree.Rebuilt
import JavaRefit.Proofs.Tree.Slot

namespace JavaRefit

open Refill

/-- Nothing is added to an edit by a part that is kept. -/
theorem Edited.seq_keep {ω α β : Type} (f : Edited ω (α → β)) (a : α) :
    f <*> .keep a = (fun g => g a) <$> f := by
  show (⟨f.value a, f.isNew || false, f.notes ++ []⟩ : Edited ω β) = _
  rw [Bool.or_false, List.append_nil]
  rfl

-- ========================================================= one level down

namespace Refill

variable {ω α β : Type} {g : Node → Edited ω Node}

/-- The edited children `ns` are taken for `e`: the refill makes its value of
their values, it is new as soon as one of them is, and their notes come in
order. Nodes of the same sorts are taken as well. -/
structure Takes (g : Node → Edited ω Node) (ns : List Node) (k : Refill α)
    (e : Edited ω α) : Prop where
  run : ∀ rest, k.run (ns.map (fun m => (g m).value) ++ rest) =
    some (e.value, rest)
  isNew : e.isNew = ns.any fun m => (g m).isNew
  notes : e.notes = ns.flatMap fun m => (g m).notes
  accepts : ∀ rest ms, List.Forall₂ Node.Admits (ns ++ rest) ms →
    ∃ a left, k.run ms = some (a, left) ∧ List.Forall₂ Node.Admits rest left

namespace Takes

variable {ns ns' : List Node} {k : Refill α} {e : Edited ω α}

/-- Where nothing is edited no node is taken. -/
theorem pure (a : α) : Takes g [] (Pure.pure a) (.keep a) where
  run _ := rfl
  isNew := rfl
  notes := rfl
  accepts _ ms h := ⟨a, ms, rfl, h⟩

/-- A function is applied to what is refilled and to what is edited. -/
theorem map (f : α → β) (h : Takes g ns k e) :
    Takes g ns (f <$> k) (f <$> e) where
  run rest := by
    rw [StateT.run_map, h.run]
    rfl
  isNew := h.isNew
  notes := h.notes
  accepts rest ms hms := by
    obtain ⟨a, left, hrun, hleft⟩ := h.accepts rest ms hms
    refine ⟨f a, left, ?_, hleft⟩
    rw [StateT.run_map, hrun]
    rfl

/-- Two parts take their nodes one behind the other. -/
theorem seq {kf : Refill (α → β)} {ef : Edited ω (α → β)}
    (hf : Takes g ns kf ef) (h : Takes g ns' k e) :
    Takes g (ns ++ ns') (kf <*> k) (ef <*> e) where
  run rest := by
    rw [StateT.run_seq, List.map_append, List.append_assoc, hf.run]
    show (_ <$> k.run _) = _
    rw [h.run]
    rfl
  isNew := by rw [List.any_append, ← hf.isNew, ← h.isNew, Edited.isNew_seq]
  notes := by
    rw [List.flatMap_append, ← hf.notes, ← h.notes]
    rfl
  accepts rest ms hms := by
    rw [List.append_assoc] at hms
    obtain ⟨f, mid, hrun, hmid⟩ := hf.accepts _ ms hms
    obtain ⟨a, left, hrun', hleft⟩ := h.accepts rest mid hmid
    refine ⟨f a, left, ?_, hleft⟩
    rw [StateT.run_seq, hrun]
    show (_ <$> k.run _) = _
    rw [hrun']
    rfl

/-- A slot takes an edited node of its sort. -/
theorem next (s : Slot α) {a : α} (h : g (s.node a) = s.node <$> e) :
    Takes g [s.node a] (Refill.next s) e where
  run rest := by
    show (s.read (g (s.node a)).value).map _ = _
    rw [h, Edited.value_map, s.read_node]
    rfl
  isNew := by
    rw [List.any_cons, List.any_nil, Bool.or_false, h, Edited.isNew_map]
  notes := by
    rw [List.flatMap_singleton, h]
    rfl
  accepts rest ms hms := by
    obtain ⟨m, left, hm, hleft, rfl⟩ := List.forall₂_cons_left_iff.1 hms
    obtain ⟨b, hb⟩ := s.read_of_admits a m hm
    refine ⟨b, left, ?_, hleft⟩
    show (s.read m).map _ = _
    rw [hb]
    rfl

/-- A function that edits a list item by item takes the nodes of the items one
by one. -/
theorem all {k : α → Refill β} {node : α → Node} {f : α → Edited ω β}
    (fs : List α → Edited ω (List β)) (nil : fs [] = .keep [])
    (cons : ∀ a as, fs (a :: as) = (· :: ·) <$> f a <*> fs as)
    (h : ∀ a, Takes g [node a] (k a) (f a)) (as : List α) :
    Takes g (as.map node) (Refill.all k as) (fs as) := by
  induction as with
  | nil =>
      rw [nil]
      exact .pure []
  | cons a as ih =>
      rw [cons]
      exact ((h a).map (· :: ·)).seq ih

/-- A part that may be missing takes the node of the part that is there. -/
theorem option {k : α → Refill β} {node : α → Node} {f : α → Edited ω β}
    (fs : Option α → Edited ω (Option β)) (none : fs none = .keep none)
    (some : ∀ a, fs (some a) = Option.some <$> f a)
    (h : ∀ a, Takes g [node a] (k a) (f a)) (o : Option α) :
    Takes g (o.toList.map node) (Refill.option k o) (fs o) := by
  cases o with
  | none =>
      rw [none]
      exact .pure Option.none
  | some a =>
      rw [some]
      exact (h a).map Option.some

section Padded

variable (s : Slot α) {f : α → Edited ω α}
  (h : ∀ a, Takes g [s.node a] (Refill.next s) (f a))
include h

/-- A padded part takes its node and keeps what is behind it. -/
theorem right (p : RightPadded α) :
    Takes g [s.node p.element] (Refill.right s p)
      ((⟨·, p.after⟩) <$> f p.element) :=
  (h p.element).map _

/-- A padded part takes its node and keeps what is before it. -/
theorem left (p : LeftPadded α) :
    Takes g [s.node p.element] (Refill.left s p)
      ((⟨p.before, ·⟩) <$> f p.element) :=
  (h p.element).map _

/-- Padded parts in a row take their nodes in order. -/
theorem rights (fs : List (RightPadded α) → Edited ω (List (RightPadded α)))
    (nil : fs [] = .keep [])
    (cons : ∀ p ps, fs (p :: ps) = (fun a as => ⟨a, p.after⟩ :: as) <$>
      f p.element <*> fs ps) (ps : List (RightPadded α)) :
    Takes g (ps.map fun p => s.node p.element)
      (Refill.all (Refill.right s) ps) (fs ps) :=
  all fs nil cons (right s h) ps

theorem container (fs : List (RightPadded α) → Edited ω (List (RightPadded α)))
    (nil : fs [] = .keep [])
    (cons : ∀ p ps, fs (p :: ps) = (fun a as => ⟨a, p.after⟩ :: as) <$>
      f p.element <*> fs ps) (c : Container α) :
    Takes g (c.items.map s.node) (Refill.container s c)
      ((⟨c.before, ·, c.close⟩) <$> fs c.elements) := by
  rw [Container.items, List.map_map]
  exact (rights s h fs nil cons c.elements).map _

end Padded

end Takes

end Refill

-- =============================================================== an edit

variable {ω : Type} (r : Editor ω)

namespace Node

/-- The edit of a node, of whatever sort. -/
def edit : Node → Edited ω Node
  | ident i => .ident <$> r.ident i
  | name n => .name <$> n.edit r
  | typeTree t => TypeTree.node <$> t.edit r
  | expr e => .expr <$> e.edit r
  | modifier m => .modifier <$> m.edit r
  | declarator v => .declarator <$> v.edit r
  | declaration d => .declaration <$> d.edit r
  | condition c => .condition <$> Expr.editCondition r c
  | parameter c => .parameter <$> Variables.editParameter r c
  | catchClause c => .catchClause <$> c.edit r
  | elseBranch e => .elseBranch <$> e.edit r
  | block b => .block <$> Stmt.editBlock r b
  | stmt s => Stmt.node <$> s.edit r
  | method m => .method <$> m.edit r
  | classBody b => .classBody <$> Member.editBlock r b
  | classDecl c => .classDecl <$> c.edit r
  | package p =>
    .package <$> ((fun name => (⟨p.lead, name⟩ : Package)) <$>
      p.name.edit r).andThen r.package
  | importDecl i =>
    .importDecl <$> ((fun name => (⟨i.lead, i.static?, name⟩ : Import)) <$>
      i.name.edit r).andThen r.importDecl
  | unit cu => .unit <$> cu.edit r

end Node

/-- What an editor does to a single node: a node function that gives each node
one of its sort. -/
def Editor.onNode : Node → Edited ω Node
  | .ident i => .ident <$> r.ident i
  | .name n => .name <$> r.name n
  | .typeTree t => TypeTree.node <$> r.typeTree t
  | .expr e => .expr <$> r.expr e
  | .modifier m => .modifier <$> r.modifier m
  | .declarator v => .declarator <$> r.declarator v
  | .declaration d => .declaration <$> r.declaration d
  | .condition c => .condition <$> r.condition c
  | .parameter c => .parameter <$> r.parameter c
  | .catchClause c => .catchClause <$> r.catchClause c
  | .elseBranch e => .elseBranch <$> r.elseBranch e
  | .block b => .block <$> r.block b
  | .stmt s => Stmt.node <$> r.stmt s
  | .method m => .method <$> r.method m
  | .classBody b => .classBody <$> r.classBody b
  | .classDecl c => .classDecl <$> r.classDecl c
  | .package p => .package <$> r.package p
  | .importDecl i => .importDecl <$> r.importDecl i
  | .unit cu => .unit <$> r.unit cu

variable {r}

theorem TypeTree.edit_node (t : TypeTree) :
    t.node.edit r = TypeTree.node <$> t.edit r := by
  cases t <;> rfl

theorem Stmt.edit_node (s : Stmt) : s.node.edit r = Stmt.node <$> s.edit r := by
  cases s <;> rfl

theorem Member.edit_node (m : Member) :
    m.node.edit r = Member.node <$> m.edit r := by
  cases m <;> rfl

namespace Refill

variable (r)

theorem takes_ident (i : Ident) :
    Takes (Node.edit r) [.ident i] (next .ident) (r.ident i) :=
  .next .ident rfl

theorem takes_name (n : Name) :
    Takes (Node.edit r) [.name n] (next .name) (n.edit r) :=
  .next .name rfl

theorem takes_typeTree (t : TypeTree) :
    Takes (Node.edit r) [t.node] (next .typeTree) (t.edit r) :=
  .next .typeTree t.edit_node

theorem takes_expr (e : Expr) :
    Takes (Node.edit r) [.expr e] (next .expr) (e.edit r) :=
  .next .expr rfl

theorem takes_declaration (d : Variables) :
    Takes (Node.edit r) [.declaration d] (next .declaration) (d.edit r) :=
  .next .declaration rfl

theorem takes_condition (c : Parens Expr) :
    Takes (Node.edit r) [.condition c] (next .condition)
      (Expr.editCondition r c) :=
  .next .condition rfl

theorem takes_block (b : Block Stmt) :
    Takes (Node.edit r) [.block b] (next .block) (Stmt.editBlock r b) :=
  .next .block rfl

theorem takes_stmt (s : Stmt) :
    Takes (Node.edit r) [s.node] (next .stmt) (s.edit r) :=
  .next .stmt s.edit_node

/-- Types in a row take their nodes in order. -/
theorem takes_types (ps : List (RightPadded TypeTree)) :
    Takes (Node.edit r) (ps.map fun p => p.element.node)
      (all (right .typeTree) ps) (TypeTree.editAll r ps) :=
  .rights .typeTree (takes_typeTree r) (TypeTree.editAll r) rfl
    (fun _ _ => rfl) ps

theorem takes_args (c : Container Expr) :
    Takes (Node.edit r) (c.items.map .expr) (container .expr c)
      ((⟨c.before, ·, c.close⟩) <$> Expr.editAll r c.elements) :=
  .container .expr (takes_expr r) (Expr.editAll r) rfl (fun _ _ => rfl) c

/-- Modifiers in a row take their nodes in order. -/
theorem takes_modifiers (ms : List Modifier) :
    Takes (Node.edit r) (ms.map .modifier) (all (fun _ => next .modifier) ms)
      (Modifier.editAll r ms) :=
  .all (Modifier.editAll r) rfl (fun _ _ => rfl)
    (fun _ => .next .modifier rfl) ms

/-- What a keyword introduces takes its nodes in order. -/
theorem takes_list (o : Option (Container TypeTree)) :
    Takes (Node.edit r) (TypeTree.listNodes o) (option (container .typeTree) o)
      (TypeTree.editList r o) := by
  cases o with
  | none => exact .pure none
  | some c =>
      exact (Takes.container .typeTree (takes_typeTree r) (TypeTree.editAll r)
        rfl (fun _ _ => rfl) c).map some

end Refill

-- ========================================================== sort by sort

open Refill (takes_ident takes_name takes_typeTree takes_expr takes_declaration
  takes_condition
  takes_block takes_stmt takes_types takes_args takes_modifiers takes_list)

/-- The children of a node are taken in its edit, before the editor's function
`f` for nodes of its sort is called. -/
def Refill.TakesChildren {α : Type} (r : Editor ω) (ns : List Node)
    (k : Refill α) (rebuilt : α) (f : α → Edited ω α)
    (edited : Edited ω α) : Prop :=
  ∃ e, Takes (Node.edit r) ns k e ∧ e.value = rebuilt ∧ edited = e.andThen f

/-- A name takes its children in the order they are edited in. -/
theorem Name.takes_refill (n : Name) :
    TakesChildren r (Node.nameChildren n) n.refill (n.rebuilt r) r.name
      (n.edit r) := by
  cases n with
  | simple i type => exact ⟨_, .pure _, rfl, rfl⟩
  | qualified lead outer last type =>
      exact ⟨_, ((takes_name r outer).map _).seq
        (.left .ident (takes_ident r) last), rfl, rfl⟩

/-- A type takes its children in the order they are edited in. -/
theorem TypeTree.takes_refill {t : TypeTree} (h : ∀ n, t ≠ .named n) :
    TakesChildren r (Node.typeTreeChildren t) t.refill (t.rebuilt r) r.typeTree
      (t.edit r) := by
  cases t with
  | named n => exact absurd rfl (h n)
  | generic lead base args type =>
      exact ⟨_, ((takes_name r base).map _).seq
        (.container .typeTree (takes_typeTree r) (TypeTree.editAll r) rfl
          (fun _ _ => rfl) args), rfl, rfl⟩
  | primitive lead keyword type => exact ⟨_, .pure _, rfl, rfl⟩
  | array lead element dimension type =>
      exact ⟨_, (takes_typeTree r element).map _, rfl, rfl⟩
  | union lead alternatives =>
      exact ⟨_, (takes_types r alternatives).map _, rfl, rfl⟩

/-- An expression takes its children in the order they are edited in. -/
theorem Expr.takes_refill (e : Expr) :
    TakesChildren r (Node.exprChildren e) e.refill (e.rebuilt r) r.expr
      (e.edit r) := by
  cases e with
  | ident i type => exact ⟨_, .pure _, rfl, rfl⟩
  | access lead target last type =>
      exact ⟨_, ((takes_expr r target).map _).seq
        (.left .ident (takes_ident r) last), rfl, rfl⟩
  | call lead select name args method =>
      have hselect : Takes (Node.edit r) (select.toList.map fun p =>
          .expr p.element)
          (option (right .expr) select) (Expr.editSelect r select) :=
        .option (Expr.editSelect r) rfl (fun _ => rfl)
          (.right .expr (takes_expr r)) select
      have h :=
        ((hselect.map fun select name args =>
          Expr.call lead select name args method).seq
        (takes_ident r name)).seq (takes_args r args)
      rw [List.append_assoc] at h
      exact ⟨_, h, rfl, rfl⟩
  | new lead base args constructor type =>
      exact ⟨_, ((takes_typeTree r base).map _).seq (takes_args r args),
        rfl, rfl⟩
  | literal lead text type => exact ⟨_, .pure _, rfl, rfl⟩
  | assign lead target value type =>
      exact ⟨_, ((takes_expr r target).map _).seq
        (.left .expr (takes_expr r) value), rfl, rfl⟩
  | binary lead left operator right type =>
      exact ⟨_, ((takes_expr r left).map _).seq (takes_expr r right), rfl, rfl⟩
  | unary lead operator operand type =>
      exact ⟨_, (takes_expr r operand).map _, rfl, rfl⟩
  | parens lead inner type =>
      exact ⟨_, (Takes.right .expr (takes_expr r) inner).map _, rfl, rfl⟩

/-- An annotation takes its name and arguments in the order they are
edited in. -/
theorem Modifier.takes_refill (m : Modifier) :
    TakesChildren r (Node.modifierChildren m) m.refill (m.rebuilt r) r.modifier
      (m.edit r) := by
  cases m with
  | keyword lead word => exact ⟨_, .pure _, rfl, rfl⟩
  | annotated lead name args =>
      cases args with
      | none =>
          have h := ((takes_name r name).map fun name args =>
            Modifier.annotated lead name args).seq (.pure none)
          rw [Edited.seq_keep] at h
          exact ⟨_, h, rfl, rfl⟩
      | some c =>
          have h := ((takes_name r name).map fun name args =>
            Modifier.annotated lead name args).seq
            ((takes_args r c).map some)
          rw [← List.append_nil (c.items.map Node.expr)] at h
          exact ⟨_, h, rfl, rfl⟩

theorem Variable.takes_refill (v : Variable) :
    TakesChildren r (Node.declarator v).children v.refill
      ⟨v.lead, (v.name.edit r).value,
        (LeftPadded.editExpr r v.initializer).value, v.type⟩
      r.declarator (v.edit r) := by
  have h : Takes (Node.edit r) (v.initializer.toList.map fun i =>
      .expr i.element)
      (option (left .expr) v.initializer)
        (LeftPadded.editExpr r v.initializer) :=
    .option (LeftPadded.editExpr r) rfl (fun _ => rfl)
      (.left .expr (takes_expr r)) v.initializer
  exact ⟨_, ((takes_name r v.name).map _).seq h, rfl, rfl⟩

theorem Variables.takes_refill (d : Variables) :
    TakesChildren r (Node.variablesChildren d) d.refill
      ⟨d.lead, (Modifier.editAll r d.modifiers).value,
        (d.typeTree.edit r).value,
        (Variable.editAll r d.declarators).value⟩ r.declaration (d.edit r) := by
  have hone (v : Variable) :
      Takes (Node.edit r) [.declarator v] (next .declarator) (v.edit r) :=
    .next .declarator rfl
  have h : Takes (Node.edit r) (d.declarators.map fun p =>
      .declarator p.element)
      (all (right .declarator) d.declarators)
        (Variable.editAll r d.declarators) :=
    .rights .declarator hone (Variable.editAll r) rfl (fun _ _ => rfl)
      d.declarators
  have hd :=
    (((takes_modifiers r d.modifiers).map fun modifiers typeTree declarators =>
    (⟨d.lead, modifiers, typeTree, declarators⟩ : Variables)).seq
      (takes_typeTree r d.typeTree)).seq h
  rw [List.append_assoc] at hd
  exact ⟨_, hd, rfl, rfl⟩

/-- A block takes its statements in order. -/
theorem Stmt.takes_refillBlock (b : Block Stmt) :
    TakesChildren r (b.statements.map fun p => p.element.node)
      (Refill.block .stmt b)
      ⟨b.lead, (Stmt.editAll r b.statements).value, b.close⟩ r.block
        (Stmt.editBlock r b) := by
  have h : Takes (Node.edit r) (b.statements.map fun p => p.element.node)
      (all (right .stmt) b.statements) (Stmt.editAll r b.statements) :=
    .rights .stmt (takes_stmt r) (Stmt.editAll r) rfl (fun _ _ => rfl)
      b.statements
  refine ⟨_, h.map _, rfl, ?_⟩
  rw [Stmt.editBlock]

/-- A clause takes its parameter and its body. -/
theorem Catch.takes_refill (c : Catch Stmt) :
    TakesChildren r (Node.catchClause c).children c.refill
      ⟨c.lead, (Variables.editParameter r c.parameter).value,
        (Stmt.editBlock r c.body).value⟩
      r.catchClause (c.edit r) := by
  have hparameter :
      Takes (Node.edit r) [.parameter c.parameter] (next .parameter)
      (Variables.editParameter r c.parameter) := .next .parameter rfl
  rw [Catch.edit]
  exact ⟨_, (hparameter.map _).seq (takes_block r c.body), rfl, rfl⟩

/-- A try takes its body, its clauses and its last block. -/
theorem Try.takes_refill (t : Try Stmt) :
    Takes (Node.edit r) (Node.tryChildren t) t.refill (Try.editParts r t) := by
  have hcatches : Takes (Node.edit r) (t.catches.map .catchClause)
      (all (fun _ => next .catchClause) t.catches)
        (Catch.editAll r t.catches) :=
    .all (Catch.editAll r) rfl (fun _ _ => rfl)
      (fun c => .next (e := c.edit r) .catchClause rfl) t.catches
  have hfinally : Takes (Node.edit r) (t.finally?.toList.map fun f =>
      .block f.element)
      (option (left .block) t.finally?) (Stmt.editFinally r t.finally?) :=
    .option (Stmt.editFinally r) rfl (fun _ => rfl)
      (.left .block (takes_block r)) t.finally?
  have h := (((takes_block r t.body).map fun body catches finally? =>
    (⟨t.lead, body, catches, finally?⟩ : Try Stmt)).seq hcatches).seq hfinally
  rw [List.append_assoc] at h
  rw [Try.editParts]
  exact h

/-- A statement takes its children in the order they are edited in. -/
theorem Stmt.takes_refill {s : Stmt} (hb : ∀ b, s ≠ .block b)
    (hd : ∀ d, s ≠ .declaration d) (he : ∀ e, s ≠ .expr e) :
    TakesChildren r (Node.stmtChildren s) s.refill (s.rebuilt r) r.stmt
      (s.edit r) := by
  cases s with
  | block b => exact absurd rfl (hb b)
  | declaration d => exact absurd rfl (hd d)
  | expr e => exact absurd rfl (he e)
  | empty lead => exact ⟨_, .pure _, rfl, rfl⟩
  | tryCatch t => exact ⟨_, t.takes_refill.map _, rfl, rfl⟩
  | throwing lead exception =>
      exact ⟨_, (takes_expr r exception).map _, rfl, rfl⟩
  | returning lead value =>
      cases value with
      | none => exact ⟨_, (Takes.pure none).map _, rfl, rfl⟩
      | some e => exact ⟨_, ((takes_expr r e).map some).map _, rfl, rfl⟩
  | ifElse lead c thenPart elsePart =>
      have helse : Takes (Node.edit r) (elsePart.toList.map .elseBranch)
          (option (fun _ => next .elseBranch) elsePart)
            (Stmt.editElse r elsePart) :=
        .option (Stmt.editElse r) rfl (fun _ => rfl)
          (fun e => .next (e := e.edit r) .elseBranch rfl) elsePart
      exact ⟨_, (((takes_condition r c).map _).seq
        (.right .stmt (takes_stmt r) thenPart)).seq helse, rfl, rfl⟩
  | whileLoop lead c body =>
      exact ⟨_, ((takes_condition r c).map _).seq
        (.right .stmt (takes_stmt r) body), rfl, rfl⟩

/-- A method takes its children in the order they are edited in. -/
theorem Method.takes_refill (m : Method) :
    TakesChildren r (Node.method m).children m.refill
      ⟨m.lead, (Modifier.editAll r m.modifiers).value,
        (TypeTree.editOption r m.returnType).value,
        (r.ident m.name).value, ⟨m.parameters.before,
          (Variables.editAll r m.parameters.elements).value,
          m.parameters.close⟩,
        (TypeTree.editList r m.throws).value,
        (Stmt.editBody r m.body).value, m.type⟩
      r.method (m.edit r) := by
  have hreturn : Takes (Node.edit r) (m.returnType.toList.map TypeTree.node)
      (option (fun _ => next .typeTree) m.returnType)
        (TypeTree.editOption r m.returnType) :=
    .option (TypeTree.editOption r) rfl (fun _ => rfl)
      (takes_typeTree r) m.returnType
  have hparameters : Takes (Node.edit r) (m.parameters.items.map .declaration)
      (container .declaration m.parameters)
      ((⟨m.parameters.before, ·, m.parameters.close⟩) <$>
        Variables.editAll r m.parameters.elements) :=
    .container .declaration (takes_declaration r) (Variables.editAll r) rfl
      (fun _ _ => rfl) m.parameters
  have hbody : Takes (Node.edit r) (m.body.toList.map .block)
      (option (fun _ => next .block) m.body) (Stmt.editBody r m.body) :=
    .option (Stmt.editBody r) rfl (fun _ => rfl) (takes_block r) m.body
  have h := ((((((takes_modifiers r m.modifiers).map
    fun modifiers returnType name parameters throws body =>
      (⟨m.lead, modifiers, returnType, name, parameters, throws, body, m.type⟩ :
        Method)).seq
    hreturn).seq (takes_ident r m.name)).seq hparameters).seq
      (takes_list r m.throws)).seq hbody
  simp only [List.append_assoc] at h
  refine ⟨_, ?_, rfl, rfl⟩
  simp only [Node.children, List.append_assoc]
  exact h

/-- A class body takes its members in order. -/
theorem Member.takes_refillBlock (b : Block Member) :
    TakesChildren r (b.statements.map fun p => p.element.node)
      (Refill.block .member b)
      ⟨b.lead, (Member.editAll r b.statements).value, b.close⟩ r.classBody
      (Member.editBlock r b) := by
  have h : Takes (Node.edit r) (b.statements.map fun p => p.element.node)
      (all (right .member) b.statements) (Member.editAll r b.statements) :=
    .rights .member (fun m => .next .member m.edit_node) (Member.editAll r) rfl
      (fun _ _ => rfl) b.statements
  refine ⟨_, h.map _, rfl, ?_⟩
  rw [Member.editBlock]

/-- A class takes its children in the order they are edited in. -/
theorem ClassDecl.takes_refill (c : JavaClass) :
    TakesChildren r (Node.classDecl c).children c.refill
      ⟨c.lead, (Modifier.editAll r c.modifiers).value, c.kindLead, c.kind,
        (c.name.edit r).value, (TypeTree.editList r c.extends?).value,
        (TypeTree.editList r c.implements?).value,
        (Member.editBlock r c.body).value, c.type⟩
      r.classDecl (c.edit r) := by
  have hbody : Takes (Node.edit r) [.classBody c.body] (next .classBody)
      (Member.editBlock r c.body) := .next .classBody rfl
  have h :=
    (((((takes_modifiers r c.modifiers).map
      fun modifiers name extends? implements? body =>
      (⟨c.lead, modifiers, c.kindLead, c.kind, name, extends?, implements?,
        body, c.type⟩ :
        JavaClass)).seq (takes_name r c.name)).seq
          (takes_list r c.extends?)).seq
    (takes_list r c.implements?)).seq hbody
  rw [ClassDecl.edit]
  simp only [List.append_assoc] at h
  refine ⟨_, ?_, rfl, rfl⟩
  simp only [Node.children, List.append_assoc]
  exact h

/-- A file takes its package, its imports and its classes. -/
theorem CompilationUnit.takes_refill (cu : CompilationUnit) :
    TakesChildren r (Node.unit cu).children cu.refill
      ⟨cu.lead, (Package.edit r cu.package?).value,
        (Import.editAll r cu.imports).value,
        (ClassDecl.editAll r cu.classes).value, cu.close, cu.path⟩ r.unit
          (cu.edit r) := by
  have hpackage : Takes (Node.edit r) (cu.package?.toList.map fun p =>
      .package p.element)
      (option (right .package) cu.package?) (Package.edit r cu.package?) :=
    .option (Package.edit r) rfl (fun _ => rfl)
      (fun p => (Takes.next .package rfl).map _) cu.package?
  have himports : Takes (Node.edit r) (cu.imports.map fun p =>
      .importDecl p.element)
      (all (right .importDecl) cu.imports) (Import.editAll r cu.imports) :=
    .all (Import.editAll r) rfl (fun _ _ => rfl)
      (fun p => (Takes.next .importDecl rfl).map _) cu.imports
  have hclasses : Takes (Node.edit r) (cu.classes.map .classDecl)
      (all (fun _ => next .classDecl) cu.classes)
        (ClassDecl.editAll r cu.classes) :=
    .all (ClassDecl.editAll r) rfl (fun _ _ => rfl)
      (fun c => .next (e := c.edit r) .classDecl rfl) cu.classes
  exact ⟨_, ((hpackage.map _).seq himports).seq hclasses, rfl, rfl⟩

namespace Refill

/-- What is taken for a part is taken for the part as a node. -/
theorem TakesChildren.node {α : Type} {ns : List Node} {k : Refill α} {a : α}
    {f : α → Edited ω α} {edited : Edited ω α} {before after : α → Node}
    (h : TakesChildren r ns k a f edited)
    (hf : ∀ a, r.onNode (before a) = after <$> f a) :
    TakesChildren r ns (before <$> k) (before a) r.onNode
      (after <$> edited) := by
  obtain ⟨e, he, rfl, rfl⟩ := h
  refine ⟨before <$> e, he.map before, rfl, ?_⟩
  unfold Edited.andThen
  rw [Edited.value_map, hf]
  rfl

end Refill

namespace Node

/-- The edit of a node takes its edited children into their slots, and then the
editor is called once. -/
theorem takes_refill {n : Node} (hn : n.IsProper) :
    TakesChildren r n.children n.refill (n.rebuilt r) r.onNode (n.edit r) := by
  cases hn with
  | ident i => exact ⟨_, .pure _, rfl, rfl⟩
  | name n => exact n.takes_refill.node fun _ => rfl
  | typeTree h => exact (TypeTree.takes_refill h).node fun _ => rfl
  | expr e => exact e.takes_refill.node fun _ => rfl
  | modifier m => exact m.takes_refill.node fun _ => rfl
  | declarator v => exact v.takes_refill.node fun _ => rfl
  | declaration d => exact d.takes_refill.node fun _ => rfl
  | condition c =>
      exact ⟨_, ((Takes.right .expr (takes_expr r) c.inner).map _).map _,
        rfl, rfl⟩
  | parameter c =>
      exact ⟨_, ((Takes.right .declaration (takes_declaration r) c.inner).map
        _).map _, rfl, rfl⟩
  | catchClause c => exact c.takes_refill.node fun _ => rfl
  | elseBranch e =>
      rw [edit, Else.edit]
      exact ⟨_, (Takes.right .stmt (takes_stmt r) e.body).map _, rfl, rfl⟩
  | block b => exact (Stmt.takes_refillBlock b).node fun _ => rfl
  | stmt hb hd he => exact (Stmt.takes_refill hb hd he).node fun _ => rfl
  | method m => exact m.takes_refill.node fun _ => rfl
  | classBody b => exact (Member.takes_refillBlock b).node fun _ => rfl
  | classDecl c => exact (ClassDecl.takes_refill c).node fun _ => rfl
  | package p => exact ⟨_, (takes_name r p.name).map _, rfl, rfl⟩
  | importDecl i => exact ⟨_, (takes_name r i.name).map _, rfl, rfl⟩
  | unit cu => exact cu.takes_refill.node fun _ => rfl

-- =========================================================== what follows

/-- A node can have any children of the sorts of its own. -/
theorem exists_withChildren? {n : Node} (hn : n.IsProper) {ms : List Node}
    (h : List.Forall₂ Admits n.children ms) :
    ∃ m, n.withChildren? ms = some m := by
  obtain ⟨e, he, -, -⟩ := takes_refill (r := (.ofTry .keep : Editor Empty)) hn
  rw [← List.append_nil n.children] at h
  obtain ⟨m, left, hrun, hleft⟩ := he.accepts [] ms h
  cases hleft
  exact ⟨m, by rw [withChildren?, hrun]⟩

/-- What a function is applied to is a value of it. -/
theorem exists_of_run_map {α : Type} {f : α → Node} {k : Refill α} {m : Node}
    {ns left : List Node} (h : (f <$> k).run ns = some (m, left)) :
    ∃ a, f a = m := by
  rw [StateT.run_map] at h
  obtain ⟨⟨a, _⟩, -, h⟩ := Option.map_eq_some_iff.1 h
  exact ⟨a, congrArg Prod.fst h⟩

/-- With other children a node is of the sort it was. -/
theorem admits_of_withChildren? {n m : Node} {ms : List Node}
    (h : n.withChildren? ms = some m) : n.Admits m := by
  unfold withChildren? at h
  split at h
  · next hrun =>
    cases h
    cases n with
    | ident i =>
        cases hrun
        exact .ident i i
    | _ =>
        obtain ⟨a, rfl⟩ := exists_of_run_map hrun
        constructor
  · cases h

/-- A rebuilt node is the node with its edited children. -/
theorem withChildren?_edited {n : Node} (hn : n.IsProper) :
    n.withChildren? (n.children.map fun m => (m.edit r).value) =
      some (n.rebuilt r) := by
  obtain ⟨e, he, hvalue, -⟩ := takes_refill (r := r) hn
  have hrun := he.run []
  rw [List.append_nil, hvalue] at hrun
  rw [withChildren?, hrun]

/-- The edit of a node in terms of those of its children. -/
theorem edit_eq {n : Node} (hn : n.IsProper) :
    n.edit r = Edited.andThen ⟨n.rebuilt r, n.children.any fun m =>
      (m.edit r).isNew,
      n.children.flatMap fun m => (m.edit r).notes⟩ r.onNode := by
  obtain ⟨e, he, hvalue, hedit⟩ := takes_refill (r := r) hn
  rw [hedit, ← hvalue, ← he.isNew, ← he.notes]

/-- An edit is new as soon as that of a child is, or what the editor makes of
the node. -/
theorem isNew_edit {n : Node} (hn : n.IsProper) :
    (n.edit r).isNew =
      ((n.children.any fun m => (m.edit r).isNew) ||
        (r.onNode (n.rebuilt r)).isNew) := by
  rw [edit_eq hn, Edited.isNew_andThen]

/-- A node on a walk is the first or lies below a child. -/
theorem exists_mem_walk_iff {P : Node → Prop} {n : Node} (hn : n.IsProper) :
    (∃ m ∈ n.walk, P m) ↔ P n ∨ ∃ c ∈ n.children, ∃ m ∈ c.walk, P m := by
  rw [walk_eq hn, List.exists_mem_cons_iff]
  refine or_congr_right ⟨fun h => ?_, fun h => ?_⟩
  · obtain ⟨m, hm, h⟩ := h
    obtain ⟨c, hc, hm⟩ := List.mem_flatMap.1 hm
    exact ⟨c, hc, m, hm, h⟩
  · obtain ⟨c, hc, m, hm, h⟩ := h
    exact ⟨m, List.mem_flatMap.2 ⟨c, hc, hm⟩, h⟩

/-- An edit of a tree is new where the editor gives another node for one of the
rebuilt nodes. -/
theorem isNew_edit_iff {n : Node} (hn : n.IsProper) :
    (n.edit r).isNew = true ↔ ∃ m ∈ n.walk,
      (r.onNode (m.rebuilt r)).isNew = true := by
  refine induction_on (P := fun n => (n.edit r).isNew = true ↔
    ∃ m ∈ n.walk, (r.onNode (m.rebuilt r)).isNew = true) (fun n hn ih => ?_) hn
  rw [isNew_edit hn, exists_mem_walk_iff hn, Bool.or_eq_true,
    List.any_eq_true, or_comm]
  exact or_congr_right (exists_congr fun m => and_congr_right (ih m))

/-- What is noted in an edit of a tree is noted on one of the rebuilt nodes. -/
theorem mem_notes_edit_iff {x : ω} {n : Node} (hn : n.IsProper) :
    x ∈ (n.edit r).notes ↔ ∃ m ∈ n.walk,
      x ∈ (r.onNode (m.rebuilt r)).notes := by
  refine induction_on (P := fun n => x ∈ (n.edit r).notes ↔
    ∃ m ∈ n.walk, x ∈ (r.onNode (m.rebuilt r)).notes) (fun n hn ih => ?_) hn
  rw [edit_eq hn, exists_mem_walk_iff hn, or_comm]
  refine List.mem_append.trans (or_congr_left (List.mem_flatMap.trans ?_))
  exact exists_congr fun m => and_congr_right (ih m)

end Node

end JavaRefit
