/-
A node and other children for it.

Each child of a node stands in a slot, which says of what sort the nodes
are that may stand there. A node takes nodes from a list, one for each
slot in the order of the text, and puts each into its slot if it may stand
there (`Node.refill`). There is such a node only if all of them may and
none is left over (`Node.withChildren?`).

Chain: after `Node`; read by the proofs about single nodes in an edit.
-/
import JavaRefit.Tree.Node

namespace JavaRefit

-- ================================================================= slots

/-- A node of the sort of the second may stand wherever one of the sort of the
first may. A written type may be a name, and a statement a block, a declaration
or an expression. -/
inductive Node.Admits : Node → Node → Prop
  | ident (a b : Ident) : Admits (.ident a) (.ident b)
  | name (a b : Name) : Admits (.name a) (.name b)
  | typeTree (a b : TypeTree) : Admits (.typeTree a) (.typeTree b)
  | typeName (a : TypeTree) (b : Name) : Admits (.typeTree a) (.name b)
  | expr (a b : Expr) : Admits (.expr a) (.expr b)
  | modifier (a b : Modifier) : Admits (.modifier a) (.modifier b)
  | declarator (a b : Variable) : Admits (.declarator a) (.declarator b)
  | declaration (a b : Variables) : Admits (.declaration a) (.declaration b)
  | condition (a b : Parens Expr) : Admits (.condition a) (.condition b)
  | parameter (a b : Parens Variables) : Admits (.parameter a) (.parameter b)
  | catchClause (a b : Catch Stmt) : Admits (.catchClause a) (.catchClause b)
  | elseBranch (a b : Else Stmt) : Admits (.elseBranch a) (.elseBranch b)
  | block (a b : Block Stmt) : Admits (.block a) (.block b)
  | stmt (a b : Stmt) : Admits (.stmt a) (.stmt b)
  | stmtBlock (a : Stmt) (b : Block Stmt) : Admits (.stmt a) (.block b)
  | stmtDeclaration (a : Stmt) (b : Variables) :
      Admits (.stmt a) (.declaration b)
  | stmtExpr (a : Stmt) (b : Expr) : Admits (.stmt a) (.expr b)
  | method (a b : Method) : Admits (.method a) (.method b)
  | classBody (a b : Block Member) : Admits (.classBody a) (.classBody b)
  | classDecl (a b : JavaClass) : Admits (.classDecl a) (.classDecl b)
  | package (a b : Package) : Admits (.package a) (.package b)
  | importDecl (a b : Import) : Admits (.importDecl a) (.importDecl b)
  | unit (a b : CompilationUnit) : Admits (.unit a) (.unit b)

/-- A node may stand for itself. -/
theorem Node.Admits.refl (n : Node) : n.Admits n := by
  cases n <;> constructor

/-- What may stand for a node may stand for what the node may stand for. -/
theorem Node.Admits.trans {l m n : Node} (h : l.Admits m) (h' : m.Admits n) :
    l.Admits n := by
  cases h <;> cases h' <;> constructor

/-- A place for one child: the nodes of the parts that may stand there, and the
part that a node is, if it may. -/
structure Slot (α : Type) where
  node : α → Node
  read : Node → Option α
  read_node : ∀ a, read (node a) = some a := by intro a; rfl
  read_of_admits : ∀ a n, (node a).Admits n → ∃ b, read n = some b := by
    intro a n h; cases h; exact ⟨_, rfl⟩

namespace Slot

/-- The slot of an identifier. -/
def ident : Slot Ident where
  node := .ident
  read
    | .ident i => some i
    | _ => none

/-- The slot of a name. -/
def name : Slot Name where
  node := .name
  read
    | .name n => some n
    | _ => none

/-- The slot of a type: a name stands there as itself. -/
def typeTree : Slot TypeTree where
  node := TypeTree.node
  read
    | .name n => some (.named n)
    | .typeTree t => some t
    | _ => none
  read_node t := by cases t <;> rfl
  read_of_admits t _ h := by cases t <;> cases h <;> exact ⟨_, rfl⟩

/-- The slot of an expression. -/
def expr : Slot Expr where
  node := .expr
  read
    | .expr e => some e
    | _ => none

def modifier : Slot Modifier where
  node := .modifier
  read
    | .modifier m => some m
    | _ => none

def declarator : Slot Variable where
  node := .declarator
  read
    | .declarator v => some v
    | _ => none

def declaration : Slot Variables where
  node := .declaration
  read
    | .declaration d => some d
    | _ => none

def condition : Slot (Parens Expr) where
  node := .condition
  read
    | .condition c => some c
    | _ => none

def parameter : Slot (Parens Variables) where
  node := .parameter
  read
    | .parameter c => some c
    | _ => none

def catchClause : Slot (Catch Stmt) where
  node := .catchClause
  read
    | .catchClause c => some c
    | _ => none

def elseBranch : Slot (Else Stmt) where
  node := .elseBranch
  read
    | .elseBranch e => some e
    | _ => none

/-- The slot of a block. -/
def block : Slot (Block Stmt) where
  node := .block
  read
    | .block b => some b
    | _ => none

/-- The slot of a statement: a block, a declaration or an expression stands
there as itself. -/
def stmt : Slot Stmt where
  node := Stmt.node
  read
    | .block b => some (.block b)
    | .declaration d => some (.declaration d)
    | .expr e => some (.expr e)
    | .stmt s => some s
    | _ => none
  read_node s := by cases s <;> rfl
  read_of_admits s _ h := by cases s <;> cases h <;> exact ⟨_, rfl⟩

def classBody : Slot (Block Member) where
  node := .classBody
  read
    | .classBody b => some b
    | _ => none

/-- The slot of a member: a method or a class stands there as itself. -/
def member : Slot Member where
  node := Member.node
  read
    | .declaration d => some (.field d)
    | .method m => some (.method m)
    | .classDecl c => some (.nested c)
    | _ => none
  read_node m := by cases m <;> rfl
  read_of_admits m _ h := by cases m <;> cases h <;> exact ⟨_, rfl⟩

/-- The slot of a class. -/
def classDecl : Slot JavaClass where
  node := .classDecl
  read
    | .classDecl c => some c
    | _ => none

def package : Slot Package where
  node := .package
  read
    | .package p => some p
    | _ => none

def importDecl : Slot Import where
  node := .importDecl
  read
    | .importDecl i => some i
    | _ => none

end Slot

/-- What is made of the first nodes of a list, and the nodes that are left. -/
abbrev Refill (α : Type) := StateT (List Node) Option α

namespace Refill

variable {α β : Type}

/-- The next node, as what may stand in a slot. -/
def next (s : Slot α) : Refill α := fun ns =>
  match ns with
  | [] => none
  | n :: ns => (s.read n).map fun a => (a, ns)

/-- One after the other. -/
def all (k : α → Refill β) : List α → Refill (List β)
  | [] => pure []
  | a :: as => (· :: ·) <$> k a <*> all k as

/-- A slot that may be missing. -/
def option (k : α → Refill β) : Option α → Refill (Option β)
  | none => pure none
  | some a => some <$> k a

/-- A slot in front of a separator. -/
def right (s : Slot α) (p : RightPadded α) : Refill (RightPadded α) :=
  (⟨·, p.after⟩) <$> next s

/-- A slot behind a separator. -/
def left (s : Slot α) (p : LeftPadded α) : Refill (LeftPadded α) :=
  (⟨p.before, ·⟩) <$> next s

/-- The slots of a list between delimiters. -/
def container (s : Slot α) (c : Container α) : Refill (Container α) :=
  (⟨c.before, ·, c.close⟩) <$> all (right s) c.elements

/-- The slot between parentheses. -/
def parens (s : Slot α) (c : Parens α) : Refill (Parens α) :=
  (⟨c.lead, ·⟩) <$> right s c.inner

/-- The slots of a list between braces. -/
def block (s : Slot α) (b : Block α) : Refill (Block α) :=
  (⟨b.lead, ·, b.close⟩) <$> all (right s) b.statements

end Refill

open Refill

-- =============================================================== refills

/-- How a name is built from the nodes of its parts. -/
def Name.refill : Name → Refill Name
  | .simple i type => pure (.simple i type)
  | .qualified lead _ last type =>
    (fun outer last => .qualified lead outer last type) <$> next .name <*>
      left .ident last

/-- How a type is built from the nodes of its parts. -/
def TypeTree.refill : TypeTree → Refill TypeTree
  | .named n => .named <$> n.refill
  | .generic lead _ args type =>
    (fun base args => .generic lead base args type) <$> next .name <*>
      container .typeTree args
  | .primitive lead keyword type => pure (.primitive lead keyword type)
  | .array lead _ dimension type =>
    (fun element => .array lead element dimension type) <$> next .typeTree
  | .union lead alternatives =>
      .union lead <$> all (right .typeTree) alternatives

/-- How an expression is built from the nodes of its operands. -/
def Expr.refill : Expr → Refill Expr
  | .ident i type => pure (.ident i type)
  | .access lead _ last type =>
    (fun target last => .access lead target last type) <$> next .expr <*>
      left .ident last
  | .call lead select _ args method =>
    (fun select name args => .call lead select name args method) <$>
      option (right .expr) select <*> next .ident <*> container .expr args
  | .new lead _ args constructor type =>
    (fun base args => .new lead base args constructor type) <$>
      next .typeTree <*> container .expr args
  | .literal lead text type => pure (.literal lead text type)
  | .assign lead _ value type =>
    (fun target value => .assign lead target value type) <$> next .expr <*>
      left .expr value
  | .binary lead _ operator _ type =>
    (fun left right => .binary lead left operator right type) <$>
      next .expr <*> next .expr
  | .unary lead operator _ type =>
    (fun operand => .unary lead operator operand type) <$> next .expr
  | .parens lead inner type =>
      (fun inner => .parens lead inner type) <$> right .expr inner

/-- How an annotation is built from its name and arguments. -/
def Modifier.refill : Modifier → Refill Modifier
  | .keyword lead word => pure (.keyword lead word)
  | .annotated lead _ args =>
    (fun name args => .annotated lead name args) <$> next .name <*>
      option (container .expr) args

def Variable.refill (v : Variable) : Refill Variable :=
  (fun name initializer => ⟨v.lead, name, initializer, v.type⟩) <$>
    next .name <*> option (left .expr) v.initializer

/-- How a declaration is built from the nodes of its parts. -/
def Variables.refill (d : Variables) : Refill Variables :=
  (fun modifiers typeTree declarators =>
    ⟨d.lead, modifiers, typeTree, declarators⟩) <$>
    all (fun _ => next .modifier) d.modifiers <*> next .typeTree <*>
    all (right .declarator) d.declarators

/-- How a clause is built from its parameter and body. -/
def Catch.refill (c : Catch Stmt) : Refill (Catch Stmt) :=
  (fun parameter body => ⟨c.lead, parameter, body⟩) <$>
    next .parameter <*> next .block

/-- How a try is built from its body, clauses and last block. -/
def Try.refill (t : Try Stmt) : Refill (Try Stmt) :=
  (fun body catches finally? => ⟨t.lead, body, catches, finally?⟩) <$>
    next .block <*> all (fun _ => next .catchClause) t.catches <*>
      option (left .block) t.finally?

/-- How a statement is built from the nodes of its parts. -/
def Stmt.refill : Stmt → Refill Stmt
  | .block b => .block <$> Refill.block .stmt b
  | .declaration d => .declaration <$> d.refill
  | .expr e => .expr <$> e.refill
  | .empty lead => pure (.empty lead)
  | .tryCatch t => .tryCatch <$> t.refill
  | .throwing lead _ => .throwing lead <$> next .expr
  | .returning lead value =>
      .returning lead <$> option (fun _ => next .expr) value
  | .ifElse lead _ thenPart elsePart =>
    .ifElse lead <$> next .condition <*> right .stmt thenPart <*>
      option (fun _ => next .elseBranch) elsePart
  | .whileLoop lead _ body =>
      .whileLoop lead <$> next .condition <*> right .stmt body

/-- How a method is built from the nodes of its parts. -/
def Method.refill (m : Method) : Refill Method :=
  (fun modifiers returnType name parameters throws body =>
      ⟨m.lead, modifiers, returnType, name, parameters, throws, body,
        m.type⟩) <$>
    all (fun _ => next .modifier) m.modifiers <*>
      option (fun _ => next .typeTree) m.returnType <*>
    next .ident <*> container .declaration m.parameters <*>
    option (container .typeTree) m.throws <*>
      option (fun _ => next .block) m.body

/-- How a class is built from the nodes of its parts. -/
def ClassDecl.refill (c : JavaClass) : Refill JavaClass :=
  (fun modifiers name extends? implements? body =>
      ⟨c.lead, modifiers, c.kindLead, c.kind, name, extends?, implements?, body,
        c.type⟩) <$>
    all (fun _ => next .modifier) c.modifiers <*> next .name <*>
    option (container .typeTree) c.extends? <*>
      option (container .typeTree) c.implements? <*>
    next .classBody

/-- How a file is built from its package, imports and classes. -/
def CompilationUnit.refill (cu : CompilationUnit) : Refill CompilationUnit :=
  (fun package? imports classes =>
    ⟨cu.lead, package?, imports, classes, cu.close, cu.path⟩) <$>
    option (right .package) cu.package? <*>
      all (right .importDecl) cu.imports <*>
    all (fun _ => next .classDecl) cu.classes

namespace Node

/-- The node with the next nodes as its children. -/
def refill : Node → Refill Node
  | ident i => pure (.ident i)
  | name n => .name <$> n.refill
  | typeTree t => .typeTree <$> t.refill
  | expr e => .expr <$> e.refill
  | modifier m => .modifier <$> m.refill
  | declarator v => .declarator <$> v.refill
  | declaration d => .declaration <$> d.refill
  | condition c => .condition <$> parens .expr c
  | parameter c => .parameter <$> parens .declaration c
  | catchClause c => .catchClause <$> c.refill
  | elseBranch e =>
      (fun body => .elseBranch ⟨e.lead, body⟩) <$> right .stmt e.body
  | block b => .block <$> Refill.block .stmt b
  | stmt s => .stmt <$> s.refill
  | method m => .method <$> m.refill
  | classBody b => .classBody <$> Refill.block .member b
  | classDecl c => .classDecl <$> c.refill
  | package p => (fun name => .package ⟨p.lead, name⟩) <$> next .name
  | importDecl i =>
      (fun name => .importDecl ⟨i.lead, i.static?, name⟩) <$> next .name
  | unit cu => .unit <$> cu.refill

/-- The node with other children, if each of them fits into its slot. -/
def withChildren? (n : Node) (ns : List Node) : Option Node :=
  match n.refill.run ns with
  | some (m, []) => some m
  | _ => none

end Node

end JavaRefit
