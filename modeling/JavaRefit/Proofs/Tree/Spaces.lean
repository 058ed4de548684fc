/-
Where a tree keeps trivia.

Every node has trivia in front of it, and some nodes keep more: what
stands in front of a separator, a closing delimiter or a keyword further
on. What a node keeps itself is told apart here from what the nodes below
it keep. Taken together they leave nothing out: all trivia that a file is
printed with is kept by a node that its walk meets
(`CompilationUnit.keep_walk`).

Chain: after `Induction`; which trivia gets to which node is proved along
the rules of the language.
-/
import JavaRefit.Proofs.Tree.Induction

namespace JavaRefit

open Piece

/-- The trivia behind each of some elements. -/
def RightPadded.afters {α : Type} (ps : List (RightPadded α)) : List Trivia :=
  ps.map RightPadded.after

/-- The trivia of a list between delimiters or after a keyword, less what its
elements keep. -/
def Container.spaces {α : Type} (c : Container α) : List Trivia :=
  c.before :: (RightPadded.afters c.elements ++ [c.close])

/-- The trivia of such a list where there is one. -/
def Container.optionalSpaces {α : Type} : Option (Container α) → List Trivia
  | none => []
  | some c => c.spaces

/-- The trivia of a block, less what its statements or members keep. -/
def Block.spaces {α : Type} (b : Block α) : List Trivia :=
  b.lead :: (RightPadded.afters b.statements ++ [b.close])

/-- The trivia of parentheses, less what is kept between them. -/
def Parens.spaces {α : Type} (c : Parens α) : List Trivia :=
  [c.lead, c.inner.after]

/-- The trivia in front. -/
def Modifier.lead : Modifier → Trivia
  | .keyword lead _ => lead
  | .annotated lead _ _ => lead

/-- The trivia in front. -/
def Stmt.lead : Stmt → Trivia
  | .block b => b.lead
  | .declaration d => d.lead
  | .expr e => e.lead
  | .empty lead => lead
  | .tryCatch t => t.lead
  | .throwing lead _ => lead
  | .returning lead _ => lead
  | .ifElse lead .. => lead
  | .whileLoop lead .. => lead

namespace Node

/-- The trivia in front of a node. -/
def lead : Node → Trivia
  | ident i => i.lead
  | name n => n.lead
  | typeTree t => t.lead
  | expr e => e.lead
  | modifier m => m.lead
  | declarator v => v.lead
  | declaration d => d.lead
  | condition c => c.lead
  | parameter c => c.lead
  | catchClause c => c.lead
  | elseBranch e => e.lead
  | block b => b.lead
  | stmt s => s.lead
  | method m => m.lead
  | classBody b => b.lead
  | classDecl c => c.lead
  | package p => p.lead
  | importDecl i => i.lead
  | unit cu => cu.lead

/-- The trivia that a name keeps. -/
def nameSpaces : Name → List Trivia
  | .simple i _ => [i.lead]
  | .qualified lead _ last _ => [lead, last.before]

/-- The trivia that a written type keeps. -/
def typeTreeSpaces : TypeTree → List Trivia
  | .named n => nameSpaces n
  | .generic lead _ args _ => lead :: args.spaces
  | .primitive lead _ _ => [lead]
  | .array lead _ dimension _ => [lead, dimension.before, dimension.element]
  | .union lead alternatives => lead :: RightPadded.afters alternatives

/-- The trivia that an expression keeps. -/
def exprSpaces : Expr → List Trivia
  | .ident i _ => [i.lead]
  | .access lead _ last _ => [lead, last.before]
  | .call lead select _ args _ =>
      lead :: (RightPadded.afters select.toList ++ args.spaces)
  | .new lead _ args _ _ => lead :: args.spaces
  | .literal lead _ _ => [lead]
  | .assign lead _ value _ => [lead, value.before]
  | .binary lead _ operator _ _ => [lead, operator.before]
  | .unary lead _ _ _ => [lead]
  | .parens lead inner _ => [lead, inner.after]

/-- The trivia that a modifier keeps. -/
def modifierSpaces : Modifier → List Trivia
  | .keyword lead _ => [lead]
  | .annotated lead _ args => lead :: Container.optionalSpaces args

/-- The trivia that a statement keeps. -/
def stmtSpaces : Stmt → List Trivia
  | .block b => b.spaces
  | .declaration d => d.lead :: RightPadded.afters d.declarators
  | .expr e => exprSpaces e
  | .empty lead => [lead]
  | .tryCatch t => t.lead :: t.finally?.toList.map LeftPadded.before
  | .throwing lead _ => [lead]
  | .returning lead _ => [lead]
  | .ifElse lead _ thenPart _ => [lead, thenPart.after]
  | .whileLoop lead _ body => [lead, body.after]

/-- The trivia that a node keeps itself. -/
def spaces : Node → List Trivia
  | ident i => [i.lead]
  | name n => nameSpaces n
  | typeTree t => typeTreeSpaces t
  | expr e => exprSpaces e
  | modifier m => modifierSpaces m
  | declarator v => v.lead :: v.initializer.toList.map LeftPadded.before
  | declaration d => d.lead :: RightPadded.afters d.declarators
  | condition c => c.spaces
  | parameter c => c.spaces
  | catchClause c => [c.lead]
  | elseBranch e => [e.lead, e.body.after]
  | block b => b.spaces
  | stmt s => stmtSpaces s
  | method m =>
      m.lead :: (m.parameters.spaces ++ Container.optionalSpaces m.throws)
  | classBody b => b.spaces
  | classDecl c =>
    c.lead :: c.kindLead :: (Container.optionalSpaces c.extends? ++
      Container.optionalSpaces c.implements?)
  | package p => [p.lead]
  | importDecl i => i.lead :: i.static?.toList
  | unit cu =>
    cu.lead :: (RightPadded.afters cu.package?.toList ++
      RightPadded.afters cu.imports ++ [cu.close])

-- ======================================================== nothing left out

/-- One of the nodes keeps the trivia itself. -/
def Holds (ns : List Node) (s : Trivia) : Prop :=
  ∃ n ∈ ns, s ∈ n.spaces

/-- All trivia among the pieces is kept by one of the nodes itself. -/
def Keep (ns : List Node) (ps : List Piece) : Prop :=
  ∀ s, .trivia s ∈ ps → Holds ns s

variable {n : Node} {ns ns' : List Node} {ps ps' : List Piece} {s : Trivia}

/-- A node holds its own trivia. -/
theorem Holds.head (h : s ∈ n.spaces) : Holds (n :: ns) s :=
  ⟨n, List.mem_cons_self, h⟩

theorem Keep.nil : Keep ns [] :=
  fun _ h => absurd h List.not_mem_nil

theorem keep_nil : Keep ns [] ↔ True :=
  iff_true_intro .nil

theorem keep_word {w : String} : Keep ns (.word w :: ps) ↔ Keep ns ps := by
  simp [Keep]

/-- Trivia are kept where a node holds them. -/
theorem keep_trivia : Keep ns (.trivia s :: ps) ↔ Holds ns s ∧ Keep ns ps := by
  simp [Keep]

/-- Pieces in two runs are kept where each run is. -/
theorem keep_append : Keep ns (ps ++ ps') ↔ Keep ns ps ∧ Keep ns ps' := by
  simp [Keep, or_imp, forall_and]

theorem keep_flatMap {α : Type} {f : α → List Piece} {as : List α} :
    Keep ns (as.flatMap f) ↔ ∀ a ∈ as, Keep ns (f a) := by
  constructor
  · exact fun h a ha s hs => h s (List.mem_flatMap.2 ⟨a, ha, hs⟩)
  · intro h s hs
    obtain ⟨a, ha, hs⟩ := List.mem_flatMap.1 hs
    exact h a ha s hs

/-- Separators are no trivia. -/
theorem keep_separated {w : String} {runs : List (List Piece)} :
    Keep ns (separated w runs) ↔ ∀ ps ∈ runs, Keep ns ps := by
  induction runs with
  | nil => simp [separated, keep_nil]
  | cons ps runs ih =>
      cases runs with
      | nil => simp [separated]
      | cons ps' runs =>
          have hstep : separated w (ps :: ps' :: runs) =
              ps ++ .word w :: separated w (ps' :: runs) := rfl
          rw [hstep, keep_append, keep_word, ih]
          exact List.forall_mem_cons.symm

namespace Keep

/-- More nodes hold more trivia. -/
theorem mono (h : Keep ns ps) (hsub : ns ⊆ ns') : Keep ns' ps := by
  intro s hs
  obtain ⟨n, hn, hspace⟩ := h s hs
  exact ⟨n, hsub hn, hspace⟩

/-- What is held below a node is held with it. -/
theorem below (h : Keep ns ps) : Keep (n :: ns) ps :=
  h.mono (List.subset_cons_self n ns)

theorem left (h : Keep ns ps) : Keep (ns ++ ns') ps :=
  h.mono (List.subset_append_left ns ns')

theorem right (h : Keep ns ps) : Keep (ns' ++ ns) ps :=
  h.mono (List.subset_append_right ns' ns)

/-- What one of some values holds they all hold. -/
theorem ofFlatMap {α : Type} {f : α → List Node} {as : List α} {a : α}
    (ha : a ∈ as) (h : Keep (f a) ps) : Keep (as.flatMap f) ps :=
  h.mono fun _ hn => List.mem_flatMap.2 ⟨a, ha, hn⟩

section

variable {α : Type} {pieces : α → List Piece}

/-- Elements with what is behind them are kept where both are. -/
theorem runs {elements : List (RightPadded α)}
    (hafter : ∀ s ∈ RightPadded.afters elements, Holds ns s)
    (h : ∀ p ∈ elements, Keep ns (pieces p.element)) :
    ∀ ps ∈ elements.map fun p => pieces p.element ++ [.trivia p.after],
      Keep ns ps := by
  intro ps hps
  obtain ⟨p, hp, rfl⟩ := List.mem_map.1 hps
  rw [keep_append, keep_trivia, keep_nil, and_true]
  exact ⟨h p hp, hafter p.after (List.mem_map_of_mem hp)⟩

/-- Elements between delimiters are kept where all of their trivia are. -/
theorem container {c : Container α} {opening closing : String}
    (hspaces : ∀ s ∈ c.spaces, Holds ns s)
    (h : ∀ p ∈ c.elements, Keep ns (pieces p.element)) :
    Keep ns (enclosed c.before opening (c.elements.map fun p =>
      pieces p.element ++ [.trivia p.after]) c.close closing) := by
  rw [Container.spaces, List.forall_mem_cons, List.forall_mem_append,
    List.forall_mem_singleton] at hspaces
  obtain ⟨hbefore, hafter, hclose⟩ := hspaces
  rw [Piece.enclosed, keep_trivia, keep_word, keep_append, keep_append,
    keep_separated, keep_word, keep_nil, and_true]
  refine ⟨hbefore, runs hafter h, ?_⟩
  split
  · exact keep_trivia.2 ⟨hclose, .nil⟩
  · exact .nil

end

/-- A semicolon has no trivia of its own. -/
theorem semicolonIf (needed : Bool) : Keep ns (semicolonIf needed) := by
  cases needed
  · exact .nil
  · exact keep_word.2 .nil

/-- Pieces between braces are kept where the trivia of the braces are. -/
theorem braced {lead close : Trivia} (hlead : Holds ns lead) (h : Keep ns ps)
    (hclose : Holds ns close) : Keep ns (bracedPieces lead ps close) := by
  rw [bracedPieces, keep_trivia, keep_word, keep_append, keep_trivia, keep_word,
    keep_nil, and_true]
  exact ⟨hlead, h, hclose⟩

/-- The contents of a block. -/
theorem block {α : Type} {b : Block α} {walk : α → List Node}
    {pieces : RightPadded α → List Piece} (hspaces : n.spaces = b.spaces)
    (h : ∀ p ∈ b.statements,
      Holds (n :: b.statements.flatMap fun p => walk p.element) p.after →
      walk p.element ⊆ n :: (b.statements.flatMap fun p => walk p.element) →
      Keep (n :: b.statements.flatMap fun p => walk p.element) (pieces p)) :
    Keep (n :: b.statements.flatMap fun p => walk p.element)
      (bracedPieces b.lead (b.statements.flatMap pieces) b.close) := by
  have hholds (s : Trivia) (hs : s ∈ b.spaces) :
      Holds (n :: b.statements.flatMap fun p => walk p.element) s :=
        .head (hspaces ▸ hs)
  rw [Block.spaces] at hholds
  refine braced (hholds _ List.mem_cons_self)
    (keep_flatMap.2 fun p hp => h p hp (hholds _ ?_) fun m hm => ?_)
    (hholds _ ?_)
  · exact List.mem_cons_of_mem b.lead
      (List.mem_append_left _ (List.mem_map_of_mem hp))
  · exact List.mem_cons_of_mem n (List.mem_flatMap.2 ⟨p, hp, hm⟩)
  · exact List.mem_cons_of_mem b.lead
      (List.mem_append_right _ (List.mem_singleton_self b.close))

end Keep

end Node

-- ------------------------------------------------------------ along a walk

open Node

theorem Ident.keep_walk (i : Ident) : Keep [.ident i] i.pieces := by
  rw [pieces, keep_trivia, keep_word, keep_nil, and_true]
  exact .head (List.mem_singleton_self i.lead)

/-- The trivia of a name are held by its nodes. -/
theorem Name.keep_walk (n : Name) : Keep n.walk n.pieces := by
  induction n with
  | simple i type =>
      rw [pieces, Ident.pieces, keep_trivia, keep_word, keep_nil, and_true]
      exact .head (List.mem_singleton_self i.lead)
  | qualified lead outer last type ih =>
      rw [pieces, keep_trivia, keep_append, keep_trivia, keep_word]
      exact ⟨.head (by simp [spaces, nameSpaces]), ih.left.below,
        .head (by simp [spaces, nameSpaces]),
        last.element.keep_walk.right.below⟩

/-- The trivia of a type are held by its nodes. -/
theorem TypeTree.keep_walk (t : TypeTree) : Keep t.walk t.pieces := by
  induction t using TypeTree.induction_on with
  | named n => exact n.keep_walk
  | generic lead base args type ih =>
      rw [pieces, walk, runs_eq_map, walkAll_eq, keep_trivia, keep_append]
      exact ⟨.head List.mem_cons_self, base.keep_walk.left.below,
        .container (fun s hs => .head (List.mem_cons_of_mem lead hs))
          fun p hp =>
          (Keep.ofFlatMap hp (ih p hp)).right.below⟩
  | primitive lead keyword type =>
      rw [pieces, keep_trivia, keep_word, keep_nil, and_true]
      exact .head (List.mem_singleton_self lead)
  | array lead element dimension type ih =>
      rw [pieces, walk, keep_trivia, keep_append, keep_trivia, keep_word,
        keep_trivia, keep_word, keep_nil, and_true]
      exact ⟨.head (by simp [spaces, typeTreeSpaces]), ih.below,
        .head (by simp [spaces, typeTreeSpaces]),
        .head (by simp [spaces, typeTreeSpaces])⟩
  | union lead alternatives ih =>
      rw [pieces, walk, runs_eq_map, walkAll_eq, keep_trivia, keep_separated]
      exact ⟨.head List.mem_cons_self,
        .runs (fun s hs => .head (List.mem_cons_of_mem lead hs)) fun p hp =>
        (Keep.ofFlatMap hp (ih p hp)).below⟩

theorem TypeTree.keep_walkList {ns : List Node} {keyword : String}
    {o : Option (Container TypeTree)}
    (hspaces : ∀ s ∈ Container.optionalSpaces o, Holds ns s)
    (hsub : walkList o ⊆ ns) :
    Keep ns (listPieces keyword o) := by
  cases o with
  | none => exact .nil
  | some c =>
      rw [Container.optionalSpaces, Container.spaces, List.forall_mem_cons,
        List.forall_mem_append] at hspaces
      rw [walkList, walkAll_eq] at hsub
      rw [listPieces, afterKeyword, runs_eq_map, keep_trivia, keep_word,
        keep_separated]
      exact ⟨hspaces.1, Keep.runs hspaces.2.1 fun p hp =>
        (Keep.ofFlatMap hp p.element.keep_walk).mono hsub⟩

/-- The trivia of an expression are held by its nodes. -/
theorem Expr.keep_walk (e : Expr) : Keep e.walk e.pieces := by
  induction e using Expr.induction_on with
  | ident i type =>
      rw [pieces, Ident.pieces, keep_trivia, keep_word, keep_nil, and_true]
      exact .head (List.mem_singleton_self i.lead)
  | access lead target name type ih =>
      rw [pieces, walk, keep_trivia, keep_append, keep_trivia, keep_word]
      exact ⟨.head (by simp [spaces, exprSpaces]), ih.left.below,
        .head (by simp [spaces, exprSpaces]),
        name.element.keep_walk.right.below⟩
  | call lead select name args method ihs iha =>
      rw [pieces, walk, runs_eq_map, walkAll_eq, keep_trivia, keep_append,
        keep_append]
      refine ⟨.head List.mem_cons_self, ⟨?_, ?_⟩,
        .container (fun s hs => .head ?_) fun p hp => ?_⟩
      · cases select with
        | none => exact .nil
        | some p =>
            rw [selectPieces, keep_append, keep_trivia, keep_word,
              keep_nil, and_true]
            exact ⟨(ihs p rfl).left.below,
              .head (by simp [spaces, exprSpaces, RightPadded.afters])⟩
      · exact (name.keep_walk.mono
          (List.cons_subset_cons _ (List.nil_subset _))).right.below
      · exact List.mem_cons_of_mem lead (List.mem_append_right _ hs)
      · exact (Keep.ofFlatMap hp (iha p hp)).below.right.below
  | new lead base args constructor type ih =>
      rw [pieces, walk, runs_eq_map, walkAll_eq, keep_trivia, keep_word,
        keep_append]
      exact ⟨.head List.mem_cons_self, base.keep_walk.left.below,
        .container (fun s hs => .head (List.mem_cons_of_mem lead hs))
          fun p hp =>
          (Keep.ofFlatMap hp (ih p hp)).right.below⟩
  | literal lead text type =>
      rw [pieces, keep_trivia, keep_word, keep_nil, and_true]
      exact .head (List.mem_singleton_self lead)
  | assign lead target value type iht ihv =>
      rw [pieces, walk, keep_trivia, keep_append, keep_trivia, keep_word]
      exact ⟨.head (by simp [spaces, exprSpaces]), iht.left.below,
        .head (by simp [spaces, exprSpaces]), ihv.right.below⟩
  | binary lead left operator right type ihl ihr =>
      rw [pieces, walk, keep_trivia, keep_append, keep_trivia, keep_word]
      exact ⟨.head (by simp [spaces, exprSpaces]), ihl.left.below,
        .head (by simp [spaces, exprSpaces]), ihr.right.below⟩
  | unary lead operator operand type ih =>
      rw [pieces, walk, keep_trivia, keep_word]
      exact ⟨.head (List.mem_singleton_self lead), ih.below⟩
  | parens lead inner type ih =>
      rw [pieces, walk, keep_trivia, keep_word, keep_append, keep_trivia,
        keep_word, keep_nil, and_true]
      exact ⟨.head (by simp [spaces, exprSpaces]), ih.below,
        .head (by simp [spaces, exprSpaces])⟩

/-- The trivia of an annotation are held by its nodes. -/
theorem Modifier.keep_walk (m : Modifier) : Keep m.walk m.pieces := by
  cases m with
  | keyword lead word =>
      rw [pieces, keep_trivia, keep_word, keep_nil, and_true]
      exact .head (List.mem_singleton_self lead)
  | annotated lead name args =>
      cases args with
      | none =>
          rw [pieces, walk, keep_trivia, keep_word]
          exact ⟨.head List.mem_cons_self, name.keep_walk.below⟩
      | some c =>
          rw [pieces, walk, Expr.runs_eq_map, Expr.walkAll_eq, keep_trivia,
            keep_word, keep_append]
          exact ⟨.head List.mem_cons_self, name.keep_walk.left.below,
            .container (fun s hs => .head (List.mem_cons_of_mem lead hs))
              fun p hp =>
              (Keep.ofFlatMap hp p.element.keep_walk).right.below⟩

theorem Modifier.keep_walkAll (ms : List Modifier) :
    Keep (ms.flatMap walk) (listPieces ms) :=
  keep_flatMap.2 fun m hm => .ofFlatMap hm m.keep_walk

theorem Variable.keep_walk (v : Variable) : Keep v.walk v.pieces := by
  obtain ⟨lead, name, initializer, type⟩ := v
  rw [pieces, walk, keep_trivia, keep_append]
  refine ⟨.head List.mem_cons_self, name.keep_walk.left.below, ?_⟩
  cases initializer with
  | none => exact .nil
  | some i =>
      exact keep_trivia.2 ⟨.head (by simp [spaces]),
        keep_word.2 i.element.keep_walk.right.below⟩

/-- The trivia of a declaration are held by its nodes. -/
theorem Variables.keep_walk (d : Variables) : Keep d.walk d.pieces := by
  rw [pieces, walk, keep_trivia, keep_append, keep_append, keep_separated]
  exact ⟨.head List.mem_cons_self,
    ⟨(Modifier.keep_walkAll d.modifiers).left.left.below,
      d.typeTree.keep_walk.right.left.below⟩,
    Keep.runs (fun s hs => .head (List.mem_cons_of_mem d.lead hs)) fun p hp =>
      (Keep.ofFlatMap hp p.element.keep_walk).right.below⟩

theorem Expr.keep_walkCondition (c : Parens Expr) :
    Keep (walkCondition c) (conditionPieces c) := by
  rw [conditionPieces, walkCondition, keep_trivia, keep_word, keep_append,
    keep_trivia, keep_word, keep_nil, and_true]
  exact ⟨.head List.mem_cons_self, c.inner.element.keep_walk.below,
    .head (by simp [spaces, Parens.spaces])⟩

theorem Variables.keep_walkParameter (c : Parens Variables) :
    Keep (walkParameter c) (parameterPieces c) := by
  rw [parameterPieces, walkParameter, keep_trivia, keep_word, keep_append,
    keep_trivia, keep_word, keep_nil, and_true]
  exact ⟨.head List.mem_cons_self, c.inner.element.keep_walk.below,
    .head (by simp [spaces, Parens.spaces])⟩

-- Statements and members: the trivia behind each is kept by what is around it.

/-- A statement is kept with what is behind it. -/
theorem Stmt.keep_padded {ns : List Node} {p : RightPadded Stmt}
    (h : Keep ns p.element.pieces) (hafter : Holds ns p.after) :
    Keep ns (paddedPieces p) := by
  rw [paddedPieces, keep_append, keep_trivia]
  exact ⟨h, hafter, .semicolonIf _⟩

/-- The trivia of a block are held by its nodes, if this holds of its
statements. -/
theorem Stmt.keep_walkBlock {b : Block Stmt}
    (h : ∀ p ∈ b.statements, Keep p.element.walk p.element.pieces) :
    Keep (walkBlock b) (blockPieces b) := by
  rw [blockPieces, walkBlock, allPieces_eq_flatMap, walkAll_eq]
  exact .block rfl fun p hp hafter hsub =>
    keep_padded ((h p hp).mono hsub) hafter

/-- The trivia of a clause are held by its nodes, if this holds of its body. -/
theorem Catch.keep_walk {c : Catch Stmt}
    (h : ∀ p ∈ c.body.statements, Keep p.element.walk p.element.pieces) :
    Keep c.walk c.pieces := by
  rw [pieces, walk, keep_trivia, keep_word, keep_append]
  exact ⟨.head (List.mem_singleton_self c.lead),
    (Variables.keep_walkParameter c.parameter).left.below,
    (Stmt.keep_walkBlock h).right.below⟩

theorem Else.keep_walk {e : Else Stmt}
    (h : Keep e.body.element.walk e.body.element.pieces) :
    Keep e.walk e.pieces := by
  rw [pieces, walk, keep_trivia, keep_word]
  exact ⟨.head List.mem_cons_self,
    Stmt.keep_padded h.below (.head (by simp [spaces]))⟩

/-- The trivia of a statement are held by its nodes. -/
theorem Stmt.keep_walk (s : Stmt) : Keep s.walk s.pieces := by
  induction s using Stmt.induction_on with
  | block b ih => exact keep_walkBlock ih
  | declaration d => exact d.keep_walk
  | expr e => exact e.keep_walk
  | empty lead =>
      exact keep_trivia.2 ⟨.head (List.mem_singleton_self lead), .nil⟩
  | tryCatch t ihb ihc ihf =>
      obtain ⟨lead, body, catches, finally?⟩ := t
      rw [pieces, walk, Try.pieces, Try.walk, Catch.allPieces_eq_flatMap,
        Catch.walkAll_eq, keep_trivia, keep_word, keep_append, keep_append]
      refine ⟨.head List.mem_cons_self,
        ⟨(keep_walkBlock ihb).left.left.below,
          keep_flatMap.2 fun c hc => ?_⟩, ?_⟩
      · exact (Keep.ofFlatMap hc (Catch.keep_walk (ihc c hc))).right.left.below
      · cases finally? with
        | none => exact .nil
        | some f =>
            rw [finallyPieces, keep_trivia, keep_word]
            exact ⟨.head (by simp [spaces, stmtSpaces]),
              (keep_walkBlock (ihf f rfl)).right.below⟩
  | throwing lead exception =>
      rw [pieces, walk, keep_trivia, keep_word]
      exact ⟨.head (List.mem_singleton_self lead), exception.keep_walk.below⟩
  | returning lead value =>
      cases value with
      | none =>
          exact keep_trivia.2 ⟨.head (List.mem_singleton_self lead),
            keep_word.2 .nil⟩
      | some e =>
          rw [pieces, walk, keep_trivia, keep_word]
          exact ⟨.head (List.mem_singleton_self lead), e.keep_walk.below⟩
  | ifElse lead condition thenPart elsePart iht ihe =>
      rw [pieces, walk, keep_trivia, keep_word, keep_append, keep_append]
      refine ⟨.head List.mem_cons_self,
        ⟨(Expr.keep_walkCondition condition).left.left.below, ?_⟩, ?_⟩
      · exact keep_padded iht.right.left.below
          (.head (by simp [spaces, stmtSpaces]))
      · cases elsePart with
        | none => exact .nil
        | some e =>
            exact (Else.keep_walk (ihe e rfl)).right.below
  | whileLoop lead condition body ih =>
      rw [pieces, walk, keep_trivia, keep_word, keep_append]
      exact ⟨.head List.mem_cons_self,
        (Expr.keep_walkCondition condition).left.below,
        keep_padded ih.right.below (.head (by simp [spaces, stmtSpaces]))⟩

/-- The trivia of a method are held by its nodes. -/
theorem Method.keep_walk (m : Method) : Keep m.walk m.pieces := by
  have hthrows : ∀ s ∈ Container.optionalSpaces m.throws,
      Holds m.walk s := fun s hs =>
    .head (List.mem_cons_of_mem m.lead (List.mem_append_right _ hs))
  have hparameters : ∀ s ∈ m.parameters.spaces, Holds m.walk s := fun s hs =>
    .head (List.mem_cons_of_mem m.lead (List.mem_append_left _ hs))
  rw [walk] at hthrows hparameters
  rw [pieces, walk, keep_trivia, keep_append, keep_append, keep_append,
    keep_append, keep_append]
  refine ⟨.head List.mem_cons_self,
    ⟨⟨⟨⟨(Modifier.keep_walkAll m.modifiers).left.left.below, ?_⟩, ?_⟩, ?_⟩, ?_⟩,
    ?_⟩
  · cases m.returnType with
    | none => exact .nil
    | some t => exact t.keep_walk.right.left.below
  · exact (m.name.keep_walk.mono
      (List.cons_subset_cons _ (List.nil_subset _))).right.below
  · exact .container hparameters fun p hp =>
      (Keep.ofFlatMap hp p.element.keep_walk).left.left.below.right.below
  · refine TypeTree.keep_walkList hthrows fun n hn => ?_
    simp only [List.mem_cons, List.mem_append, hn, or_true, true_or]
  · cases m.body with
    | none => exact .nil
    | some b =>
        exact (Stmt.keep_walkBlock fun p _ =>
          p.element.keep_walk).right.below.right.below

/-- The trivia of a class are held by its nodes, if this holds of its
members. -/
theorem ClassDecl.keep_walk_of_members {c : JavaClass}
    (h : ∀ p ∈ c.body.statements, Keep p.element.walk p.element.pieces) :
    Keep c.walk c.pieces := by
  have hbody : Keep (Member.walkBlock c.body) (Member.blockPieces c.body) := by
    rw [Member.blockPieces, Member.walkBlock, Member.allPieces_eq_flatMap,
      Member.walkAll_eq]
    refine .block rfl fun p hp hafter hsub => ?_
    rw [Member.paddedPieces, keep_append, keep_trivia]
    exact ⟨(h p hp).mono hsub, hafter, .semicolonIf _⟩
  have hextends {ns : List Node} (s : Trivia)
      (hs : s ∈ Container.optionalSpaces c.extends?) :
      Holds (.classDecl c :: ns) s :=
    .head (List.mem_cons_of_mem _
      (List.mem_cons_of_mem _ (List.mem_append_left _ hs)))
  have himplements {ns : List Node} (s : Trivia)
      (hs : s ∈ Container.optionalSpaces c.implements?) :
      Holds (.classDecl c :: ns) s :=
    .head (List.mem_cons_of_mem _
      (List.mem_cons_of_mem _ (List.mem_append_right _ hs)))
  rw [pieces, walk, keep_trivia, keep_append, keep_trivia, keep_word,
    keep_append, keep_append, keep_append]
  refine ⟨.head List.mem_cons_self,
    (Modifier.keep_walkAll c.modifiers).left.left.left.left.below,
    .head (by simp [spaces]),
    ⟨⟨c.name.keep_walk.right.left.left.left.below, ?_⟩, ?_⟩, hbody.right.below⟩
  · refine TypeTree.keep_walkList hextends fun n hn => ?_
    simp only [List.mem_cons, List.mem_append, hn, or_true, true_or]
  · refine TypeTree.keep_walkList himplements fun n hn => ?_
    simp only [List.mem_cons, List.mem_append, hn, or_true, true_or]

/-- The trivia of a member are held by its nodes. -/
theorem Member.keep_walk (m : Member) : Keep m.walk m.pieces := by
  induction m using Member.induction_on with
  | field d => exact d.keep_walk
  | method m => exact m.keep_walk
  | nested c ih => exact ClassDecl.keep_walk_of_members ih

theorem Package.keep_walk (p : Package) :
    Keep (.package p :: p.name.walk) p.pieces := by
  rw [pieces, keep_trivia, keep_word]
  exact ⟨.head (List.mem_singleton_self p.lead), p.name.keep_walk.below⟩

theorem Import.keep_walk (i : Import) :
    Keep (.importDecl i :: i.name.walk) i.pieces := by
  obtain ⟨lead, static?, name⟩ := i
  rw [pieces, keep_trivia, keep_word, keep_append]
  refine ⟨.head List.mem_cons_self, ?_, name.keep_walk.below⟩
  cases static? with
  | none => exact .nil
  | some before =>
      exact keep_trivia.2 ⟨.head (by simp [spaces]), keep_word.2 .nil⟩

/-- All trivia that a file is printed with is kept by one of its nodes
itself. -/
theorem CompilationUnit.keep_walk (cu : CompilationUnit) :
    Keep cu.walk cu.pieces := by
  have hsemicolon {ns : List Node} {after : Trivia}
      (h : after ∈ (Node.unit cu).spaces) :
      Keep (.unit cu :: ns) [.trivia after, .word ";"] :=
    keep_trivia.2 ⟨.head h, keep_word.2 .nil⟩
  rw [pieces, walk, keep_trivia, keep_append, keep_append, keep_append,
    keep_flatMap, keep_flatMap]
  refine ⟨.head List.mem_cons_self, ⟨⟨?_, fun p hp => ?_⟩, fun c hc => ?_⟩, ?_⟩
  · cases hpackage : cu.package? with
    | none => exact .nil
    | some p =>
        refine keep_append.2 ⟨p.element.keep_walk.left.left.below,
          hsemicolon ?_⟩
        simp [spaces, RightPadded.afters, hpackage]
  · refine keep_append.2
      ⟨(Keep.ofFlatMap hp p.element.keep_walk).right.left.below, hsemicolon ?_⟩
    have hafter : p.after ∈ RightPadded.afters cu.imports :=
      List.mem_map_of_mem hp
    simp [spaces, hafter]
  · exact (Keep.ofFlatMap hc (ClassDecl.keep_walk_of_members fun p _ =>
      p.element.keep_walk)).right.below
  · exact keep_trivia.2 ⟨.head (by simp [spaces]), .nil⟩

end JavaRefit
