/-
The same names of classes at the same places.

Types are no part of a place: a tree without its types names the classes
that the tree names, where that names them (`Node.classAt?_untyped`).

Neither are other parameters of catch clauses. Of two trees that differ in
these (`Node.Recaught`) each names the classes that the other names, but in
the parameters that are not the same (`Node.Recaught.classAt?_eq`).

What a parameter catches is written with the names of its alternatives and
those of their arguments, in the order of the text (`TypeTree.names`). All
of them are in the place of a class (`Node.AllClasses.of_mem_names`).

Chain: after `ClassName`, `Rebuilt` and `Recaught`; read by the proofs
about what names mean after a run.
-/
import JavaRefit.Proofs.Import.Delta
import JavaRefit.Proofs.Tree.ClassName
import JavaRefit.Proofs.Tree.Lead
import JavaRefit.Proofs.Tree.Rebuilt
import JavaRefit.Proofs.Tree.Recaught

namespace JavaRefit

theorem TypeTree.parts_node (t : TypeTree) :
    t.node.parts = t.node.children := by
  cases t <;> rfl

theorem Stmt.parts_node (s : Stmt) : s.node.parts = s.node.children := by
  cases s <;> rfl

namespace Node

variable {isClass : String → Bool}

-- ================================================================= parts

/-- The parts of a node without types. -/
theorem parts_untyped {n : Node} (hn : n.IsProper) :
    n.untyped.parts = n.parts.map untyped := by
  have h := children_untyped hn
  cases hn with
  | classDecl c =>
      rw [untyped, edited_eq (.classDecl c)]
      show ((classDecl c).rebuilt untyping).parts = _
      simp only [rebuilt, parts, List.map_append, map_edited_modifiers,
        map_edited_list]
      rfl
  | typeTree _ => exact (TypeTree.parts_node _).trans h
  | stmt _ _ _ => exact (Stmt.parts_node _).trans h
  | _ => exact h

/-- Places go through the same nodes without types. -/
theorem rest_untyped {n : Node} (hn : n.IsProper) :
    n.untyped.rest = n.rest.map untyped := by
  have h := parts_untyped hn
  cases hn with
  | unit cu =>
      show cu.untyped.classes.map classDecl =
        (cu.classes.map classDecl).map untyped
      rw [CompilationUnit.untyped_eq, List.map_map, List.map_map]
      rfl
  | @typeTree t _ =>
      refine Eq.trans ?_ h
      show t.untyped.node.rest = t.untyped.node.parts
      cases t.untyped <;> rfl
  | @stmt s _ _ _ =>
      refine Eq.trans ?_ h
      show s.untyped.node.rest = s.untyped.node.parts
      cases s.untyped <;> rfl
  | _ => exact h

-- ================================================================= names

/-- A name right below the node is of no class. -/
def bindsName : Node → Bool
  | .name _ | .declarator _ | .package _ | .importDecl _ => true
  | _ => false

/-- The node is the class object of what is in front. -/
def isLiteral : Node → Bool
  | .expr (.access _ _ last _) => isClassLiteral last
  | _ => false

/-- The name of a class that the node is in front of `.class`. -/
def chain? : Node → Option Name
  | .name c => some c
  | .expr e => if e.isNameChain then e.name? else none
  | _ => none

/-- A chain of words is the name of a class only in front of `.class`. -/
theorem className?_eq (n m : Node) : n.className? m =
    if n.bindsName then none else if n.isLiteral then m.chain?
      else m.name? := by
  cases n with
  | expr e =>
      cases e with
      | access lead target last type =>
          show _ = if isClassLiteral last then m.chain? else m.name?
          cases m with
          | expr e =>
              show (if isClassLiteral last && e.isNameChain then e.name?
                else none) =
                if isClassLiteral last
                  then (if e.isNameChain then e.name? else none) else none
              cases isClassLiteral last <;> rfl
          | _ => split <;> rfl
      | _ => cases m <;> rfl
  | _ => cases m <;> rfl

/-- Whether a node binds a name is no matter of types. -/
theorem bindsName_untyped {n : Node} (hn : n.IsProper) :
    n.untyped.bindsName = n.bindsName := by
  cases hn with
  | @typeTree t h =>
      cases t with
      | named n => exact absurd rfl (h n)
      | _ => rfl
  | @stmt s hb hd he =>
      show s.untyped.node.bindsName = false
      cases s.untyped <;> rfl
  | _ => rfl

/-- Whether a node is a literal is no matter of types. -/
theorem isLiteral_untyped {n : Node} (hn : n.IsProper) :
    n.untyped.isLiteral = n.isLiteral := by
  cases hn with
  | @typeTree t h =>
      show t.untyped.node.isLiteral = false
      cases t.untyped <;> rfl
  | @stmt s hb hd he =>
      cases s with
      | expr e => exact absurd rfl (he e)
      | returning lead e => cases e <;> rfl
      | _ => rfl
  | expr e => cases e <;> rfl
  | _ => rfl

/-- The name a node is, without types. -/
theorem name?_untyped {n : Node} (hn : n.IsProper) :
    n.untyped.name? = n.name?.map Name.untyped := by
  cases hn with
  | @typeTree t h =>
      cases t with
      | named n => exact absurd rfl (h n)
      | _ => rfl
  | @stmt s hb hd he =>
      show s.untyped.node.name? = none
      cases s.untyped <;> rfl
  | _ => rfl

/-- The chain of words a node is, without types. -/
theorem chain?_untyped {n : Node} (hn : n.IsProper) :
    n.untyped.chain? = n.chain?.map Name.untyped := by
  cases hn with
  | @typeTree t h =>
      cases t with
      | named n => exact absurd rfl (h n)
      | _ => rfl
  | @stmt s hb hd he =>
      cases s with
      | expr e => exact absurd rfl (he e)
      | returning lead e => cases e <;> rfl
      | _ => rfl
  | expr e =>
      show (if e.untyped.isNameChain then e.untyped.name? else none) = _
      rw [e.isNameChain_untyped, e.name?_untyped, chain?]
      split <;> rfl
  | _ => rfl

/-- The class a part names, without types. -/
theorem className?_untyped {n m : Node} (hn : n.IsProper) (hm : m.IsProper) :
    n.untyped.className? m.untyped = (n.className? m).map Name.untyped := by
  rw [className?_eq, className?_eq, bindsName_untyped hn, isLiteral_untyped hn,
    chain?_untyped hm, name?_untyped hm]
  split
  · rfl
  · split <;> rfl

/-- The class a node spells, without types. -/
theorem spelled?_untyped {n : Node} (hn : n.IsProper) :
    n.untyped.spelled? isClass = (n.spelled? isClass).map Name.untyped := by
  cases hn with
  | @typeTree t h =>
      show t.untyped.node.spelled? isClass = none
      cases t.untyped <;> rfl
  | @stmt s hb hd he =>
      cases s with
      | expr e => exact absurd rfl (he e)
      | returning lead e => cases e <;> rfl
      | _ => rfl
  | expr e =>
      cases e with
      | access lead target last type =>
          have hname : (Expr.access lead target.untyped last none).name? =
              (Expr.access lead target last type).name?.map Name.untyped :=
            (Expr.access lead target last type).name?_untyped
          show (expr (.access lead target.untyped last none)).spelled?
            isClass = _
          rw [spelled?, spelled?, Expr.chainText?, Expr.chainText?,
            target.isNameChain_untyped, target.dotted?_untyped, hname]
          split
          · rfl
          · rw [Option.map_bind]
            rfl
      | _ => rfl
  | _ => rfl

/-- The class a part names or spells, without types. -/
theorem classIn?_untyped {n m : Node} (hn : n.IsProper) (hm : m.IsProper) :
    n.untyped.classIn? isClass m.untyped =
      (n.classIn? isClass m).map Name.untyped := by
  rw [classIn?, className?_untyped hn hm, spelled?_untyped hm, classIn?,
    Option.map_or]

-- ================================================================= places

theorem isProper_of_mem_rest {n m : Node} (hm : m ∈ n.rest) : m.IsProper :=
  isProper_of_mem_children m (parts_subset n (rest_subset n hm))

/-- The name at a place is met in a walk. -/
theorem exists_mem_walk_of_classAt? {n : Node} (hn : n.IsProper)
    {place : List Nat} {c : Name} (h : n.classAt? isClass place = some c) :
    ∃ m ∈ n.walk, m.asName? = some c := by
  induction place generalizing n with
  | nil => cases h
  | cons i place ih =>
      rw [classAt?_cons, Option.bind_eq_some_iff] at h
      obtain ⟨m, hm, h⟩ := h
      have hmem : m ∈ n.children :=
        parts_subset n (rest_subset n (List.mem_of_getElem? hm))
      have hwalk := children_subset_walk hn hmem
      cases hin : n.classIn? isClass m with
      | none =>
          rw [hin] at h
          obtain ⟨k, hk, hc⟩ := ih (isProper_of_mem_children m hmem) h
          exact ⟨k, walk_subset hn hwalk hk, hc⟩
      | some c' =>
          rw [hin] at h
          obtain rfl := Option.some.inj (Option.ite_none_right_eq_some.1 h).2
          exact ⟨m, hwalk, asName?_of_classIn? hin⟩

/-- A tree without types names the same classes at the same places. -/
theorem classAt?_untyped {n : Node} (hn : n.IsProper) (place : List Nat) :
    n.untyped.classAt? isClass place =
      (n.classAt? isClass place).map Name.untyped := by
  induction place generalizing n with
  | nil => rfl
  | cons i place ih =>
      rw [classAt?_cons, classAt?_cons, rest_untyped hn, List.getElem?_map]
      cases hm : n.rest[i]? with
      | none => rfl
      | some m =>
          have hproper : m.IsProper :=
            isProper_of_mem_rest (List.mem_of_getElem? hm)
          rw [Option.map_some, Option.bind_some, Option.bind_some,
            classIn?_untyped hn hproper, ih hproper]
          cases n.classIn? isClass m with
          | none => rfl
          | some c =>
              show (if place = [] then _ else _) = _
              split <;> rfl

-- ============================================================= parameters

/-- Related lists have related elements at each index. -/
theorem rel_getElem? {α β : Type} {R : α → β → Prop} {as : List α} {bs : List β}
    (h : List.Forall₂ R as bs) (i : Nat) : Option.Rel R as[i]? bs[i]? := by
  induction h generalizing i with
  | nil => exact .none
  | cons hab _ ih =>
      cases i with
      | zero => exact .some hab
      | succ i => exact ih i

/-- The node is what a catch clause has in its parentheses. -/
def isParameter : Node → Bool
  | parameter _ => true
  | _ => false

/-- The place is in no parameter of a catch clause that is another one in the
second tree. -/
def Keeps : Node → Node → List Nat → Prop
  | _, _, [] => True
  | n, n', i :: place => ∀ m ∈ n.rest[i]?, ∀ m' ∈ n'.rest[i]?,
    (m.isParameter = true → m' = m) ∧ m.Keeps m' place

/-- The node can hold catch clauses and is neither a name nor an expression. -/
def isFrame : Node → Bool
  | stmt _ | block _ | method _ | classBody _ | classDecl _ | catchClause
      _ | elseBranch _ | unit _ =>
    true
  | _ => false

/-- The nodes are the same but for the parameters of catch clauses. -/
inductive Recaught : Node → Node → Prop
  | same (n : Node) : Recaught n n
  | parameter (p p' : Parens Variables) : Recaught (parameter p) (parameter p')
  | frame {n n' : Node} : n.isFrame = true → n'.isFrame = true →
      List.Forall₂ Recaught n.rest n'.rest → Recaught n n'

/-- In a frame a part names what it is, whatever the frame. -/
theorem classIn?_of_isFrame {n : Node} (h : n.isFrame = true) (m : Node) :
    n.classIn? isClass m = m.name?.or (m.spelled? isClass) := by
  rw [classIn?, className?_eq]
  cases n <;> first | rfl | cases h

/-- A frame names and spells nothing itself. -/
theorem name?_or_spelled?_of_isFrame {n : Node} (h : n.isFrame = true) :
    n.name?.or (n.spelled? isClass) = none := by
  cases n <;> first | rfl | cases h

/-- The same classes are named at the same places, but in parameters that are
not the same. -/
theorem Recaught.classAt?_eq {n n' : Node} (h : n.Recaught n')
    (hn : n.isParameter = true → n' = n) {place : List Nat}
    (hplace : n.Keeps n' place) :
    n'.classAt? isClass place = n.classAt? isClass place := by
  induction place generalizing n n' with
  | nil => rfl
  | cons i place ih =>
      cases h with
      | same => rfl
      | parameter p p' => rw [hn rfl]
      | frame hframe hframe' hrest =>
          rw [Keeps] at hplace
          rw [classAt?_cons, classAt?_cons]
          have hpart := rel_getElem? hrest i
          revert hplace hpart
          generalize n.rest[i]? = o
          generalize n'.rest[i]? = o'
          rintro hplace (⟨hm⟩ | _)
          · next m m' =>
            obtain ⟨hsame, hplace⟩ := hplace m rfl m' rfl
            rw [Option.bind_some, Option.bind_some, classIn?_of_isFrame hframe,
              classIn?_of_isFrame hframe', ih hm hsame hplace]
            cases hm with
            | same => rfl
            | parameter p p' => rfl
            | frame hm hm' =>
                rw [name?_or_spelled?_of_isFrame hm,
                  name?_or_spelled?_of_isFrame hm']
          · rfl

-- =============================================================== the trees

/-- What stands in front of a class names no other classes in it. -/
theorem Recaught.withLead {c c' : JavaClass}
    (h : (classDecl c).Recaught (classDecl c')) (lead : Trivia) :
    (classDecl c).Recaught (classDecl { c' with lead }) := by
  cases h with
  | same => exact .frame rfl rfl (List.forall₂_same.2 fun m _ => .same m)
  | frame _ _ hrest => exact .frame rfl rfl hrest

end Node

/-- Clauses are recaught as their bodies are. -/
theorem Catch.recaught_node {c c' : Catch Stmt}
    (h : (Node.block c.body).Recaught (.block c'.body)) :
    (Node.catchClause c).Recaught (.catchClause c') :=
  .frame rfl rfl (.cons (.parameter _ _) (.cons h .nil))

/-- Nodes in a row are recaught one by one. -/
theorem RightPadded.recaught_nodes {α : Type} {node : α → Node}
    {R : α → α → Prop} {ps qs : List (RightPadded α)}
    (h : ∀ p ∈ ps, ∀ b, R p.element b → (node p.element).Recaught (node b))
    (hpq : List.Forall₂ (fun p q =>
      R (RightPadded.element p) (RightPadded.element q)) ps qs) :
    List.Forall₂ Node.Recaught (ps.map fun p => node p.element)
      (qs.map fun p => node p.element) := by
  rw [List.forall₂_map_left_iff, List.forall₂_map_right_iff]
  exact ((List.forall₂_and_left _ _).2 ⟨h, hpq⟩).imp fun p q ⟨hp, hq⟩ => hp _ hq

/-- Statements that are recaught are so as nodes. -/
theorem Stmt.Recaught.node {P : Variables → Variables → Prop} {s s' : Stmt}
    (h : Stmt.Recaught P s s') : s.node.Recaught s'.node := by
  -- a block in a statement, by what is known of the statements in the block
  have hblock {b b' : Block Stmt} (h : Stmt.Recaught P (.block b) (.block b'))
      (ih : ∀ p ∈ b.statements, ∀ s', Stmt.Recaught P p.element s' →
        p.element.node.Recaught s'.node) :
      (Node.block b).Recaught (.block b') := by
    cases h with
    | same => exact .same _
    | block hpq => exact .frame rfl rfl (RightPadded.recaught_nodes ih hpq)
  induction s using Stmt.induction_on generalizing s' with
  | block b ih =>
      cases h with
      | same => exact .same _
      | block hpq hafter =>
          exact hblock (.block hpq hafter) fun p hp s' h => ih p hp h
  | tryCatch t ihb ihc ihf =>
      cases h with
      | same => exact .same _
      | @tryCatch lead b b' cs cs' f f' hb hbodies hheads hf hbefore =>
          refine .frame rfl rfl (.cons (hblock hb fun p hp s' h => ihb p hp h)
            (List.rel_append ?_ ?_))
          · rw [List.forall₂_map_left_iff, List.forall₂_map_right_iff]
            exact ((List.forall₂_and_left _ _).2 ⟨ihc, hbodies⟩).imp
              fun c c' ⟨ih, hc⟩ =>
              Catch.recaught_node (hblock hc fun p hp s' h => ih p hp h)
          · cases hf with
            | none => exact .nil
            | some hg =>
                exact .cons (hblock hg fun p hp s' h => ihf _ rfl p hp h) .nil
  | ifElse lead condition thenPart elsePart iht ihe =>
      cases h with
      | same => exact .same _
      | ifElse hs hsafter he hafter =>
          refine .frame rfl rfl (.cons (.same _) (.cons (iht hs) ?_))
          cases he with
          | none => exact .nil
          | some hg =>
              exact .cons (.frame rfl rfl (.cons (ihe _ rfl hg) .nil)) .nil
  | whileLoop lead condition body ih =>
      cases h with
      | same => exact .same _
      | whileLoop hs hafter =>
          exact .frame rfl rfl (.cons (.same _) (.cons (ih hs) .nil))
  | _ =>
      cases h with
      | same => exact .same _

/-- Members that are recaught are so as nodes. -/
theorem Member.Recaught.node {P : Variables → Variables → Prop} {m m' : Member}
    (h : Member.Recaught P m m') : m.node.Recaught m'.node := by
  have hsame (ns : List Node) : List.Forall₂ Node.Recaught ns ns :=
    List.forall₂_same.2 fun n _ => .same n
  induction m using Member.induction_on generalizing m' with
  | field d =>
      cases h with
      | same => exact .same _
  | method m =>
      cases h with
      | same => exact .same _
      | method hm hb =>
          refine .frame rfl rfl (List.rel_append (hsame _) (.cons (.same _)
            (List.rel_append (hsame _) ?_)))
          rw [hm]
          exact .cons hb.node .nil
  | nested c ih =>
      cases h with
      | same => exact .same _
      | nested hpq hafter =>
          refine .frame rfl rfl (List.rel_append (hsame _)
            (List.rel_append (hsame _) (.cons ?_ .nil)))
          exact .frame rfl rfl (RightPadded.recaught_nodes
            (fun p hp m' h => ih p hp h) hpq)

/-- A file is recaught when its classes are and then its imports change. -/
theorem CompilationUnit.recaught_node {P : Variables → Variables → Prop}
    {cu edited after : CompilationUnit}
    (hclasses : List.Forall₂ (ClassDecl.Recaught P) cu.classes edited.classes)
    (himports : edited.ImportsOnly after) :
    (Node.unit cu).Recaught (.unit after) := by
  refine .frame rfl rfl ?_
  show List.Forall₂ _ (cu.classes.map Node.classDecl)
    (after.classes.map Node.classDecl)
  rw [List.forall₂_map_left_iff, List.forall₂_map_right_iff]
  replace hclasses := hclasses.imp fun c c' (hc : ClassDecl.Recaught P c c') =>
    Member.Recaught.node hc
  obtain ⟨imports, lead, -, rfl⟩ := himports
  unfold withFirstClassLead
  split
  · exact hclasses
  · next c' cs' heq =>
    have heq : edited.classes = c' :: cs' := heq
    rw [heq, List.forall₂_cons_right_iff] at hclasses
    obtain ⟨c, cs, hc, hcs, heq'⟩ := hclasses
    rw [heq']
    exact .cons (Node.Recaught.withLead hc _) hcs

/-- What is named in a file is named in one of its classes. -/
theorem CompilationUnit.exists_mem_walk_of_classAt? {cu : CompilationUnit}
    {isClass : String → Bool} {place : List Nat} {c : Name}
    (h : (Node.unit cu).classAt? isClass place = some c) :
    ∃ k ∈ cu.classes, ∃ m ∈ k.walk, m.asName? = some c := by
  cases place with
  | nil => cases h
  | cons i place =>
      rw [Node.classAt?_cons, Option.bind_eq_some_iff] at h
      obtain ⟨m, hm, h⟩ := h
      obtain ⟨k, hk, rfl⟩ := List.mem_map.1 (List.mem_of_getElem? hm)
      exact ⟨k, hk, Node.exists_mem_walk_of_classAt? (.classDecl k) h⟩

-- ================================================= names in a written type

mutual
/-- The names of classes in a written type, in the order of the text. -/
def TypeTree.names : TypeTree → List Name
  | .named n => [n]
  | .generic _ base args _ => base :: TypeTree.namesAll args.elements
  | .primitive .. => []
  | .array _ element _ _ => element.names
  | .union _ alternatives => TypeTree.namesAll alternatives

/-- The names in a row of types. -/
def TypeTree.namesAll : List (RightPadded TypeTree) → List Name
  | [] => []
  | p :: ps => p.element.names ++ TypeTree.namesAll ps
end

namespace TypeTree

theorem namesAll_eq (ps : List (RightPadded TypeTree)) :
    namesAll ps = ps.flatMap fun p => p.element.names := by
  induction ps with
  | nil => rfl
  | cons p ps ih => rw [namesAll, ih, List.flatMap_cons]

/-- The names in a type without types. -/
theorem names_untyped (t : TypeTree) :
    t.untyped.names = t.names.map Name.untyped := by
  have hall {ps : List (RightPadded TypeTree)}
      (ih : ∀ p ∈ ps, p.element.untyped.names =
        p.element.names.map Name.untyped) :
      namesAll (ps.map (.map untyped)) = (namesAll ps).map Name.untyped := by
    rw [namesAll_eq, namesAll_eq, List.flatMap_map, List.map_flatMap]
    exact List.flatMap_congr ih
  induction t using TypeTree.induction_on with
  | named n => rfl
  | generic lead base args type ih =>
      rw [untyped_generic]
      exact congrArg (base.untyped :: ·) (hall ih)
  | primitive lead keyword type => rfl
  | array lead element dimension type ih => exact ih
  | union lead ps ih =>
      rw [untyped_union]
      exact hall ih

end TypeTree

namespace Node

variable {isClass : String → Bool} {P : Name → Prop} {Q : Expr → Prop}

/-- What holds of all names of classes below a node holds of those in a type
right below it. -/
theorem AllClasses.of_mem_names {n : Node} (h : n.AllClasses isClass P Q)
    (hbinds : n.bindsName = false) (hliteral : n.isLiteral = false)
    {t : TypeTree} (ht : t.node ∈ n.parts) : ∀ c ∈ t.names, P c := by
  have hin {n : Node} (hbinds : n.bindsName = false)
      (hliteral : n.isLiteral = false) (m : Node) :
      n.classIn? isClass m = m.name?.or (m.spelled? isClass) := by
    rw [classIn?, className?_eq, hbinds, hliteral]
    rfl
  induction t using TypeTree.induction_on generalizing n with
  | named c =>
      exact List.forall_mem_singleton.2 (h.named _ ht c (hin hbinds hliteral _))
  | generic lead base args type ih =>
      have hinside := h.inside _ ht (hin hbinds hliteral _)
      refine List.forall_mem_cons.2
        ⟨hinside.named (name base) List.mem_cons_self base rfl, ?_⟩
      rw [TypeTree.namesAll_eq, List.forall_mem_flatMap]
      refine fun p hp => ih p hp hinside rfl rfl ?_
      exact List.mem_cons_of_mem _
        (List.mem_map_of_mem (List.mem_map_of_mem hp))
  | primitive lead keyword type => exact List.forall_mem_nil _
  | array lead element dimension type ih =>
      exact ih (h.inside _ ht (hin hbinds hliteral _))
        rfl rfl List.mem_cons_self
  | union lead ps ih =>
      have hinside := h.inside _ ht (hin hbinds hliteral _)
      show ∀ c ∈ TypeTree.namesAll ps, P c
      rw [TypeTree.namesAll_eq, List.forall_mem_flatMap]
      exact fun p hp => ih p hp hinside rfl rfl (List.mem_map_of_mem hp)

/-- The names of a type that is right below a node are in the places of
classes. -/
theorem exists_of_mem_names {n : Node} (hn : n.IsProper)
    (hbinds : n.bindsName = false) (hliteral : n.isLiteral = false)
    {t : TypeTree} (ht : t.node ∈ n.children) :
    ∀ c ∈ t.names, ∃ m ∈ n.walk, name c ∈ m.children ∧
    m.className? (name c) = some c := by
  -- what is below the type is below the node
  have hbelow {n : Node} (hn : n.IsProper) {t : TypeTree}
      (ht : t.node ∈ n.children) {c : Name}
      (h : ∃ m ∈ t.node.walk, name c ∈ m.children ∧
        m.className? (name c) = some c) :
      ∃ m ∈ n.walk, name c ∈ m.children ∧ m.className? (name c) = some c := by
    obtain ⟨m, hm, hc⟩ := h
    exact ⟨m, walk_subset hn (children_subset_walk hn ht) hm, hc⟩
  have hnamed {n : Node} (hbinds : n.bindsName = false)
      (hliteral : n.isLiteral = false) (c : Name) :
      n.className? (name c) = some c := by
    rw [className?_eq, hbinds, hliteral]
    rfl
  induction t using TypeTree.induction_on generalizing n with
  | named c =>
      exact List.forall_mem_singleton.2 ⟨n, mem_walk_self hn, ht,
        hnamed hbinds hliteral c⟩
  | generic lead base args type ih =>
      have hproper := isProper_of_mem_children _ ht
      refine List.forall_mem_cons.2 ⟨hbelow hn ht ?_, ?_⟩
      · exact ⟨_, mem_walk_self hproper, List.mem_cons_self,
          hnamed rfl rfl base⟩
      · rw [TypeTree.namesAll_eq, List.forall_mem_flatMap]
        refine fun p hp c hc => hbelow hn ht (ih p hp hproper rfl rfl ?_ c hc)
        exact List.mem_cons_of_mem _
          (List.mem_map_of_mem (List.mem_map_of_mem hp))
  | primitive lead keyword type => exact List.forall_mem_nil _
  | array lead element dimension type ih =>
      have hproper := isProper_of_mem_children _ ht
      exact fun c hc =>
        hbelow hn ht (ih hproper rfl rfl List.mem_cons_self c hc)
  | union lead ps ih =>
      have hproper := isProper_of_mem_children _ ht
      show ∀ c ∈ TypeTree.namesAll ps, _
      rw [TypeTree.namesAll_eq, List.forall_mem_flatMap]
      exact fun p hp c hc =>
        hbelow hn ht (ih p hp hproper rfl rfl (List.mem_map_of_mem hp) c hc)

end Node

end JavaRefit
