/-
What attribution leaves at each node.

A class name has the type of the class that is found for its words in the
file, and none if none is found (`Name.Means`). So it is with all names of
classes in a typed tree (`Node.MeansIn`).

Three more things hold at every node of one (`Node.IsAttributed`).

Some types are kept twice: that of an array with that of its elements,
that of a variable with that of the type it is declared with. The two are
one type (`Node.IsConsistent`).

A chain of words that spells a class has the type as a whole, and nothing
inside of it has one. Where an access on something typed has a type too,
it is a class literal or the last word of a variable behind `this`
(`Node.IsTypedWhole`).

A name in the place of a class, which may be a chain of words in front of
`.class`, has the type of a class that goes by its last word, and what is
in front of that word has no type (`Name.NamesClass`).

# Places

A name in the place of a class is known by the node it is right below, so
the third is said of a node and its children. So that this and what names
mean can be passed on from the children to the node, a child that is a
name is to name a class (`Node.Fits`); the proof goes with the recursion of
attribution.

Chain: after `Walks` and `ClassPath/Hierarchy`; read by the proofs about
renaming in a typed file.
-/
import JavaRefit.Proofs.Attribution.Walks
import JavaRefit.Proofs.ClassPath.Hierarchy
import JavaRefit.Proofs.Tree.ClassName
import JavaRefit.Proofs.Tree.Spelled

namespace JavaRefit

open ClassPath

-- ============================================================ class names

/-- A type is called so if it is that of a class with this full name. -/
theorem isClassNamed_iff_fqn? {fqn : String} {type : Option JavaType} :
    isClassNamed fqn type = true ↔ type.bind JavaType.fqn? = some fqn := by
  rcases type with _ | ⟨c⟩ | p | e <;>
    simp [isClassNamed, JavaType.fqn?, JavaType.class?]

/-- The full name of the class that the name was found to mean. -/
def Name.fqn? (n : Name) : Option String := n.type.bind JavaType.fqn?

/-- The name means the class that is found for its words in the file, or
nothing if none is found. -/
def Name.Means (base : Env) (n : Name) : Prop :=
  n.fqn? = (base.names.resolveName? base.classPath n).filter (· ≠ "")

/-- The name means a class that goes by its last word, or nothing. -/
structure Name.NamesClass (n : Name) : Prop where
  outer : ∀ o ∈ n.outer?, o.untyped = o
  simple : ∀ c, n.type = some (.reference c) →
    Text.simpleName c.fqn = Text.simpleName n.last

/-- An access by itself has no type, unless it is a field of `this`; and a
class literal is a `java.lang.Class`. -/
def Expr.IsUntypedAccess : Expr → Prop
  | .access _ target last type =>
    if isClassLiteral last then isClassNamed "java.lang.Class" type = true
    else type = none ∨ ∃ i type', target = .ident i type' ∧ i.name = "this"
  | _ => True

-- ================================================================== nodes

namespace Node

/-- Types that the node keeps beside those of the nodes below it are the same
as those. -/
def IsConsistent (same : Option JavaType → Option JavaType → Prop) : Node → Prop
  | .typeTree (.generic _ base _ type) => same type base.type
  | .typeTree (.array _ element _ type) =>
      same type (some (.array element.type))
  | .declaration d => ∀ v ∈ d.declarators,
    same v.element.type d.typeTree.type ∧
    same v.element.name.type d.typeTree.type
  | .expr (.assign _ target _ type) => same type target.type
  | .expr (.parens _ inner type) => same type inner.element.type
  | _ => True

/-- An access has a type as a whole, unless it is a class literal or on a
single word. -/
def IsTypedWhole : Node → Prop
  | .expr (.access _ target last type) =>
    type = none ∨ target.untyped = target ∨
      if isClassLiteral last then isClassNamed "java.lang.Class" type = true
      else ∃ i type', target = .ident i type'
  | _ => True

/-- What attribution leaves at a node. -/
structure IsAttributed (n : Node) : Prop where
  consistent : n.IsConsistent Eq
  whole : n.IsTypedWhole
  names : ∀ m ∈ n.children, ∀ c, n.className? m = some c → c.NamesClass

/-- The names of classes below the node mean what is found for them in the
file, and accesses that are no such names have no type by themselves. -/
abbrev MeansIn (base : Env) (n : Node) : Prop :=
  n.AllClasses base.classPath.contains
    (fun c => c.NamesClass ∧ c.Means base) Expr.IsUntypedAccess

/-- The node can stand in the place of a class, and all below it is
attributed. -/
structure Fits (base : Env) (n : Node) : Prop where
  walk : ∀ m ∈ n.walk, m.IsAttributed
  name : ∀ c, n.name? = some c → c.NamesClass ∧ c.Means base
  whole : ∀ c, n.spelled? base.classPath.contains = some c →
    c.NamesClass ∧ c.Means base
  free : ∀ e, n = expr e → n.spelled? base.classPath.contains = none →
    e.IsUntypedAccess
  classes : n.spelled? base.classPath.contains = none → n.MeansIn base

variable {base : Env}

/-- The node is an expression with a word behind it. -/
def isAccess : Node → Bool
  | .expr (.access ..) => true
  | _ => false

/-- Away from class literals, whatever is a name is the name of a class where
it is in the place of one. -/
theorem name?_of_className? {n m : Node} {c : Name} (hn : n.isAccess = false)
    (h : n.className? m = some c) : m.name? = some c := by
  unfold className? at h
  split at h
  · cases h
  · cases h
  · cases h
  · cases h
  · cases hn
  · exact h
  · cases h

/-- What is attributed at a node and below its children is attributed below the
node. -/
theorem isAttributed_walk {n : Node} (hn : n.IsProper) (h : n.IsAttributed)
    (hchildren : ∀ m ∈ n.children, ∀ k ∈ m.walk, k.IsAttributed) :
    ∀ m ∈ n.walk, m.IsAttributed := by
  rw [walk_eq hn, List.forall_mem_cons, List.forall_mem_flatMap]
  exact ⟨h, hchildren⟩

/-- A node that is no access has all below it attributed if its children fit. -/
theorem isAttributed_of_fits {n : Node} (hn : n.IsProper)
    (haccess : n.isAccess = false) (hconsistent : n.IsConsistent Eq)
    (hchildren : ∀ m ∈ n.children, m.Fits base) :
    ∀ m ∈ n.walk, m.IsAttributed := by
  have hwhole : n.IsTypedWhole := by
    unfold IsTypedWhole
    split
    · cases haccess
    · trivial
  exact isAttributed_walk hn ⟨hconsistent, hwhole, fun m hm c hc =>
    ((hchildren m hm).name c (name?_of_className? haccess hc)).1⟩ fun m hm =>
      (hchildren m hm).walk

/-- What classes mean below a node is told by its parts. -/
theorem meansIn_of_fits {n : Node} (haccess : n.isAccess = false)
    (hparts : ∀ m ∈ n.parts, m.Fits base) : n.MeansIn base := by
  refine .intro (fun m hm c hc => ?_) (fun e he hnone => ?_)
    fun m hm hnone => ?_
  · rcases Option.or_eq_some_iff.1 hc with hname | ⟨-, hwhole⟩
    · exact (hparts m hm).name c (name?_of_className? haccess hname)
    · exact (hparts m hm).whole c hwhole
  · exact (hparts _ he).free e rfl (Option.or_eq_none_iff.1 hnone).2
  · exact (hparts m hm).classes (Option.or_eq_none_iff.1 hnone).2

/-- A node that is no access spells no class. -/
theorem spelled?_of_isAccess {isClass : String → Bool} {n : Node}
    (h : n.isAccess = false) : n.spelled? isClass = none := by
  unfold spelled?
  split
  · cases h
  · rfl

/-- A node that is no name and no access fits when all below it is
attributed. -/
theorem fits_of_walk {n : Node} (hname : n.name? = none)
    (haccess : n.isAccess = false) (hwalk : ∀ m ∈ n.walk, m.IsAttributed)
    (hclasses : n.MeansIn base) : n.Fits base := by
  refine ⟨hwalk, fun c hc => ?_, fun c hc => ?_, fun e he _ => ?_,
    fun _ => hclasses⟩
  · rw [hname] at hc
    cases hc
  · rw [spelled?_of_isAccess haccess] at hc
    cases hc
  · rw [he] at haccess
    cases e with
    | access => cases haccess
    | _ => trivial

/-- A node fits when its children do and its own types agree with theirs. -/
theorem fits_of_children {n : Node} (hn : n.IsProper) (hname : n.name? = none)
    (haccess : n.isAccess = false) (hconsistent : n.IsConsistent Eq)
    (hchildren : ∀ m ∈ n.children, m.Fits base) : n.Fits base :=
  fits_of_walk hname haccess
    (isAttributed_of_fits hn haccess hconsistent hchildren)
    (meansIn_of_fits haccess fun m hm => hchildren m (n.parts_subset hm))

/-- A bare word fits. -/
theorem fits_ident (i : Ident) : (ident i).Fits base :=
  fits_of_children (.ident i) rfl rfl trivial (List.forall_mem_nil _)

/-- A bare word has no type to be recorded. -/
theorem isAttributed_ident (i : Ident) : ∀ m ∈ (ident i).walk, m.IsAttributed :=
  isAttributed_walk (.ident i) ⟨trivial, trivial, fun _ hm =>
    absurd hm List.not_mem_nil⟩
    (List.forall_mem_nil _)

/-- A single word has nothing below it. -/
theorem isAttributed_exprIdent (i : Ident) (type : Option JavaType) :
    ∀ m ∈ (Expr.ident i type).walk, m.IsAttributed :=
  isAttributed_walk (.expr (.ident i type))
    ⟨trivial, trivial, fun _ hm => absurd hm List.not_mem_nil⟩
    (List.forall_mem_nil _)

end Node

open Node (IsAttributed)

-- ================================================================== names

/-- All nodes of a name are attributed: the parts of it have no types. -/
theorem Name.isAttributed_walk (n : Name) : ∀ m ∈ n.walk, m.IsAttributed := by
  have hself (n : Name) : (Node.name n).IsAttributed :=
    ⟨trivial, trivial, fun _ _ _ h => by cases h⟩
  induction n with
  | simple i type => exact List.forall_mem_singleton.2 (hself _)
  | qualified lead outer last type ih =>
      rw [Name.walk, List.forall_mem_cons, List.forall_mem_append]
      exact ⟨hself _, ih, Node.isAttributed_ident last.element⟩

/-- A name fits where it names the class it means. -/
theorem Node.fits_name {base : Env} {n : Name} (h : n.NamesClass)
    (hmeans : n.Means base) : (Node.name n).Fits base :=
  ⟨n.isAttributed_walk, fun _ hc => Option.some.inj hc ▸ ⟨h, hmeans⟩,
    fun _ hc => (by cases hc), fun _ he => (by cases he), fun _ =>
      Node.allClasses_name n⟩

/-- Types are dropped once. -/
theorem Name.untyped_untyped (n : Name) : n.untyped.untyped = n.untyped := by
  induction n with
  | simple i type => rfl
  | qualified lead outer last type ih =>
      rw [untyped_qualified, untyped_qualified, ih]

/-- One word names a class of that simple name. -/
theorem Name.namesClass_simple {i : Ident} {type : Option JavaType}
    (h : ∀ c, type = some (.reference c) →
      Text.simpleName c.fqn = Text.simpleName i.name) :
    (Name.simple i type).NamesClass :=
  ⟨fun _ ho => (by cases ho), h⟩

/-- A name without types means nothing. -/
theorem Name.namesClass_untyped (n : Name) : n.untyped.NamesClass := by
  cases n with
  | simple i type => exact namesClass_simple fun c hc => by cases hc
  | qualified lead outer last type =>
      exact ⟨fun o ho => Option.some.inj ho ▸ outer.untyped_untyped,
        fun c hc => by cases hc⟩

-- ================================================================= chains

namespace Expr

/-- Types in a chain of words are dropped once. -/
theorem untyped_untyped_of_isNameChain {e : Expr} (h : e.isNameChain = true) :
    e.untyped.untyped = e.untyped := by
  induction e using Expr.induction_on with
  | ident i type => rfl
  | access lead target name type ih =>
      exact congrArg (fun e => Expr.access lead e name none) (ih h)
  | _ => cases h

/-- A chain of words that has no types inside is as attribution leaves it. -/
theorem isAttributed_walk_access {target : Expr} (h : target.isNameChain = true)
    (lead : Trivia) (last : LeftPadded Ident) (type : Option JavaType) :
    ∀ m ∈ (Expr.access lead target.untyped last type).walk, m.IsAttributed := by
  have htarget : ∀ m ∈ target.untyped.walk, m.IsAttributed := by
    cases target with
    | ident i type => exact Node.isAttributed_exprIdent i none
    | access lead inner last type =>
        have hinner : inner.isNameChain = true := h
        exact isAttributed_walk_access hinner lead last none
    | _ => cases h
  refine Node.isAttributed_walk (.expr (.access lead target.untyped last type))
    ⟨trivial, .inr (.inl (untyped_untyped_of_isNameChain h)),
      fun m hm c hc => ?_⟩
    (List.forall_mem_cons.2 ⟨htarget,
      List.forall_mem_singleton.2 (Node.isAttributed_ident _)⟩)
  obtain rfl | hm := List.mem_cons.1 hm
  · simp only [Node.className?, name?_untyped] at hc
    split at hc
    · obtain ⟨n, -, rfl⟩ := Option.map_eq_some_iff.1 hc
      exact n.namesClass_untyped
    · cases hc
  · rw [List.mem_singleton.1 hm] at hc
    cases hc

end Expr

-- ================================================================ meanings

/-- Words of a file mean classes that go by them. -/
def FileNames.NamesPlainly (f : FileNames) : Prop :=
  ∀ p ∈ f.declared ++ f.imported, Text.simpleName p.2 = Text.simpleName p.1

namespace FileNames

variable {f : FileNames} {cp : ClassPath} {name fqn : String}

/-- What is found in a list of plain names is called as it is looked up. -/
theorem simpleName_of_lookup {ps : List (String × String)}
    (h : ∀ p ∈ ps, Text.simpleName p.2 = Text.simpleName p.1)
    (hlookup : ps.lookup name = some fqn) :
    Text.simpleName fqn = Text.simpleName name := by
  obtain ⟨before, after, rfl, -⟩ := List.lookup_eq_some_iff.1 hlookup
  exact h (name, fqn) (by simp)

/-- What is found for a word is called by it. -/
theorem NamesPlainly.simpleName_resolve? (h : f.NamesPlainly)
    (hfound : f.resolve? cp name = some fqn) :
    Text.simpleName fqn = Text.simpleName name := by
  rw [NamesPlainly, List.forall_mem_append] at h
  rw [resolve?, Option.or_eq_some_iff, Option.or_eq_some_iff] at hfound
  rcases hfound with hfound | ⟨-, hfound | ⟨-, hfound⟩⟩
  · exact simpleName_of_lookup h.1 hfound
  · exact simpleName_of_lookup (fun p hp =>
      h.2 p (List.mem_reverse.1 hp)) hfound
  · split at hfound
    · exact Option.some.inj hfound ▸ Text.simpleName_qualify _ _
    · split at hfound
      · exact Option.some.inj hfound ▸ Text.simpleName_append "java.lang" name
      · obtain ⟨package, -, rfl⟩ := Option.map_eq_some_iff.1 hfound
        exact Text.simpleName_append package name

/-- What is found for words with a dot is called by the last. -/
theorem simpleName_resolveDotted {dotted : String} (h : '.' ∈ dotted.toList) :
    Text.simpleName (f.resolveDotted cp dotted) = Text.simpleName dotted := by
  rw [resolveDotted]
  split
  · rfl
  · split
    · rw [Text.simpleName_append, Text.simpleName_tailSegments h]
    · rfl

end FileNames

/-- What is found for a name is called by its last word. -/
theorem FileNames.NamesPlainly.simpleName_resolveName? {f : FileNames}
    {cp : ClassPath} {n : Name} {fqn : String} (h : f.NamesPlainly)
    (hfound : f.resolveName? cp n = some fqn) :
    Text.simpleName fqn = Text.simpleName n.last := by
  cases n with
  | simple i type => exact h.simpleName_resolve? hfound
  | qualified lead outer last type =>
      rw [← Option.some.inj hfound,
        simpleName_resolveDotted (by simp [Name.dotted])]
      exact Name.simpleName_dotted (.qualified lead outer last type)

/-- What holds of the classes that each member declares holds of those that
they declare together. -/
theorem Member.forall_mem_declaredAll {P : JavaClass × String → Prop}
    {outer : String} {ps : List (RightPadded Member)}
    (h : ∀ p ∈ ps, ∀ d ∈ p.element.declared outer, P d) :
    ∀ d ∈ Member.declaredAll outer ps, P d := by
  induction ps with
  | nil => exact List.forall_mem_nil _
  | cons p ps ih =>
      obtain ⟨hp, hps⟩ := List.forall_mem_cons.1 h
      rw [Member.declaredAll, List.forall_mem_append]
      exact ⟨hp, ih hps⟩

/-- A class of a file goes by the word it is declared with. -/
theorem Member.simpleName_declared (m : Member) (outer : String) :
    ∀ d ∈ m.declared outer, Text.simpleName d.2 =
      Text.simpleName d.1.name.last := by
  induction m using Member.induction_on generalizing outer with
  | field d => exact List.forall_mem_nil _
  | method m => exact List.forall_mem_nil _
  | nested c ih =>
      rw [Member.declared, ClassDecl.declared, Member.declaredBlock,
        List.forall_mem_cons]
      exact ⟨Text.simpleName_qualify _ _,
        Member.forall_mem_declaredAll fun p hp => ih p hp _⟩

/-- In a file names are called as they are looked up. -/
theorem CompilationUnit.namesPlainly_fileNames (cu : CompilationUnit) :
    cu.fileNames.NamesPlainly := by
  rw [FileNames.NamesPlainly, List.forall_mem_append, fileNames]
  constructor
  · refine List.forall_mem_map.2 fun d hd => ?_
    obtain ⟨c, -, hd⟩ := List.mem_flatMap.1 hd
    exact (Member.nested c).simpleName_declared cu.packageName d hd
  · exact List.forall_mem_map.2 fun i _ => i.name.simpleName_dotted

variable {base env : Env}

namespace ClassPath.Answers

variable {cp : ClassPath} {α β : Type} {q : Query α} {P U : α → Prop}
  {Q : β → Prop}

/-- An answer put into another form. -/
theorem map {f : α → β} (hq : cp.Answers q P) (hf : ∀ a, P a → Q (f a)) :
    cp.Answers (f <$> q) Q :=
  fun memo hmemo => ⟨(hq memo hmemo).1, hf _ (hq memo hmemo).2⟩

/-- What holds of every answer holds of this one too. -/
theorem andYields (hq : cp.Answers q P) (hU : Yields q U) :
    cp.Answers q fun a => P a ∧ U a :=
  fun memo hmemo => ⟨(hq memo hmemo).1, (hq memo hmemo).2, hU memo⟩

end ClassPath.Answers

-- ============================================================ written types

/-- The type of a class that is asked for has the name that it is asked for
by. -/
theorem Env.answers_classOf (h : env.SameFile base) (fqn? : Option String) :
    base.classPath.Answers (env.classOf fqn?) fun type =>
      type.bind JavaType.fqn? = fqn?.filter (· ≠ "") := by
  cases fqn? with
  | none => exact .pure rfl
  | some fqn =>
      rw [Env.classOf, h.classPath, Option.filter_some]
      split
      next hempty =>
        rw [if_neg (by simpa using hempty)]
        exact .pure rfl
      next hname =>
        rw [if_pos (decide_eq_true hname)]
        exact (answers_typeOf fqn).bind fun c hc => .pure (congrArg some hc.1)

/-- A class type has the name that its class was asked for by. -/
theorem eq_of_filter_eq {type : Option JavaType} {fqn? : Option String}
    (h : type.bind JavaType.fqn? = fqn?.filter (· ≠ "")) {c : ClassType}
    (hc : type = some (.reference c)) : fqn? = some c.fqn := by
  rw [hc] at h
  exact (Option.filter_eq_some_iff.1 h.symm).1

/-- Names are looked up by their words, not by the types they have. -/
theorem FileNames.resolveName?_withType (f : FileNames) (cp : ClassPath)
    (n : Name) (type : Option JavaType) :
    f.resolveName? cp (n.withType type) = f.resolveName? cp n := by
  cases n <;> rfl

/-- A name means the class of the type it is given. -/
theorem Name.fqn?_withType (n : Name) (type : Option JavaType) :
    (n.withType type).fqn? = type.bind JavaType.fqn? := by
  cases n <;> rfl

section

variable (hbase : base.names.NamesPlainly)
include hbase

/-- An attributed name names the class it means. -/
theorem Name.answers_typed (h : env.SameFile base) (n : Name) :
    base.classPath.Answers (n.untyped.typed env) fun n' =>
      n'.NamesClass ∧ n'.Means base := by
  rw [Name.typed, h.names, h.classPath]
  refine (Env.answers_classOf h _).bind fun type htype =>
    .pure ⟨⟨fun o ho => ?_, fun c hc => ?_⟩, ?_⟩
  · have houter : (n.untyped.withType type).outer? = n.untyped.outer? := by
      cases n <;> rfl
    exact n.namesClass_untyped.outer o (houter ▸ ho)
  · have hwith : (n.untyped.withType type).type = type := by
      cases n <;> rfl
    rw [Name.last_withType]
    exact hbase.simpleName_resolveName? (eq_of_filter_eq htype (hwith ▸ hc))
  · rw [Name.Means, Name.fqn?_withType, FileNames.resolveName?_withType, htype]

omit hbase in

/-- Types in a row fit once attributed, if each does. -/
theorem TypeTree.answers_typedAll {ps : List (RightPadded TypeTree)}
    (h : ∀ p ∈ ps, base.classPath.Answers (p.element.untyped.typed env) fun t =>
      t.node.Fits base) :
    base.classPath.Answers (TypeTree.typedAll env
      (ps.map (.map TypeTree.untyped))) fun ps' =>
      ∀ p ∈ ps', p.element.node.Fits base := by
  induction ps with
  | nil => exact .pure (List.forall_mem_nil _)
  | cons p ps ih =>
      obtain ⟨hp, hps⟩ := List.forall_mem_cons.1 h
      rw [List.map_cons, TypeTree.typedAll]
      exact hp.bind fun t ht => (ih hps).bind fun ts hts =>
        .pure (List.forall_mem_cons.2 ⟨ht, hts⟩)

/-- A type fits once attributed. -/
theorem TypeTree.answers_typed (h : env.SameFile base) (t : TypeTree) :
    base.classPath.Answers (t.untyped.typed env) fun t' =>
      t'.node.Fits base := by
  induction t using TypeTree.induction_on with
  | named n =>
      show base.classPath.Answers (TypeTree.typed env (.named n.untyped)) _
      rw [TypeTree.typed]
      exact (n.answers_typed hbase h).bind fun n' hn =>
        .pure (Node.fits_name hn.1 hn.2)
  | generic lead b args type ih =>
      rw [TypeTree.untyped_generic, TypeTree.typed]
      refine (b.answers_typed hbase h).bind fun b' hb =>
        (answers_typedAll ih).bind fun ts hts => .pure ?_
      exact Node.fits_of_children (TypeTree.isProper_node (.generic ..))
        rfl rfl rfl
        (List.forall_mem_cons.2
          ⟨Node.fits_name hb.1 hb.2,
            List.forall_mem_map.2 (List.forall_mem_map.2 hts)⟩)
  | primitive lead keyword type =>
      exact .pure (Node.fits_of_children
        (TypeTree.isProper_node (.primitive ..)) rfl rfl trivial
        (List.forall_mem_nil _))
  | array lead element dimension type ih =>
      rw [TypeTree.untyped_array, TypeTree.typed]
      exact ih.bind fun t ht => .pure
        (Node.fits_of_children (TypeTree.isProper_node (.array ..)) rfl rfl rfl
          (List.forall_mem_singleton.2 ht))
  | union lead alternatives ih =>
      rw [TypeTree.untyped_union, TypeTree.typed]
      exact (answers_typedAll ih).bind fun ts hts => .pure
        (Node.fits_of_children (TypeTree.isProper_node (.union ..))
          rfl rfl trivial (List.forall_mem_map.2 hts))

theorem TypeTree.answers_typedList (h : env.SameFile base)
    (o : Option (Container TypeTree)) :
    base.classPath.Answers (TypeTree.typedList env
      (o.map (.map TypeTree.untyped))) fun o' =>
      ∀ m ∈ TypeTree.listNodes o', m.Fits base := by
  cases o with
  | none => exact .pure (List.forall_mem_nil _)
  | some c =>
      refine (answers_typedAll fun p _ => p.element.answers_typed hbase h).bind
        fun ts hts =>
        .pure ?_
      exact List.forall_mem_map.2 (List.forall_mem_map.2 hts)

-- =========================================================== expressions

omit hbase in

/-- To look for a method around leaves what is remembered in order. -/
theorem answers_findEnclosingMethod (name : String) (arity : Nat)
    (cs : List ClassType) :
    base.classPath.Answers (findEnclosingMethod base.classPath name arity cs)
      fun _ => True := by
  induction cs with
  | nil => exact .pure trivial
  | cons c cs ih =>
      rw [findEnclosingMethod]
      refine (answers_findMethod _ name arity).bind fun m _ => ?_
      cases m with
      | none => exact ih
      | some m => exact .pure trivial

omit hbase in
theorem answers_binaryType (h : env.SameFile base) (op : BinaryOp)
    (left right : Option JavaType) :
    base.classPath.Answers (binaryType env op left right) fun _ => True := by
  rw [binaryType, h.classPath]
  split
  · exact .pure trivial
  · split
    · exact (answers_typeOf stringName).bind fun _ _ => .pure trivial
    · exact .pure trivial

omit hbase in
theorem answers_identType (h : env.SameFile base) (name : String) :
    base.classPath.Answers (identType env name) fun _ => True := by
  rw [identType]
  split
  · exact .pure trivial
  · split
    · exact .pure trivial
    · exact (Env.answers_classOf h _).imp fun _ _ => trivial

/-- The chain of words in front of `.class` names a class. -/
theorem Expr.answers_typedAsClass (h : env.SameFile base) {e : Expr}
    (he : e.isNameChain = true) :
    base.classPath.Answers (e.untyped.typedAsClass env) fun e' =>
      (∀ m ∈ e'.walk, m.IsAttributed) ∧ ∀ c, e'.name? = some c →
      c.NamesClass ∧ c.Means base := by
  cases e with
  | ident i type =>
      show base.classPath.Answers (Expr.typedAsClass env (.ident i none)) _
      rw [Expr.typedAsClass, h.names, h.classPath]
      refine (Env.answers_classOf h _).bind fun type htype =>
        .pure ⟨?_, fun c hc => ?_⟩
      · exact Node.isAttributed_exprIdent i type
      · cases hc
        exact ⟨Name.namesClass_simple fun c hc =>
          hbase.simpleName_resolve? (eq_of_filter_eq htype hc), htype⟩
  | access lead target last type =>
      have htarget : target.isNameChain = true := he
      have hchain : target.untyped.isNameChain = true :=
        target.isNameChain_untyped.trans he
      obtain ⟨text, htext⟩ :=
        Option.isSome_iff_exists.1 (isSome_dotted?_of_isNameChain hchain)
      show base.classPath.Answers
        (Expr.typedAsClass env (.access lead target.untyped last none)) _
      rw [Expr.typedAsClass, chainText?, if_pos hchain, htext, h.names,
        h.classPath]
      refine (Env.answers_classOf h _).bind fun type htype =>
        .pure ⟨isAttributed_walk_access htarget lead last type, fun c hc => ?_⟩
      obtain ⟨outer, houter, rfl⟩ := Option.map_eq_some_iff.1 hc
      have hdotted : outer.dotted = text :=
        Option.some.inj ((dotted?_of_name? houter).symm.trans htext)
      rw [name?_untyped, Option.map_eq_some_iff] at houter
      obtain ⟨n, -, rfl⟩ := houter
      refine ⟨⟨fun o ho => Option.some.inj ho ▸ n.untyped_untyped,
        fun c hc => ?_⟩, ?_⟩
      · rw [← Option.some.inj (eq_of_filter_eq htype hc),
          FileNames.simpleName_resolveDotted (by simp)]
        exact Text.simpleName_append text _
      · rw [Name.Means, FileNames.resolveName?, Name.dotted, hdotted]
        exact htype
  | _ => cases he

omit hbase in

/-- Expressions in a row fit once attributed, if each does. -/
theorem Expr.answers_typedAll {ps : List (RightPadded Expr)}
    (h : ∀ p ∈ ps, base.classPath.Answers (p.element.untyped.typed env) fun e =>
      (Node.expr e).Fits base) :
    base.classPath.Answers (Expr.typedAll env (ps.map (.map Expr.untyped)))
      fun ps' =>
      ∀ p ∈ ps', (Node.expr p.element).Fits base := by
  induction ps with
  | nil => exact .pure (List.forall_mem_nil _)
  | cons p ps ih =>
      obtain ⟨hp, hps⟩ := List.forall_mem_cons.1 h
      rw [List.map_cons, Expr.typedAll]
      exact hp.bind fun e he => (ih hps).bind fun es hes =>
        .pure (List.forall_mem_cons.2 ⟨he, hes⟩)

omit hbase in
/-- An access that spells no class, once its target is attributed: as the name
of a class in front of `.class`, and as an expression else. -/
theorem Node.fits_access {lead : Trivia} {target : Expr}
    {last : LeftPadded Ident} {type : Option JavaType}
    (hwhole : (Node.expr (.access lead target last type)).IsTypedWhole)
    (hown : (Expr.access lead target last type).IsUntypedAccess)
    (hspelled : (Node.expr (.access lead target last type)).spelled?
      base.classPath.contains = none)
    (htarget : ∀ m ∈ target.walk, m.IsAttributed)
    (hname : (isClassLiteral last && target.isNameChain) = true →
      ∀ c, target.name? = some c → c.NamesClass ∧ c.Means base)
    (hinner : (isClassLiteral last && target.isNameChain) = false →
      (Node.expr target).Fits base) :
    (Node.expr (.access lead target last type)).Fits base := by
  have hparts : (Node.expr (.access lead target last type)).parts =
      [expr target, ident last.element] :=
    rfl
  refine ⟨?_, fun _ hc => (by cases hc), fun c hc => ?_, fun e he _ => ?_,
    fun _ => .intro (fun m hm c hc => ?_) (fun e he hnone => ?_)
      fun m hm hnone => ?_⟩
  · refine isAttributed_walk (.expr (.access lead target last type))
      ⟨trivial, hwhole, fun m hm c hc => ?_⟩
      (List.forall_mem_cons.2 ⟨htarget,
        List.forall_mem_singleton.2 (isAttributed_ident _)⟩)
    obtain rfl | hm := List.mem_cons.1 hm
    · simp only [className?] at hc
      split at hc
      next h => exact (hname h c hc).1
      next => cases hc
    · rw [List.mem_singleton.1 hm] at hc
      cases hc
  · rw [hspelled] at hc
    cases hc
  · obtain rfl := Node.expr.inj he
    exact hown
  · rw [hparts, List.mem_cons, List.mem_singleton] at hm
    rcases hm with rfl | rfl
    · simp only [classIn?, className?] at hc
      split at hc
      next h =>
        rcases Option.or_eq_some_iff.1 hc with hc | ⟨hnone, -⟩
        · exact hname h c hc
        · have hsome :=
            Expr.isSome_name?_of_isNameChain (Bool.and_eq_true_iff.1 h).2
          rw [hnone] at hsome
          cases hsome
      next h => exact (hinner (Bool.eq_false_iff.2 h)).whole c hc
    · cases hc
  · rw [hparts, List.mem_cons, List.mem_singleton] at he
    rcases he with he | he
    · obtain rfl := Node.expr.inj he
      simp only [classIn?, className?] at hnone
      split at hnone
      next h =>
        have hsome := Expr.isSome_name?_of_isNameChain
          (Bool.and_eq_true_iff.1 h).2
        rw [(Option.or_eq_none_iff.1 hnone).1] at hsome
        cases hsome
      next h => exact (hinner (Bool.eq_false_iff.2 h)).free _ rfl hnone
    · cases he
  · rw [hparts, List.mem_cons, List.mem_singleton] at hm
    rcases hm with rfl | rfl
    · simp only [classIn?, className?] at hnone
      split at hnone
      next h =>
        have hsome := Expr.isSome_name?_of_isNameChain
          (Bool.and_eq_true_iff.1 h).2
        rw [(Option.or_eq_none_iff.1 hnone).1] at hsome
        cases hsome
      next h => exact (hinner (Bool.eq_false_iff.2 h)).classes hnone
    · exact allClasses_ident last.element

omit hbase in
/-- A chain of words that spells a class, with the type of that class. -/
theorem Node.fits_spelled {lead : Trivia} {target : Expr}
    {last : LeftPadded Ident} {text : String} {c : ClassType}
    (hliteral : ¬ isClassLiteral last = true)
    (hchain : target.isNameChain = true)
    (htext : (Expr.chainText? target.untyped last).filter
      base.classPath.contains = some text) (hc : c.fqn = text) :
    (Node.expr (.access lead target.untyped last (some (.reference c)))).Fits
      base := by
  have hspelled :
      (Node.expr (.access lead target.untyped last
        (some (.reference c)))).spelled?
      base.classPath.contains =
        target.untyped.name?.map fun outer =>
          .qualified lead outer last (some (.reference c)) := by
    rw [spelled?, if_neg hliteral, htext]
    rfl
  have hsome := Expr.isSome_name?_of_isNameChain
    (target.isNameChain_untyped.trans hchain)
  refine ⟨Expr.isAttributed_walk_access hchain lead last _, fun _ hc =>
    (by cases hc), fun n hn => ?_, fun e _ hnone => ?_, fun hnone => ?_⟩
  · rw [hspelled] at hn
    obtain ⟨outer, houter, rfl⟩ := Option.map_eq_some_iff.1 hn
    have hdotted : some (Name.qualified lead outer last
        (some (.reference c))).dotted = some text := by
      rw [Option.filter_eq_some_iff, Expr.chainText?] at htext
      split at htext
      · rw [← htext.1, Expr.dotted?_of_name? houter]
        rfl
      · cases htext.1
    have hcontains : base.classPath.contains text = true :=
      (Option.filter_eq_some_iff.1 htext).2
    have hne : text ≠ "" := by
      intro hempty
      have hlength :=
        congrArg String.length ((Option.some.inj hdotted).trans hempty)
      rw [Name.dotted, String.length_append, String.length_append] at hlength
      have hdot : ".".length = 1 := rfl
      have hnil : "".length = 0 := rfl
      omega
    refine ⟨⟨fun o ho => ?_, fun c' hc' => ?_⟩, ?_⟩
    · rw [Expr.name?_untyped, Option.map_eq_some_iff] at houter
      obtain ⟨m, -, rfl⟩ := houter
      exact Option.some.inj ho ▸ m.untyped_untyped
    · obtain rfl := JavaType.reference.inj (Option.some.inj hc')
      rw [hc, ← Option.some.inj hdotted]
      exact Name.simpleName_dotted (.qualified lead outer last _)
    · rw [Name.Means, FileNames.resolveName?, Option.some.inj hdotted,
        FileNames.resolveDotted, if_pos hcontains, Option.filter_some,
        if_pos (decide_eq_true hne), ← hc]
      rfl
  · rw [hspelled, Option.map_eq_none_iff] at hnone
    rw [hnone] at hsome
    cases hsome
  · rw [hspelled, Option.map_eq_none_iff] at hnone
    rw [hnone] at hsome
    cases hsome

omit hbase in
/-- A class literal, once what is in front of it is attributed: as the name of
a class, or else as an expression. -/
theorem Expr.answers_classLiteral {lead : Trivia} {target : Expr}
    {last : LeftPadded Ident} (hliteral : isClassLiteral last = true)
    (htarget : ∀ m ∈ target.walk, m.IsAttributed)
    (hname : target.isNameChain = true →
      ∀ c, target.name? = some c → c.NamesClass ∧ c.Means base)
    (hinner : target.isNameChain = false → (Node.expr target).Fits base) :
    base.classPath.Answers (do
      return Expr.access lead target last
        (some (.reference (← base.classPath.typeOf "java.lang.Class"))))
          fun e =>
      (Node.expr e).Fits base := by
  refine (answers_typeOf _).bind fun c hc => .pure
    (Node.fits_access ?_ ?_ ?_ htarget ?_ ?_)
  · refine .inr (.inr ?_)
    rw [if_pos hliteral]
    exact beq_iff_eq.2 hc.1
  · rw [IsUntypedAccess, if_pos hliteral]
    exact beq_iff_eq.2 hc.1
  · rw [Node.spelled?, if_pos hliteral]
  · rw [hliteral, Bool.true_and]
    exact hname
  · rw [hliteral, Bool.true_and]
    exact hinner

omit hbase in
/-- A word behind an expression that is attributed has a type as a field of
`this` alone. -/
theorem Node.fits_member {lead : Trivia} {target : Expr}
    {last : LeftPadded Ident} (hliteral : ¬isClassLiteral last = true)
    (hspelled : (Expr.chainText? target last).filter base.classPath.contains =
      none) (htarget : (Node.expr target).Fits base) :
    (Node.expr (.access lead target last (accessType env target last))).Fits
      base := by
  refine fits_access ?_ ?_ ?_ htarget.walk
    (fun hl => absurd (Bool.and_eq_true_iff.1 hl).1 hliteral) fun _ => htarget
  · cases target with
    | ident i type =>
        refine .inr (.inr ?_)
        rw [if_neg hliteral]
        exact ⟨i, type, rfl⟩
    | _ => exact .inl rfl
  · rw [Expr.IsUntypedAccess, if_neg hliteral]
    cases target with
    | ident i type =>
        by_cases hthis : i.name = "this"
        · exact .inr ⟨i, type, rfl, hthis⟩
        · exact .inl (if_neg hthis)
    | _ => exact .inl rfl
  · rw [spelled?, if_neg hliteral, hspelled]
    rfl

/-- An access fits once attributed, if what stands before the dot does. -/
theorem Expr.answers_access (h : env.SameFile base) (lead : Trivia)
    {target : Expr} (last : LeftPadded Ident)
    (ih : base.classPath.Answers (target.untyped.typed env) fun e =>
      (Node.expr e).Fits base) :
    base.classPath.Answers
      (Expr.typed env (.access lead target.untyped last none)) fun e =>
        (Node.expr e).Fits base := by
  rw [Expr.typed, h.classPath]
  split
  next hliteral =>
    split
    next hchain =>
      have hasked := (answers_typedAsClass hbase h
        (target.isNameChain_untyped ▸ hchain)).andYields
          (target.untyped.typedAsClass_yields env)
      refine hasked.bind fun target' ht =>
        answers_classLiteral hliteral ht.1.1 (fun _ => ht.1.2) fun hno => ?_
      rw [isNameChain_congr ht.2, hchain] at hno
      cases hno
    next hchain =>
      refine (ih.andYields (target.untyped.typed_yields env)).bind
        fun target' ht => answers_classLiteral hliteral ht.1.walk
          (fun hchain' => absurd ?_ hchain) fun _ => ht.1
      rw [← isNameChain_congr ht.2]
      exact hchain'
  next hliteral =>
    split
    next dotted hdotted =>
      have hchain : target.isNameChain = true := by
        have htext := (Option.filter_eq_some_iff.1 hdotted).1
        rw [chainText?] at htext
        split at htext
        next hchain => exact target.isNameChain_untyped ▸ hchain
        next => cases htext
      exact (answers_typeOf dotted).bind fun c hc => .pure
        (Node.fits_spelled hliteral hchain hdotted hc.1)
    next hnone =>
      refine (ih.andYields (target.untyped.typed_yields env)).bind
        fun target' ht => .pure (Node.fits_member hliteral ?_ ht.1)
      rw [chainText?_congr ht.2, hnone]

omit hbase in

/-- A call does, if its target and arguments do. -/
theorem Expr.answers_call (h : env.SameFile base) (lead : Trivia)
    {select : Option (RightPadded Expr)} (name : Ident)
    {args : Container Expr} (method : Option MethodType)
    (ihs : ∀ p ∈ select, base.classPath.Answers (p.element.untyped.typed env)
      fun e => (Node.expr e).Fits base)
    (iha : ∀ p ∈ args.elements, base.classPath.Answers
      (p.element.untyped.typed env) fun e => (Node.expr e).Fits base) :
    base.classPath.Answers
      ((Expr.call lead select name args method).untyped.typed env) fun e =>
        (Node.expr e).Fits base := by
  rw [untyped_call]
  have hargs := answers_typedAll iha
  cases select with
  | none =>
      rw [Option.map_none, Expr.typed, h.classPath]
      refine hargs.bind fun es hes =>
        (answers_findEnclosingMethod _ _ _).bind fun m _ => .pure ?_
      exact Node.fits_of_children (.expr _) rfl rfl trivial
        (List.forall_mem_cons.2 ⟨Node.fits_ident name,
          List.forall_mem_map.2 (List.forall_mem_map.2 hes)⟩)
  | some p =>
      rw [Option.map_some, Expr.typed, h.classPath]
      refine hargs.bind fun es hes => (ihs p rfl).bind fun target ht =>
        (answers_findMethod _ _ _).bind fun m _ => .pure ?_
      exact Node.fits_of_children (.expr _) rfl rfl trivial
        (List.forall_mem_cons.2 ⟨ht, List.forall_mem_cons.2
          ⟨Node.fits_ident name,
            List.forall_mem_map.2 (List.forall_mem_map.2 hes)⟩⟩)

/-- An instance creation does, if its arguments do. -/
theorem Expr.answers_new (h : env.SameFile base) (lead : Trivia)
    (b : TypeTree) {args : Container Expr} (constructor : Option MethodType)
    (type : Option JavaType)
    (ih : ∀ p ∈ args.elements, base.classPath.Answers
      (p.element.untyped.typed env) fun e => (Node.expr e).Fits base) :
    base.classPath.Answers
      ((Expr.new lead b args constructor type).untyped.typed env) fun e =>
        (Node.expr e).Fits base := by
  rw [untyped_new, Expr.typed, h.classPath]
  refine (b.answers_typed hbase h).bind fun b' hb =>
    (answers_typedAll ih).bind fun es hes =>
      (answers_findConstructor _ _).bind fun m _ => .pure ?_
  exact Node.fits_of_children (.expr _) rfl rfl trivial
    (List.forall_mem_cons.2
      ⟨hb, List.forall_mem_map.2 (List.forall_mem_map.2 hes)⟩)

omit hbase in

/-- A constant does. -/
theorem Expr.answers_constant (h : env.SameFile base) (lead : Trivia)
    (text : String) :
    base.classPath.Answers (Expr.typed env (.literal lead text none)) fun e =>
      (Node.expr e).Fits base := by
  have hfits (type : Option JavaType) :
      (Node.expr (.literal lead text type)).Fits base :=
    Node.fits_of_children (.expr _) rfl rfl trivial (List.forall_mem_nil _)
  rw [Expr.typed, h.classPath]
  split
  · exact (answers_typeOf _).bind fun _ _ => .pure (hfits _)
  · exact .pure (hfits _)

omit hbase in
/-- An operation fits with what it is done to. -/
theorem Node.fits_operation {e : Expr} (hname : (expr e).isAccess = false)
    (hconsistent : (expr e).IsConsistent Eq)
    (h : ∀ m ∈ (expr e).children, m.Fits base) : (expr e).Fits base :=
  fits_of_children (.expr e) rfl hname hconsistent h

/-- An expression fits once it is typed. -/
theorem Expr.answers_typed (h : env.SameFile base) (e : Expr) :
    base.classPath.Answers (e.untyped.typed env) fun e' =>
      (Node.expr e').Fits base := by
  induction e using Expr.induction_on with
  | ident i type =>
      show base.classPath.Answers (Expr.typed env (.ident i none)) _
      rw [Expr.typed]
      exact (answers_identType h i.name).bind fun type _ => .pure
        (Node.fits_operation rfl trivial (List.forall_mem_nil _))
  | access lead target last type ih => exact answers_access hbase h lead last ih
  | call lead select name args method ihs iha =>
      exact answers_call h lead name method ihs iha
  | new lead b args constructor type ih =>
      exact answers_new hbase h lead b constructor type ih
  | literal lead text type => exact answers_constant h lead text
  | assign lead target value type iht ihv =>
      show base.classPath.Answers (Expr.typed env (.assign lead target.untyped
        ⟨value.before, value.element.untyped⟩ none)) _
      rw [Expr.typed]
      exact iht.bind fun target' ht => ihv.bind fun value' hv => .pure
        (Node.fits_operation rfl rfl
          (List.forall_mem_cons.2 ⟨ht, List.forall_mem_singleton.2 hv⟩))
  | binary lead left operator right type ihl ihr =>
      show base.classPath.Answers
        (Expr.typed env
          (.binary lead left.untyped operator right.untyped none)) _
      rw [Expr.typed]
      exact ihl.bind fun left' hl => ihr.bind fun right' hr =>
        (answers_binaryType h _ _ _).bind fun type _ => .pure
          (Node.fits_operation rfl trivial
            (List.forall_mem_cons.2 ⟨hl, List.forall_mem_singleton.2 hr⟩))
  | unary lead operator operand type ih =>
      show base.classPath.Answers
        (Expr.typed env (.unary lead operator operand.untyped none)) _
      rw [Expr.typed]
      exact ih.bind fun operand' ho => .pure
        (Node.fits_operation rfl trivial (List.forall_mem_singleton.2 ho))
  | parens lead inner type ih =>
      show base.classPath.Answers (Expr.typed env (.parens lead
        ⟨inner.element.untyped, inner.after⟩ none)) _
      rw [Expr.typed]
      exact ih.bind fun e he => .pure
        (Node.fits_operation rfl rfl (List.forall_mem_singleton.2 he))

end

end JavaRefit
