/-
What the names of classes in a file mean.

Names are looked up by what the file imports and declares, and by which
classes there are. None of these hangs on types
(`CompilationUnit.fileNames_untyped`), and of the classes of the file only
their names count (`CompilationUnit.contains_extendClassPath`). So what was
found for the names of a file that was read can be told by the file itself
(`meansIn_parseUnit`), and what was found for a word of an expression that
means no variable as well (`CompilationUnit.fqn?_of_uses`).

Chain: after `RecordedUnit`, `Lexical` and `Binding`; read by the proofs
about what names mean after a run.
-/
import JavaRefit.Proofs.Attribution.Binding
import JavaRefit.Proofs.Attribution.Lexical
import JavaRefit.Proofs.Attribution.RecordedUnit
import JavaRefit.Proofs.Grammar.Words
import JavaRefit.Proofs.Import.Meaning
import JavaRefit.Proofs.Tree.ClassPlace
import JavaRefit.Proofs.Tree.Recaught

namespace JavaRefit

-- ================================================================ lookups

namespace FileNames

variable {f : FileNames} {cp cp' : ClassPath}

/-- Names are looked up by which classes there are, whatever these are. -/
theorem resolve?_congr (h : cp'.contains = cp.contains) (name : String) :
    f.resolve? cp' name = f.resolve? cp name := by
  unfold resolve? ClassPath.packageHas
  rw [h]

theorem resolveName?_congr (h : cp'.contains = cp.contains) (n : Name) :
    f.resolveName? cp' n = f.resolveName? cp n := by
  cases n with
  | simple i type => exact resolve?_congr h i.name
  | qualified lead outer last type =>
      unfold resolveName? resolveDotted
      dsimp only
      rw [h, resolve?_congr h]

theorem meaning?_congr (h : cp'.contains = cp.contains) (words : String) :
    f.meaning? cp' words = f.meaning? cp words := by
  unfold meaning? resolveDotted
  rw [h, resolve?_congr h, resolve?_congr h]

end FileNames

-- =================================================================== files

/-- The words of a declared class: the one it is declared with, and its full
name. -/
def ClassDecl.outline (d : JavaClass × String) : String × String :=
  (d.1.name.last, d.2)

/-- The classes of members are declared by the same words if those of each two
members are. -/
theorem Member.outline_declaredAll {outer : String}
    {ps qs : List (RightPadded Member)}
    (h : List.Forall₂ (fun p q : RightPadded Member =>
      (q.element.declared outer).map ClassDecl.outline =
        (p.element.declared outer).map ClassDecl.outline) ps qs) :
    (Member.declaredAll outer qs).map ClassDecl.outline =
      (Member.declaredAll outer ps).map ClassDecl.outline := by
  induction h with
  | nil => rfl
  | cons hpq _ ih =>
      rw [Member.declaredAll, Member.declaredAll, List.map_append, hpq, ih,
        List.map_append]

/-- The classes of a member are declared by the same words without types. -/
theorem Member.outline_untyped (m : Member) (outer : String) :
    (m.untyped.declared outer).map ClassDecl.outline =
      (m.declared outer).map ClassDecl.outline := by
  induction m using Member.induction_on generalizing outer with
  | field d => rfl
  | method m => rfl
  | nested c ih =>
      show (ClassDecl.declared outer c.untyped).map _ = _
      rw [c.untyped_eq]
      rw [Member.declared, ClassDecl.declared, ClassDecl.declared,
        List.map_cons, List.map_cons, c.name.last_untyped, Member.declaredBlock,
        Member.declaredBlock]
      refine congrArg₂ List.cons (Prod.ext c.name.last_untyped rfl)
        (Member.outline_declaredAll ?_)
      show List.Forall₂ _ c.body.statements
        (c.body.statements.map (RightPadded.map Member.untyped))
      rw [List.forall₂_map_right_iff]
      exact List.forall₂_same.2 fun p hp => ih p hp _

/-- Members that differ in what catch clauses declare declare the same
classes. -/
theorem Member.Recaught.outline_declared {P : Variables → Variables → Prop}
    {m m' : Member} (h : Member.Recaught P m m') (outer : String) :
    (m'.declared outer).map ClassDecl.outline =
      (m.declared outer).map ClassDecl.outline := by
  induction m using Member.induction_on generalizing m' outer with
  | field d =>
      cases h with
      | same => rfl
  | method m => cases h <;> rfl
  | nested c ih =>
      cases h with
      | same => rfl
      | nested hpq hafter =>
          rw [Member.declared, ClassDecl.declared, Member.declared,
            ClassDecl.declared, List.map_cons, List.map_cons,
            Member.declaredBlock, Member.declaredBlock]
          refine congrArg (List.cons _) (Member.outline_declaredAll ?_)
          exact ((List.forall₂_and_left _ _).2 ⟨ih, hpq⟩).imp fun p q hboth =>
            hboth.1 hboth.2 _

namespace CompilationUnit

variable {cu : CompilationUnit} {cp : ClassPath}

/-- The package has its name without types. -/
theorem packageName_untyped (cu : CompilationUnit) :
    cu.untyped.packageName = cu.packageName := by
  rw [untyped_eq, packageName, packageName]
  cases cu.package? with
  | none => rfl
  | some p => exact p.element.name.dotted_untyped

/-- A file declares its classes by the same words without types. -/
theorem outline_untyped (cu : CompilationUnit) :
    cu.untyped.declaredClasses.map ClassDecl.outline =
      cu.declaredClasses.map ClassDecl.outline := by
  rw [declaredClasses, declaredClasses, packageName_untyped, untyped_eq,
    List.flatMap_map, List.map_flatMap, List.map_flatMap]
  exact List.flatMap_congr fun c _ =>
    Member.outline_untyped (.nested c) cu.packageName

/-- Files that differ in what catch clauses declare declare the same classes. -/
theorem outline_recaught {P : Variables → Variables → Prop}
    {edited : CompilationUnit} (hpackage : edited.package? = cu.package?)
    (hclasses : List.Forall₂ (ClassDecl.Recaught P) cu.classes edited.classes) :
    edited.declaredClasses.map ClassDecl.outline =
      cu.declaredClasses.map ClassDecl.outline := by
  have hname : edited.packageName = cu.packageName := by
    rw [packageName, packageName, hpackage]
  rw [declaredClasses, declaredClasses, hname, List.map_flatMap,
    List.map_flatMap, List.flatMap_def, List.flatMap_def]
  refine congrArg List.flatten ?_
  rw [← List.forall₂_eq_eq_eq, List.forall₂_map_left_iff,
    List.forall₂_map_right_iff]
  exact hclasses.flip.imp fun _ _ hc =>
    Member.Recaught.outline_declared hc cu.packageName

/-- Types are nothing that names are looked up by. -/
theorem fileNames_untyped (cu : CompilationUnit) :
    cu.untyped.fileNames = cu.fileNames := by
  have himports : cu.untyped.imports.map RightPadded.element =
      (cu.imports.map RightPadded.element).map Import.untyped := by
    rw [untyped_eq, List.map_map, List.map_map]
    rfl
  have hwildcard (i : Import) : i.untyped.isWildcard = i.isWildcard :=
    congrArg (· == "*") i.name.last_untyped
  have hpair (i : Import) : (i.untyped.className, i.untyped.typeName) =
      (i.className, i.typeName) :=
    Prod.ext i.name.last_untyped i.name.dotted_untyped
  have hpackage (i : Import) : i.untyped.packageName? = i.packageName? := by
    rw [Import.packageName?, Import.packageName?, Import.untyped]
    cases i.name with
    | simple i type => rfl
    | qualified lead outer last type => exact congrArg some outer.dotted_untyped
  have hdeclared :
      (cu.untyped.declaredClasses.map fun d => (d.1.name.last, d.2)) =
      cu.declaredClasses.map fun d => (d.1.name.last, d.2) := outline_untyped cu
  simp only [fileNames, packageName_untyped, hdeclared, himports,
    List.filter_map, List.map_map, List.filterMap_map, Function.comp_def,
    hwildcard, hpair, hpackage]
  rfl

/-- The classes that a file can name are its own and those of the class path. -/
theorem contains_extendClassPath (cu : CompilationUnit) (cp : ClassPath)
    (fqn : String) : (cu.extendClassPath cp).contains fqn =
      (cu.fileNames.declared.any (fun d => d.2 == fqn) || cp.contains fqn) := by
  rw [extendClassPath, ClassPath.contains_extend, fileNames, List.any_map,
    List.any_map]
  rfl

/-- Files that declare their classes by the same names can name the same
classes. -/
theorem contains_congr {cu' : CompilationUnit}
    (h : cu'.fileNames.declared = cu.fileNames.declared) (cp : ClassPath) :
    (cu'.extendClassPath cp).contains = (cu.extendClassPath cp).contains := by
  funext fqn
  rw [contains_extendClassPath, contains_extendClassPath, h]

end CompilationUnit

/-- The names of classes in a file that was read mean what is found for them in
it. -/
theorem meansIn_parseUnit {source : String} {cp : ClassPath}
    {path : Option String} {cu : CompilationUnit}
    (h : parseUnit source cp path = .ok cu) :
    (Node.unit cu).MeansIn (cu.env cp) := by
  obtain ⟨tree, -, rfl, hfits⟩ := fits_parseUnit h
  have hnames : (tree.typed cp).fileNames = tree.fileNames := by
    rw [← CompilationUnit.fileNames_untyped (tree.typed cp),
      CompilationUnit.untyped_typed, CompilationUnit.fileNames_untyped]
  have hcontains :=
    CompilationUnit.contains_congr (congrArg FileNames.declared hnames) cp
  have hmeans : Name.Means ((tree.typed cp).env cp) =
      Name.Means (tree.env cp) := by
    funext n
    show (n.fqn? = ((tree.typed cp).fileNames.resolveName?
      ((tree.typed cp).extendClassPath cp) n).filter (· ≠ "")) = _
    rw [hnames, FileNames.resolveName?_congr hcontains]
    rfl
  show (Node.unit (tree.typed cp)).AllClasses
    ((tree.typed cp).extendClassPath cp).contains
      (fun c => c.NamesClass ∧ c.Means ((tree.typed cp).env cp)) _
  rw [hcontains, hmeans]
  exact hfits.classes rfl

-- ============================================================== what is found

namespace CompilationUnit

variable {source : String} {cp : ClassPath} {path : Option String}
  {cu : CompilationUnit}

/-- The full name of the class that is found for some words in the file, where
one is found. -/
def meaning? (cu : CompilationUnit) (cp : ClassPath) (words : String) :
    Option String :=
  cu.fileNames.meaning? (cu.extendClassPath cp) words

/-- A name in a file that was read that is one word has no dot in it. -/
theorem isPlain_of_asName? (h : parseUnit source cp path = .ok cu) {m : Node}
    (hm : m ∈ cu.walk) {n : Name} (hname : m.asName? = some n) : n.IsPlain :=
  fun houter => not_mem_of_word? h hm (Node.word?_of_asName? hname houter)

/-- The class that a name means in a file is the one that is found for its
words. -/
theorem fqn?_of_means {n : Name} (hplain : n.IsPlain)
    (hmeans : n.Means (cu.env cp)) : n.fqn? = cu.meaning? cp n.dotted :=
  hmeans.trans (FileNames.filter_resolveName? hplain)

/-- Names in a file that was read say what class they mean: one that goes by
the last word, and that is found for the words. -/
structure SaysClass (cu : CompilationUnit) (cp : ClassPath) (n : Name) :
    Prop where
  named : n.NamesClass
  plain : n.IsPlain
  means : n.fqn? = cu.meaning? cp n.dotted

/-- The name of a class at a place below a node of a file that was read. -/
theorem saysClass_of_classAt? (h : parseUnit source cp path = .ok cu)
    {m : Node} (hm : m ∈ cu.walk) (hspelling : ¬m.IsSpelling)
    {place : List Nat} {n : Name}
    (hn : m.classAt? (cu.extendClassPath cp).contains place = some n) :
    cu.SaysClass cp n := by
  have hmeans := (meansIn_parseUnit h).of_mem_walk (.unit cu) hm hspelling
  obtain ⟨hnamed, hmeant⟩ := hmeans.of_classAt? hn
  have hproper := Node.isProper_of_mem_walk (.unit cu) hm
  obtain ⟨k, hk, hname⟩ := Node.exists_mem_walk_of_classAt? hproper hn
  have hplain : n.IsPlain :=
    isPlain_of_asName? h (Node.walk_subset (.unit cu) hm hk) hname
  exact ⟨hnamed, hplain, fqn?_of_means hplain hmeant⟩

/-- The name of a class at a place of a file that was read means what is found
for its words. -/
theorem fqn?_of_classAt? (h : parseUnit source cp path = .ok cu)
    {place : List Nat} {n : Name}
    (hn : (Node.unit cu).classAt? (cu.extendClassPath cp).contains place =
      some n) : n.fqn? = cu.meaning? cp n.dotted :=
  (saysClass_of_classAt? h (Node.mem_walk_self (.unit cu)) not_false hn).means

/-- The names in the type of a declaration in a file that was read mean what
is found for their words. -/
theorem names_of_mem_walk (h : parseUnit source cp path = .ok cu)
    {d : Variables} (hd : Node.declaration d ∈ cu.walk) :
    ∀ n ∈ d.typeTree.names, cu.SaysClass cp n := by
  have hproper : (Node.declaration d).IsProper := .declaration d
  have htype : d.typeTree.node ∈ (Node.declaration d).children :=
    List.mem_append_right _ List.mem_cons_self
  have hmeans := ((meansIn_parseUnit h).of_mem_walk (.unit cu) hd
    not_false).of_mem_names rfl rfl htype
  intro n hn
  obtain ⟨m, hm, hchild, hname⟩ :=
    Node.exists_of_mem_names hproper rfl rfl htype n hn
  have hm : m ∈ cu.walk := Node.walk_subset (.unit cu) hd hm
  have hwalk : Node.name n ∈ cu.walk := Node.walk_subset (.unit cu) hm
    (Node.children_subset_walk (Node.isProper_of_mem_walk (.unit cu) hm) hchild)
  have hplain : n.IsPlain := isPlain_of_asName? h hwalk rfl
  obtain ⟨hnamed, hmeant⟩ := hmeans n hn
  exact ⟨hnamed, hplain, fqn?_of_means hplain hmeant⟩

-- ---------------------------------------------------------------- words

/-- The marks of a file, over a class path that has the classes of the file. -/
def ownMarks (cu : CompilationUnit) (cp : ClassPath) : List Mark :=
  cu.marks (cu.untyped.extendClassPath cp)

/-- What a chain of words mentions in the file. -/
def mention (cu : CompilationUnit) (cp : ClassPath) (e : Expr) : Mention :=
  e.mention (cu.untyped.extendClassPath cp)

/-- Types are nothing that the classes one can name hang on. -/
theorem contains_untyped (cu : CompilationUnit) (cp : ClassPath) :
    (cu.untyped.extendClassPath cp).contains =
      (cu.extendClassPath cp).contains :=
  contains_congr (congrArg FileNames.declared (fileNames_untyped cu)) cp

/-- What was read is the tree of the text with its types. -/
theorem typed_untyped_of_parseUnit (h : parseUnit source cp path = .ok cu) :
    cu.untyped.typed cp = cu := by
  have htree := parseTree_of_parseUnit h
  rw [parseUnit, htree] at h
  exact Except.ok.inj h

/-- The uses in a file that was read fit what is before them. -/
theorem allFit_ownMarks (h : parseUnit source cp path = .ok cu) :
    Mark.AllFit (cu.untyped.classMeant cp) [] (cu.ownMarks cp) := by
  have hfit : Mark.AllFit (cu.untyped.classMeant cp) []
      ((cu.untyped.typed cp).marks (cu.untyped.extendClassPath cp)) :=
    typed_allFit cu.untyped cp
  rwa [typed_untyped_of_parseUnit h] at hfit

/-- A mark of the file fits the marks before it. -/
theorem fits_ownMarks (h : parseUnit source cp path = .ok cu) {i : Nat}
    {m : Mark} (hm : (cu.ownMarks cp)[i]? = some m) :
    m.Fits (cu.untyped.classMeant cp) ((cu.ownMarks cp).take i) := by
  obtain ⟨hi, heq⟩ := List.getElem?_eq_some_iff.1 hm
  have hsplit : cu.ownMarks cp =
      (cu.ownMarks cp).take i ++ m :: (cu.ownMarks cp).drop (i + 1) := by
    rw [← heq, List.getElem_cons_drop, List.take_append_drop]
  exact allFit_ownMarks h _ _ _ hsplit

/-- The class that a word means is the one that is found for it. -/
theorem fqn?_classMeant_untyped (cu : CompilationUnit) (cp : ClassPath)
    (name : String) :
    (cu.untyped.classMeant cp name).bind JavaType.fqn? =
      (cu.fileNames.resolve? (cu.extendClassPath cp) name).filter (· ≠ "") := by
  rw [fqn?_classMeant, fileNames_untyped,
    FileNames.resolve?_congr (cu.contains_untyped cp)]

/-- A word that means no variable where it is used means the class that is
found for it. -/
theorem fqn?_of_uses (h : parseUnit source cp path = .ok cu)
    {i : Nat} {name : String} {type : Option JavaType}
    (huse : (cu.ownMarks cp)[i]? = some (.uses name type))
    (hfree : Means name ((cu.ownMarks cp).take i) none) :
    type.bind JavaType.fqn? =
      (cu.fileNames.resolve? (cu.extendClassPath cp) name).filter (· ≠ "") := by
  obtain ⟨meaning, hmeaning, htype⟩ := fits_ownMarks h huse
  rw [htype, hmeaning.eq_none hfree, Option.getD_none,
    fqn?_classMeant_untyped]

/-- So does one that an annotation mentions. -/
theorem fqn?_of_mention (h : parseUnit source cp path = .ok cu)
    {i : Nat} {mentions : List Mention}
    (hmark : (cu.ownMarks cp)[i]? = some (.annotates mentions)) {a : Mention}
    (ha : a ∈ mentions) {name : String} {type : Option JavaType}
    (huse : a.use? = some (name, type))
    (hfree : Means name ((cu.ownMarks cp).take i) none) :
    type.bind JavaType.fqn? =
      (cu.fileNames.resolve? (cu.extendClassPath cp) name).filter (· ≠ "") := by
  obtain ⟨meaning, hmeaning, htype⟩ :=
    fits_ownMarks h hmark a ha (name, type) huse
  dsimp only at hmeaning htype
  rw [htype, hmeaning.eq_none hfree, Option.getD_none,
    fqn?_classMeant_untyped]

end CompilationUnit

end JavaRefit
