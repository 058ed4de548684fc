/-
A change of imports as one of names.

Of the imports of a file only those of classes are looked at when names
are looked up: those of single ones by their last words
(`Import.singles`), those of whole packages for what they show
(`Import.packages`). A change that drops one class and brings another one
changes nothing else (`CompilationUnit.swaps_applyDelta`). What is brought
was not to be seen before: it was not in the file's own package, in
`java.lang` or in a package that is imported.

A class that the file refers to by its simple name is kept, and is brought
unless it is seen (`CompilationUnit.imports_applyDelta_of_contains`,
`CompilationUnit.imports_applyDelta_iff`).

Chain: after `Meaning`, that of attribution too, and the proofs about
changes of imports; read by the proofs about what names mean after a run.
-/
import JavaRefit.Proofs.Attribution.Meaning
import JavaRefit.Proofs.Import.Ordered

namespace JavaRefit

open FileNames (Drops Brings Swaps)

-- ========================================================= qualified names

namespace IsQualifiedName

variable {fqn : String}

/-- A qualified name is that of its package with the simple name behind a
dot. -/
theorem joined (h : IsQualifiedName fqn) :
    Text.packageName fqn ++ "." ++ Text.simpleName fqn = fqn := by
  rcases Text.segments_eq fqn with ⟨hsegments, -⟩ | ⟨-, hjoined⟩
  · have hlength := h.1
    rw [hsegments] at hlength
    exact absurd hlength (Nat.not_succ_le_self 1)
  · exact hjoined

theorem mem_dot (h : IsQualifiedName fqn) : '.' ∈ fqn.toList := by
  rw [← h.joined]
  simp

theorem simpleName_ne (h : IsQualifiedName fqn) :
    Text.simpleName fqn ≠ fqn := by
  intro heq
  have hlength := congrArg String.length h.joined
  rw [heq, String.length_append, String.length_append] at hlength
  have hdot : ".".length = 1 := rfl
  omega

end IsQualifiedName

-- ================================================================= imports

namespace Import

/-- The imports of classes. -/
def ofClasses (is : List (RightPadded Import)) : List Import :=
  (is.map RightPadded.element).filter fun i => !i.isStatic

/-- The imports of single classes, with the words they go by. -/
def singles (is : List (RightPadded Import)) : List (String × String) :=
  ((ofClasses is).filter fun i => !i.isWildcard).map fun i =>
    (i.className, i.typeName)

/-- The packages that are imported as a whole. -/
def packages (is : List (RightPadded Import)) : List String :=
  ((ofClasses is).filter isWildcard).filterMap packageName?

theorem ofClasses_append (is is' : List (RightPadded Import)) :
    ofClasses (is ++ is') = ofClasses is ++ ofClasses is' := by
  rw [ofClasses, List.map_append, List.filter_append, ofClasses, ofClasses]

theorem singles_append (is is' : List (RightPadded Import)) :
    singles (is ++ is') = singles is ++ singles is' := by
  rw [singles, ofClasses_append, List.filter_append, List.map_append,
    singles, singles]

theorem packages_append (is is' : List (RightPadded Import)) :
    packages (is ++ is') = packages is ++ packages is' := by
  rw [packages, ofClasses_append, List.filter_append, List.filterMap_append,
    packages, packages]

theorem ofClasses_unled (is : List (RightPadded Import)) :
    ofClasses (is.map unled) = (ofClasses is).map fun i =>
      { i with lead := "" } := by
  simp only [ofClasses, List.map_map, List.filter_map]
  rfl

theorem singles_unled (is : List (RightPadded Import)) :
    singles (is.map unled) = singles is := by
  simp only [singles, ofClasses_unled, List.filter_map, List.map_map]
  rfl

theorem packages_unled (is : List (RightPadded Import)) :
    packages (is.map unled) = packages is := by
  simp only [packages, ofClasses_unled, List.filter_map, List.filterMap_map]
  rfl

theorem mem_singles {is : List (RightPadded Import)} {p : String × String} :
    p ∈ singles is ↔ ∃ q ∈ is, q.element.isStatic = false ∧
    q.element.isWildcard = false ∧
      (q.element.className, q.element.typeName) = p := by
  simp [singles, ofClasses, and_assoc, and_left_comm]

theorem mem_packages {is : List (RightPadded Import)} {package : String} :
    package ∈ packages is ↔ ∃ q ∈ is, q.element.isStatic = false ∧
    q.element.isWildcard = true ∧
      q.element.packageName? = some package := by
  simp [packages, ofClasses, and_assoc, and_left_comm]

/-- An import of a single class is no more than that. -/
theorem cons_of_isOf {p : RightPadded Import} {fqn : String}
    (h : p.element.isOf fqn = true) (is : List (RightPadded Import)) :
    singles (p :: is) = (p.element.className, fqn) :: singles is ∧
      packages (p :: is) = packages is := by
  simp only [isOf, Bool.and_eq_true, Bool.not_eq_true', beq_iff_eq] at h
  obtain ⟨⟨hstatic, hwildcard⟩, hname⟩ := h
  simp [singles, packages, ofClasses, hstatic, hwildcard, hname]

end Import

/-- The classes that a member declares are met in its walk. -/
theorem Member.mem_walk_of_declared (m : Member) (outer : String) :
    ∀ d ∈ m.declared outer, Node.classDecl d.1 ∈ m.walk := by
  induction m using Member.induction_on generalizing outer with
  | field d => exact List.forall_mem_nil _
  | method m => exact List.forall_mem_nil _
  | nested c ih =>
      have hself : Node.classDecl c ∈ c.walk :=
        Node.mem_walk_self (.classDecl c)
      have hbody {p : RightPadded Member} (hp : p ∈ c.body.statements) :
          p.element.walk ⊆ c.walk := by
        rw [ClassDecl.walk, Member.walkBlock, Member.walkAll_eq]
        intro n hn
        refine List.mem_cons_of_mem _
          (List.mem_append_right _ (List.mem_cons_of_mem _ ?_))
        exact List.mem_flatMap.2 ⟨p, hp, hn⟩
      rw [Member.declared, ClassDecl.declared, Member.declaredBlock,
        List.forall_mem_cons]
      exact ⟨hself, Member.forall_mem_declaredAll fun p hp d hd =>
        hbody hp (ih p hp _ d hd)⟩

namespace CompilationUnit

variable {cu cu' : CompilationUnit} {old new : String}

theorem fileNames_eq (cu : CompilationUnit) : cu.fileNames =
    ⟨cu.packageName, cu.declaredClasses.map ClassDecl.outline,
      Import.singles cu.imports, Import.packages cu.imports⟩ := rfl

/-- What stands in front of the first class declares nothing else. -/
theorem outline_withFirstClassLead (cu : CompilationUnit)
    (lead : Trivia → Trivia) :
    (cu.withFirstClassLead lead).declaredClasses.map ClassDecl.outline =
      cu.declaredClasses.map ClassDecl.outline := by
  unfold withFirstClassLead
  split
  · rfl
  · next c cs hclasses =>
    rw [declaredClasses, declaredClasses, hclasses, List.flatMap_cons,
      List.flatMap_cons, List.map_append, List.map_append]
    refine congrArg (· ++ _) ?_
    rw [ClassDecl.declared, ClassDecl.declared]
    rfl

theorem ImportsOnly.outline_eq (h : cu.ImportsOnly cu') :
    cu'.declaredClasses.map ClassDecl.outline =
      cu.declaredClasses.map ClassDecl.outline := by
  obtain ⟨imports, lead, -, rfl⟩ := h
  exact outline_withFirstClassLead _ lead

/-- Imports leave no marks. -/
theorem ImportsOnly.marks_eq (h : cu.ImportsOnly cu') (cp : ClassPath) :
    cu'.marks cp = cu.marks cp := by
  obtain ⟨imports, lead, -, rfl⟩ := h
  rw [marks, marks]
  unfold CompilationUnit.withFirstClassLead
  split
  · rfl
  · next c cs hclasses =>
    have hclasses : cu.classes = c :: cs := hclasses
    have hlead : ClassDecl.marks cp { c with lead := lead c.lead } =
        ClassDecl.marks cp c := by
      rw [ClassDecl.marks, ClassDecl.marks]
      rfl
    rw [hclasses, List.flatMap_cons, List.flatMap_cons, hlead]

theorem ImportsOnly.fileNames_eq (h : cu.ImportsOnly cu') : cu'.fileNames =
    { cu.fileNames with
      imported := Import.singles cu'.imports
      wildcards := Import.packages cu'.imports } := by
  have hpackage : cu'.packageName = cu.packageName := by
    rw [packageName, h.package_eq, packageName]
  rw [CompilationUnit.fileNames_eq, CompilationUnit.fileNames_eq, hpackage]
  rw [h.outline_eq]

/-- What goes is the first import of the class. -/
theorem drops_fileNames {ω : Type} (hplain : cu.fileNames.ImportsPlainly)
    (old : String) :
    Drops old cu.fileNames
      (cu.removeImport old : Edited ω CompilationUnit).value.fileNames := by
  rw [removeImport]
  split
  · next cu' hremove =>
    obtain ⟨before, p, after, hbefore, hp, hold, hnew⟩ :=
      exists_unled_of_removeImport? hremove
    have hsingles : cu.fileNames.imported = Import.singles before ++
        (p.element.className, old) :: Import.singles after := by
      rw [fileNames_eq, ← Import.singles_unled, hold, Import.singles_append,
        (Import.cons_of_isOf hp after).1]
    have hname : p.element.className = Text.simpleName old :=
      hplain _ (hsingles ▸ List.mem_append_right _ List.mem_cons_self)
    have hgone : cu'.fileNames =
        { cu.fileNames with
          imported := Import.singles before ++ Import.singles after } := by
      rw [(ImportsOnly.refl.of_removeImport? hremove).fileNames_eq,
        ← Import.singles_unled, hnew, Import.singles_append,
        ← Import.packages_unled cu'.imports, hnew, fileNames_eq,
        ← Import.packages_unled cu.imports, hold, Import.packages_append,
        Import.packages_append, (Import.cons_of_isOf hp after).2]
    rw [Edited.value_replace, hgone]
    refine .drop (fun q hq => ?_) (hname ▸ hsingles)
    obtain ⟨i, hi, hstatic, hwildcard, rfl⟩ := Import.mem_singles.1 hq
    have hof := hbefore i hi
    rwa [Import.isOf, hstatic, hwildcard, Bool.not_false, Bool.true_and,
      Bool.true_and, beq_eq_false_iff_ne] at hof
  · exact .keep

/-- A class that the file does not see has no import, and its simple name does
not mean it where that is not of an import. -/
theorem hidden_of_not_sees (hnew : IsQualifiedName new)
    (hsees : cu.sees new = false) (cp : ClassPath) :
    cu.fileNames.implicit? cp (Text.simpleName new) ≠ some new := by
  obtain ⟨hhome, hshows⟩ := Bool.or_eq_false_iff.1 hsees
  rw [isHome, Bool.or_eq_false_iff, beq_eq_false_iff_ne,
    beq_eq_false_iff_ne] at hhome
  have hpackage {package : String}
      (h : package ++ "." ++ Text.simpleName new = new) :
      Text.packageName new = package := by
    have hboth := hnew.joined.trans h.symm
    rwa [String.append_left_inj, String.append_left_inj] at hboth
  intro himplicit
  rw [FileNames.implicit?] at himplicit
  split at himplicit
  · have hqualify := Option.some.inj himplicit
    rw [Text.qualify] at hqualify
    split at hqualify
    · exact absurd hqualify (hnew.simpleName_ne)
    · exact hhome.2 (hpackage hqualify)
  · split at himplicit
    · exact hhome.1 (@hpackage "java.lang" (Option.some.inj himplicit))
    · obtain ⟨package, hfind, heq⟩ := Option.map_eq_some_iff.1 himplicit
      obtain ⟨q, hq, hstatic, hwildcard, hname⟩ :=
        Import.mem_packages.1 (List.mem_of_find?_eq_some hfind)
      have hshown := List.any_eq_false.1 hshows q hq
      rw [Import.shows, hstatic, hwildcard, hname, hpackage heq] at hshown
      simp at hshown

/-- What comes is one import of the class, by its simple name. -/
theorem exists_fileNames_addImport (hnew : IsQualifiedName new)
    (cu : CompilationUnit) :
    ∃ before after, cu.fileNames.imported = before ++ after ∧
    (cu.addImport new).fileNames =
      { cu.fileNames with imported :=
        before ++ (Text.simpleName new, new) :: after } := by
  obtain ⟨before, after, hold, hadded⟩ := cu.exists_unled_addImport new
  refine ⟨Import.singles before, Import.singles after, ?_, ?_⟩
  · rw [fileNames_eq, ← Import.singles_unled, hold, Import.singles_append]
  · have hof : (Import.ofClass "" new).isOf new = true :=
      Import.isOf_ofClass_self hnew.getLast?_ne ""
    have hcons := Import.cons_of_isOf (p := ⟨.ofClass "" new, ""⟩) hof after
    have hname : (Import.ofClass "" new).className = Text.simpleName new := by
      rw [Import.className, Import.ofClass, Name.last_withLead,
        Name.last_ofDotted]
    dsimp only at hcons
    rw [hname] at hcons
    rw [(ImportsOnly.refl.addImport new).fileNames_eq,
      ← Import.singles_unled, hadded, Import.singles_append,
      ← Import.packages_unled, hadded, fileNames_eq,
      ← Import.packages_unled cu.imports, hold, Import.packages_append,
      Import.packages_append, hcons.1, hcons.2]

theorem brings_fileNames {ω : Type} (hnew : IsQualifiedName new)
    (references : NameSet) (cp : ClassPath) (cu : CompilationUnit) :
    Brings cp new cu.fileNames
      (bringImport references new cu :
        Edited ω CompilationUnit).value.fileNames := by
  unfold bringImport
  split
  · next hneeds =>
    simp only [Bool.and_eq_true, Bool.not_eq_true'] at hneeds
    obtain ⟨⟨-, hsees⟩, hother⟩ := hneeds
    obtain ⟨before, after, hsingles, hbrought⟩ :=
      exists_fileNames_addImport hnew cu
    rw [Edited.value_replace, hbrought]
    refine .bring hsingles (fun p hp heq => ?_)
      (hidden_of_not_sees hnew hsees cp)
    obtain ⟨q, hq, hstatic, hwildcard, rfl⟩ := Import.mem_singles.1 hp
    have hsame := List.any_eq_false.1 hother q hq
    have hshown := List.any_eq_false.1 (Bool.or_eq_false_iff.1 hsees).2 q hq
    have heq : q.element.className = Text.simpleName new := heq
    simp_all [Import.shows]
  · exact .keep

/-- In a file that was read every import goes by the simple name of its
class. -/
theorem importsPlainly_of_parseUnit {source : String} {cp : ClassPath}
    {path : Option String} (h : parseUnit source cp path = .ok cu) :
    cu.fileNames.ImportsPlainly := by
  intro p hp
  obtain ⟨q, hq, -, -, rfl⟩ := Import.mem_singles.1 hp
  have himport : Node.importDecl q.element ∈ cu.walk :=
    Node.children_subset_walk (.unit cu)
    (List.mem_append_left _ (List.mem_append_right _ (List.mem_map_of_mem hq)))
  have hname : Node.name q.element.name ∈ cu.walk :=
    Node.walk_subset (.unit cu) himport
    (Node.children_subset_walk (.importDecl q.element) List.mem_cons_self)
  have hlast : '.' ∉ q.element.name.last.toList := by
    revert hname
    cases q.element.name with
    | simple i type => exact fun hname => not_mem_of_word? h hname rfl
    | qualified lead outer last type =>
        refine fun hname => not_mem_of_word? h (n := .ident last.element) ?_ rfl
        exact Node.walk_subset (.unit cu) hname
          (Node.children_subset_walk (.name _)
            (List.mem_cons_of_mem _ List.mem_cons_self))
  show q.element.name.last = Text.simpleName q.element.name.dotted
  rw [Name.simpleName_dotted, Text.simpleName_of_not_mem hlast]

/-- A change that drops one class and brings another one swaps the two. -/
theorem swaps_applyDelta {ω : Type} (hplain : cu.fileNames.ImportsPlainly)
    (hne : old ≠ new) (hnew : IsQualifiedName new) {d : ImportDelta}
    (hremoved : d.removed = [] ∨ d.removed = [old])
    (hadded : d.added = [] ∨ d.added = [new]) (cp : ClassPath) :
    Swaps cp old new cu.fileNames
      (cu.applyDelta d : Edited ω CompilationUnit).value.fileNames := by
  have hdrops : Drops old cu.fileNames
      (cu.dropImports cu.simpleReferences d.removed :
        Edited ω CompilationUnit).value.fileNames := by
    rcases hremoved with h | h
    · rw [h]
      exact .keep
    · rw [h, value_dropImports_cons]
      split
      · exact .keep
      · exact drops_fileNames hplain old
  refine ⟨hplain, hne, _, hdrops, ?_⟩
  rw [applyDelta, Edited.value_andThen]
  rcases hadded with h | h
  · rw [h]
    exact .keep
  · rw [h, value_bringImports_cons]
    exact brings_fileNames hnew _ cp _

-- ============================================================== what is seen

/-- A single word that means a class by its simple name refers to it by that. -/
theorem simpleReference?_of_asName? {m : Node} {n : Name}
    (h : m.asName? = some n) (houter : n.outer? = none) {fqn : String}
    (hfqn : n.fqn? = some fqn) (hname : n.last = Text.simpleName fqn) :
    m.simpleReference? = some fqn := by
  cases n with
  | qualified lead outer last type => cases houter
  | simple i type =>
      obtain ⟨t, rfl, ht⟩ := Option.bind_eq_some_iff.1 hfqn
      obtain ⟨c, hc, rfl⟩ := Option.map_eq_some_iff.1 ht
      obtain rfl : t = .reference c := by
        cases t <;> cases hc
        rfl
      cases m with
      | name n =>
          obtain rfl := Option.some.inj h
          exact if_pos hname
      | expr e =>
          cases e with
          | ident i' type' =>
              obtain ⟨rfl, rfl⟩ := Name.simple.inj (Option.some.inj h)
              exact if_pos hname
          | access lead target last type' =>
              obtain ⟨outer, -, heq⟩ := Option.map_eq_some_iff.1 h
              cases heq
          | _ => cases h
      | _ => cases h

/-- A node that refers to a class by its simple name makes the file refer to
it. -/
theorem contains_simpleReferences {k : JavaClass} (hk : k ∈ cu.classes)
    {m : Node} (hm : m ∈ k.walk) {fqn : String}
    (h : m.simpleReference? = some fqn) :
    cu.simpleReferences.contains fqn = true :=
  List.contains_iff_mem.2 (NameSet.mem_ofList.2
    (List.mem_filterMap.2 ⟨m, List.mem_flatMap.2 ⟨k, hk, hm⟩, h⟩))

theorem any_unled {q : Import → Bool} (hq : ∀ i : Import,
    q { i with lead := "" } = q i) (is : List (RightPadded Import)) :
    ((is.map Import.unled).any fun p => q p.element) = is.any fun p =>
      q p.element := by
  rw [List.any_map]
  exact congrArg is.any (funext fun p => hq p.element)

/-- The import of one class shows no other. -/
theorem shows_eq_false {i : Import} (h : i.isOf old = true) (hne : old ≠ new) :
    i.shows new = false := by
  simp only [Import.isOf, Bool.and_eq_true, Bool.not_eq_true', beq_iff_eq] at h
  simp [Import.shows, h, hne]

/-- Without the import of one class the file sees the others as it did. -/
theorem sees_removeImport {ω : Type} (hne : old ≠ new) (cu : CompilationUnit) :
    (cu.removeImport old : Edited ω CompilationUnit).value.sees new =
      cu.sees new := by
  rw [removeImport]
  split
  · next cu' hremove =>
    obtain ⟨before, p, after, -, hp, hold, hnew⟩ :=
      exists_unled_of_removeImport? hremove
    have hpackage : cu'.packageName = cu.packageName := by
      rw [packageName, (ImportsOnly.refl.of_removeImport? hremove).package_eq,
        packageName]
    have hshows := any_unled (q := Import.shows new) fun _ => rfl
    rw [Edited.value_replace, sees, isHome, hpackage, ← hshows cu'.imports,
      hnew, sees, isHome, ← hshows cu.imports, hold, List.any_append,
      List.any_append, List.any_cons,
      shows_eq_false hp hne, Bool.false_or]
  · rfl

/-- Without the import of a class no other one goes by a name than did. -/
theorem importsOther_removeImport {ω : Type} (h : cu.importsOther new = false) :
    (cu.removeImport old : Edited ω CompilationUnit).value.importsOther
      new = false := by
  rw [removeImport]
  split
  · next cu' hremove =>
    obtain ⟨before, p, after, -, -, hold, hnew⟩ :=
      exists_unled_of_removeImport? hremove
    have hother := any_unled (q := fun i => !i.isStatic && !i.isWildcard &&
      i.className == Text.simpleName new && i.typeName != new) fun _ => rfl
    rw [importsOther, ← hother, hold, List.any_append, List.any_cons,
      Bool.or_eq_false_iff, Bool.or_eq_false_iff] at h
    rw [Edited.value_replace, importsOther, ← hother, hnew, List.any_append,
      h.1, h.2.2, Bool.or_false]
  · exact h

/-- A class that comes to be asked for, and whose simple name is not that of
another import, is imported in the end where it was or was not to be seen. -/
theorem imports_applyDelta_iff {ω : Type} {d : ImportDelta}
    (hplain : cu.fileNames.ImportsPlainly) (hne : old ≠ new)
    (hnew : IsQualifiedName new) (hremoved : d.removed = [] ∨ d.removed = [old])
    (hadded : d.added = [new]) (href : cu.simpleReferences.contains new = true)
    (hother : cu.importsOther new = false) :
    (cu.applyDelta d : Edited ω CompilationUnit).value.fileNames.Imports new ↔
      (cu.sees new = true → cu.fileNames.Imports new) := by
  obtain ⟨cu', hcu', hdrops, hsees, hother'⟩ : ∃ cu' : CompilationUnit,
      (cu.dropImports cu.simpleReferences d.removed :
        Edited ω CompilationUnit).value = cu' ∧
        Drops old cu.fileNames cu'.fileNames ∧ cu'.sees new = cu.sees new ∧
        cu'.importsOther new = false := by
    refine ⟨_, rfl, ?_⟩
    rcases hremoved with h | h
    · rw [h]
      exact ⟨.keep, rfl, hother⟩
    · rw [h, value_dropImports_cons]
      split
      · exact ⟨.keep, rfl, hother⟩
      · exact ⟨drops_fileNames hplain old, sees_removeImport hne cu,
          importsOther_removeImport hother⟩
  rw [applyDelta, Edited.value_andThen, hcu', hadded, value_bringImports_cons,
    ← hdrops.imports_iff hne, ← hsees]
  show (bringImport cu.simpleReferences new cu' :
    Edited ω CompilationUnit).value.fileNames.Imports new ↔ _
  rw [bringImport, href, hother']
  cases cu'.sees new with
  | true => exact ⟨fun h _ => h, fun h => h rfl⟩
  | false =>
      refine iff_of_true ?_ fun h => absurd h Bool.false_ne_true
      obtain ⟨before, after, -, hbrought⟩ := exists_fileNames_addImport hnew cu'
      show (cu'.addImport new).fileNames.Imports new
      rw [hbrought]
      exact ⟨_, List.mem_append_right before List.mem_cons_self, rfl⟩

/-- A class that is still referred to by its simple name stays imported. -/
theorem imports_applyDelta_of_contains {ω : Type} {d : ImportDelta}
    (hnew : IsQualifiedName new) (hremoved : d.removed = [] ∨ d.removed = [old])
    (hadded : d.added = [] ∨ d.added = [new])
    (href : cu.simpleReferences.contains old = true)
    (himports : cu.fileNames.Imports old) :
    (cu.applyDelta d : Edited ω CompilationUnit).value.fileNames.Imports
      old := by
  have hkept : (cu.dropImports cu.simpleReferences d.removed :
      Edited ω CompilationUnit).value = cu := by
    rcases hremoved with h | h
    · rw [h]
      rfl
    · rw [h, value_dropImports_cons, if_pos href]
      rfl
  rw [applyDelta, Edited.value_andThen, hkept]
  rcases hadded with h | h
  · rw [h]
    exact himports
  · rw [h, value_bringImports_cons]
    show (bringImport cu.simpleReferences new cu :
      Edited ω CompilationUnit).value.fileNames.Imports old
    unfold bringImport
    split
    · obtain ⟨before, after, hbefore, hbrought⟩ :=
        exists_fileNames_addImport hnew cu
      obtain ⟨p, hp, heq⟩ := himports
      rw [Edited.value_replace, hbrought]
      rw [hbefore] at hp
      exact ⟨p,
        (List.sublist_cons_self _ after |>.append_left before).subset hp, heq⟩
    · exact himports

/-- A simple name that is not taken is spared for its class. -/
theorem spares_of_not_simpleNameTaken {cp? : Option ClassPath}
    (h : cu.simpleNameTaken new cp? = false) : cu.fileNames.Spares new := by
  unfold simpleNameTaken at h
  rw [Bool.or_eq_false_iff, Bool.or_eq_false_iff] at h
  obtain ⟨⟨hother, hdeclares⟩, -⟩ := h
  constructor
  · rw [List.lookup_eq_none_iff]
    refine List.forall_mem_map.2 fun d hd => bne_iff_ne.2 fun heq => ?_
    obtain ⟨c, hc, hd⟩ := List.mem_flatMap.1 hd
    have hwalk := (Member.nested c).mem_walk_of_declared cu.packageName d hd
    have hnone := List.any_eq_false.1
      (Bool.eq_false_iff.2 (List.any_eq_false.1 hdeclares c hc)) _ hwalk
    exact hnone (beq_iff_eq.2 heq.symm)
  · intro p hp hname
    obtain ⟨q, hq, hstatic, hwildcard, rfl⟩ := Import.mem_singles.1 hp
    have hsame := List.any_eq_false.1 hother q hq
    have hname : q.element.className = Text.simpleName new := hname
    simpa [hstatic, hwildcard, hname] using hsame

end CompilationUnit

end JavaRefit
