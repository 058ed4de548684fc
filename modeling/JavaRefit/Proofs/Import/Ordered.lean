/-
The list of imports along a run of changes.

A new import is put into the list and one that is gone is missing from it;
otherwise the list is what it was, but for trivia in front of the imports
(`ImportChange.Does`). As a new import comes in front of the first one of
a greater class, imports of classes that are in order stay in order
(`IsSorted.insert`). And as every change leaves a file that can be
written, the text after a run is read again, with the imports of the tree.

Chain: after `Run`.
-/
import JavaRefit.Proofs.Import.Run

namespace JavaRefit

/-- The last word of a qualified name is no star. -/
theorem IsQualifiedName.getLast?_ne {fqn : String} (h : IsQualifiedName fqn) :
    fqn.toList.getLast? ≠ some '*' := by
  have hfree := h.2 _ (Text.simpleName_mem_segments fqn)
  obtain ⟨c, cs, hword, hstart, hcs, -⟩ :=
    (isWhole_of_isFreeName hfree).of_isIdentifier rfl
  rw [Word.text] at hword
  have hends : ∃ as, fqn.toList = as ++ (c :: cs) := by
    rw [← hword]
    rcases Text.segments_eq fqn with ⟨-, heq, -⟩ | ⟨-, heq⟩
    · exact ⟨[], by rw [heq, List.nil_append]⟩
    · exact ⟨(Text.packageName fqn ++ ".").toList,
        by rw [← String.toList_append, heq]⟩
  obtain ⟨as, has⟩ := hends
  intro hstar
  rw [has, List.getLast?_append_of_ne_nil _ (List.cons_ne_nil c cs)] at hstar
  rcases List.mem_cons.1 (List.mem_of_getLast? hstar) with rfl | hmem
  · exact absurd hstart (by decide)
  · exact absurd (hcs '*' hmem) (by decide)

namespace Import

-- ================================================== one import more or less

/-- The import has the name and is not of a member. -/
def Names (fqn : String) (p : RightPadded Import) : Prop :=
  p.element.isStatic = false ∧ p.element.typeName = fqn

/-- Trivia in front aside, the second list is the first one with one import of
the name more. -/
def Adds (fqn : String) (is is' : List (RightPadded Import)) : Prop :=
  ∃ before p after, Names fqn p ∧ is.map unled = before ++ after ∧
    is'.map unled = before ++ p :: after

/-- Trivia in front aside, the second list is the first one without its
first import of the name. If there is none, it is the first list. -/
def Drops (fqn : String) (is is' : List (RightPadded Import)) : Prop :=
  (∃ before p after, (∀ q ∈ before, ¬Names fqn q) ∧ Names fqn p ∧
      is.map unled = before ++ p :: after ∧ is'.map unled = before ++ after) ∨
    (∀ p ∈ is, ¬Names fqn p) ∧ is' = is

/-- Some changes of a list, one after the other. -/
def InTurn (change : String → List (RightPadded Import) →
    List (RightPadded Import) → Prop) :
    List String → List (RightPadded Import) → List (RightPadded Import) → Prop
  | [], is, is' => is' = is
  | fqn :: fqns, is, is' =>
      ∃ next, change fqn is next ∧ InTurn change fqns next is'

variable {fqn : String} {is : List (RightPadded Import)}

theorem names_ofClass (lead : Trivia) (fqn : String) :
    Names fqn ⟨ofClass lead fqn, ""⟩ :=
  ⟨rfl, typeName_ofClass lead fqn⟩

-- ================================================================== order

/-- The names of the imports of classes, in order. -/
def classNames (is : List (RightPadded Import)) : List String :=
  (is.filter fun p => !p.element.isStatic).map fun p => p.element.typeName

/-- The imports of classes are sorted by their names. -/
def IsSorted (is : List (RightPadded Import)) : Prop :=
  (classNames is).Pairwise (· ≤ ·)

instance (is : List (RightPadded Import)) : Decidable (IsSorted is) :=
  inferInstanceAs (Decidable (List.Pairwise _ _))

theorem classNames_append (is is' : List (RightPadded Import)) :
    classNames (is ++ is') = classNames is ++ classNames is' := by
  rw [classNames, List.filter_append, List.map_append, classNames, classNames]

theorem Names.classNames_cons {p : RightPadded Import} (h : Names fqn p) :
    classNames (p :: is) = fqn :: classNames is := by
  rw [classNames, List.filter_cons_of_pos (by rw [h.1]; rfl), List.map_cons,
    h.2, classNames]

theorem classNames_unled (is : List (RightPadded Import)) :
    classNames (is.map unled) = classNames is := by
  rw [classNames, List.filter_map, List.map_map]
  rfl

/-- Between imports that it does not come in front of and those from one on
that it does, a new import is in order. -/
theorem IsSorted.between (before : List (RightPadded Import))
    {after : List (RightPadded Import)} (h : IsSorted (before ++ after))
    (hbefore : ∀ q ∈ before, q.element.isAfter fqn = false)
    (hafter : ∀ q ∈ after.head?, q.element.isAfter fqn = true)
    {p : RightPadded Import} (hp : Names fqn p) :
    IsSorted (before ++ p :: after) := by
  rw [IsSorted, classNames_append, List.pairwise_append] at h
  obtain ⟨hsorted, hsorted', hcross⟩ := h
  have hle : ∀ a ∈ classNames before, a ≤ fqn := by
    intro a ha
    obtain ⟨q, hq, rfl⟩ := List.mem_map.1 ha
    obtain ⟨hmem, hstatic⟩ := List.mem_filter.1 hq
    have hnot := hbefore q hmem
    rw [isAfter, hstatic, Bool.true_and, decide_eq_false_iff_not] at hnot
    exact String.not_lt.1 hnot
  have hge : ∀ b ∈ classNames after, fqn ≤ b := by
    cases after with
    | nil => exact List.forall_mem_nil _
    | cons q qs =>
        have hq := hafter q rfl
        rw [isAfter, Bool.and_eq_true, Bool.not_eq_true',
          decide_eq_true_eq] at hq
        have hnames : Names q.element.typeName q := ⟨hq.1, rfl⟩
        have hlt : fqn ≤ q.element.typeName :=
          String.not_lt.1 (String.lt_asymm hq.2)
        rw [hnames.classNames_cons] at hsorted' ⊢
        refine List.forall_mem_cons.2 ⟨hlt, fun b hb => ?_⟩
        exact String.le_trans hlt (List.rel_of_pairwise_cons hsorted' hb)
  rw [IsSorted, classNames_append, hp.classNames_cons, List.pairwise_append]
  refine ⟨hsorted, List.pairwise_cons.2 ⟨hge, hsorted'⟩, fun a ha => ?_⟩
  exact List.forall_mem_cons.2 ⟨hle a ha, hcross a ha⟩

/-- A new import leaves the imports of classes in order. -/
theorem IsSorted.insert (h : IsSorted is) (fqn : String) :
    IsSorted (insert fqn is) := by
  cases is with
  | nil => exact List.pairwise_singleton _ _
  | cons p ps =>
      rcases insert_cases fqn p ps with ⟨hp, hinsert⟩ | ⟨before, after, rfl,
        hbefore, hafter, hinsert⟩
      · have hnew := IsSorted.between [] h (List.forall_mem_nil _)
          (fun q hq => Option.some.inj hq ▸ hp)
          (names_ofClass p.element.lead fqn)
        rw [hinsert]
        rw [IsSorted, ← classNames_unled] at hnew ⊢
        exact hnew
      · rw [hinsert]
        exact IsSorted.between (p :: before) h hbefore hafter
          (names_ofClass _ fqn)

end Import

open Import (Names Adds Drops InTurn IsSorted unled)

namespace CompilationUnit

variable {cu cu' : CompilationUnit} {fqn : String}

-- ========================================================= one import more

theorem adds_addImport (cu : CompilationUnit) (fqn : String) :
    Adds fqn cu.imports (cu.addImport fqn).imports := by
  obtain ⟨before, after, hold, hnew⟩ := cu.exists_unled_addImport fqn
  exact ⟨before, _, after, Import.names_ofClass "" fqn, hold, hnew⟩

theorem isSorted_addImport (h : IsSorted cu.imports) (fqn : String) :
    IsSorted (cu.addImport fqn).imports := by
  have hinsert := h.insert fqn
  rw [IsSorted, ← Import.classNames_unled] at hinsert ⊢
  rwa [unled_addImport]

-- ========================================================= one import less

theorem drops_removeImport {ω : Type} (cu : CompilationUnit)
    (hfqn : fqn.toList.getLast? ≠ some '*') :
    Drops fqn cu.imports (cu.removeImport fqn :
      Edited ω CompilationUnit).value.imports := by
  have hnames {p : RightPadded Import} (hp : p.element.isOf fqn = false) :
      ¬Names fqn p := fun h => by
    rw [(Import.isOf_iff hfqn).2 h] at hp
    cases hp
  rw [removeImport]
  cases hremove : cu.removeImport? fqn with
  | none =>
      refine .inr ⟨fun p hp hname => ?_, rfl⟩
      have hcount := countImports_isOf_eq_zero_iff.2 hremove
      exact List.countP_eq_zero.1 hcount p hp ((Import.isOf_iff hfqn).2 hname)
  | some cu' =>
      obtain ⟨before, p, after, hbefore, hp, hold, hnew⟩ :=
        exists_unled_of_removeImport? hremove
      exact .inl ⟨before, p, after, fun q hq => hnames (hbefore q hq),
        (Import.isOf_iff hfqn).1 hp, hold, hnew⟩

/-- An import less leaves the imports of classes in order. -/
theorem isSorted_of_removeImport? (hremove : cu.removeImport? fqn = some cu')
    (h : IsSorted cu.imports) : IsSorted cu'.imports := by
  obtain ⟨before, p, after, -, -, hold, hnew⟩ :=
    exists_unled_of_removeImport? hremove
  rw [IsSorted, ← Import.classNames_unled, hold] at h
  rw [IsSorted, ← Import.classNames_unled, hnew]
  refine h.sublist (List.Sublist.map _ (List.Sublist.filter _ ?_))
  exact (List.sublist_cons_self p after).append_left before

-- ============================================================== one change

variable {ω : Type} (references : NameSet)

/-- Imports are dropped one after the other. -/
theorem drops_dropImports {removed : NameSet}
    (hremoved : ∀ fqn ∈ removed, fqn.toList.getLast? ≠ some '*')
    (cu : CompilationUnit) :
    InTurn Drops (removed.filter fun fqn => !references.contains fqn) cu.imports
      (cu.dropImports references removed :
        Edited ω CompilationUnit).value.imports := by
  induction removed generalizing cu with
  | nil => rfl
  | cons fqn removed ih =>
      obtain ⟨hfqn, hremoved⟩ := List.forall_mem_cons.1 hremoved
      rw [value_dropImports_cons]
      cases hused : references.contains fqn with
      | true =>
          rw [List.filter_cons_of_neg (by rw [hused]; exact Bool.false_ne_true)]
          exact ih hremoved cu
      | false =>
          rw [List.filter_cons_of_pos (by rw [hused]; rfl)]
          exact ⟨_, cu.drops_removeImport hfqn, ih hremoved _⟩

/-- Imports are brought one after the other, of some classes that are referred
to. -/
theorem exists_adds_bringImports (added : NameSet) (cu : CompilationUnit) :
    ∃ brought, brought.Sublist added ∧ (∀ fqn ∈ brought, fqn ∈ references) ∧
      InTurn Adds brought cu.imports
        (cu.bringImports references added :
          Edited ω CompilationUnit).value.imports := by
  induction added generalizing cu with
  | nil => exact ⟨[], .slnil, List.forall_mem_nil _, rfl⟩
  | cons fqn added ih =>
      rw [value_bringImports_cons, bringImport]
      split
      · next hneeds =>
        obtain ⟨brought, hsub, hmem, hadds⟩ := ih (cu.addImport fqn)
        simp only [Bool.and_eq_true, List.contains_iff_mem] at hneeds
        exact ⟨fqn :: brought, hsub.cons_cons fqn,
          List.forall_mem_cons.2 ⟨hneeds.1.1, hmem⟩, _,
          cu.adds_addImport fqn, hadds⟩
      · obtain ⟨brought, hsub, hmem, hadds⟩ := ih cu
        exact ⟨brought, hsub.cons fqn, hmem, hadds⟩

end CompilationUnit

open CompilationUnit (DeltaError)

/-- What a change does to the imports of a file that refers to some classes by
their simple names. Brought in line, it first loses imports of classes that it
does not refer to, and then gets imports of some that it does. -/
def ImportChange.Does (references : NameSet) :
    ImportChange → List (RightPadded Import) → List (RightPadded Import) → Prop
  | add fqn, is, is' => Adds fqn is is'
  | remove fqn, is, is' => Drops fqn is is'
  | apply d, is, is' =>
      ∃ brought mid, brought.Sublist d.added ∧
        (∀ fqn ∈ brought, fqn ∈ references) ∧
      InTurn Drops (d.removed.filter fun fqn =>
        !references.contains fqn) is mid ∧
      InTurn Adds brought mid is'

/-- Every change of qualified names can be made to a file that is laid out, and
does what it says. -/
theorem ImportChange.exists_does {cu : CompilationUnit} (h : cu.IsLaidOut)
    {c : ImportChange} (hnames : ∀ fqn ∈ c.names, IsQualifiedName fqn) :
    ∃ next, c.make? cu = .ok next ∧
    c.Does cu.simpleReferences cu.imports next.imports := by
  cases c with
  | add fqn => exact ⟨_, rfl, cu.adds_addImport fqn⟩
  | remove fqn =>
      exact ⟨_, rfl,
        cu.drops_removeImport (hnames fqn List.mem_cons_self).getLast?_ne⟩
  | apply d =>
      obtain ⟨hadded, hremoved⟩ := List.forall_mem_append.1 hnames
      have hpackaged : cu.IsPackaged := fun p hp => by
        have houter : p.element.packageName?.isNone = false := by
          rw [Import.packageName?, Option.isNone_map,
            Option.isNone_eq_false_iff, Option.isSome_iff_ne_none]
          exact h.packages p hp
        rw [Import.isBare, houter, Bool.and_false]
      have hstar : "*" ∉ d.added := fun hmem =>
        absurd (hadded "*" hmem) (by decide)
      obtain ⟨happly, -⟩ := hpackaged.applyDelta? (ω := Empty) (d := d)
        fun hmem => absurd hmem hstar
      refine ⟨(cu.applyDelta d : Edited Empty CompilationUnit).value,
        by rw [make?, happly]; rfl, ?_⟩
      have hdrops := CompilationUnit.drops_dropImports (ω := Empty)
        cu.simpleReferences
        (fun fqn hfqn => (hremoved fqn hfqn).getLast?_ne) cu
      obtain ⟨brought, hsub, hmem, hadds⟩ :=
        CompilationUnit.exists_adds_bringImports (ω := Empty)
        cu.simpleReferences d.added
        (cu.dropImports cu.simpleReferences d.removed :
          Edited Empty CompilationUnit).value
      exact ⟨brought, _, hsub, hmem, hdrops, hadds⟩

namespace CompilationUnit

-- =================================================================== runs

variable {cu cu' : CompilationUnit} {changes : List ImportChange}

theorem changeImports?_append_eq_ok {changes' : List ImportChange} :
    cu.changeImports? (changes ++ changes') = .ok cu' ↔
      ∃ mid, cu.changeImports? changes = .ok mid ∧
      mid.changeImports? changes' = .ok cu' := by
  induction changes generalizing cu with
  | nil =>
      exact ⟨fun h => ⟨cu, rfl, h⟩, fun ⟨mid, hmid, h⟩ =>
        Except.ok.inj hmid ▸ h⟩
  | cons c changes ih =>
      simp only [List.cons_append, changeImports?_cons_eq_ok, ih]
      constructor
      · exact fun ⟨next, hmake, mid, hmid, h⟩ => ⟨mid, ⟨next, hmake, hmid⟩, h⟩
      · exact fun ⟨mid, ⟨next, hmake, hmid⟩, h⟩ => ⟨next, hmake, mid, hmid, h⟩

/-- A file that is laid out stays so along a run of changes of qualified
names. -/
theorem IsLaidOut.of_changeImports? (h : cu.IsLaidOut)
    (hnames : ∀ c ∈ changes, ∀ fqn ∈ c.names, IsQualifiedName fqn)
    (hrun : cu.changeImports? changes = .ok cu') : cu'.IsLaidOut :=
  changeImports?_induction (P := IsLaidOut)
    (fun _ c hc fqn hfqn h => h.addImport (hnames c hc fqn hfqn))
    (fun _ _ _ hremove h => h.of_removeImport? hremove) h hrun

/-- Every run of changes of qualified names can be made. -/
theorem IsLaidOut.exists_changeImports? (h : cu.IsLaidOut)
    (hnames : ∀ c ∈ changes, ∀ fqn ∈ c.names, IsQualifiedName fqn) :
    ∃ cu', cu.changeImports? changes = .ok cu' := by
  induction changes generalizing cu with
  | nil => exact ⟨cu, rfl⟩
  | cons c changes ih =>
      obtain ⟨hc, hrest⟩ := List.forall_mem_cons.1 hnames
      obtain ⟨next, hmake, -⟩ := ImportChange.exists_does h hc
      have hnext : next.IsLaidOut :=
        ImportChange.make?_induction (P := IsLaidOut)
        (fun _ fqn hfqn h => h.addImport (hc fqn hfqn))
          (fun _ _ _ hremove h => h.of_removeImport? hremove)
        h hmake
      obtain ⟨cu', hrun⟩ := ih hnext hrest
      exact ⟨cu', changeImports?_cons_eq_ok.2 ⟨next, hmake, hrun⟩⟩

theorem importsOnly_of_changeImports?
    (hrun : cu.changeImports? changes = .ok cu') : cu.ImportsOnly cu' :=
  changeImports?_induction (P := cu.ImportsOnly)
    (fun _ _ _ fqn _ h => h.addImport fqn)
    (fun _ _ _ hremove h => h.of_removeImport? hremove) .refl hrun

theorem isSorted_of_changeImports? (h : IsSorted cu.imports)
    (hrun : cu.changeImports? changes = .ok cu') : IsSorted cu'.imports :=
  changeImports?_induction (P := fun cu => IsSorted cu.imports)
    (fun _ _ _ fqn _ h => isSorted_addImport h fqn)
    (fun _ _ _ hremove h => isSorted_of_removeImport? hremove h) h hrun

/-- Changes of qualified names can be made to a file that was read, one after
the other. Each does to the imports what it says, imports of classes that are
in order stay in order, and nothing else changes but for trivia in front of the
first class. The text afterwards is read with the parts of the tree. -/
theorem changeImports?_does {source : String} {path : Option String}
    (h : cu.IsReadFrom source path)
    (hnames : ∀ c ∈ changes, ∀ fqn ∈ c.names, IsQualifiedName fqn) :
    ∃ cu', cu.changeImports? changes = .ok cu' ∧
      (∀ before c after, changes = before ++ c :: after → ∃ mid next,
        cu.changeImports? before = .ok mid ∧ c.make? mid = .ok next ∧
          c.Does mid.simpleReferences mid.imports next.imports) ∧
      (IsSorted cu.imports → IsSorted cu'.imports) ∧ cu.ImportsOnly cu' ∧
      ∃ again, parseTree cu'.print path = .ok again ∧ cu'.IsRead again ∧
        (again.imports.map fun p => (p.element.isStatic, p.element.typeName)) =
          cu'.imports.map fun p =>
            (p.element.isStatic, p.element.typeName) := by
  have hlaid := isLaidOut_of_parseTree h.untyped
  obtain ⟨cu', hrun⟩ := hlaid.exists_changeImports? hnames
  have honly := importsOnly_of_changeImports? hrun
  obtain ⟨again, hread, hparts⟩ :=
    (hlaid.of_changeImports? hnames hrun).exists_isRead
  rw [honly.path_eq, path_of_parseTree h.untyped] at hread
  refine ⟨cu', hrun, ?_, (isSorted_of_changeImports? · hrun), honly, again,
    hread, hparts, ?_⟩
  · rintro before c after rfl
    obtain ⟨mid, hmid, hrest⟩ := changeImports?_append_eq_ok.1 hrun
    obtain ⟨hbefore, hc⟩ := List.forall_mem_append.1 hnames
    have hmidlaid := hlaid.of_changeImports? hbefore hmid
    obtain ⟨next, hmake, hdoes⟩ :=
      ImportChange.exists_does hmidlaid (hc c List.mem_cons_self)
    exact ⟨mid, next, hmid, hmake, hdoes⟩
  · rw [hparts.imports, imports_untyped, List.map_map]
    refine List.map_congr_left fun p _ => Prod.ext rfl ?_
    exact Name.dotted_untyped p.element.name

/-- An import of each kind and a class that is referred to. -/
def sampleMixed : String :=
  "package a;import static b.C.*;/*c*/import b.*;import p.Old;class E\x7bOld d;\x7d"

/-- Some changes, in the last of which one import goes and one comes. -/
def sampleChanges : List ImportChange :=
  [.add "b.C", .remove "p.Old", .apply (.of ["p.New", "p.Old"] ["b.C"])]

/-- The import that is referred to is back in its place after the changes. -/
theorem changeImports?_does_sample :
    ∃ cu cu' : CompilationUnit, cu.IsReadFrom sampleMixed none ∧
      (∀ c ∈ sampleChanges, ∀ fqn ∈ c.names, IsQualifiedName fqn) ∧
      cu.changeImports? sampleChanges = .ok cu' ∧
      cu'.print =
        "package a;import static b.C.*;/*c*/import b.*;\nimport p.Old;class E\x7bOld d;\x7d" ∧
      IsSorted cu'.imports ∧ ∃ again, parseTree cu'.print none = .ok again ∧
      cu'.IsRead again := by
  have hfacts : (parseUnit sampleMixed sampleClassPath none).isOk = true ∧
      (∀ c ∈ sampleChanges, ∀ fqn ∈ c.names, IsQualifiedName fqn) ∧
      IsSorted (sampleUnit sampleMixed).imports ∧
      ((sampleUnit sampleMixed).changeImports? sampleChanges).toOption.map
        print = some
        "package a;import static b.C.*;/*c*/import b.*;\nimport p.Old;class E\x7bOld d;\x7d" := by
    decide +kernel
  obtain ⟨hok, hnames, hsorted, hprint⟩ := hfacts
  obtain ⟨cu, hcu⟩ := exists_of_isOk hok
  have hunit : sampleUnit sampleMixed = cu := by rw [sampleUnit, hcu]
  rw [hunit] at hsorted hprint
  have hread : cu.IsReadFrom sampleMixed none := .inr ⟨sampleClassPath, hcu⟩
  obtain ⟨cu', hrun, -, hkept, -, again, hagain, hparts, -⟩ :=
    changeImports?_does hread hnames
  rw [hrun] at hprint
  exact ⟨cu, cu', hread, hnames, hrun, Option.some.inj hprint, hkept hsorted,
    again, hagain, hparts⟩

end CompilationUnit

end JavaRefit
