/-
What names of classes mean once the text of a run is read again.

A run changes what names are looked up by in one way: the legacy type may
lose its import, and the replacement may get one (`CatchRule.swaps_run`).
So whatever a run leaves of a file means what it did, but for the words
that move with these imports (`CatchRule.Moves`). Single words are seen to
by the rule, and move only where the import that comes takes them over;
the first word of a longer name is not, and may lose its import as well
(`CatchRule.KeepsMeaning`). So it is at every place outside the parameters
that are rewritten (`Rereads.rel_classAt?`), and in the types of these for
the names that are not.

What is written for the legacy type means the replacement by its simple
name, unless the file was thought to see the class and does not; by its
full name, unless the first word of that means something else; and by
nothing else (`CatchRule.Arrives`).

Chain: after `Names`, `Variable` and the proofs about names in files and
about changes of imports; `Meaning` reads it.
-/
import JavaRefit.Proofs.CatchRule.Names
import JavaRefit.Proofs.Import.Swap

namespace JavaRefit

open FileNames (Swaps)

-- ================================================================= the files

/-- Files that differ in the parameters of clauses look names up alike. -/
theorem CompilationUnit.fileNames_recaught {P : Variables → Variables → Prop}
    {cu edited : CompilationUnit} (hpackage : edited.package? = cu.package?)
    (himports : edited.imports = cu.imports)
    (hclasses : List.Forall₂ (ClassDecl.Recaught P) cu.classes edited.classes) :
    edited.fileNames = cu.fileNames := by
  have hname : edited.packageName = cu.packageName := by
    rw [packageName, packageName, hpackage]
  rw [fileNames_eq, fileNames_eq, hname, himports,
    outline_recaught hpackage hclasses]

namespace CatchRule

variable {r : CatchRule} {cp : ClassPath} {cu again : CompilationUnit}

/-- What the rule does to the classes of a file is nothing that names are
looked up by. -/
theorem fileNames_edit (hne : r.legacy ≠ r.replacement.fqn) (qualified : Bool)
    (cu : CompilationUnit) :
    (cu.edit (r.editor qualified)).value.fileNames = cu.fileNames := by
  have hclasses := recaught_edit_any hne qualified cu
  rw [editor_eq, CompilationUnit.edit_value] at hclasses ⊢
  exact CompilationUnit.fileNames_recaught rfl rfl hclasses

/-- A file asks for no class to come but the replacement. -/
theorem added_delta_edit (hne : r.legacy ≠ r.replacement.fqn) (qualified : Bool)
    (cu : CompilationUnit) :
    (RuleNote.delta (cu.edit (r.editor qualified)).notes).added = [] ∨
      (RuleNote.delta (cu.edit (r.editor qualified)).notes).added =
        [r.replacement.fqn] := by
  rw [delta_edit hne]
  dsimp only
  split
  · exact .inr rfl
  · exact .inl rfl

/-- A run changes what names are looked up by as a change of imports does that
drops the legacy type and brings the replacement. -/
theorem swaps_run (hne : r.legacy ≠ r.replacement.fqn)
    (hnew : IsQualifiedName r.replacement.fqn)
    (hplain : cu.fileNames.ImportsPlainly) (cp own : ClassPath) :
    Swaps own r.legacy r.replacement.fqn cu.fileNames
      (r.run cp cu).after.fileNames := by
  cases hchanged : (r.run cp cu).isChanged with
  | false =>
      rw [after_run_of_not_isChanged hchanged]
      exact ⟨hplain, hne, _, .keep, .keep⟩
  | true =>
      have hedit := fileNames_edit hne (r.mustQualify cp cu) cu
      rw [after_run_of_isChanged hchanged, ← hedit]
      exact CompilationUnit.swaps_applyDelta (hedit.symm ▸ hplain) hne hnew
        (removed_delta_edit r _ cu) (added_delta_edit hne _ cu) own

/-- The legacy type stays imported where the tree after a run refers to it by
its simple name. -/
theorem imports_legacy_run (hne : r.legacy ≠ r.replacement.fqn)
    (hnew : IsQualifiedName r.replacement.fqn)
    (href : (r.run cp cu).after.simpleReferences.contains r.legacy = true)
    (himports : cu.fileNames.Imports r.legacy) :
    (r.run cp cu).after.fileNames.Imports r.legacy := by
  cases hchanged : (r.run cp cu).isChanged with
  | false => rwa [after_run_of_not_isChanged hchanged]
  | true =>
      rw [after_run_of_isChanged hchanged,
        CompilationUnit.simpleReferences_applyDelta] at href
      rw [after_run_of_isChanged hchanged]
      refine CompilationUnit.imports_applyDelta_of_contains hnew
        (removed_delta_edit r _ cu)
        (added_delta_edit hne _ cu) href ?_
      rwa [fileNames_edit hne]

/-- Where a clause is rewritten with the simple name of the replacement, that
is imported in the end if it was or was not to be seen. -/
theorem imports_replacement_run (hne : r.legacy ≠ r.replacement.fqn)
    (hnew : IsQualifiedName r.replacement.fqn)
    (hplain : cu.fileNames.ImportsPlainly) {t : Try Stmt} (ht : t ∈ cu.tries)
    (hplan : r.plan t ≠ .unchanged) (hfree : r.mustQualify cp cu = false)
    (href : (r.run cp cu).after.simpleReferences.contains
      r.replacement.fqn = true) :
    (r.run cp cu).after.fileNames.Imports r.replacement.fqn ↔
      (cu.sees r.replacement.fqn = true →
        cu.fileNames.Imports r.replacement.fqn) := by
  have hchanged : (r.run cp cu).isChanged = true := by
    by_contra hnot
    have hsettled :=
      (isChanged_run_eq_false_iff hne cp cu).1 (Bool.eq_false_iff.2 hnot) t ht
    exact hplan (plan_eq_unchanged_iff.2 hsettled)
  have hadded :
      (RuleNote.delta (cu.edit (r.editor (r.mustQualify cp cu))).notes).added =
      [r.replacement.fqn] := by
    have hany : (cu.tries.any fun t => r.plan t != .unchanged) = true :=
      List.any_eq_true.2 ⟨t, ht, bne_iff_ne.2 hplan⟩
    rw [delta_edit hne]
    exact if_pos hany
  have hother : cu.importsOther r.replacement.fqn = false :=
    (Bool.or_eq_false_iff.1 (Bool.or_eq_false_iff.1 hfree).1).1
  have hedit := fileNames_edit hne (r.mustQualify cp cu) cu
  rw [after_run_of_isChanged hchanged,
    CompilationUnit.simpleReferences_applyDelta] at href
  rw [after_run_of_isChanged hchanged,
    CompilationUnit.imports_applyDelta_iff (hedit.symm ▸ hplain) hne hnew
    (removed_delta_edit r _ cu) hadded href
      (by rwa [editor_eq, CompilationUnit.edit_value]), hedit,
    editor_eq, CompilationUnit.edit_value]
  rfl

-- =================================================================== rereading

/-- A file that was read, and what is read of the text that a run makes of
it. -/
structure Rereads (r : CatchRule) (cp : ClassPath)
    (cu again : CompilationUnit) : Prop where
  ne : r.legacy ≠ r.replacement.fqn
  legacy : IsQualifiedName r.legacy
  replacement : IsQualifiedName r.replacement.fqn
  before : ∃ source path, parseUnit source cp path = .ok cu
  after : ∃ source path, parseUnit source cp path = .ok again
  untyped_eq : again.untyped = (r.run cp cu).after.untyped

/-- The text of a run can be read where every clause comes to declare something
legible. -/
theorem exists_rereads (hne : r.legacy ≠ r.replacement.fqn)
    (hold : IsQualifiedName r.legacy) (hnew : IsQualifiedName r.replacement.fqn)
    {source : String} {path : Option String}
    (h : parseUnit source cp path = .ok cu)
    (hlegible : ∀ t ∈ cu.tries, ∀ c ∈ t.catches,
      (r.newDeclaration (r.mustQualify cp cu)
        (r.plan t) c.declaration).IsLegible) :
    ∃ again, parseUnit (r.run cp cu).source cp path = .ok again ∧
    r.Rereads cp cu again := by
  have htree := (parseTree_run_iff hne hnew h).2 hlegible
  have hagain : parseUnit (r.run cp cu).source cp path =
      .ok ((r.run cp cu).after.untyped.typed cp) := by
    rw [parseUnit, htree]
    rfl
  refine ⟨_, hagain, hne, hold, hnew, ⟨_, _, h⟩, ⟨_, _, hagain⟩, ?_⟩
  exact Except.ok.inj ((parseTree_of_parseUnit hagain).symm.trans htree)

/-- A word moves with the imports that a run drops or brings. -/
def MovesWord (r : CatchRule) (cp : ClassPath) (cu : CompilationUnit)
    (word : String) : Prop :=
  FileNames.Moves (cu.extendClassPath cp) cu.fileNames
    (r.run cp cu).after.fileNames r.legacy
    r.replacement.fqn word

/-- Some words move with the first of them, unless they spell a class as a
whole. -/
def Moves (r : CatchRule) (cp : ClassPath) (cu : CompilationUnit)
    (words : String) : Prop :=
  FileNames.MovesSpelled (cu.extendClassPath cp) cu.fileNames
    (r.run cp cu).after.fileNames r.legacy
    r.replacement.fqn words

instance (r : CatchRule) (cp : ClassPath) (cu : CompilationUnit)
    (words : String) : Decidable (r.Moves cp cu words) :=
  inferInstanceAs (Decidable (FileNames.MovesSpelled _ _ _ _ _ _))

namespace Rereads

variable (h : r.Rereads cp cu again)
include h

theorem importsPlainly : cu.fileNames.ImportsPlainly := by
  obtain ⟨source, path, hread⟩ := h.before
  exact CompilationUnit.importsPlainly_of_parseUnit hread

theorem swaps : Swaps (cu.extendClassPath cp) r.legacy r.replacement.fqn
    cu.fileNames
    (r.run cp cu).after.fileNames :=
  swaps_run h.ne h.replacement h.importsPlainly cp _

theorem fileNames_eq : again.fileNames = (r.run cp cu).after.fileNames := by
  rw [← again.fileNames_untyped, h.untyped_eq,
    CompilationUnit.fileNames_untyped]

/-- The classes that can be named are the same. -/
theorem contains_eq :
    (again.extendClassPath cp).contains = (cu.extendClassPath cp).contains :=
  CompilationUnit.contains_congr (by
    rw [h.fileNames_eq, h.swaps.declared_eq]) cp

theorem meaning?_eq (words : String) : again.meaning? cp words =
    (r.run cp cu).after.fileNames.meaning? (cu.extendClassPath cp) words := by
  rw [CompilationUnit.meaning?, h.fileNames_eq,
    FileNames.meaning?_congr h.contains_eq]

/-- Words mean what they did unless they move. -/
theorem meaning?_eq_iff (words : String) :
    again.meaning? cp words = cu.meaning? cp words ↔ ¬r.Moves cp cu words := by
  rw [h.meaning?_eq]
  exact h.swaps.meaning?_eq_iff h.legacy.mem_dot h.replacement.mem_dot words

end Rereads

-- ==================================================================== names

/-- A name means what it meant, unless its words move. A single word moves only
where the replacement, imported by the run, takes it over. -/
structure KeepsMeaning (r : CatchRule) (cp : ClassPath) (cu : CompilationUnit)
    (n n' : Name) : Prop where
  words : n'.dotted = n.dotted
  meaning : n'.fqn? = n.fqn? ↔ ¬r.Moves cp cu n.dotted
  single : n.outer? = none → (r.Moves cp cu n.dotted ↔
    FileNames.TakesOver cu.fileNames (r.run cp cu).after.fileNames
      r.replacement.fqn n.dotted)

/-- The name stands in the classes of the tree after a run, with its words and
its type. -/
def StandsAfter (r : CatchRule) (cp : ClassPath) (cu : CompilationUnit)
    (n : Name) : Prop :=
  ∃ k ∈ (r.run cp cu).after.classes, ∃ m ∈ k.walk, ∃ n₁, m.asName? = some n₁ ∧
    n₁.said = n.said

namespace Rereads

variable (h : r.Rereads cp cu again)
include h

/-- A word that stands in the tree after a run does not lose the legacy type. -/
theorem not_loses {n : Name} (hn : n.fqn? = cu.meaning? cp n.dotted)
    (hword : '.' ∉ n.dotted.toList) (hstands : r.StandsAfter cp cu n) :
    ¬FileNames.Loses (cu.extendClassPath cp) cu.fileNames
      (r.run cp cu).after.fileNames r.legacy n.dotted := by
  intro hloses
  obtain ⟨k, hk, m, hm, n₁, hname, hsaid⟩ := hstands
  have hdotted : n₁.dotted = n.dotted := congrArg Prod.fst hsaid
  have htype : n₁.type = n.type := congrArg Prod.snd hsaid
  obtain ⟨houter, hlast⟩ := Name.outer?_eq_none_of_not_mem (hdotted ▸ hword)
  have hfqn : n₁.fqn? = some r.legacy := by
    rw [Name.fqn?, htype]
    exact hn.trans ((FileNames.meaning?_eq_some_iff_of_word hword
      (FileNames.ne_empty_of_dot h.legacy.mem_dot)).2 hloses.meant)
  have hsimple : n₁.last = Text.simpleName r.legacy := by
    rw [hlast, hdotted,
      cu.namesPlainly_fileNames.simpleName_resolve? hloses.meant,
      Text.simpleName_of_not_mem hword]
  have href := CompilationUnit.contains_simpleReferences hk hm
    (CompilationUnit.simpleReference?_of_asName? hname houter hfqn hsimple)
  exact hloses.gone (imports_legacy_run h.ne h.replacement href hloses.imports)

/-- A name that stands in the tree after a run means what it meant, as far as
its words do. -/
theorem keepsMeaning {n n' : Name} (hplain : n.IsPlain)
    (hn : n.fqn? = cu.meaning? cp n.dotted)
    (hn' : n'.fqn? = again.meaning? cp n'.dotted)
    (hwords : n'.dotted = n.dotted) (hstands : r.StandsAfter cp cu n) :
    r.KeepsMeaning cp cu n n' := by
  refine ⟨hwords, ?_, fun houter => ?_⟩
  · rw [hn, hn', hwords]
    exact h.meaning?_eq_iff n.dotted
  · have hword := hplain.not_mem_dotted houter
    rw [Moves, FileNames.MovesSpelled, Text.headSegment_of_not_mem hword,
      and_iff_right fun hmem => absurd hmem hword]
    exact or_iff_left (h.not_loses hn hword hstands)

end Rereads

-- =================================================================== places

/-- The trees before and after a run differ in the parameters of clauses. -/
theorem recaught_run (hne : r.legacy ≠ r.replacement.fqn) (cp : ClassPath)
    (cu : CompilationUnit) :
    (Node.unit cu).Recaught (.unit (r.run cp cu).after) := by
  cases hchanged : (r.run cp cu).isChanged with
  | false =>
      rw [after_run_of_not_isChanged hchanged]
      exact .same _
  | true =>
      rw [after_run_of_isChanged hchanged]
      exact CompilationUnit.recaught_node (recaught_edit_any hne _ cu)
        (CompilationUnit.importsOnly_applyDelta _ _)

/-- The classes that are named outside rewritten parameters are named there
again. -/
theorem Rereads.rel_classAt? (h : r.Rereads cp cu again) {place : List Nat}
    (hplace : (Node.unit cu).Keeps (.unit (r.run cp cu).after) place) :
    Option.Rel (r.KeepsMeaning cp cu)
      ((Node.unit cu).classAt? (cu.extendClassPath cp).contains place)
      ((Node.unit again).classAt? (cu.extendClassPath cp).contains place) := by
  have hafter : (Node.unit (r.run cp cu).after).classAt?
      (cu.extendClassPath cp).contains place =
      (Node.unit cu).classAt? (cu.extendClassPath cp).contains place :=
    (recaught_run h.ne cp cu).classAt?_eq nofun hplace
  have hagain : ((Node.unit again).classAt? (cu.extendClassPath cp).contains
      place).map Name.untyped =
      ((Node.unit cu).classAt? (cu.extendClassPath cp).contains place).map
        Name.untyped := by
    rw [← hafter, ← Node.classAt?_untyped (.unit again),
      ← Node.classAt?_untyped (.unit _)]
    exact congrArg (fun u => (Node.unit u).classAt? _ place) h.untyped_eq
  cases hn : (Node.unit cu).classAt? (cu.extendClassPath cp).contains place with
  | none =>
      rw [hn, Option.map_none, Option.map_eq_none_iff] at hagain
      rw [hagain]
      exact .none
  | some n =>
      rw [hn, Option.map_some, Option.map_eq_some_iff] at hagain
      obtain ⟨n', hn', huntyped⟩ := hagain
      obtain ⟨source, path, hread⟩ := h.before
      obtain ⟨source', path', hreread⟩ := h.after
      obtain ⟨k, hk, m, hm, hname⟩ :=
        CompilationUnit.exists_mem_walk_of_classAt? (hafter.trans hn)
      have hplain : n.IsPlain := by
        obtain ⟨m, hm, hname⟩ := Node.exists_mem_walk_of_classAt? (.unit cu) hn
        exact CompilationUnit.isPlain_of_asName? hread hm hname
      have hwords : n'.dotted = n.dotted := by
        rw [← n'.dotted_untyped, huntyped, n.dotted_untyped]
      rw [hn']
      rw [← h.contains_eq] at hn'
      exact .some
        (h.keepsMeaning hplain (CompilationUnit.fqn?_of_classAt? hread hn)
        (CompilationUnit.fqn?_of_classAt? hreread hn') hwords
          ⟨k, hk, m, hm, n, hname, rfl⟩)

-- ================================================================== clauses

/-- Lists that are related are so member by member. -/
theorem forall₂_mem {α β : Type} {R : α → β → Prop} {as : List α} {bs : List β}
    (h : List.Forall₂ R as bs) :
    List.Forall₂ (fun a b => a ∈ as ∧ b ∈ bs ∧ R a b) as bs := by
  rw [List.forall₂_iff_zip] at h ⊢
  refine ⟨h.1, fun hmem => ?_⟩
  obtain ⟨ha, hb⟩ := List.of_mem_zip hmem
  exact ⟨ha, hb, h.2 hmem⟩

/-- The names in the type of a clause in a file that was read mean what is
found for their words. -/
theorem names_of_mem_tries {source : String} {path : Option String}
    (h : parseUnit source cp path = .ok cu) {t : Try Stmt} (ht : t ∈ cu.tries)
    {c : Catch Stmt} (hc : c ∈ t.catches) :
    ∀ n ∈ c.declaration.typeTree.names, cu.SaysClass cp n :=
  CompilationUnit.names_of_mem_walk h
    (Node.declaration_mem_walk (.unit cu) ht hc)

/-- What a clause comes to declare is met in the tree after a run. -/
theorem exists_declaration_mem_walk (hne : r.legacy ≠ r.replacement.fqn)
    (cp : ClassPath) {t : Try Stmt} (ht : t ∈ cu.tries) {c : Catch Stmt}
    (hc : c ∈ t.catches) : ∃ k ∈ (r.run cp cu).after.classes,
      Node.declaration (r.newDeclaration (r.mustQualify cp cu) (r.plan t)
        c.declaration) ∈ k.walk := by
  obtain ⟨t', ht', hdeclarations⟩ := exists_of_mem_tries hne cp ht
  obtain ⟨c', hc', heq⟩ : ∃ c' ∈ t'.catches, c'.declaration =
      r.newDeclaration (r.mustQualify cp cu) (r.plan t) c.declaration := by
    have hmem := List.mem_map_of_mem (f := fun c =>
      r.newDeclaration (r.mustQualify cp cu) (r.plan t) c.declaration) hc
    rwa [← hdeclarations, List.mem_map] at hmem
  rw [CompilationUnit.tries_eq, List.mem_flatMap] at ht'
  obtain ⟨k, hk, ht'⟩ := ht'
  exact ⟨k, hk, heq ▸ Node.declaration_mem_walk (.classDecl k) ht' hc'⟩

/-- So are the names in its type. -/
theorem exists_mem_walk_of_mem_names (hne : r.legacy ≠ r.replacement.fqn)
    (cp : ClassPath) {t : Try Stmt} (ht : t ∈ cu.tries) {c : Catch Stmt}
    (hc : c ∈ t.catches) {n : Name}
    (hn : n ∈ (r.newDeclaration (r.mustQualify cp cu) (r.plan t)
      c.declaration).typeTree.names) :
    ∃ k ∈ (r.run cp cu).after.classes, Node.name n ∈ k.walk := by
  obtain ⟨k, hk, hd⟩ := exists_declaration_mem_walk hne cp ht hc
  generalize r.newDeclaration (r.mustQualify cp cu) (r.plan t) c.declaration =
    d at hn hd
  have htype : d.typeTree.node ∈ (Node.declaration d).children :=
    List.mem_append_right _ List.mem_cons_self
  obtain ⟨m, hm, hchild, -⟩ :=
    Node.exists_of_mem_names (.declaration d) rfl rfl htype n hn
  have hm : m ∈ k.walk := Node.walk_subset (.classDecl k) hd hm
  have hproper := Node.isProper_of_mem_walk (.classDecl k) hm
  exact ⟨k, hk, Node.walk_subset (.classDecl k) hm
    (Node.children_subset_walk hproper hchild)⟩

/-- Declarations that are the same without types have the same names. -/
theorem names_of_untyped_eq {d d' : Variables} (h : d'.untyped = d.untyped) :
    List.Forall₂ (fun n n' => n'.dotted = n.dotted)
      d.typeTree.names d'.typeTree.names := by
  have htype : d'.typeTree.untyped = d.typeTree.untyped := by
    rw [Variables.untyped_eq, Variables.untyped_eq] at h
    exact congrArg Variables.typeTree h
  have hnames : d'.typeTree.names.map Name.untyped =
      d.typeTree.names.map Name.untyped := by
    rw [← TypeTree.names_untyped, htype, TypeTree.names_untyped]
  rw [← List.forall₂_eq_eq_eq, List.forall₂_map_left_iff,
    List.forall₂_map_right_iff] at hnames
  refine hnames.flip.imp fun n n' heq => ?_
  rw [← n'.dotted_untyped, heq, n.dotted_untyped]

/-- Each name in the type of a clause after a run is related to the one that is
read for it. -/
def AtClauses (r : CatchRule) (cp : ClassPath) (cu again : CompilationUnit)
    (P : Try Stmt → Catch Stmt → Name → Name → Prop) : Prop :=
  List.Forall₂ (fun t t' => List.Forall₂ (fun c c' => List.Forall₂ (P t c)
      (r.newDeclaration (r.mustQualify cp cu)
        (r.plan t) c.declaration).typeTree.names
      c'.declaration.typeTree.names) t.catches t'.catches) cu.tries again.tries

theorem AtClauses.imp {P Q : Try Stmt → Catch Stmt → Name → Name → Prop}
    (h : r.AtClauses cp cu again P)
    (hPQ : ∀ t c n₁ n', P t c n₁ n' → Q t c n₁ n') :
    r.AtClauses cp cu again Q :=
  List.Forall₂.imp (fun t _ ht => ht.imp fun c _ hc => hc.imp (hPQ t c)) h

/-- A name in the tree after a run, and what is read for it. -/
structure IsReadAs (r : CatchRule) (cp : ClassPath) (cu again : CompilationUnit)
    (n₁ n' : Name) : Prop where
  words : n'.dotted = n₁.dotted
  means : n'.fqn? = again.meaning? cp n'.dotted
  walk : ∃ k ∈ (r.run cp cu).after.classes, ∃ m ∈ k.walk,
    m.asName? = some n₁

/-- The clauses of what is read declare what the clauses of the file come to
declare, types aside. -/
theorem Rereads.declarations (h : r.Rereads cp cu again) :
    List.Forall₂ (fun t t' => t ∈ cu.tries ∧ t' ∈ again.tries ∧
        List.Forall₂ (fun c c' => c ∈ t.catches ∧ c' ∈ t'.catches ∧
          c'.declaration.untyped = (r.newDeclaration (r.mustQualify cp cu)
            (r.plan t) c.declaration).untyped) t.catches t'.catches)
      cu.tries again.tries := by
  have htries : again.tries.map Try.untyped =
      (r.run cp cu).after.tries.map Try.untyped := by
    rw [← CompilationUnit.tries_untyped, h.untyped_eq,
      CompilationUnit.tries_untyped]
  have hplanned : List.Forall₂ (fun t u => List.Forall₂ (fun c d =>
        d.declaration = (r.newDeclaration (r.mustQualify cp cu) (r.plan t)
          c.declaration).untyped) t.catches u.catches)
      cu.tries (again.tries.map Try.untyped) := by
    rw [htries, List.forall₂_map_right_iff]
    refine (clauses_run h.ne cp cu).imp fun t t' hclauses => ?_
    show List.Forall₂ _ t.catches (t'.catches.map Catch.untyped)
    rw [List.forall₂_map_right_iff]
    exact hclauses.imp fun c c' hc => congrArg Variables.untyped hc.declaration
  rw [List.forall₂_map_right_iff] at hplanned
  refine (forall₂_mem hplanned).imp fun t t' ⟨ht, ht', hclauses⟩ =>
    ⟨ht, ht', ?_⟩
  replace hclauses :
      List.Forall₂ _ t.catches (t'.catches.map Catch.untyped) := hclauses
  rw [List.forall₂_map_right_iff] at hclauses
  exact forall₂_mem hclauses

/-- What is read for the names in the clauses of a file. -/
theorem Rereads.atClauses (h : r.Rereads cp cu again) :
    r.AtClauses cp cu again fun t c n₁ n' => t ∈ cu.tries ∧ c ∈ t.catches ∧
      n₁ ∈ (r.newDeclaration (r.mustQualify cp cu) (r.plan t)
        c.declaration).typeTree.names ∧ r.IsReadAs cp cu again n₁ n' := by
  obtain ⟨source, path, hreread⟩ := h.after
  refine h.declarations.imp fun t t' ⟨ht, ht', hclauses⟩ => ?_
  refine hclauses.imp fun c c' ⟨hc, hc', hdeclaration⟩ => ?_
  have hnames := forall₂_mem (names_of_untyped_eq hdeclaration)
  refine hnames.imp fun n₁ n' ⟨hn₁, hn', hwords⟩ => ?_
  obtain ⟨k, hk, hwalk⟩ := exists_mem_walk_of_mem_names h.ne cp ht hc hn₁
  exact ⟨ht, hc, hn₁, hwords, (names_of_mem_tries hreread ht' hc' n' hn').means,
    k, hk, _, hwalk, rfl⟩

/-- What is written for a name of the legacy type comes to mean the
replacement. A single word does so unless the file was thought to see the
replacement by it and does not; the full name of the replacement does where it
is reached by that; and what is left as it is, since it ends in the legacy type
without spelling it, never does. -/
def Arrives (r : CatchRule) (cp : ClassPath) (cu : CompilationUnit)
    (n : Name) : Prop :=
  if n.outer? = none ∧ r.mustQualify cp cu = false then
    cu.sees r.replacement.fqn = true →
      cu.meaning? cp r.replacement.simpleName = some r.replacement.fqn
  else (n.outer? = none ∨ n.dotted = r.legacy) ∧
    (r.run cp cu).after.fileNames.Reaches (cu.extendClassPath cp)
      r.replacement.fqn

instance (r : CatchRule) (cp : ClassPath) (cu : CompilationUnit) (n : Name) :
    Decidable (r.Arrives cp cu n) :=
  if h : n.outer? = none ∧ r.mustQualify cp cu = false then
    decidable_of_iff (cu.sees r.replacement.fqn = true →
      cu.meaning? cp r.replacement.simpleName = some r.replacement.fqn)
      (by rw [Arrives, if_pos h])
  else
    decidable_of_iff ((n.outer? = none ∨ n.dotted = r.legacy) ∧
      (r.run cp cu).after.fileNames.Reaches (cu.extendClassPath cp)
        r.replacement.fqn)
      (by rw [Arrives, if_neg h])

namespace Rereads

variable (h : r.Rereads cp cu again)
include h

/-- The simple name of the replacement, written in a clause, means that unless
it was thought to be seen and is not. -/
theorem meaning?_simpleName_iff {t : Try Stmt} (ht : t ∈ cu.tries)
    (hplan : r.plan t ≠ .unchanged) (hfree : r.mustQualify cp cu = false)
    (href : (r.run cp cu).after.simpleReferences.contains
      r.replacement.fqn = true) :
    again.meaning? cp r.replacement.simpleName = some r.replacement.fqn ↔
      (cu.sees r.replacement.fqn = true →
        cu.meaning? cp r.replacement.simpleName = some r.replacement.fqn) := by
  have hword : '.' ∉ r.replacement.simpleName.toList :=
    Text.not_mem_simpleName r.replacement.fqn
  have hnew := FileNames.ne_empty_of_dot h.replacement.mem_dot
  have hspares := CompilationUnit.spares_of_not_simpleNameTaken hfree
  have hafter : (r.run cp cu).after.fileNames.ImportsPlainly := by
    rw [← h.fileNames_eq]
    obtain ⟨source, path, hreread⟩ := h.after
    exact CompilationUnit.importsPlainly_of_parseUnit hreread
  rw [h.meaning?_eq, CompilationUnit.meaning?,
    FileNames.meaning?_eq_some_iff_of_word hword hnew,
    FileNames.meaning?_eq_some_iff_of_word hword hnew]
  rw [show r.replacement.simpleName =
    Text.simpleName r.replacement.fqn from rfl,
    (h.swaps.spares hspares).resolve?_eq_some_iff hafter,
    hspares.resolve?_eq_some_iff h.importsPlainly,
    imports_replacement_run h.ne h.replacement h.importsPlainly ht
      hplan hfree href,
    h.swaps.implicit?_eq]
  cases cu.sees r.replacement.fqn with
  | false => exact iff_of_true (.inl nofun) nofun
  | true => simp

theorem meaning?_fqn_iff :
    again.meaning? cp r.replacement.fqn = some r.replacement.fqn ↔
    (r.run cp cu).after.fileNames.Reaches (cu.extendClassPath cp)
      r.replacement.fqn := by
  rw [h.meaning?_eq]
  exact FileNames.meaning?_eq_self_iff h.replacement.mem_dot

/-- What is written for a name of the legacy type means the replacement just
when it arrives there. -/
theorem fqn?_written_iff {t : Try Stmt} (ht : t ∈ cu.tries)
    (hplan : r.plan t ≠ .unchanged) {n n₁ n' : Name}
    (hn : n.fqn? = cu.meaning? cp n.dotted) (hlegacy : n.fqn? = some r.legacy)
    (hsaid : n₁.said = ((r.rename (r.mustQualify cp cu)).respelled n,
      (r.rename (r.mustQualify cp cu)).newType))
    (hread : r.IsReadAs cp cu again n₁ n') :
    n'.fqn? = some r.replacement.fqn ↔ r.Arrives cp cu n := by
  have hdotted : n₁.dotted = (r.rename (r.mustQualify cp cu)).respelled n :=
    congrArg Prod.fst hsaid
  have hmeans : n'.fqn? =
      again.meaning? cp ((r.rename (r.mustQualify cp cu)).respelled n) := by
    rw [hread.means, hread.words, hdotted]
  rw [hmeans, Arrives]
  by_cases houter : n.outer? = none
  · have hwritten : (r.rename (r.mustQualify cp cu)).respelled n =
        if r.mustQualify cp cu = true then r.replacement.fqn
          else r.replacement.simpleName :=
      if_pos houter
    by_cases hfree : r.mustQualify cp cu = false
    · have hword : n₁.dotted = r.replacement.simpleName := by
        rw [hdotted, hwritten, if_neg (Bool.eq_false_iff.1 hfree)]
      rw [if_pos ⟨houter, hfree⟩, ← hdotted, hword]
      refine h.meaning?_simpleName_iff ht hplan hfree ?_
      -- what is written is a reference to the replacement
      obtain ⟨k, hk, m, hm, hname⟩ := hread.walk
      have hplain : '.' ∉ n₁.dotted.toList := by
        rw [hword]
        exact Text.not_mem_simpleName r.replacement.fqn
      obtain ⟨houter₁, hlast⟩ := Name.outer?_eq_none_of_not_mem hplain
      have htype : n₁.type = (r.rename (r.mustQualify cp cu)).newType :=
        congrArg Prod.snd hsaid
      have hfqn : n₁.fqn? = some r.replacement.fqn := by
        rw [Name.fqn?, htype]
        rfl
      exact CompilationUnit.contains_simpleReferences hk hm
        (CompilationUnit.simpleReference?_of_asName? hname houter₁ hfqn
          (hlast.trans hword))
    · rw [if_neg fun hboth => hfree hboth.2,
        and_iff_right (.inl houter), hwritten,
        if_pos (Bool.of_not_eq_false hfree)]
      exact h.meaning?_fqn_iff
  · have hwritten : (r.rename (r.mustQualify cp cu)).respelled n =
        if n.dotted = r.legacy then r.replacement.fqn else n.dotted :=
      if_neg houter
    rw [if_neg fun hboth => houter hboth.1, or_iff_right houter, hwritten]
    by_cases hspells : n.dotted = r.legacy
    · rw [if_pos hspells, and_iff_right hspells]
      exact h.meaning?_fqn_iff
    · rw [if_neg hspells]
      refine iff_of_false ?_ fun hboth => hspells hboth.1
      have hdot : '.' ∈ n.dotted.toList := by
        by_contra hnot
        exact houter (Name.outer?_eq_none_of_not_mem hnot).1
      rw [h.meaning?_eq]
      exact h.swaps.meaning?_ne hdot hspells (hn.symm.trans hlegacy)

end Rereads

/-- What a name in a clause after a run means when it is read: what a name of
the clause meant, as far as the words of that do; or the replacement, where it
is written for the legacy type and arrives. -/
inductive ReadsAs (r : CatchRule) (cp : ClassPath) (cu : CompilationUnit)
    (ns : List Name) (n₁ n' : Name) : Prop
  | kept {n : Name} : n ∈ ns → n₁.said = n.said → r.KeepsMeaning cp cu n n' →
      ReadsAs r cp cu ns n₁ n'
  | written {n : Name} : n ∈ ns → n.fqn? = some r.legacy →
      n₁.said = ((r.rename (r.mustQualify cp cu)).respelled n,
        (r.rename (r.mustQualify cp cu)).newType) →
      n'.dotted = n₁.dotted →
      (n'.fqn? = some r.replacement.fqn ↔ r.Arrives cp cu n) →
      ReadsAs r cp cu ns n₁ n'

/-- A name that a clause keeps means what it meant, as far as its words do. -/
theorem Rereads.keepsMeaning_of_said (h : r.Rereads cp cu again) {t : Try Stmt}
    (ht : t ∈ cu.tries) {c : Catch Stmt} (hc : c ∈ t.catches) {n n₁ n' : Name}
    (hn : n ∈ c.declaration.typeTree.names) (hsaid : n₁.said = n.said)
    (hread : r.IsReadAs cp cu again n₁ n') : r.KeepsMeaning cp cu n n' := by
  obtain ⟨source, path, hparse⟩ := h.before
  obtain ⟨-, hplain, hmeans⟩ := names_of_mem_tries hparse ht hc n hn
  obtain ⟨k, hk, m, hm, hname⟩ := hread.walk
  exact h.keepsMeaning hplain hmeans hread.means
    (hread.words.trans (congrArg Prod.fst hsaid))
    ⟨k, hk, m, hm, n₁, hname, hsaid⟩

/-- What a clause comes to declare is read as what it keeps and as what is
written in it. -/
theorem Rereads.readsAs (h : r.Rereads cp cu again) {t : Try Stmt}
    (ht : t ∈ cu.tries) {c : Catch Stmt} (hc : c ∈ t.catches) {n₁ n' : Name}
    (hn₁ : n₁ ∈
      (r.newDeclaration (r.mustQualify cp cu)
        (r.plan t) c.declaration).typeTree.names)
    (hread : r.IsReadAs cp cu again n₁ n') :
    r.ReadsAs cp cu c.declaration.typeTree.names n₁ n' := by
  obtain ⟨source, path, hparse⟩ := h.before
  have hnames := names_of_mem_tries hparse ht hc
  have hkept {n : Name} (hn : n ∈ c.declaration.typeTree.names)
      (hsaid : n₁.said = n.said) :
      r.ReadsAs cp cu c.declaration.typeTree.names n₁ n' :=
    .kept hn hsaid (h.keepsMeaning_of_said ht hc hn hsaid hread)
  by_cases hplan : r.plan t = .unchanged
  · rw [hplan, newDeclaration, ite_self] at hn₁
    exact hkept hn₁ rfl
  · obtain ⟨n, hn, hsaid | ⟨hconcerns, hsaid⟩⟩ :=
      comesFrom_newDeclaration (fun n hn =>
        ⟨(hnames n hn).named, (hnames n hn).plain⟩) (r.plan t) n₁ hn₁
    · exact hkept hn hsaid
    · have hlegacy : n.fqn? = some r.legacy := isClassNamed_iff_fqn?.1 hconcerns
      exact .written hn hlegacy hsaid hread.words
        (h.fqn?_written_iff ht hplan (hnames n hn).means hlegacy hsaid hread)

end CatchRule

end JavaRefit
