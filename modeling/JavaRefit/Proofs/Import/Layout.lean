/-
How imports come and go in a file that can be written.

A new import of a qualified name is written on its own, and the trivia
that moves from one part to another is trivia that may stand in front of
anything. What stood in front of the first part is none, and comes to
stand in front of the first part again.

Chain: after `Layout` and the chains of names; the rereading of what the
catch rule writes rests on it.
-/
import JavaRefit.Proofs.Grammar.Layout
import JavaRefit.Proofs.Grammar.NameChain
import JavaRefit.Proofs.Import.Delta

namespace JavaRefit

open Spelling Token

-- ========================================================= a new import

namespace Import

theorem clean_newline : Clean .between "\n".toList :=
  .blank (by decide) .nil

theorem clean_newlines : Clean .between "\n\n".toList :=
  .blank (by decide) clean_newline

/-- A keyword, a chain of names after a blank, and a semicolon. -/
theorem separated_statement {lead : Trivia} {word : String} {us : List Token}
    (hlead : Clean .between lead.toList) (hword : (Word.keyword word).IsWhole)
    (hus : Separated us) (hframed : IsFramed " " us) :
    Separated (⟨lead, .keyword word⟩ :: ([] ++ us ++ [⟨"", .symbol ";"⟩])) := by
  obtain ⟨w, hw, hfirst⟩ := hframed.first
  obtain ⟨t, ht, hlast⟩ := hframed.last
  have hsemicolon : (Word.symbol ";").IsWhole :=
    spanWord_single (c := ';') (by decide) []
  rw [List.nil_append, ← List.singleton_append, separated_append,
    separated_append]
  refine ⟨separated_singleton ⟨hlead, hword⟩,
    ⟨hus, separated_singleton ⟨.nil, hsemicolon⟩, fun t' ht' u hu => ?_⟩,
    fun t' ht' u hu => ?_⟩
  · obtain rfl : t = t' := Option.some.inj (hlast.symm.trans ht')
    obtain rfl : (⟨"", .symbol ";"⟩ : Token) = u := Option.some.inj hu
    refine ⟨fun c hc => ?_,
      meets_of_isClosed (Word.isClosed_of_isIdentifier ht) _⟩
    obtain rfl : ';' = c := by simpa [Token.text, Word.text] using hc
    rw [(hus.whole t (List.mem_of_getLast? hlast)).word.endsBefore_iff ht]
    decide
  · obtain rfl : (⟨lead, .keyword word⟩ : Token) = t' := Option.some.inj ht'
    obtain rfl : (⟨" ", w⟩ : Token) = u := by
      rw [List.head?_append, hfirst] at hu
      exact Option.some.inj hu
    refine ⟨fun c hc => ?_, meets_of_isClosed rfl _⟩
    obtain rfl : ' ' = c := by simpa [Token.text] using hc
    rw [hword.endsBefore_iff rfl]
    decide

/-- The import of a class with a qualified name can be written. -/
theorem writes_ofClass {fqn : String} (h : IsQualifiedName fqn) {lead : Trivia}
    (hlead : Clean .between lead.toList) :
    SpellsImport.Writes ((⟨ofClass lead fqn, ""⟩ : RightPadded Import).map
      Import.untyped) := by
  obtain ⟨us, hus, hsep⟩ := h.isWritable " "
  have hframed := isFramed_name hus
  rw [Name.lead_withLead] at hframed
  have hname : ((Name.ofDotted fqn).withLead " ").untyped =
      (Name.ofDotted fqn).withLead " " := by
    rw [Name.untyped_withLead, Name.untyped_ofDotted]
  have hspells := @SpellsImport.mk lead [] none us _ "" .none (.named hus)
  rw [RightPadded.map, untyped, ofClass, hname]
  exact ⟨_, hspells,
    separated_statement hlead rfl (hsep (.blank (by decide) .nil)) hframed⟩

theorem outer?_ofClass {fqn : String} (h : IsQualifiedName fqn)
    (lead : Trivia) : (ofClass lead fqn).name.outer? ≠ none := by
  have houter : (Name.ofDotted fqn).outer? ≠ none := by
    obtain ⟨hlength, -⟩ := h
    rw [Name.ofDotted]
    split
    · next hsegments => simp [hsegments] at hlength
    · next first rest hsegments =>
      rcases List.eq_nil_or_concat rest with rfl | ⟨rest, s, rfl⟩
      · simp [hsegments] at hlength
      · rw [Name.ofSegments, List.concat_eq_append, List.foldl_append]
        exact Option.some_ne_none _
  rw [ofClass]
  cases hn : Name.ofDotted fqn with
  | simple i type => exact absurd (by rw [hn]; rfl) houter
  | qualified lead outer last type => exact Option.some_ne_none outer

/-- The import can be written and has a package. -/
structure IsWritable (p : RightPadded Import) : Prop where
  writes : SpellsImport.Writes (p.map Import.untyped)
  package : p.element.name.outer? ≠ none

theorem IsWritable.withLead {p : RightPadded Import} (h : IsWritable p)
    {lead : Trivia} (hlead : Clean .between lead.toList) :
    IsWritable { p with element := { p.element with lead } } :=
  ⟨writes_import_withLead h.writes hlead, h.package⟩

theorem isWritable_ofClass {fqn : String} (h : IsQualifiedName fqn)
    {lead : Trivia} (hlead : Clean .between lead.toList) :
    IsWritable ⟨ofClass lead fqn, ""⟩ :=
  ⟨writes_ofClass h hlead, outer?_ofClass h lead⟩

theorem IsWritable.clean {p : RightPadded Import} (h : IsWritable p) :
    Clean .between p.element.lead.toList := by
  have hclean := Spelling.Writes.clean headLead_import h.writes
  exact hclean

-- ============================================================ the import list

/-- A list with a new import in it can be written if the list can. -/
theorem isWritable_insert {fqn : String} (hfqn : IsQualifiedName fqn)
    {imports : List (RightPadded Import)} (h : ∀ p ∈ imports, IsWritable p) :
    ∀ p ∈ insert fqn imports, IsWritable p := by
  have hnew : IsWritable ⟨ofClass "\n" fqn, ""⟩ :=
    isWritable_ofClass hfqn clean_newline
  cases imports with
  | nil => exact List.forall_mem_singleton.2 hnew
  | cons p ps =>
      rcases insert_cases fqn p ps
        with ⟨-, hinsert⟩ | ⟨before, after, rfl, -, -, hinsert⟩
      · obtain ⟨hp, hps⟩ := List.forall_mem_cons.1 h
        rw [hinsert]
        exact List.forall_mem_cons.2 ⟨isWritable_ofClass hfqn hp.clean,
          List.forall_mem_cons.2 ⟨hp.withLead clean_newline, hps⟩⟩
      · obtain ⟨hbefore, hafter⟩ :=
          @List.forall_mem_append _ _ (p :: before) after |>.1 h
        rw [hinsert]
        exact List.forall_mem_append.2 ⟨hbefore,
          List.forall_mem_cons.2 ⟨hnew, hafter⟩⟩

/-- The trivia in front of the first import stays there. -/
theorem head_insert (fqn : String) {p : RightPadded Import}
    {ps : List (RightPadded Import)} :
    ((insert fqn (p :: ps)).map fun p => p.element.lead).head? =
      some p.element.lead := by
  unfold insert
  split <;> rfl

end Import

-- ================================================================= files

namespace CompilationUnit

variable {cu cu' : CompilationUnit}

theorem leads_of_package?_eq_none (h : cu.package? = none) :
    cu.leads = cu.imports.map (fun p => p.element.lead) ++
      cu.classes.map ClassDecl.lead := by
  rw [leads, h]
  rfl

/-- There is no trivia in front of the first part but what the file keeps. -/
def StartsBare (cu : CompilationUnit) : Prop :=
  ∀ lead ∈ cu.leads.head?, lead = ""

theorem startsBare_of_package {p : RightPadded Package} (h : cu.StartsBare)
    (hp : cu.package? = some p) (hp' : cu'.package? = cu.package?) :
    cu'.StartsBare := by
  intro lead hlead
  rw [leads, hp', hp] at hlead
  refine h lead ?_
  rw [leads, hp]
  exact hlead

/-- With a new import a file still starts bare. -/
theorem StartsBare.addImport (h : cu.StartsBare) (fqn : String) :
    (cu.addImport fqn).StartsBare := by
  cases hp : cu.package? with
  | some p => exact startsBare_of_package h hp (cu.package?_addImport fqn)
  | none =>
      have hpackage : (cu.addImport fqn).package? = none :=
        (cu.package?_addImport fqn).trans hp
      intro lead hlead
      rw [leads_of_package?_eq_none hpackage] at hlead
      cases himports : cu.imports with
      | nil =>
          have hadd : (cu.addImport fqn).imports = [⟨.ofClass "" fqn, ""⟩] := by
            rw [CompilationUnit.addImport, himports, hp]
            exact imports_withFirstClassLead _ _
          rw [hadd] at hlead
          exact (Option.some.inj hlead).symm
      | cons q qs =>
          have hadd : (cu.addImport fqn).imports =
              Import.insert fqn (q :: qs) := by
            rw [CompilationUnit.addImport, himports]
          rw [hadd, List.head?_append, Import.head_insert] at hlead
          refine h lead ?_
          rw [leads_of_package?_eq_none hp, himports]
          exact hlead

/-- So it does without one of its imports. -/
theorem StartsBare.of_removeImport? (h : cu.StartsBare) {fqn : String}
    (hremove : cu.removeImport? fqn = some cu') : cu'.StartsBare := by
  cases hp : cu.package? with
  | some p =>
      exact startsBare_of_package h hp
        (ImportsOnly.refl.of_removeImport? hremove).package_eq
  | none =>
      obtain ⟨before, p, after, himports, -, -, rfl⟩ :=
        exists_of_removeImport? hremove
      obtain ⟨lead, package?, imports, classes, close, path⟩ := cu
      obtain rfl : package? = none := hp
      obtain rfl : imports = before ++ p :: after := himports
      intro first hfirst
      cases before with
      | cons q qs => exact h first hfirst
      | nil =>
          -- what was in front of the import is in front of what takes its place
          have hlead : p.element.lead = "" := h p.element.lead rfl
          cases after with
          | cons q qs => exact (Option.some.inj hfirst).symm.trans hlead
          | nil =>
              cases classes with
              | nil => cases hfirst
              | cons c cs => exact (Option.some.inj hfirst).symm.trans hlead

/-- Other imports and classes make another file that can be written. -/
theorem IsLaidOut.withParts (h : cu.IsLaidOut)
    {imports : List (RightPadded Import)} {classes : List JavaClass}
    (himports : ∀ p ∈ imports, Import.IsWritable p)
    (hclasses : ∀ c ∈ classes, SpellsTopClass.Writes c.untyped)
    (hbare : { cu with imports, classes }.StartsBare) :
    { cu with imports, classes }.IsLaidOut where
  lead := h.lead
  first := hbare
  package := h.package
  imports p hp := (himports p hp).writes
  packages p hp := (himports p hp).package
  classes := hclasses
  close := h.close

theorem IsLaidOut.isWritable (h : cu.IsLaidOut) :
    ∀ p ∈ cu.imports, Import.IsWritable p :=
  fun p hp => ⟨h.imports p hp, h.packages p hp⟩

theorem clean_of_writes {c : JavaClass} (h : SpellsTopClass.Writes c.untyped) :
    Clean .between c.lead.toList := by
  have hclean := Spelling.Writes.clean headLead_topClass h
  rwa [ClassDecl.untyped_eq] at hclean

/-- Other trivia that is over may stand in front of a class. -/
theorem writes_withLead {c : JavaClass} (h : SpellsTopClass.Writes c.untyped)
    {lead : Trivia} (hlead : Clean .between lead.toList) :
    SpellsTopClass.Writes (ClassDecl.untyped { c with lead }) := by
  have hwrites := writes_topClass_withLead h hlead
  rw [ClassDecl.untyped_eq] at hwrites ⊢
  exact hwrites

/-- Other imports, and other trivia that is over in front of the first class,
make another file that can be written. -/
theorem IsLaidOut.withFirstClassLead (h : cu.IsLaidOut)
    {imports : List (RightPadded Import)}
    (himports : ∀ p ∈ imports, Import.IsWritable p) {lead : Trivia → Trivia}
    (hlead : ∀ l, Clean .between l.toList → Clean .between (lead l).toList)
    (hbare : ({ cu with imports }.withFirstClassLead lead).StartsBare) :
    ({ cu with imports }.withFirstClassLead lead).IsLaidOut := by
  have hclasses := h.classes
  obtain ⟨start, package?, old, classes, close, path⟩ := cu
  cases classes with
  | nil => exact h.withParts himports hclasses hbare
  | cons c cs =>
      obtain ⟨hc, hcs⟩ := List.forall_mem_cons.1 hclasses
      have hfirst := writes_withLead hc (hlead c.lead (clean_of_writes hc))
      exact h.withParts himports (List.forall_mem_cons.2 ⟨hfirst, hcs⟩) hbare

theorem clean_separateFromImport {lead : Trivia}
    (h : Clean .between lead.toList) :
    Clean .between (separateFromImport lead).toList := by
  unfold separateFromImport
  split
  · exact h
  · rw [String.toList_append]
    exact .blank (by decide) (.blank (by decide) h)

/-- A file can be written with an import more. -/
theorem IsLaidOut.addImport (h : cu.IsLaidOut) {fqn : String}
    (hfqn : IsQualifiedName fqn) : (cu.addImport fqn).IsLaidOut := by
  have hbare := StartsBare.addImport h.first fqn
  have hwritable := h.isWritable
  obtain ⟨lead, package?, imports, classes, close, path⟩ := cu
  cases imports with
  | cons p ps =>
      exact h.withParts (Import.isWritable_insert hfqn hwritable)
        h.classes hbare
  | nil =>
      cases package? with
      | some p =>
          have hnew := Import.isWritable_ofClass hfqn Import.clean_newlines
          exact h.withParts (List.forall_mem_singleton.2 hnew) h.classes hbare
      | none =>
          have hnew : Import.IsWritable ⟨.ofClass "" fqn, ""⟩ :=
            Import.isWritable_ofClass hfqn .nil
          exact h.withFirstClassLead (List.forall_mem_singleton.2 hnew)
            (fun _ => clean_separateFromImport) hbare

/-- A file can be written without one of its imports. -/
theorem IsLaidOut.of_removeImport? (h : cu.IsLaidOut) {fqn : String}
    (hremove : cu.removeImport? fqn = some cu') : cu'.IsLaidOut := by
  have hbare := StartsBare.of_removeImport? h.first hremove
  have hwritable := h.isWritable
  obtain ⟨before, p, after, himports, -, -, rfl⟩ :=
    exists_of_removeImport? hremove
  rw [himports, List.forall_mem_append, List.forall_mem_cons] at hwritable
  obtain ⟨hbefore, hp, hafter⟩ := hwritable
  obtain ⟨lead, package?, imports, classes, close, path⟩ := cu
  cases before with
  | cons q qs =>
      exact h.withParts (List.forall_mem_append.2 ⟨hbefore, hafter⟩)
        h.classes hbare
  | nil =>
      cases after with
      | cons q qs =>
          obtain ⟨hq, hqs⟩ := List.forall_mem_cons.1 hafter
          exact h.withParts (List.forall_mem_cons.2 ⟨hq.withLead hp.clean, hqs⟩)
            h.classes hbare
      | nil =>
          cases package? with
          | some _ => exact h.withParts (List.forall_mem_nil _) h.classes hbare
          | none =>
              -- the class gets what was in front of the import
              exact h.withFirstClassLead (List.forall_mem_nil _)
                (fun _ _ => hp.clean) hbare

/-- A file can be written with its imports brought in line, if the new ones
have qualified names. -/
theorem IsLaidOut.applyDelta {ω : Type} (h : cu.IsLaidOut) {d : ImportDelta}
    (hadded : ∀ fqn ∈ d.added, IsQualifiedName fqn) :
    (cu.applyDelta d : Edited ω CompilationUnit).value.IsLaidOut :=
  applyDelta_induction (P := IsLaidOut) (fun _ fqn hfqn h =>
    h.addImport (hadded fqn hfqn))
    (fun _ _ _ hremove h => h.of_removeImport? hremove) h

end CompilationUnit

end JavaRefit
