/-
Files part by part.

The package and the imports of a file end with semicolons, its classes
with braces, and after these anything may come. So whether a file can be
written is a question about each of its parts for itself
(`CompilationUnit.IsLaidOut`), but for the trivia in front: that of the
first part is kept by the file.

Chain: after `Text`; changes of imports and of classes are judged by it.
-/
import JavaRefit.Proofs.Grammar.Plain
import JavaRefit.Proofs.Grammar.Text
import JavaRefit.Proofs.Token.Refits
import JavaRefit.Proofs.Token.Trivia

namespace JavaRefit

open Spelling Token

-- ================================================================= parts

/-- Separated tokens spell it. -/
def Spelling.Writes {α : Type} (R : Spelling α) (a : α) : Prop :=
  ∃ us, R us a ∧ Separated us

/-- No tokens are apart. -/
theorem separated_nil : Separated [] :=
  ⟨List.forall_mem_nil _, .nil⟩

/-- After a semicolon or a brace anything may come. -/
theorem separated_append_of_ends {us vs : List Token}
    (h : us = [] ∨ Ends isStop us) :
    Separated (us ++ vs) ↔ Separated us ∧ Separated vs := by
  rw [separated_append]
  refine and_congr_right fun _ => and_iff_left fun t ht u _ => ?_
  rcases h with rfl | ⟨init, t', rfl, hstop⟩
  · cases ht
  · rw [List.getLast?_concat, Option.mem_some_iff] at ht
    subst ht
    refine ⟨fun c _ => endsBefore_of_isStop hstop c, meets_of_isClosed ?_ u⟩
    rw [isStop, Bool.or_eq_true, beq_iff_eq, beq_iff_eq] at hstop
    rcases hstop with h | h <;> rw [h] <;> rfl

/-- Tokens are separated without the trivia in front if they are with it. -/
theorem separated_of_led {lead : Trivia} {us xs : List Token}
    (hled : Led lead us xs) (h : Separated xs) : Separated us := by
  cases hled
  exact h.withLead .nil

variable {α : Type} {R : Spelling α}

/-- Each of some elements in a row that are written apart is written so. -/
theorem writes_of_many {us : List Token} {as : List α} (h : Many R us as)
    (hsep : Separated us) : ∀ a ∈ as, R.Writes a := by
  induction h with
  | nil => exact List.forall_mem_nil _
  | cons hus _ ih =>
      obtain ⟨hsep, hsep', -⟩ := separated_append.1 hsep
      exact List.forall_mem_cons.2 ⟨⟨_, hus, hsep⟩, ih hsep'⟩

/-- Elements that are written apart make a row that is, if each ends with a
stop. -/
theorem exists_many (hends : ∀ ⦃us a⦄, R us a → Ends isStop us) {as : List α}
    (h : ∀ a ∈ as, R.Writes a) : ∃ us, Many R us as ∧ Separated us := by
  induction as with
  | nil => exact ⟨[], .nil, separated_nil⟩
  | cons a as ih =>
      obtain ⟨⟨us, hus, hsep⟩, has⟩ := List.forall_mem_cons.1 h
      obtain ⟨vs, hvs, hsep'⟩ := ih has
      exact ⟨us ++ vs, .cons hus hvs,
        (separated_append_of_ends (.inr (hends hus))).2 ⟨hsep, hsep'⟩⟩

-- ======================================================= trivia in front

/-- The first trivia of a row is that of its first element. -/
theorem headLead_many {lead : α → Trivia}
    (hlead : ∀ ⦃us a⦄, R us a → us.head?.map Token.lead = some (lead a))
    {us : List Token} {as : List α} (h : Many R us as) :
    us.head?.map Token.lead = (as.map lead).head? := by
  cases h with
  | nil => rfl
  | @cons us vs a as hus _ =>
      have hhead := hlead hus
      rw [List.head?_append, Option.map_or, hhead]
      rfl

/-- The first trivia of an import is its own. -/
theorem headLead_import ⦃us : List Token⦄ ⦃p : RightPadded Import⦄
    (h : SpellsImport us p) :
    us.head?.map Token.lead = some p.element.lead := by
  cases h
  rfl

/-- The first trivia of a class is its own. -/
theorem headLead_topClass ⦃us : List Token⦄ ⦃c : JavaClass⦄
    (h : SpellsTopClass us c) : us.head?.map Token.lead = some c.lead := by
  obtain ⟨-, -, hc, hled⟩ := h
  generalize _ ++ _ :: _ = ts at hled
  cases hc
  cases hled
  rfl

/-- The trivia in front of what can be written is over there. -/
theorem Spelling.Writes.clean {lead : α → Trivia}
    (hlead : ∀ ⦃us a⦄, R us a → us.head?.map Token.lead = some (lead a)) {a : α}
    (h : R.Writes a) :
    Clean .between (lead a).toList := by
  obtain ⟨us, hus, hsep⟩ := h
  have hhead := hlead hus
  cases us with
  | nil => cases hhead
  | cons t us =>
      rw [← Option.some.inj hhead]
      exact (hsep.whole t List.mem_cons_self).lead

/-- Other trivia that is over may stand in front of an import. -/
theorem writes_import_withLead {i : Import} {after lead : Trivia}
    (h : SpellsImport.Writes ⟨i, after⟩) (hlead : Clean .between lead.toList) :
    SpellsImport.Writes ⟨{ i with lead }, after⟩ := by
  obtain ⟨us, hus, hsep⟩ := h
  cases hus with
  | mk hstatic hn => exact ⟨_, .mk hstatic hn, hsep.withLead hlead⟩

/-- And in front of a class. -/
theorem writes_topClass_withLead {c : JavaClass} {lead : Trivia}
    (h : SpellsTopClass.Writes c) (hlead : Clean .between lead.toList) :
    SpellsTopClass.Writes { c with lead } := by
  obtain ⟨us, ⟨hms, hkind, hc, hled⟩, hsep⟩ := h
  cases hc with
  | mk i hus hvs hws =>
      generalize hts : _ ++ _ :: _ = ts at hled
      cases hled
      exact ⟨_, .mk hms hkind (.mk i hus hvs hws) (hts ▸ .mk),
        hsep.withLead hlead⟩

-- ================================================================= files

namespace CompilationUnit

/-- The trivia in front of each part of a file. -/
def leads (cu : CompilationUnit) : List Trivia :=
  cu.package?.toList.map (fun p => p.element.lead) ++
    cu.imports.map (fun p => p.element.lead) ++ cu.classes.map ClassDecl.lead

/-- Types aside, every part of the file can be written, and what trivia there
is in front of the first is kept by the file. -/
structure IsLaidOut (cu : CompilationUnit) : Prop where
  lead : Clean .between cu.lead.toList
  first : ∀ lead ∈ cu.leads.head?, lead = ""
  package : SpellsPackage.Writes cu.untyped.package?
  imports : ∀ p ∈ cu.imports, SpellsImport.Writes (p.map Import.untyped)
  packages : ∀ p ∈ cu.imports, p.element.name.outer? ≠ none
  classes : ∀ c ∈ cu.classes, SpellsTopClass.Writes c.untyped
  close : OnlyTrivia cu.close

variable (cu : CompilationUnit)

/-- The imports of a file without types. -/
theorem imports_untyped :
    cu.untyped.imports = cu.imports.map (.map Import.untyped) := by
  rw [untyped_eq]
  rfl

/-- The classes of a file without types. -/
theorem classes_untyped :
    cu.untyped.classes = cu.classes.map ClassDecl.untyped := by
  rw [untyped_eq]

theorem leads_ne_nil {cu : CompilationUnit} (h : cu.classes ≠ []) :
    cu.leads ≠ [] :=
  List.append_ne_nil_of_right_ne_nil _ (List.map_eq_nil_iff.not.2 h)

/-- The trivia before imports and classes is no matter of types. -/
theorem leads_untyped : cu.untyped.leads = cu.leads := by
  rw [untyped_eq, leads, leads]
  simp only [List.map_map]
  refine congrArg₂ _ (congrArg₂ _ ?_ rfl) (List.map_congr_left fun c _ => ?_)
  · cases cu.package? <;> rfl
  · rw [Function.comp_apply, c.untyped_eq]

end CompilationUnit

/-- The tokens of a file: those of the package, of the imports and of the
classes. -/
theorem exists_of_parts {us : List Token} {p : Option (RightPadded Package)}
    {imports : List (RightPadded Import)} {classes : List JavaClass}
    (h : SpellsParts us (p, imports, classes)) :
    ∃ vs ws xs, us = vs ++ ws ++ xs ∧ SpellsPackage vs p ∧
    Many SpellsImport ws imports ∧
      Many SpellsTopClass xs classes := by
  cases h with
  | mk hp hi hc => exact ⟨_, _, _, rfl, hp, hi, hc⟩

/-- The first trivia of a file is that of its first part. -/
theorem headLead_parts {us : List Token} {cu : CompilationUnit}
    (h : SpellsParts us (cu.package?, cu.imports, cu.classes)) :
    us.head?.map Token.lead = cu.leads.head? := by
  obtain ⟨vs, ws, xs, rfl, hp, hi, hc⟩ := exists_of_parts h
  replace hi := headLead_many headLead_import hi
  replace hc := headLead_many headLead_topClass hc
  rw [CompilationUnit.leads]
  simp only [List.head?_append, Option.map_or, hi, hc]
  generalize cu.package? = p at hp
  cases hp <;> rfl

/-- The tokens of a file can be written just when those of its parts can. -/
theorem separated_parts {us vs ws : List Token}
    {p : Option (RightPadded Package)} {imports : List (RightPadded Import)}
    (hp : SpellsPackage us p) (hi : Many SpellsImport vs imports) :
    Separated (us ++ vs ++ ws) ↔ (Separated us ∧ Separated vs) ∧
    Separated ws := by
  rw [separated_append_of_ends (ends_imports rfl hp hi),
    separated_append_of_ends (ends_package rfl hp)]

/-- The tokens of a file that has some are those of its parts. -/
theorem parts_of_spellsUnit {close : Trivia} {path : Option String} {t : Token}
    {ts : List Token} {cu : CompilationUnit}
    (h : SpellsUnit close path (t :: ts) cu) :
    ∃ us, SpellsParts us (cu.package?, cu.imports, cu.classes) ∧
    Led cu.lead us (t :: ts) := by
  cases h with
  | mk hparts hled => exact ⟨_, hparts, hled⟩

/-- A file without tokens has no parts. -/
theorem eq_of_spellsUnit_nil {close : Trivia} {path : Option String}
    {cu : CompilationUnit} (h : SpellsUnit close path [] cu) :
    cu = ⟨"", none, [], [], close, path⟩ := by
  cases h with
  | empty => rfl
  | mk _ hled => cases hled

/-- Whether a name has one word only is no matter of types. -/
theorem Name.outer?_untyped_eq_none {n : Name} : n.untyped.outer? = none ↔
    n.outer? = none := by
  cases n with
  | simple => exact Iff.rfl
  | qualified lead outer last type =>
      rw [Name.untyped_qualified]
      exact iff_of_false nofun nofun

/-- What is read from a text is laid out. -/
theorem CompilationUnit.isLaidOut_of_parseTree {cu : CompilationUnit}
    {source : String} {path : Option String}
    (h : parseTree source path = .ok cu.untyped) : cu.IsLaidOut := by
  obtain ⟨ts, hspells, hsep, hclose, hpackages, -⟩ := parseTree_eq_ok_iff.1 h
  cases ts with
  | nil =>
      obtain ⟨lead, package?, imports, classes, close, path'⟩ := cu
      have hempty := eq_of_spellsUnit_nil hspells
      rw [untyped_eq, mk.injEq, Option.map_eq_none_iff, List.map_eq_nil_iff,
        List.map_eq_nil_iff]
        at hempty
      obtain ⟨rfl, rfl, rfl, rfl, -⟩ := hempty
      exact ⟨.nil, nofun, ⟨[], .none, separated_nil⟩, nofun, nofun,
        nofun, hclose⟩
  | cons t ts =>
      obtain ⟨us, hparts, hled⟩ := parts_of_spellsUnit hspells
      have hhead := headLead_parts hparts
      obtain ⟨vs, ws, xs, rfl, hp, hi, hc⟩ := exists_of_parts hparts
      have hseparated := separated_of_led hled hsep
      rw [leads_untyped] at hhead
      rw [imports_untyped] at hi hpackages
      rw [classes_untyped] at hc
      generalize hts : vs ++ ws ++ xs = us at hled hhead
      cases hled
      have hlead := (hsep.whole _ List.mem_cons_self).lead
      rw [separated_parts hp hi] at hseparated
      obtain ⟨⟨hsepv, hsepw⟩, hsepx⟩ := hseparated
      refine ⟨hlead, fun l hl => Option.some.inj (hl.symm.trans hhead.symm),
        ⟨vs, hp, hsepv⟩, ?_, ?_, ?_, hclose⟩
      · exact List.forall_mem_map.1 (writes_of_many hi hsepw)
      · exact fun p hmem hnone =>
          hpackages _ (List.mem_map_of_mem hmem)
            (Name.outer?_untyped_eq_none.2 hnone)
      · exact List.forall_mem_map.1 (writes_of_many hc hsepx)

/-- A file that is laid out and has a part is read from some text. -/
theorem CompilationUnit.IsLaidOut.exists_parseTree {cu : CompilationUnit}
    (h : cu.IsLaidOut) (hparts : cu.leads ≠ []) :
    ∃ source, parseTree source cu.path = .ok cu.untyped := by
  obtain ⟨us, hus, hsepu⟩ := h.package
  obtain ⟨vs, hvs, hsepv⟩ :=
    @exists_many _ _ (ends_import rfl) cu.untyped.imports (by
    rw [imports_untyped]
    exact List.forall_mem_map.2 h.imports)
  obtain ⟨ws, hws, hsepw⟩ :=
    @exists_many _ _ (ends_topClass rfl) cu.untyped.classes (by
    rw [classes_untyped]
    exact List.forall_mem_map.2 h.classes)
  have hsep := (separated_parts hus hvs).2 ⟨⟨hsepu, hsepv⟩, hsepw⟩
  have hspells : SpellsParts (us ++ vs ++ ws)
      (cu.untyped.package?, cu.untyped.imports, cu.untyped.classes) :=
        .mk hus hvs hws
  have hhead := headLead_parts hspells
  rw [leads_untyped] at hhead
  generalize us ++ vs ++ ws = ts at hsep hspells hhead
  cases ts with
  | nil => exact absurd (List.head?_eq_none_iff.1 hhead.symm) hparts
  | cons t ts =>
      obtain ⟨lead, w⟩ := t
      obtain rfl : lead = "" := h.first lead hhead.symm
      refine ⟨_, parseTree_eq_ok_iff.2 ⟨⟨cu.lead, w⟩ :: ts, ?_,
        hsep.withLead h.lead, ?_, ?_, rfl⟩⟩
      · exact .mk hspells .mk
      · exact h.close
      · rw [imports_untyped, List.forall_mem_map]
        exact fun p hmem hnone =>
          h.packages p hmem (Name.outer?_untyped_eq_none.1 hnone)

namespace CompilationUnit

variable {cu : CompilationUnit}

/-- The parser stores the path it is given. -/
theorem path_of_parseTree {source : String} {path : Option String}
    (h : parseTree source path = .ok cu.untyped) : cu.path = path := by
  obtain ⟨ts, hspells⟩ := parseTree_eq_ok_iff.1 h
  have hpath := path_of_spellsUnit hspells.spells
  rwa [cu.untyped_eq] at hpath

/-- What is read from the text of a file with a part is the file. -/
theorem IsLaidOut.parseTree_print (h : cu.IsLaidOut) (hparts : cu.leads ≠ []) :
    parseTree cu.print cu.path = .ok cu.untyped := by
  obtain ⟨source, hsource⟩ := h.exists_parseTree hparts
  obtain ⟨⟨rest, hunit⟩, hstop, -⟩ := unit_of_parseTree hsource
  rw [← cu.print_untyped, print_of_unit hunit hstop]
  exact hsource

/-- The other file has the parts of the file, types aside. -/
structure IsRead (cu again : CompilationUnit) : Prop where
  package : again.package? = cu.untyped.package?
  imports : again.imports = cu.untyped.imports
  classes : again.classes = cu.untyped.classes

/-- The parts of a file that is laid out are read from its text. In a file with
no parts, what trivia there is comes together. -/
theorem IsLaidOut.exists_isRead (h : cu.IsLaidOut) :
    ∃ again, parseTree cu.print cu.path = .ok again ∧ cu.IsRead again := by
  by_cases hparts : cu.leads = []
  · obtain ⟨lead, package?, imports, classes, close, path⟩ := cu
    rw [leads, List.append_eq_nil_iff, List.append_eq_nil_iff,
      List.map_eq_nil_iff, List.map_eq_nil_iff, List.map_eq_nil_iff,
      Option.toList_eq_nil_iff] at hparts
    obtain ⟨⟨rfl, rfl⟩, rfl⟩ := hparts
    have hprint : print ⟨lead, none, [], [], close, path⟩ = lead ++ close := by
      simp [print, pieces, Piece.textAll, Piece.text]
    refine ⟨⟨"", none, [], [], lead ++ close, path⟩,
      parseTree_eq_ok_iff.2 ⟨[], ?_⟩, ?_⟩
    · exact ⟨.empty, separated_nil, h.close.append h.lead,
        List.forall_mem_nil _, by rw [hprint]; rfl⟩
    · exact ⟨rfl, rfl, rfl⟩
  · exact ⟨cu.untyped, h.parseTree_print hparts, rfl, rfl, rfl⟩

end CompilationUnit

end JavaRefit
