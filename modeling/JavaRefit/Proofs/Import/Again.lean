/-
The same change of imports a second time.

A class that is brought is seen afterwards or its name is taken, and stays
so; what the classes refer to stays as well. So the second time no import
comes, and one goes only where a class was imported more than once
(`twice_eq_keep_iff`): one copy goes at a time.

Renaming classes leaves the imports alone, as they have no types.

Chain: after `Count`; the result about files that were read is at
the end.
-/
import JavaRefit.Proofs.CatchRule.Run
import JavaRefit.Proofs.Grammar.Plain
import JavaRefit.Proofs.Import.Count
import JavaRefit.Proofs.Rename.Place

namespace JavaRefit

-- ========================================================== sets of names

namespace NameSet

/-- A set of names has the names it is made of. -/
theorem mem_ofList {name : String} {names : List String} : name ∈ ofList names ↔
    name ∈ names := by
  induction names with
  | nil => rfl
  | cons n names ih =>
      show name ∈ insert n (ofList names) ↔ _
      rw [mem_insert, ih, List.mem_cons]

/-- A name is put in at its place. -/
theorem pairwise_insert {name : String} {s : NameSet} (h : s.Pairwise (· < ·)) :
    (insert name s).Pairwise (· < ·) := by
  induction s with
  | nil => exact List.pairwise_singleton _ _
  | cons n ns ih =>
      obtain ⟨hn, hns⟩ := List.pairwise_cons.1 h
      rw [insert]
      split_ifs with heq hlt
      · exact h
      · refine List.pairwise_cons.2
          ⟨List.forall_mem_cons.2 ⟨hlt, fun x hx => ?_⟩, h⟩
        exact String.lt_trans hlt (hn x hx)
      · have hgt : n < name := String.not_le.1 fun hle =>
          (String.le_antisymm hle (String.not_lt.1 hlt)) |> heq
        refine List.pairwise_cons.2 ⟨fun x hx => ?_, ih hns⟩
        rcases mem_insert.1 hx with rfl | hx
        · exact hgt
        · exact hn x hx

/-- A set has each name once. -/
theorem nodup_ofList (names : List String) : (ofList names).Nodup := by
  have h : (ofList names).Pairwise (· < ·) := by
    induction names with
    | nil => exact .nil
    | cons n names ih => exact pairwise_insert ih
  refine h.imp fun {a b} hlt heq => ?_
  exact String.lt_irrefl b (heq ▸ hlt)

end NameSet

-- ======================================================== edits in a row

namespace Edited

variable {ω α β : Type}

/-- The value after many steps is that of the steps without their notes. -/
theorem value_foldl_andThen (f : β → α → Edited ω α) (bs : List β)
    (e : Edited ω α) : (bs.foldl (fun e b => e.andThen (f b)) e).value =
      bs.foldl (fun a b => (f b a).value) e.value := by
  induction bs generalizing e with
  | nil => rfl
  | cons b bs ih => exact ih (e.andThen (f b))

/-- What is new stays new when it is edited on. -/
theorem isNew_foldl_andThen {f : β → α → Edited ω α} {bs : List β}
    {e : Edited ω α} (h : e.isNew = true) :
    (bs.foldl (fun e b => e.andThen (f b)) e).isNew = true := by
  induction bs generalizing e with
  | nil => exact h
  | cons b bs ih => exact ih (by rw [isNew_andThen, h, Bool.true_or])

/-- If each step keeps or is new, all of them together keep or are new. -/
theorem foldl_andThen_keeps_or_isNew {f : β → α → Edited ω α}
    (hf : ∀ b a, f b a = .keep a ∨ (f b a).isNew = true) (bs : List β) (a : α) :
    bs.foldl (fun (e : Edited ω α) b => e.andThen (f b)) (.keep a) = .keep a ∨
      (bs.foldl (fun (e : Edited ω α) b => e.andThen (f b)) (.keep a)).isNew =
        true := by
  induction bs with
  | nil => exact .inl rfl
  | cons b bs ih =>
      rw [List.foldl_cons, keep_andThen]
      rcases hf b a with h | h
      · rw [h]
        exact ih
      · exact .inr (isNew_foldl_andThen h)

/-- Edits in a row, each of which keeps a thing or makes a new one, keep a
thing just if each of them keeps it. -/
theorem foldl_andThen_eq_keep_iff {f : β → α → Edited ω α}
    (hf : ∀ b a, f b a = .keep a ∨ (f b a).isNew = true) (bs : List β) (a : α) :
    bs.foldl (fun (e : Edited ω α) b => e.andThen (f b)) (.keep a) = .keep a ↔
      ∀ b ∈ bs, f b a = .keep a := by
  induction bs with
  | nil => exact iff_of_true rfl nofun
  | cons b bs ih =>
      rw [List.foldl_cons, keep_andThen, List.forall_mem_cons]
      rcases hf b a with h | h
      · rw [h, ih]
        exact (and_iff_right rfl).symm
      · refine iff_of_false (fun heq => ?_) fun hall => by
          rw [hall.1] at h; cases h
        have hnew : (bs.foldl (fun (e : Edited ω α) b => e.andThen (f b))
            (f b a)).isNew = true :=
          isNew_foldl_andThen h
        rw [heq] at hnew
        cases hnew

end Edited

namespace CompilationUnit

variable {ω : Type} {cu : CompilationUnit}

-- ============================================================ all classes

/-- Imports are dropped one after the other. -/
theorem value_dropImports_cons (references removed : NameSet) (g : String) :
    (cu.dropImports references (g :: removed) :
      Edited ω CompilationUnit).value =
      (dropImports (ω := ω) (if references.contains g then cu
        else (cu.removeImport g : Edited ω CompilationUnit).value)
          references removed).value := by
  rw [dropImports, dropImports, Edited.value_foldl_andThen,
    Edited.value_foldl_andThen, List.foldl_cons]
  split <;> rfl

/-- Imports are brought one after the other. -/
theorem value_bringImports_cons (references added : NameSet) (g : String) :
    (cu.bringImports references (g :: added) : Edited ω CompilationUnit).value =
      (bringImports (ω :=
        ω) (bringImport references g cu : Edited ω CompilationUnit).value
        references added).value := by
  rw [bringImports, bringImports, Edited.value_foldl_andThen,
    Edited.value_foldl_andThen]
  rfl

/-- Of the imports of each class that is dropped one goes, where there is
one. -/
theorem countImports_dropImports {references removed : NameSet}
    (hnodup : removed.Nodup) (cu : CompilationUnit) {fqn : String}
    (hfqn : fqn ∉ references) :
    (cu.dropImports references removed :
      Edited ω CompilationUnit).value.countImports
        (Import.isOf fqn) =
      cu.countImports (Import.isOf fqn) - if fqn ∈ removed then 1 else 0 := by
  induction removed generalizing cu with
  | nil => rfl
  | cons g removed ih =>
      obtain ⟨hg, hnodup⟩ := List.nodup_cons.1 hnodup
      rw [value_dropImports_cons, ih hnodup]
      by_cases heq : fqn = g
      · subst heq
        simp [hfqn, hg, countImports_removeImport]
      · split <;> simp [heq, countImports_removeImport]

/-- A file without the import is kept as it is. -/
theorem dropImport_keeps_or_isNew (references : NameSet) (fqn : String)
    (cu : CompilationUnit) :
    (if references.contains fqn then .keep cu else cu.removeImport fqn :
      Edited ω CompilationUnit) =
        .keep cu ∨
      (if references.contains fqn then .keep cu else cu.removeImport fqn :
        Edited ω CompilationUnit).isNew = true := by
  split
  · exact .inl rfl
  · exact cu.removeImport_keeps_or_isNew fqn

/-- Nothing is dropped iff no name that may go is imported. -/
theorem dropImports_eq_keep_iff {references removed : NameSet} :
    (cu.dropImports references removed : Edited ω CompilationUnit) = .keep cu ↔
      ∀ fqn ∈ removed, fqn ∉ references →
      cu.countImports (Import.isOf fqn) = 0 := by
  rw [dropImports,
    Edited.foldl_andThen_eq_keep_iff (dropImport_keeps_or_isNew references)]
  refine forall₂_congr fun fqn _ => ?_
  by_cases hfqn : fqn ∈ references
  · simp [hfqn]
  · simp [hfqn, removeImport_eq_keep_iff]

/-- Nothing is brought iff every name asked for needs no import. -/
theorem bringImports_eq_keep_iff {references added : NameSet} :
    (cu.bringImports references added : Edited ω CompilationUnit) = .keep cu ↔
      ∀ fqn ∈ added, fqn ∈ references → cu.needsNoImport fqn := by
  rw [bringImports,
    Edited.foldl_andThen_eq_keep_iff (bringImport_keeps_or_isNew references)]
  exact forall₂_congr fun fqn _ => bringImport_eq_keep_iff

/-- What holds of a file and of each with an import more that is referred to
holds when imports have been brought. -/
theorem bringImports_induction {P : CompilationUnit → Prop}
    {references added : NameSet} (hadd : ∀ cu, ∀ fqn ∈ added, fqn ∈ references →
      P cu → P (cu.addImport fqn)) (h : P cu) :
    P (cu.bringImports references added : Edited ω CompilationUnit).value := by
  induction added generalizing cu with
  | nil => exact h
  | cons fqn added ih =>
      rw [value_bringImports_cons]
      refine ih (fun cu g hg => hadd cu g (List.mem_cons_of_mem fqn hg)) ?_
      unfold bringImport
      split
      · next hneeds =>
        simp only [Bool.and_eq_true, List.contains_iff_mem] at hneeds
        exact hadd cu fqn List.mem_cons_self hneeds.1.1 h
      · exact h

/-- What has been brought needs no import. -/
theorem needsNoImport_bringImport {references : NameSet} {fqn : String}
    (h : fqn ∈ references) (cu : CompilationUnit) :
    (bringImport references fqn cu :
      Edited ω CompilationUnit).value.needsNoImport fqn := by
  by_cases hneeds : cu.needsNoImport fqn
  · rw [bringImport_eq_keep_iff.2 fun _ => hneeds]
    exact hneeds
  · rw [needsNoImport, not_or, Bool.not_eq_true, Bool.not_eq_true] at hneeds
    have hbrought : (bringImport references fqn cu : Edited ω CompilationUnit) =
        .replace (cu.addImport fqn) := by
      simp [bringImport, h, hneeds]
    rw [hbrought]
    exact needsNoImport_addImport_self cu fqn

/-- Once imports have been brought, each class that asked for one needs none. -/
theorem needsNoImport_bringImports {references added : NameSet}
    (cu : CompilationUnit) : ∀ fqn ∈ added, fqn ∈ references →
      (cu.bringImports references added :
        Edited ω CompilationUnit).value.needsNoImport fqn := by
  induction added generalizing cu with
  | nil => nofun
  | cons g added ih =>
      rw [value_bringImports_cons, List.forall_mem_cons]
      refine ⟨fun hg => ?_, ih _⟩
      exact bringImports_induction (P := (needsNoImport · g))
        (fun cu fqn _ _ h => h.addImport fqn)
        (needsNoImport_bringImport hg cu)

-- ============================================================= the change

/-- A delta keeps a file iff nothing is left to drop or to bring. -/
theorem applyDelta_eq_keep_iff {d : ImportDelta} :
    (cu.applyDelta d : Edited ω CompilationUnit) = .keep cu ↔
      (∀ fqn ∈ d.removed, fqn ∉ cu.simpleReferences →
        cu.countImports (Import.isOf fqn) = 0) ∧
        ∀ fqn ∈ d.added, fqn ∈ cu.simpleReferences → cu.needsNoImport fqn := by
  rw [← dropImports_eq_keep_iff (ω := ω),
    ← bringImports_eq_keep_iff (ω := ω), applyDelta]
  constructor
  · intro h
    rcases Edited.foldl_andThen_keeps_or_isNew (ω := ω)
      (dropImport_keeps_or_isNew cu.simpleReferences)
      d.removed cu with hdrop | hdrop
    · refine ⟨hdrop, ?_⟩
      rw [dropImports, hdrop] at h
      exact h
    · have hnew := congrArg Edited.isNew h
      rw [Edited.isNew_andThen, dropImports, hdrop] at hnew
      cases hnew
  · rintro ⟨hdrop, hbring⟩
    rw [hdrop, Edited.keep_andThen, hbring]

/-- A change leaves a class it drops with one import less, where it has one. -/
theorem countImports_applyDelta {d : ImportDelta} (hnodup : d.removed.Nodup)
    (cu : CompilationUnit) {fqn : String} (hfqn : fqn ∉ cu.simpleReferences) :
    (cu.applyDelta d : Edited ω CompilationUnit).value.countImports
      (Import.isOf fqn) =
      cu.countImports (Import.isOf fqn) - if fqn ∈ d.removed then 1 else 0 := by
  rw [applyDelta, Edited.value_andThen]
  refine bringImports_induction (P :=
    fun cu' => cu'.countImports (Import.isOf fqn) = _)
    (fun cu' g _ hg h => ?_) (countImports_dropImports hnodup cu hfqn)
  have hne : g ≠ fqn := fun h => hfqn (h ▸ hg)
  rw [countImports_addImport (Import.isOf_blank fqn),
    Import.isOf_ofClass_of_ne hne]
  exact h

/-- A change does nothing the second time just if no class it drops was
imported more than once. -/
theorem twice_eq_keep_iff {d : ImportDelta} (hnodup : d.removed.Nodup)
    {once : CompilationUnit}
    (honce : once = (cu.applyDelta d : Edited ω CompilationUnit).value) :
    (once.applyDelta d : Edited ω CompilationUnit) = .keep once ↔
      ∀ fqn ∈ d.removed, fqn ∉ cu.simpleReferences →
      cu.countImports (Import.isOf fqn) ≤ 1 := by
  have hreferences : once.simpleReferences = cu.simpleReferences := by
    rw [honce, simpleReferences_applyDelta]
  have hadded : ∀ fqn ∈ d.added, fqn ∈ cu.simpleReferences →
      once.needsNoImport fqn := by
    rw [honce, applyDelta]
    exact needsNoImport_bringImports _
  rw [applyDelta_eq_keep_iff, hreferences, and_iff_left hadded]
  refine forall₂_congr fun fqn hfqn => forall_congr' fun hunused => ?_
  rw [honce, countImports_applyDelta hnodup cu hunused, if_pos hfqn,
    Nat.sub_eq_zero_iff_le]

-- ====================================================== no bare imports

/-- A file is packaged iff no import is of one word. -/
theorem isPackaged_iff : cu.IsPackaged ↔ cu.countImports Import.isBare = 0 := by
  rw [IsPackaged, countImports, List.countP_eq_zero]
  exact forall₂_congr fun p _ => iff_of_eq (Bool.not_eq_true _).symm

/-- An import that is no star leaves a packaged file packaged. -/
theorem IsPackaged.addImport (h : cu.IsPackaged) {fqn : String}
    (hfqn : fqn ≠ "*") : (cu.addImport fqn).IsPackaged := by
  rw [isPackaged_iff] at h ⊢
  rw [countImports_addImport Import.isBare_blank, h, Import.isBare_ofClass hfqn]
  rfl

/-- So does an import that is brought where it is needed. -/
theorem IsPackaged.bringImport (h : cu.IsPackaged) {references : NameSet}
    {fqn : String} (hfqn : fqn = "*" → fqn ∉ references) :
    (CompilationUnit.bringImport references fqn cu :
      Edited ω CompilationUnit).value.IsPackaged := by
  unfold CompilationUnit.bringImport
  split
  · next hneeds =>
    simp only [Bool.and_eq_true, List.contains_iff_mem] at hneeds
    exact h.addImport fun hstar => hfqn hstar hneeds.1.1
  · exact h

/-- Where no class `*` is brought, no bare import is asked for its package, and
none is there afterwards. -/
theorem IsPackaged.bringImports (h : cu.IsPackaged) {references added : NameSet}
    (hstar : "*" ∈ added → "*" ∉ references) :
    bringsInVain references added cu = false ∧
      (cu.bringImports references added :
        Edited ω CompilationUnit).value.IsPackaged := by
  induction added generalizing cu with
  | nil => exact ⟨rfl, h⟩
  | cons fqn added ih =>
      have hfirst : fqn = "*" → fqn ∉ references := fun heq => by
        rw [heq] at hstar ⊢
        exact hstar List.mem_cons_self
      have hrest : "*" ∈ added → "*" ∉ references := fun hmem =>
        hstar (List.mem_cons_of_mem fqn hmem)
      rw [bringsInVain, h.asksInVain, Bool.and_false, Bool.false_or,
        value_bringImports_cons]
      exact ⟨(ih (h.bringImport hfirst) hrest).1,
        (ih (h.bringImport hfirst) hrest).2⟩

/-- Where no class `*` is brought to a file without a bare import, the change
can be applied, and leaves no bare import. -/
theorem IsPackaged.applyDelta? (h : cu.IsPackaged) {d : ImportDelta}
    (hstar : "*" ∈ d.added → "*" ∉ cu.simpleReferences) :
    cu.applyDelta? d = .ok (cu.applyDelta d : Edited ω CompilationUnit) ∧
      (cu.applyDelta d : Edited ω CompilationUnit).value.IsPackaged := by
  obtain ⟨hvain, -⟩ :=
    (h.dropImports (ω := Empty) d.removed).bringImports (ω := ω) hstar
  refine ⟨by rw [CompilationUnit.applyDelta?, if_neg (by
    rw [hvain]; exact Bool.false_ne_true)], ?_⟩
  rw [applyDelta, Edited.value_andThen]
  exact ((h.dropImports d.removed).bringImports hstar).2

/-- What a delta that succeeds does is the plain one. -/
theorem applyDelta?_eq_ok {d : ImportDelta} {e : Edited ω CompilationUnit}
    (h : cu.applyDelta? d = .ok e) : e = cu.applyDelta d := by
  unfold applyDelta? at h
  dsimp only at h
  split at h
  · cases h
  · exact (Except.ok.inj h).symm

end CompilationUnit

-- ======================================================= renamed files

namespace CompilationUnit

/-- The file after some renamings, one after the other. -/
def renamedBy (cu : CompilationUnit) (rs : List Renaming) : CompilationUnit :=
  rs.foldl (fun cu r => (cu.edit (r.editor : Editor Empty)).value) cu

/-- Renaming a class leaves the imports alone. -/
theorem imports_edit_renaming {cu : CompilationUnit}
    (h : ∀ p ∈ cu.imports, p.element.name.untyped = p.element.name)
    (r : Renaming) :
    (cu.edit (r.editor : Editor Empty)).value.imports = cu.imports := by
  have hall : (Import.editAll (r.editor : Editor Empty) cu.imports).value =
      cu.imports.map fun p => ⟨⟨p.element.lead, p.element.static?,
        (p.element.name.edit (r.editor : Editor Empty)).value⟩, p.after⟩ :=
    value_eq_map rfl (fun _ _ => rfl) cu.imports
  refine hall.trans ((List.map_congr_left fun p hp => ?_).trans (List.map_id _))
  rw [Name.edit_of_untyped r (h p hp)]
  rfl

/-- Imports have no types, and stay what they are when classes are renamed. -/
theorem imports_renamedBy {cu : CompilationUnit}
    (h : ∀ p ∈ cu.imports, p.element.name.untyped = p.element.name)
    (rs : List Renaming) :
    (cu.renamedBy rs).imports = cu.imports := by
  induction rs generalizing cu with
  | nil => rfl
  | cons r rs ih =>
      have hr := imports_edit_renaming h r
      exact (ih (by rwa [hr])).trans hr

/-- The imports of a file that is read carry no types. -/
theorem imports_of_parseUnit {source : String} {cp : ClassPath}
    {path : Option String} {cu : CompilationUnit}
    (h : parseUnit source cp path = .ok cu) :
    (∀ p ∈ cu.imports, p.element.name.untyped = p.element.name) ∧
    cu.IsPackaged := by
  unfold parseUnit at h
  cases hread : parseTree source path with
  | error e => rw [hread] at h; cases h
  | ok plain =>
      rw [hread] at h
      cases h
      refine ⟨fun p hp => ?_,
        (isPackaged_of_parseTree hread : plain.IsPackaged)⟩
      obtain ⟨ts, hspells⟩ := parseTree_eq_ok_iff.1 hread
      have himports : plain.untyped.imports = plain.imports.map id := by
        rw [keeps_unit hspells.spells, List.map_id]
      rw [plain.untyped_eq] at himports
      exact congrArg (fun p : RightPadded Import => p.element.name)
        (List.map_inj_left.1 himports p hp)

/-- A change of imports is made twice, in a file that was read and in which
classes were renamed. As long as no class `*` is brought, it can be made both
times. Where it can, the second time nothing is changed just if each class that
may go and is not referred to is imported once at most. -/
theorem applyDelta?_twice {source : String} {cp : ClassPath}
    {path : Option String} {cu : CompilationUnit}
    (h : parseUnit source cp path = .ok cu) (rs : List Renaming)
    (added removed : List String) :
    (("*" ∈ added → "*" ∉ (cu.renamedBy rs).simpleReferences) →
      ∃ once twice : Edited Empty CompilationUnit,
        (cu.renamedBy rs).applyDelta? (.of added removed) = .ok once ∧
          once.value.applyDelta? (.of added removed) = .ok twice) ∧
      ∀ once twice : Edited Empty CompilationUnit,
        (cu.renamedBy rs).applyDelta? (.of added removed) = .ok once →
          once.value.applyDelta? (.of added removed) = .ok twice →
            (twice = .keep once.value ↔
              ∀ fqn ∈ removed, fqn ∉ (cu.renamedBy rs).simpleReferences →
                ((cu.renamedBy rs).imports.countP fun p => p.element.isOf fqn) ≤
                  1) := by
  obtain ⟨huntyped, hpackaged⟩ := imports_of_parseUnit h
  have hpackaged : (cu.renamedBy rs).IsPackaged := by
    rwa [IsPackaged, imports_renamedBy huntyped]
  constructor
  · intro hstar
    have hstar : "*" ∈ (ImportDelta.of added removed).added →
        "*" ∉ (cu.renamedBy rs).simpleReferences :=
          fun h => hstar (NameSet.mem_ofList.1 h)
    obtain ⟨honce, hagain⟩ := hpackaged.applyDelta? (ω := Empty) hstar
    have hstar' : "*" ∈ (ImportDelta.of added removed).added →
        "*" ∉ ((cu.renamedBy rs).applyDelta (.of added removed) :
          Edited Empty CompilationUnit).value.simpleReferences := by
      rwa [simpleReferences_applyDelta]
    exact ⟨_, _, honce, (hagain.applyDelta? hstar').1⟩
  · intro once twice honce htwice
    obtain rfl := applyDelta?_eq_ok honce
    obtain rfl := applyDelta?_eq_ok htwice
    have hmem (fqn : String) : fqn ∈ (ImportDelta.of added removed).removed ↔
        fqn ∈ removed :=
      NameSet.mem_ofList
    rw [twice_eq_keep_iff (NameSet.nodup_ofList removed) rfl]
    simp only [hmem]
    exact Iff.rfl

/-- A class that is imported and referred to. -/
def sampleImporting : String :=
  "import p.Api;import p.Old;class A\x7bApi a;Old o;\x7d"

/-- Once the class is renamed its import goes and another one comes, and no
more the second time. -/
theorem applyDelta?_twice_sample :
    ∃ cu, ∃ once twice : Edited Empty CompilationUnit,
      parseUnit sampleImporting sampleClassPath none = .ok cu ∧
        "*" ∉ (cu.renamedBy [sampleRenaming]).simpleReferences ∧
        (cu.renamedBy [sampleRenaming]).applyDelta?
          (.of ["p.New"] ["p.Old"]) = .ok once ∧
        once.value.applyDelta? (.of ["p.New"] ["p.Old"]) = .ok twice ∧
        twice = .keep once.value := by
  have hok : (parseUnit sampleImporting sampleClassPath none).isOk = true := by
    decide +kernel
  obtain ⟨cu, hcu⟩ := exists_of_isOk hok
  have hunit : sampleUnit sampleImporting = cu := by rw [sampleUnit, hcu]
  have hfacts : "*" ∉ ((sampleUnit sampleImporting).renamedBy
      [sampleRenaming]).simpleReferences ∧ ∀ fqn ∈ ["p.Old"],
        (((sampleUnit sampleImporting).renamedBy
          [sampleRenaming]).imports.countP
          fun p => p.element.isOf fqn) ≤ 1 := by
    decide +kernel
  rw [hunit] at hfacts
  obtain ⟨hstar, hcount⟩ := hfacts
  obtain ⟨hruns, hiff⟩ :=
    applyDelta?_twice hcu [sampleRenaming] ["p.New"] ["p.Old"]
  obtain ⟨once, twice, honce, htwice⟩ := hruns fun _ => hstar
  exact ⟨cu, once, twice, hcu, hstar, honce, htwice,
    (hiff once twice honce htwice).2 fun fqn hfqn _ => hcount fqn hfqn⟩

/-- A class that is imported twice and not referred to. -/
def sampleImportedTwice : String :=
  "import p.Old;import p.Old;class A\x7b\x7d"

/-- One of the imports goes the first time, the other one the second time. -/
theorem applyDelta?_twice_sample_ne :
    ∃ cu, ∃ once twice : Edited Empty CompilationUnit,
      parseUnit sampleImportedTwice sampleClassPath none = .ok cu ∧
        cu.applyDelta? (.of [] ["p.Old"]) = .ok once ∧
        once.value.applyDelta? (.of [] ["p.Old"]) = .ok twice ∧
        once.value.print = "import p.Old;class A\x7b\x7d" ∧
        twice.value.print = "class A\x7b\x7d" ∧ twice ≠ .keep once.value := by
  have hok : (parseUnit sampleImportedTwice sampleClassPath none).isOk =
      true := by decide +kernel
  obtain ⟨cu, hcu⟩ := exists_of_isOk hok
  have hunit : sampleUnit sampleImportedTwice = cu := by rw [sampleUnit, hcu]
  have hpackaged := (imports_of_parseUnit hcu).2
  obtain ⟨honce, hagain⟩ :=
    hpackaged.applyDelta? (ω := Empty) (d := .of [] ["p.Old"]) nofun
  obtain ⟨htwice, -⟩ :=
    hagain.applyDelta? (ω := Empty) (d := .of [] ["p.Old"]) nofun
  have hprints :
      ((sampleUnit sampleImportedTwice).applyDelta (.of [] ["p.Old"]) :
          Edited Empty CompilationUnit).value.print =
            "import p.Old;class A\x7b\x7d" ∧
        (((sampleUnit sampleImportedTwice).applyDelta (.of [] ["p.Old"]) :
          Edited Empty CompilationUnit).value.applyDelta (.of [] ["p.Old"]) :
            Edited Empty CompilationUnit).value.print = "class A\x7b\x7d" := by
    decide +kernel
  rw [hunit] at hprints
  refine ⟨cu, _, _, hcu, honce, htwice, hprints.1, hprints.2, fun hkeep => ?_⟩
  have hprint := hprints.2
  rw [hkeep, Edited.value_keep, hprints.1] at hprint
  exact absurd hprint (by decide)

end CompilationUnit

end JavaRefit
