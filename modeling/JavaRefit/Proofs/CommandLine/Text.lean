/-
Line ends in the files of a run.

A file is read with its line ends made line feeds, and what is made of
that is printed or written as it is. So a run gives a text back character
by character from there on: one that is not changed is printed as it was
read, and one that is changed is what it was but for what the rule edits
(`text_run`). What was read is the text of the file just where that has
no carriage return (`unified_eq_self_iff`); the sample has one, and loses
it (`text_run_sample_ne`).

Chain: after `Batch` and the text that a run of the rule leaves; nothing
reads it.
-/
import JavaRefit.Proofs.CatchRule.Remainder
import JavaRefit.Proofs.CommandLine.Batch
import JavaRefit.Proofs.CommandLine.Directory

namespace JavaRefit

namespace Text

theorem cons_unifyLineEnds {c : Char} (h : c ≠ '\r') (cs : List Char) :
    unifyLineEnds (c :: cs) = c :: unifyLineEnds cs := by
  rw [unifyLineEnds.eq_3 _ _ (fun _ hc _ => h hc), if_neg h]

theorem not_mem_unifyLineEnds (cs : List Char) : '\r' ∉ unifyLineEnds cs := by
  fun_induction unifyLineEnds cs with
  | case1 => exact List.not_mem_nil
  | case2 cs ih => exact fun h => (List.mem_cons.1 h).elim nofun ih
  | case3 c cs _ ih =>
      refine fun h => (List.mem_cons.1 h).elim (fun heq => ?_) ih
      split at heq
      · cases heq
      next hne => exact hne heq.symm

theorem unifyLineEnds_eq_self_iff {cs : List Char} : unifyLineEnds cs = cs ↔
    '\r' ∉ cs := by
  constructor
  · intro h
    rw [← h]
    exact not_mem_unifyLineEnds cs
  · intro h
    induction cs with
    | nil => rfl
    | cons c cs ih =>
        have hne : c ≠ '\r' := fun heq => h (heq ▸ List.mem_cons_self)
        rw [cons_unifyLineEnds hne,
          ih fun hcs => h (List.mem_cons_of_mem c hcs)]

/-- The text as it is read from a file. -/
def unified (s : String) : String :=
  String.ofList (unifyLineEnds s.toList)

/-- A text is read as it is just where it has no carriage return. -/
theorem unified_eq_self_iff {s : String} : unified s = s ↔ '\r' ∉ s.toList := by
  rw [← unifyLineEnds_eq_self_iff, unified]
  constructor
  · intro h
    rw [← String.toList_ofList (l := unifyLineEnds s.toList), h]
  · intro h
    rw [h, String.ofList_toList]

end Text

namespace CommandLine

/-- The folder after a command. -/
def Folder.after (f : Folder) (c : Command) : Folder :=
  match c.outcome f.files with
  | .ok outcome => f.writeAll outcome.writes
  | .error _ => f

variable {f : Folder} {o : RunOptions} {path content : String}

/-- After a run on one file the file holds the new text, if files are
written and the text was changed. -/
theorem files_after {r : RecipeResult} (hfiles : o.files = [path])
    (hresults : o.results f.files = .ok [r])
    (hcontent : f.files path = .ok content) :
    (f.after (.run o)).files path =
      .ok (if o.write && r.isChanged then r.source else content) := by
  rw [Folder.after, outcome_of_results hresults]
  show (f.writeAll (o.finished [r]).writes).files path = _
  have hwrites : o.writes [r] = o.writeOf (path, r) := by
    rw [RunOptions.writes_eq, hfiles]
    exact List.flatMap_singleton _ _
  rw [writes_finished, hwrites, RunOptions.writeOf]
  split
  · exact Folder.files_write hcontent
  · exact hcontent

/-- What a run on one file does to the text of that file, of which the tree is
`cu`. -/
structure RunOptions.Does (o : RunOptions) (f : Folder) (path content : String)
    (cp : ClassPath) (rule : CatchRule) (cu : CompilationUnit) : Prop where
  read : parseUnit (Text.unified content) cp (some path) = .ok cu
  printed : o.json = false → o.write = false →
    ∃ err, (Command.run o).outcome f.files =
      .ok ⟨0, (rule.run cp cu).source, err, []⟩
  written : o.write = true → (f.after (.run o)).files path =
    .ok (if (rule.run cp cu).isChanged then (rule.run cp cu).source
      else content)
  unchanged : (rule.run cp cu).isChanged = false →
    (rule.run cp cu).source = Text.unified content
  /-- So a text with nothing to change is given back just where it has no
  carriage return. -/
  givenBack : (rule.run cp cu).isChanged = false →
    ((rule.run cp cu).source = content ↔ '\r' ∉ content.toList)
  /-- The text that is read, as the text of its tree. -/
  before : Text.unified content = cu.textWith cu.imports id declarations
  /-- The text that comes of it has no other than the edited places. -/
  after : ∃ imports lead shown, (cu.package? ≠ none → lead = id) ∧
    (∀ t c, rule.rewrites (rule.mustQualify cp cu) t c = false →
      shown t c = c.declaration.pieces) ∧
    (rule.run cp cu).source = cu.textWith imports lead shown

/-- A run on one file, all of whose inputs are in order, reads the text of the
file with its line ends made line feeds and changes nothing else of it than
what the rule edits. -/
theorem text_run (hfiles : o.files = [path])
    (hcontent : f.files path = .ok content)
    (hinputs : ∀ i ∈ o.inputs, i.fault? f.files = none) :
    ∃ cp rule cu, o.setup f.files = .ok (cp, rule) ∧
    o.Does f path content cp rule cu := by
  obtain ⟨cp, rule, results, hsetup, hresults, hfiles'⟩ :=
    exists_results hinputs
  rw [hfiles] at hfiles'
  obtain ⟨r, hrun, rfl⟩ : ∃ r, runFile f.files cp rule path = .ok r ∧
      results = [r] := by
    cases hfiles' with
    | cons hrun hnil =>
        cases hnil
        exact ⟨_, hrun, rfl⟩
  obtain ⟨source, hsource, cu, hcu, rfl⟩ := runFile_eq_ok.1 hrun
  have hunified : source = Text.unified content := by
    rw [Files.text, hcontent] at hsource
    exact (Except.ok.inj hsource).symm
  subst hunified
  have hprint : cu.print = Text.unified content := print_parseUnit hcu
  have hunchanged (h : (rule.run cp cu).isChanged = false) :
      (rule.run cp cu).source = Text.unified content := by
    rw [RecipeResult.source, CatchRule.after_run_of_not_isChanged h, hprint]
  refine ⟨cp, rule, cu, hsetup, ?_⟩
  constructor
  · exact hcu
  · intro hjson hwrite
    refine ⟨remarkLines (rule.run cp cu), ?_⟩
    rw [outcome_of_results hresults, o.finished_of_not_json _ hjson,
      RunOptions.writes, hwrite]
    simp only [List.map_cons, List.map_nil, String.join_cons, String.join_nil,
      String.append_empty]
    rfl
  · intro hwrite
    rw [files_after hfiles hresults hcontent, hwrite, Bool.true_and]
  · exact hunchanged
  · intro hchanged
    rw [hunchanged hchanged, Text.unified_eq_self_iff]
  · rw [← hprint, CompilationUnit.print_eq_textWith]
  · exact rule.exists_source_eq_textWith cp cu

/-- A text to be changed, with the line ends of other systems. -/
def sampleReturns : String :=
  "import java.io.*;\r\nimport com.fasterxml.jackson.databind.*;\rclass A\x7bObjectMapper m;" ++
    "void f()\x7btry\x7bm.readTree(\"\");\x7dcatch(IOException e)\x7b\x7d\x7d\x7d"

/-- A folder with a file of that text. -/
def sampleCarriage : Folder :=
  [("A.java", sampleReturns)]

set_option maxRecDepth 4000 in
/-- The sample can be parsed when its line ends are line feeds. -/
theorem parseTree_sampleReturns :
    (parseTree (Text.unified sampleReturns) (some "A.java")).isOk = true := by
  have hunified (as bs : List Char) :
      Text.unified (String.ofList as ++ String.ofList bs) =
      String.ofList (Text.unifyLineEnds (as ++ bs)) := by
    rw [Text.unified, String.toList_append, String.toList_ofList,
      String.toList_ofList]
  have hchars : Text.unified sampleReturns = _ := hunified _ _
  rw [hchars]
  unfold parseTree
  rw [Token.scan, String.toList_ofList]
  decide +kernel

/-- The sample is read with line feeds, and changed. -/
theorem text_run_sample :
    ∃ content cp rule cu, (sampleRun ["A.java"]).files = ["A.java"] ∧
      sampleCarriage.files "A.java" = .ok content ∧
      (∀ i ∈ (sampleRun ["A.java"]).inputs,
        i.fault? sampleCarriage.files = none) ∧
      (sampleRun ["A.java"]).setup sampleCarriage.files = .ok (cp, rule) ∧
      (sampleRun ["A.java"]).Does sampleCarriage "A.java" content cp
        rule cu := by
  have hcontent : sampleCarriage.files "A.java" = .ok sampleReturns := rfl
  have htext : sampleCarriage.files.text "A.java" =
      .ok (Text.unified sampleReturns) := by
    rw [Files.text, hcontent]
    rfl
  have hsource := Input.fault?_source htext parseTree_sampleReturns
  have hinputs : ∀ i ∈ (sampleRun ["A.java"]).inputs,
      i.fault? sampleCarriage.files = none :=
    List.forall_mem_cons.2 ⟨by decide +kernel,
      List.forall_mem_singleton.2 hsource⟩
  obtain ⟨cp, rule, cu, hsetup, hdoes⟩ := text_run rfl hcontent hinputs
  exact ⟨_, cp, rule, cu, rfl, hcontent, hinputs, hsetup, hdoes⟩

/-- A file with nothing to change, with the line ends of other systems. -/
def sampleUntouched : Folder :=
  [("A.java", "class A\r\n\x7b\x7d\r")]

/-- It is not printed as it is, although nothing is to be changed. -/
theorem text_run_sample_ne :
    ((Command.run ⟨["A.java"], some Recipe.retargetCatches.name, none, [],
      false, false⟩).outcome
        sampleUntouched.files).toOption =
          some ⟨0, "class A\n\x7b\x7d\n", "", []⟩ ∧
      (sampleUntouched.files "A.java").toOption =
        some "class A\r\n\x7b\x7d\r" := by
  decide +kernel

end CommandLine

end JavaRefit
