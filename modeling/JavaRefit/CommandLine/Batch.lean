/-
What a command does, as a function of the files it may read.

A run reads its options, then its class path, then looks for its recipe,
and then takes the files in order: reads, parses and edits each. The
first thing that goes wrong is the only one reported, and nothing is
written then. Otherwise every changed file is written, if asked for,
after all of them are done. The first that cannot be written ends the run,
and so does the first source that cannot be printed; what was written and
printed by then stays.

Chain: command line layer, after `Command`; `Main` reads and writes the
files.
-/
import JavaRefit.Attribution.Unit
import JavaRefit.ClassPath.Builtin
import JavaRefit.ClassPath.Stub
import JavaRefit.CommandLine.Command
import JavaRefit.CommandLine.Files
import JavaRefit.Json.Reader
import JavaRefit.Json.Writer

namespace JavaRefit.CommandLine

/-- Why a run comes to nothing: a failure to report, or something that no
report is made of. -/
inductive RunError where
  | failure (f : Failure)
  /-- An option that needs a value is given nothing. -/
  | nothingGiven (option : String)
  /-- A path that is not even looked for, or bytes that are no text. -/
  | unreportedPath (e : ReadError)
  | unreportedDocument (e : Json.Refusal)
  | unreportedStub (e : StubError)
  | unreportedSource (e : ParseError)

namespace RunError

/-- The wording. -/
def message : RunError → String
  | failure f => f.human
  | nothingGiven option => "--" ++ option ++ " is given nothing"
  | unreportedPath e => e.message ""
  | unreportedDocument e => e.message
  | unreportedStub e => e.message
  | unreportedSource e => e.message

/-- A stub document that declares no classes. -/
def ofStub (path : String) (e : StubError) : RunError :=
  match e.failure? (some path) with
  | some f => failure f
  | none => unreportedStub e

/-- A source that has no tree. -/
def ofParse (path : String) (e : ParseError) : RunError :=
  match e.failure? (some path) with
  | some f => failure f
  | none => unreportedSource e

/-- A file that cannot be read, where `what` it is for is told. -/
def ofRead (code what path : String) : ReadError → RunError
  | .zeroInPath => unreportedPath .zeroInPath
  | .undecodable reason => unreportedPath (.undecodable reason)
  | e =>
      failure ⟨code, "cannot read " ++ what ++ ": " ++ e.message path,
        some path, none⟩

/-- A file that holds no document. -/
def ofRefusal (code path : String) : Json.Refusal → RunError
  | .malformed =>
      failure ⟨code, Json.Refusal.malformed.message, some path, none⟩
  | e => unreportedDocument e

end RunError

-- ================================================================= inputs

/-- What an option is given, which has to be something. -/
def required (option : String) : Given → Except RunError String
  | some value => .ok value
  | none => .error (.nothingGiven option)

/-- The document in a file. -/
def readJson (files : Files) (code what path : String) :
    Except RunError Json := do
  let text ← (files.text path).mapError (RunError.ofRead code what path)
  (Json.parse text).mapError (RunError.ofRefusal code path)

/-- The rule options in a file; the default ones where no file is named. -/
def readOptions (files : Files) : Option Given → Except RunError RuleOptions
  | none => .ok .default
  | some given => do
    let path ← required "config" given
    let document ← readJson files "bad-config" "config" path
    (RuleOptions.ofJson document).mapError fun e =>
      .failure (e.failure (some path))

/-- The declarations in a stub file. -/
def readStub (files : Files) (path : String) :
    Except RunError (List ClassInfo) := do
  let document ← readJson files "bad-classpath" "stub file" path
  (Stub.classInfos document).mapError (RunError.ofStub path)

/-- The class path with the declarations of some stub files, the later before
the earlier. -/
def readClassPath (files : Files) (paths : List Given) :
    Except RunError ClassPath := do
  let infos ← paths.mapM fun given =>
      do readStub files (← required "classpath" given)
  return ClassPath.builtin.extend infos.flatten

-- ==================================================================== runs

/-- What a rule makes of one file. -/
def runFile (files : Files) (cp : ClassPath) (rule : CatchRule)
    (path : String) : Except RunError RecipeResult := do
  let source ← (files.text path).mapError
      (RunError.ofRead "io-error" "source" path)
  let cu ← (parseUnit source cp (some path)).mapError (RunError.ofParse path)
  return rule.run cp cu

/-- What a run makes of its files, in order. -/
def RunOptions.results (o : RunOptions) (files : Files) :
    Except RunError (List RecipeResult) := do
  let options ← readOptions files o.config
  let cp ← readClassPath files o.classPaths
  let name ← required "recipe" o.recipe
  let rule ← (Recipe.find name options cp []).1.mapError RunError.failure
  o.files.mapM (runFile files cp rule)

-- =============================================================== outcomes

/-- What a command does: its exit code, what it prints, and the files it
writes, in order. -/
structure Outcome where
  exitCode : Nat
  out : String
  err : String
  writes : List (String × String)
deriving DecidableEq, Repr

namespace Outcome

/-- Something to print and nothing else to do. -/
def printed (out : String) : Outcome := ⟨0, out, "", []⟩

/-- A failed run. -/
def failed (json : Bool) (f : Failure) : Outcome :=
  if json then
    ⟨1, (Json.obj [("ok", .bool false), ("error", f.toJson)]).render ++
      "\n", "", []⟩
  else ⟨1, "", f.human ++ "\n", []⟩

end Outcome

/-- The lines with what there is to remark on a file. -/
def remarkLines (r : RecipeResult) : String :=
  String.join (r.diagnostics.map fun d =>
    (r.after.path.getD "") ++ ": " ++ d.human ++ "\n")

/-- The report on a run. -/
def RunOptions.report (o : RunOptions) (results : List RecipeResult) : Json :=
  .obj [("ok", .bool true), ("recipe", .ofText? o.recipe),
    ("files", .arr (results.map RecipeResult.toJson))]

/-- The changed files with their new texts. -/
def RunOptions.writes (o : RunOptions) (results : List RecipeResult) :
    List (String × String) :=
  if o.write then
    ((o.files.zip results).filter fun p => p.2.isChanged).map fun p =>
      (p.1, p.2.source)
  else []

/-- What a run that came to its end does. -/
def RunOptions.finished (o : RunOptions)
    (results : List RecipeResult) : Outcome :=
  if o.json then ⟨0, (o.report results).render ++ "\n", "", o.writes results⟩
  else
    ⟨0, if o.write then "" else String.join (results.map RecipeResult.source),
      String.join (results.map remarkLines), o.writes results⟩

/-- The list of all recipes. -/
def recipeList (json : Bool) : String :=
  if json then
    (Json.obj [("recipes", .arr (Recipe.all.map RecipeInfo.toJson))]).render ++
      "\n"
  else String.join (Recipe.all.map fun r =>
    r.name ++ ": " ++ r.displayName ++ "\n")

/-- What a command does, as long as every text can be written and printed. -/
def Command.outcome (files : Files) : Command → Except RunError Outcome
  | .list json => .ok (.printed (recipeList json))
  | .run o =>
    match o.results files with
    | .ok results => .ok (o.finished results)
    | .error (.failure f) => .ok (.failed o.json f)
    | .error e => .error e

-- ================================================================ endings

/-- In which way a command ends. -/
inductive Status where
  | exit (code : Nat)
  /-- Something that no report is made of. -/
  | raised (e : RunError)
  /-- A text with a half of a character in it was to be written or printed. -/
  | unencodable

/-- The end of a command, with all that it has printed by then. -/
structure Ending where
  status : Status
  out : String
  err : String

/-- The end of a command that does what it has to do. -/
def Outcome.ending (o : Outcome) : Ending :=
  ⟨.exit o.exitCode, o.out, o.err⟩

/-- The results of which something is printed: all of them, but if sources
are printed only those in front of the first that cannot be. -/
def RunOptions.printable (o : RunOptions) (results : List RecipeResult) :
    List RecipeResult :=
  if o.json || o.write then results
  else results.takeWhile fun r => Text.isEncodable r.source

/-- How a run ends after its files were written, where one may not have
been. -/
def RunOptions.conclude (o : RunOptions) (results : List RecipeResult) :
    Option (String × WriteError) → Ending
  | some (path, .failed reason) =>
    let message := "cannot write source: " ++ reason
    (Outcome.failed o.json ⟨"io-error", message, some path, none⟩).ending
  | some (_, .unencodable) => ⟨.unencodable, "", ""⟩
  | none =>
    let printed := o.printable results
    let done := (o.finished printed).ending
    if printed.length = results.length then done
    else { done with status := .unencodable }

/-- What a command has still to do when it has read its files: to write
some, and then to end. -/
structure Plan where
  writes : List (String × String)
  ending : Option (String × WriteError) → Ending

/-- What a command plans for the files it has read. -/
def Command.plan (files : Files) : Command → Plan
  | .list json => ⟨[], fun _ => (Outcome.printed (recipeList json)).ending⟩
  | .run o =>
    match o.results files with
    | .ok results => ⟨o.writes results, o.conclude results⟩
    | .error (.failure f) => ⟨[], fun _ => (Outcome.failed o.json f).ending⟩
    | .error e => ⟨[], fun _ => ⟨.raised e, "", ""⟩⟩

/-- How a command ends, and the disk that it leaves. -/
def Command.perform (d : Disk) (c : Command) : Ending × Disk :=
  let plan := c.plan d.files
  let written := d.writeAll plan.writes
  (plan.ending written.2, written.1)

end JavaRefit.CommandLine
