/-
What can be wrong with what a run is given.

A run is given an options file, stub files, a recipe and sources, and
takes them in this order. Each is right or wrong by itself, whatever the
others are: the options and the class path play no part in whether a
source is read. So the fault that is reported is that of the first input
that has one (`results_eq_error_iff`).

Chain: after `Batch`; read by the proofs about whole commands.
-/
import JavaRefit.CommandLine.Batch
import JavaRefit.Proofs.CatchRule.Spec

namespace JavaRefit.CommandLine

/-- What a computation that came to nothing came upon. -/
def faultOf {ε α : Type} : Except ε α → Option ε
  | .error e => some e
  | .ok _ => none

-- =============================================================== the inputs

/-- One thing that a run is given. -/
inductive Input where
  | config (given : Given)
  | stub (given : Given)
  | recipe (name : Given)
  | source (path : String)

/-- What a run is given besides its sources, in the order in which it is
taken. -/
def RunOptions.setupInputs (o : RunOptions) : List Input :=
  o.config.toList.map .config ++ o.classPaths.map .stub ++ [.recipe o.recipe]

/-- What a run is given, in the order in which it is taken. -/
def RunOptions.inputs (o : RunOptions) : List Input :=
  o.setupInputs ++ o.files.map .source

namespace Input

/-- What is wrong with an input by itself. -/
def fault? (files : Files) : Input → Option RunError
  | config given => faultOf (readOptions files (some given))
  | stub given => faultOf (required "classpath" given >>= readStub files)
  | recipe given => faultOf do
    let name ← required "recipe" given
    if name = Recipe.retargetCatches.name then .ok ()
      else .error (.failure (Recipe.unknown name))
  | source path => faultOf do
    let text ← (files.text path).mapError
        (RunError.ofRead "io-error" "source" path)
    (parseTree text (some path)).mapError (RunError.ofParse path)

end Input

-- =============================================================== the faults

section
variable {ε α β : Type}

@[simp] theorem faultOf_error (e : ε) :
    faultOf (.error e : Except ε α) = some e := rfl

@[simp] theorem faultOf_ok (a : α) : faultOf (.ok a : Except ε α) = none := rfl

/-- There is no fault iff there is a value. -/
theorem faultOf_eq_none_iff {x : Except ε α} : faultOf x = none ↔ ∃ a,
    x = .ok a := by
  cases x <;> simp [faultOf]

/-- A function on the value is no matter of the fault. -/
theorem faultOf_map (f : α → β) (x : Except ε α) :
    faultOf (f <$> x) = faultOf x := by
  cases x <;> rfl

/-- A computation in two parts comes upon what the first part does, else upon
what the second does; the latter may be known although the value of the first
is not. -/
theorem faultOf_bind {x : Except ε α} {f : α → Except ε β} {fault? : Option ε}
    (h : ∀ a, faultOf (f a) = fault?) :
    faultOf (x >>= f) = (faultOf x).or fault? := by
  cases x with
  | error e => rfl
  | ok a => exact h a

/-- Computations one after the other come upon what the first of them does that
comes to nothing. -/
theorem faultOf_mapM (f : α → Except ε β) (as : List α) :
    faultOf (as.mapM f) = as.findSome? fun a => faultOf (f a) := by
  induction as with
  | nil => rfl
  | cons a as ih =>
      have htail (b : β) : faultOf (do return b :: (← as.mapM f)) =
          as.findSome? fun a => faultOf (f a) := by
        rw [← ih]
        exact faultOf_map _ _
      rw [List.mapM_cons, faultOf_bind htail, List.findSome?_cons]
      cases faultOf (f a) <;> rfl

end

-- =============================================================== the blame

section
variable {ε α β : Type} {sort : Failure → Prop}

end

namespace RunError

variable {code what path : String} {g : Failure}

end RunError

/-- Nothing is wrong with a file that can be parsed. -/
theorem Input.fault?_source {files : Files} {path text : String}
    (h : files.text path = .ok text)
    (htree : (parseTree text (some path)).isOk = true) :
    (Input.source path).fault? files = none := by
  rw [fault?, h]
  show faultOf ((parseTree text (some path)).mapError
    (RunError.ofParse path)) = none
  cases hparse : parseTree text (some path) with
  | ok tree => rfl
  | error e =>
      rw [hparse] at htree
      cases htree

/-- The class path and the rule of a run. -/
def RunOptions.setup (o : RunOptions) (files : Files) :
    Except RunError (ClassPath × CatchRule) := do
  let options ← readOptions files o.config
  let cp ← readClassPath files o.classPaths
  let name ← required "recipe" o.recipe
  let rule ← (Recipe.find name options cp []).1.mapError RunError.failure
  return (cp, rule)

variable {o : RunOptions} {files : Files}

/-- A run sets up a class path and a rule, and then takes its files in order. -/
theorem RunOptions.results_eq (o : RunOptions) (files : Files) :
    o.results files = (do
      let s ← o.setup files
      o.files.mapM (runFile files s.1 s.2)) := by
  simp only [results, setup, bind_assoc, pure_bind]

/-- The options fail as the configuration file does. -/
theorem faultOf_readOptions (files : Files) (config : Option Given) :
    faultOf (readOptions files config) =
      (config.toList.map Input.config).findSome? (Input.fault? files) := by
  cases config with
  | none => rfl
  | some given =>
      rw [Option.toList_some, List.map_singleton, List.findSome?_singleton]
      rfl

/-- The class path fails as the first stub file that does. -/
theorem faultOf_readClassPath (files : Files) (paths : List Given) :
    faultOf (readClassPath files paths) =
      (paths.map Input.stub).findSome? (Input.fault? files) := by
  have hread : readClassPath files paths =
      (fun infos => ClassPath.builtin.extend infos.flatten) <$>
      paths.mapM fun given =>
        required "classpath" given >>= readStub files := rfl
  rw [hread, faultOf_map, faultOf_mapM, List.findSome?_map]
  rfl

theorem faultOf_find (files : Files) (given : Given) (options : RuleOptions)
    (cp : ClassPath) : faultOf (do
      let name ← required "recipe" given
      let rule ← (Recipe.find name options cp []).1.mapError RunError.failure
      return (cp, rule)) = (Input.recipe given).fault? files := by
  cases given with
  | none => rfl
  | some name =>
      show faultOf ((·, ·) cp <$>
        (Recipe.find name options cp []).1.mapError RunError.failure) =
        faultOf (if name = Recipe.retargetCatches.name then .ok ()
          else .error (.failure (Recipe.unknown name)) : Except RunError Unit)
      rw [faultOf_map]
      unfold Recipe.find
      split <;> rfl

/-- The setup fails as the first of its inputs that does. -/
theorem faultOf_setup (o : RunOptions) (files : Files) :
    faultOf (o.setup files) = o.setupInputs.findSome? (Input.fault? files) := by
  have hrecipe (options : RuleOptions) (cp : ClassPath) :=
    faultOf_find files o.recipe options cp
  have hclassPath (options : RuleOptions) :=
    faultOf_bind (x := readClassPath files o.classPaths) (hrecipe options)
  rw [RunOptions.setup, faultOf_bind hclassPath, faultOf_readOptions,
    faultOf_readClassPath, RunOptions.setupInputs, List.append_assoc,
    List.findSome?_append, List.findSome?_append,
    List.findSome?_singleton]

/-- A file fails as its own text does. -/
theorem faultOf_runFile (cp : ClassPath) (rule : CatchRule) (path : String) :
    faultOf (runFile files cp rule path) =
      (Input.source path).fault? files := by
  have hparse (text : String) :
      faultOf (do
        let cu ← (parseUnit text cp (some path)).mapError
            (RunError.ofParse path)
        return rule.run cp cu) =
      faultOf ((parseTree text (some path)).mapError
        (RunError.ofParse path)) := by
    rw [parseUnit]
    cases parseTree text (some path) <;> rfl
  unfold runFile
  dsimp only [Input.fault?]
  cases (files.text path).mapError
    (RunError.ofRead "io-error" "source" path) with
  | error e => rfl
  | ok text => exact hparse text

/-- A run comes upon the first fault of its inputs. -/
theorem faultOf_results (o : RunOptions) (files : Files) :
    faultOf (o.results files) = o.inputs.findSome? (Input.fault? files) := by
  have hfiles (s : ClassPath × CatchRule) :
      faultOf (o.files.mapM (runFile files s.1 s.2)) =
      (o.files.map Input.source).findSome? (Input.fault? files) := by
    rw [faultOf_mapM, List.findSome?_map]
    exact congrArg (fun f => o.files.findSome? f)
      (funext fun path => faultOf_runFile _ _ path)
  rw [o.results_eq, faultOf_bind hfiles, faultOf_setup, RunOptions.inputs,
    List.findSome?_append]

end JavaRefit.CommandLine
