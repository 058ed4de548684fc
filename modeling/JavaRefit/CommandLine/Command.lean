/-
The commands: `run` applies a recipe to files, `list` tells which recipes
there are.

Chain: command line layer, after `Words`; read by `Batch` and `Main`.
-/
import JavaRefit.CommandLine.Files
import JavaRefit.CommandLine.Words
import JavaRefit.Recipe

namespace JavaRefit.CommandLine

/-- What `run` is told. All paths are in their shortest form. -/
structure RunOptions where
  files : List String
  recipe : Given
  config : Option Given
  classPaths : List Given
  /-- Changed files are written and nothing is printed but remarks. -/
  write : Bool
  /-- A report is printed instead of sources and remarks. -/
  json : Bool
deriving DecidableEq, Repr

/-- A command. -/
inductive Command where
  | run (options : RunOptions)
  | list (json : Bool)
deriving DecidableEq, Repr

namespace Command

/-- The options of `run`. -/
def runNames : OptionNames :=
  ⟨["write", "json"], ["recipe", "config", "classpath"]⟩

/-- The options of `list`. -/
def listNames : OptionNames := ⟨["json"], []⟩

/-- What is given to an option, in order. -/
def valuesOf (a : Arguments) (name : String) : List Given :=
  (a.values.filter fun v => v.1 == name).map Prod.snd

/-- A `run` with its arguments; there is at least one file. Of a recipe or
configuration named twice the later counts. -/
def runOf (a : Arguments) : Except Usage Command :=
  if a.plain.isEmpty || a.isOverfull then .error .misuse
  else .ok (.run
    { files := a.plain.map Path.shortest
      recipe := (valuesOf a "recipe").getLast?.getD
        (some Recipe.retargetCatches.name)
      config := (valuesOf a "config").getLast?.map (Option.map Path.shortest)
      classPaths := (valuesOf a "classpath").map (Option.map Path.shortest)
      write := a.flags.contains "write"
      json := a.flags.contains "json" })

/-- A `list` with its arguments. -/
def listOf (a : Arguments) : Except Usage Command :=
  if a.isOverfull then .error .misuse else .ok (.list (a.flags.contains "json"))

/-- The command of a name with the words after it. -/
def ofName (name : String) (texts : List String) : Except Usage Command :=
  if name = "run" then do runOf (← Arguments.read runNames true texts)
  else if name = "list" then do listOf (← Arguments.read listNames false texts)
  else .error .misuse

/-- The command of a whole command line. What stands before its name can only
ask for help. -/
def ofTexts : List String → Except Usage Command
  | [] => .error .misuse
  | text :: texts =>
    if text = "--" then .error .misuse
    else do
      match ← Word.read .none text with
      | .plain name => ofName name texts
      | .help => .error .help
      | .stray =>
        -- the rest may still ask for help
        match ofTexts texts with
        | .error .help => .error .help
        | _ => .error .misuse
      | _ => .error .misuse

end Command

end JavaRefit.CommandLine
