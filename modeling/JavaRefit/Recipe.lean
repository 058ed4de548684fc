/-
Recipes: named edits of whole files, and what running one gives.

The one recipe retargets catch clauses. It looks at a file only when the
file calls the API that changed, goes through it from the leaves up, and
afterwards brings the imports in line. It writes the replacement in full
where its simple name means another class.

Chain: after the catch rule; read by the command line.
-/
import JavaRefit.CatchRule.Retarget
import JavaRefit.ClassPath.Types

namespace JavaRefit

-- =============================================================== results

/-- What running a recipe on a file gives. -/
structure RecipeResult where
  after : CompilationUnit
  isChanged : Bool
  delta : ImportDelta
  diagnostics : List Diagnostic

namespace RecipeResult

/-- The file as it is. -/
def unchanged (cu : CompilationUnit) : RecipeResult := ⟨cu, false, .empty, []⟩

/-- The text of the file after the run. -/
def source (r : RecipeResult) : String := r.after.print

def toJson (r : RecipeResult) : Json :=
  .obj [("path", .ofText? r.after.path), ("changed", .bool r.isChanged),
    ("imports", r.delta.toJson),
    ("diagnostics", .arr (r.diagnostics.map Diagnostic.toJson))]

end RecipeResult

-- ============================================================== the rule

namespace CatchRule

/-- What the rule does to the nodes of a file. -/
def editor (r : CatchRule) (qualified : Bool) : Editor RuleNote :=
  { stmt := fun s => match s with
      | .tryCatch t => Stmt.tryCatch <$> r.retarget qualified t
      | s => .keep s }

/-- The file calls the API that changed. -/
def appliesTo (r : CatchRule) (cu : CompilationUnit) : Bool :=
  r.usesApi cu.walk

/-- The replacement has to be written in full in the file. -/
def mustQualify (r : CatchRule) (cp : ClassPath)
    (cu : CompilationUnit) : Bool :=
  cu.simpleNameTaken r.replacement.fqn (some cp)

/-- The file after the rule has gone through it. -/
def run (r : CatchRule) (cp : ClassPath) (cu : CompilationUnit) :
    RecipeResult :=
  if !r.appliesTo cu then .unchanged cu
  else
    let edited := cu.edit (r.editor (r.mustQualify cp cu))
    let delta := RuleNote.delta edited.notes
    let imported : Edited Empty CompilationUnit := edited.value.applyDelta delta
    let after := if edited.isNew then imported.value else edited.value
    ⟨after, edited.isNew, delta, RuleNote.remarks edited.notes⟩

/-- The file after the rule has gone through it, unless its imports cannot be
brought in line. -/
def run? (r : CatchRule) (cp : ClassPath) (cu : CompilationUnit) :
    Except CompilationUnit.DeltaError RecipeResult := do
  if r.appliesTo cu then
    let edited := cu.edit (r.editor (r.mustQualify cp cu))
    if edited.isNew then
      let _ : Edited Empty CompilationUnit ← edited.value.applyDelta?
          (RuleNote.delta edited.notes)
  return r.run cp cu

end CatchRule

-- =============================================================== recipes

/-- What is told about a recipe. -/
structure RecipeInfo where
  name : String
  displayName : String
  description : String
  tags : List String
deriving DecidableEq, Repr

def RecipeInfo.toJson (r : RecipeInfo) : Json :=
  .obj [("name", .str r.name), ("display_name", .str r.displayName),
    ("description", .str r.description), ("tags", .ofTexts r.tags)]

namespace Recipe

/-- The recipe that retargets the catch clauses around the calls of an object
mapper. -/
def retargetCatches : RecipeInfo :=
  { name := "jackson-io-exception-to-jackson-exception"
    displayName :=
      "Replace `IOException` with `JacksonException` in catch clauses"
    description :=
      "In Jackson 3, `ObjectMapper` and related classes no longer throw `IOException`. " ++
      "This recipe replaces `catch (IOException e)` with `catch (JacksonException e)` when the " ++
      "try block only contains Jackson calls, or adds `JacksonException` to a multi-catch when " ++
      "the try block also calls other methods that throw `IOException`."
    tags := ["jackson-3"] }

/-- All recipes, in the order of their names. -/
def all : List RecipeInfo := [retargetCatches]

/-- The failure to find a recipe of some name. -/
def unknown (name : String) : Failure :=
  ⟨"unknown-recipe",
    "no recipe named " ++ Text.quoted name ++ " (known: " ++
      String.intercalate ", " (all.map RecipeInfo.name) ++ ")",
    none, none⟩

/-- The rule of the recipe, with its options, over a class path; the type of
the replacement is made there, and so changes what the class path remembers. -/
def ruleOf (o : RuleOptions) (cp : ClassPath) : ClassPath.Query CatchRule := do
  return ⟨o.legacyType, ← cp.typeOf o.replacementType, o.apiPatterns,
    some retargetCatches.name⟩

/-- The rule of the recipe of some name. -/
def find (name : String) (o : RuleOptions) (cp : ClassPath) :
    ClassPath.Query (Except Failure CatchRule) := do
  if name = retargetCatches.name then return .ok (← ruleOf o cp)
    else return .error (unknown name)

end Recipe

end JavaRefit
