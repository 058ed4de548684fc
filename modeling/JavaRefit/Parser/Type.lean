/-
Reading names and written types.

The trivia in front of a chain moves outwards with each step that is
added, so that it ends with the outermost node.

Chain: parser layer, after `Basic`.
-/
import JavaRefit.Parser.Basic

namespace JavaRefit.Parser

-- ================================================================= names

/-- A name with one more word after a dot. -/
def extendName (outer : Name) (dot : Trivia) (last : Ident) : Name :=
  .qualified outer.lead (outer.withLead "") ⟨dot, last⟩ none

/-- The dots and words after the start of a name. Where a star may end the
name, it does. -/
def nameRest (starMayEnd : Bool) : Nat → Name → Parser Name
  | 0, _ => stuck
  | n + 1, outer => do
    match ← symbol? "." with
    | none => return outer
    | some dot =>
      if starMayEnd && (← isNext (.symbol "*")) then
        let lead ← symbol "*"
        return extendName outer dot ⟨lead, "*"⟩
      else
        let last ← ident
        nameRest starMayEnd n (extendName outer dot last)

/-- A dotted name. -/
def name : Parser Name := do
  let first ← ident
  bounded fun n => nameRest false n (.simple first none)

/-- A dotted name that may end in a star. -/
def importName : Parser Name := do
  let first ← ident
  bounded fun n => nameRest true n (.simple first none)

-- ================================================================= types

/-- A class name with its type arguments, over a reader of those. -/
def classTypeWith (argument : Parser TypeTree) : Parser TypeTree := do
  let base ← name
  if ← isNext (.symbol "<") then
    let args ← delimited argument "<" ">"
    return .generic base.lead (base.withLead "") args none
  else return .named base

/-- The primitive type of a keyword token. -/
def asPrimitive (t : Token) : Option TypeTree :=
  match t.word with
  | .keyword s =>
    if Token.primitiveWords.contains s then
      (Primitive.ofText? s).map fun p => .primitive t.lead p none
    else none
  | _ => none

/-- The pairs of brackets after an element type. -/
def dimensions : Nat → TypeTree → Parser TypeTree
  | 0, _ => stuck
  | n + 1, element => do
    match ← symbol? "[" with
    | none => return element
    | some before =>
      let inner ← symbol "]"
      dimensions n (.array element.lead (element.withLead "")
        ⟨before, inner⟩ none)

/-- A type, over a reader of type arguments. -/
def typeTreeWith (argument : Parser TypeTree) : Parser TypeTree := do
  let base ← do
    match ← take? asPrimitive with
    | some p => pure p
    | none => classTypeWith argument
  bounded fun n => dimensions n base

/-- A type whose arguments nest at most so deep. -/
def typeTreeOfDepth : Nat → Parser TypeTree
  | 0 => stuck
  | n + 1 => typeTreeWith (typeTreeOfDepth n)

/-- A type. -/
def typeTree : Parser TypeTree := bounded typeTreeOfDepth

/-- A class name with or without type arguments. -/
def classType : Parser TypeTree := classTypeWith typeTree

/-- The alternatives of a catch parameter; a single one stands for itself. -/
def catchType : Parser TypeTree := do
  match ← bounded (padded classType "|") with
  | [only] => return only.element
  | [] => stuck
  | first :: rest =>
    return .union first.element.lead
      (⟨first.element.withLead "", first.after⟩ :: rest)

end JavaRefit.Parser
