/-
Reading members, classes and whole files.

A file is read when its tokens are, all of them, and no character of it
starts no word. A failure is at the first token that no file could have
there, else at such a character, else at the end. An import of a single
word is read but not supported.

Chain: parser layer, after `Stmt`; `Tree.Pieces` is the way back.
-/
import JavaRefit.Parser.Stmt
import JavaRefit.Report
import JavaRefit.Text.Quoted
import JavaRefit.Token.Scan

namespace JavaRefit

namespace Parser

-- =============================================================== members

/-- The kind of a class keyword. -/
def asClassKind (t : Token) : Option (LeftPadded ClassKind) :=
  match t.word with
  | .keyword s => (ClassKind.ofText? s).map fun k => ⟨t.lead, k⟩
  | _ => none

/-- A class after its modifiers and keyword, over a reader of its members. -/
def classWith (nested : Parser (RightPadded Member)) (lead : Trivia)
    (ms : List Modifier) (kind : LeftPadded ClassKind) : Parser JavaClass := do
  let i ← ident
  let extends? ← afterKeyword? classType "extends"
  let implements? ← afterKeyword? classType "implements"
  let body ← braced nested
  return ⟨lead, ms, kind.before, kind.element, .simple i none, extends?,
    implements?, body, none⟩

/-- A parameter list, the exceptions after it and a body. -/
def methodWith (lead : Trivia) (ms : List Modifier)
    (returnType : Option TypeTree) (i : Ident) (mayLackBody : Bool) :
    Parser (RightPadded Member) := do
  let parameters ← delimited (parameter typeTree) "(" ")"
  let throws ← afterKeyword? classType "throws"
  if mayLackBody && (← isNext (.symbol ";")) then
    terminated
      (pure (.method ⟨lead, ms, returnType, i, parameters, throws, none, none⟩))
  else
    let body ← block
    return ⟨.method ⟨lead, ms, returnType, i, parameters, throws,
      some body, none⟩, ""⟩

/-- A name and an opening parenthesis are next. -/
def startsCall : List Token → Bool
  | t :: u :: _ => (asIdent t).isSome && decide (u.word = .symbol "(")
  | _ => false

/-- A member of a class, over a reader of the members of classes nested in
it. -/
def memberWith (nested : Parser (RightPadded Member)) :
    Parser (RightPadded Member) := do
  let lead ← takeLead
  let ms ← modifiers
  if let some kind ← take? asClassKind then
    return ⟨.nested (← classWith nested lead ms kind), ""⟩
  if let some before ← keyword? "void" then
    let i ← ident
    return ← methodWith lead ms (some (.primitive before .void none)) i true
  if ← ahead startsCall then
    let i ← ident
    return ← methodWith lead ms none i false
  let t ← typeTree
  if ← ahead startsCall then
    let i ← ident
    methodWith lead ms (some t) i true
  else
    let vs ← bounded (padded declarator ",")
    terminated (pure (.field ⟨lead, ms, t, vs⟩))

/-- A member whose classes nest at most so deep. -/
def memberOfDepth : Nat → Parser (RightPadded Member)
  | 0 => stuck
  | n + 1 => memberWith (memberOfDepth n)

/-- A member of a class. -/
def member : Parser (RightPadded Member) := bounded memberOfDepth

-- ================================================================= files

/-- A class at the top of a file. -/
def topClass : Parser JavaClass := do
  let lead ← takeLead
  let ms ← modifiers
  let kind ← take asClassKind
  classWith member lead ms kind

/-- The package of a file, if it has one. -/
def package? : Parser (Option (RightPadded Package)) := do
  match ← keyword? "package" with
  | none => return none
  | some lead => return some (← terminated (Package.mk lead <$> name))

/-- An import. -/
def importDecl : Parser (RightPadded Import) := do
  let lead ← keyword "import"
  let static? ← keyword? "static"
  terminated (Import.mk lead static? <$> importName)

/-- Some token is left. -/
def hasMore (ts : List Token) : Bool := !ts.isEmpty

/-- All tokens of a file. -/
def unit (close : Trivia) (path : Option String) : Parser CompilationUnit := do
  let lead ← takeLead
  let p ← package?
  let imports ← bounded (manyWhile (startsWith "import") importDecl)
  let classes ← bounded (manyWhile hasMore topClass)
  return ⟨lead, p, imports, classes, close, path⟩

end Parser

-- ============================================================== failures

/-- Why a text is not read. -/
inductive ParseError where
  | unexpectedWord (text : String) (place : Text.Location)
  | unexpectedCharacter (c : Char) (place : Text.Location)
  | unexpectedEnd
  | singleSegmentImport
deriving DecidableEq, Repr

namespace ParseError

/-- The wording. -/
def message : ParseError → String
  | unexpectedWord text _ =>
    "unsupported or invalid Java syntax: unexpected " ++ Text.quoted text
  | unexpectedCharacter c _ =>
    "unsupported or invalid Java syntax: unexpected character " ++
      Text.quoted (String.singleton c)
  | unexpectedEnd => "unsupported or invalid Java syntax: unexpected ''"
  | singleSegmentImport => "single-segment imports are not supported"

/-- The place, where the text itself is at fault; the end of a text has none. -/
def place? : ParseError → Option Text.Location
  | unexpectedWord _ place => some place
  | unexpectedCharacter _ place => some place
  | unexpectedEnd => some ⟨-1, -1⟩
  | singleSegmentImport => none

/-- The failure to report for a file; an import that is not supported is no
failure of the text. -/
def failure? (path : Option String) (e : ParseError) : Option Failure :=
  e.place?.map fun place =>
    ⟨"parse-error", e.message, path,
      some ⟨path.filter (· != ""), some place.line, some place.column⟩⟩

end ParseError

/-- Why nothing more was read when so many tokens were left. -/
def TokenRun.errorAt (run : TokenRun) (left : Nat) : ParseError :=
  let read := run.tokens.take (run.tokens.length - left)
  match run.tokens.drop (run.tokens.length - left) with
  | t :: _ => .unexpectedWord t.word.text (TokenRun.locationAfter read t.lead)
  | [] =>
    match run.stop with
    | some c => .unexpectedCharacter c (TokenRun.locationAfter read run.tail)
    | none => .unexpectedEnd

/-- The tree of a text, without types. -/
def parseTree (source : String) (path : Option String) :
    Except ParseError CompilationUnit :=
  let run := Token.scan source
  match Parser.unit run.tail path run.tokens with
  | .error left => .error (run.errorAt left)
  | .ok (cu, _) =>
    if run.stop.isSome then .error (run.errorAt 0)
    else if cu.imports.any fun i =>
      i.element.name.outer?.isNone then .error .singleSegmentImport
    else .ok cu

end JavaRefit
