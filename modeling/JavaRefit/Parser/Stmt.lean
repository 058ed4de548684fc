/-
Reading variable declarations and statements.

A statement that could be a declaration or an expression is a
declaration; this is the one place where two readers are tried.

Chain: parser layer, after `Expr` and `Conditional`.
-/
import JavaRefit.Parser.Conditional
import JavaRefit.Parser.Expr

namespace JavaRefit.Parser

-- ========================================================== declarations

/-- The keyword of a modifier token. -/
def asModifierWord (t : Token) : Option Modifier :=
  match t.word with
  | .keyword s => if Token.modifierWords.contains s
        then some (.keyword t.lead s) else none
  | _ => none

/-- The next token is a modifier or starts one. -/
def startsModifier : List Token → Bool
  | [] => false
  | t :: _ => (asModifierWord t).isSome || decide (t.word = .symbol "@")

/-- A modifier keyword or an annotation. -/
def modifier : Parser Modifier := do
  if let some m ← take? asModifierWord then return m
  let lead ← symbol "@"
  let type ← name
  if ← isNext (.symbol "(") then
    return .annotated lead type (some (← delimited expression "(" ")"))
  else return .annotated lead type none

/-- Modifiers, as many as there are. -/
def modifiers : Parser (List Modifier) :=
  bounded (manyWhile startsModifier modifier)

/-- A declared name with its value, if it has one. -/
def declarator : Parser Variable := do
  let i ← ident
  let initializer ← do
    match ← symbol? "=" with
    | none => pure none
    | some before => pure (some ⟨before, ← expression⟩)
  return ⟨i.lead, .simple ⟨"", i.name⟩ none, initializer, none⟩

/-- Modifiers, a type and the variables declared; not the semicolon. -/
def declaration : Parser Variables := do
  let lead ← takeLead
  let ms ← modifiers
  let t ← typeTree
  let vs ← bounded (padded declarator ",")
  return ⟨lead, ms, t, vs⟩

/-- A single name declared with a type that `type` reads. -/
def parameter (type : Parser TypeTree) : Parser Variables := do
  let lead ← takeLead
  let ms ← modifiers
  let t ← type
  let i ← ident
  return ⟨lead, ms, t, [⟨⟨i.lead, .simple ⟨"", i.name⟩ none, none, none⟩, ""⟩]⟩

/-- Something with the semicolon after it. -/
def terminated {α : Type} (p : Parser α) : Parser (RightPadded α) := do
  let a ← p
  return ⟨a, ← symbol ";"⟩

-- ============================================================ statements

/-- A condition between parentheses. -/
def condition : Parser (Parens Expr) := do
  let lead ← symbol "("
  let e ← expression
  return ⟨lead, ⟨e, ← symbol ")"⟩⟩

/-- A catch clause, over a reader of its statements. -/
def catchWith (nested : Parser (RightPadded Stmt)) : Parser (Catch Stmt) := do
  let lead ← keyword "catch"
  let opening ← symbol "("
  let d ← parameter catchType
  let closing ← symbol ")"
  return ⟨lead, ⟨opening, ⟨d, closing⟩⟩, ← braced nested⟩

/-- The next word is a given keyword. -/
def startsWith (s : String) : List Token → Bool
  | [] => false
  | t :: _ => decide (t.word = .keyword s)

/-- A `try` statement after its keyword. -/
def tryWith (nested : Parser (RightPadded Stmt)) (lead : Trivia) :
    Parser (Try Stmt) := do
  let body ← braced nested
  let catches ← bounded (manyWhile (startsWith "catch") (catchWith nested))
  let finally? ← do
    match ← keyword? "finally" with
    | none => pure none
    | some before => pure (some ⟨before, ← braced nested⟩)
  return ⟨lead, body, catches, finally?⟩

/-- A statement that does not start with `if` or `while`. -/
def plainWith (nested : Parser (RightPadded Stmt)) :
    Parser (RightPadded Stmt) := do
  if ← isNext (.symbol "\x7b") then return ⟨.block (← braced nested), ""⟩
  if let some lead ← symbol? ";" then return ⟨.empty lead, ""⟩
  if let some lead ← keyword? "try"
    then return ⟨.tryCatch (← tryWith nested lead), ""⟩
  if let some lead ← keyword? "throw" then
    return ← terminated (.throwing lead <$> expression)
  if let some lead ← keyword? "return" then
    if ← isNext (.symbol ";")
      then return ← terminated (pure (.returning lead none))
    else return ← terminated ((fun e => .returning lead (some e)) <$>
      expression)
  orElse (terminated (.declaration <$> declaration))
    (terminated (.expr <$> expression))

-- ========================================================== conditionals

/-- The next word starts a condition. -/
def startsHead (ts : List Token) : Bool :=
  startsWith "if" ts || startsWith "while" ts

/-- `if` or `while` with its condition. -/
def head : Parser Head := do
  match ← keyword? "while" with
  | some lead => return ⟨lead, true, ← condition⟩
  | none =>
    let lead ← keyword "if"
    return ⟨lead, false, ← condition⟩

/-- The branches after a plain statement, when so many `if` before it are
without an `else`. -/
def branchesWith (plain : Parser (RightPadded Stmt)) :
    Nat → Nat → Parser (List Branch)
  | 0, _ => stuck
  | _ + 1, 0 => return []
  | n + 1, opened + 1 => do
    match ← keyword? "else" with
    | none => return []
    | some lead =>
      let heads ← bounded (manyWhile startsHead head)
      let body ← plain
      let bs ← branchesWith plain n (opened + Branch.openings heads)
      return ⟨lead, heads, body⟩ :: bs

/-- A statement, over a reader of the statements inside its blocks. -/
def statementWith (nested : Parser (RightPadded Stmt)) :
    Parser (RightPadded Stmt) := do
  let heads ← bounded (manyWhile startsHead head)
  let body ← plainWith nested
  let bs ← bounded fun n =>
      branchesWith (plainWith nested) n (Branch.openings heads)
  return Branch.shape heads body bs

/-- A statement whose blocks nest at most so deep. -/
def statementOfDepth : Nat → Parser (RightPadded Stmt)
  | 0 => stuck
  | n + 1 => statementWith (statementOfDepth n)

/-- A statement with its semicolon, where it has one. -/
def statement : Parser (RightPadded Stmt) := bounded statementOfDepth

/-- A block of statements. -/
def block : Parser (Block Stmt) := braced statement

end JavaRefit.Parser
