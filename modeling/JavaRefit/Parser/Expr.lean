/-
Reading expressions.

The operands of the operators between them are read as one run, which is
then grouped level by level, the tightest first. Readers of the parts are
given a reader for the expressions nested in them; `expressionOfDepth`
ties the knot.

Chain: parser layer, after `Type`.
-/
import JavaRefit.Parser.Type

namespace JavaRefit.Parser

-- ============================================================== grouping

/-- An operand with the operator in front of it. -/
abbrev Operand := LeftPadded BinaryOp × Expr

/-- Two operands as one. -/
def joinOperands (left : Expr) (operator : LeftPadded BinaryOp)
    (right : Expr) : Expr :=
  .binary left.lead (left.withLead "") operator right none

/-- Groups the operators of one level to the left; the others stay in the
run. -/
def groupLevel (level : Nat) : Expr → List Operand → Expr × List Operand
  | e, [] => (e, [])
  | e, (op, r) :: rest =>
    if op.element.level = level then groupLevel level (joinOperands e op r) rest
    else
      let (r', rest') := groupLevel level r rest
      (e, (op, r') :: rest')

/-- Groups a run level by level. -/
def groupLevels : List Nat → Expr × List Operand → Expr × List Operand
  | [], run => run
  | level :: levels, run => groupLevels levels (groupLevel level run.1 run.2)

/-- The expression that a run of operands spells. -/
def group (first : Expr) (rest : List Operand) : Expr :=
  (groupLevels [5, 4, 3, 2, 1, 0] (first, rest)).1

-- =============================================================== postfix

/-- The literal of a token. -/
def asLiteral (t : Token) : Option Expr :=
  match t.word with
  | .literal s => some (.literal t.lead s none)
  | .keyword s => if Token.literalWords.contains s
        then some (.literal t.lead s none) else none
  | _ => none

/-- Arguments between parentheses. -/
def argumentsWith (nested : Parser Expr) : Parser (Container Expr) :=
  delimited nested "(" ")"

/-- A literal, a name or a call of one, `this`, something between parentheses,
or a construction. -/
def primaryWith (nested : Parser Expr) : Parser Expr := do
  if let some e ← take? asLiteral then return e
  if let some lead ← keyword? "this" then return .ident ⟨lead, "this"⟩ none
  if let some lead ← symbol? "(" then
    let inner ← nested
    let after ← symbol ")"
    return .parens lead ⟨inner, after⟩ none
  if let some lead ← keyword? "new" then
    let base ← classType
    let args ← argumentsWith nested
    return .new lead base args none none
  let first ← ident
  if ← isNext (.symbol "(") then
    let args ← argumentsWith nested
    return .call first.lead none ⟨"", first.name⟩ args none
  else return .ident first none

/-- The accesses and calls after the start of an expression. -/
def postfixRest (nested : Parser Expr) : Nat → Expr → Parser Expr
  | 0, _ => stuck
  | n + 1, target => do
    match ← symbol? "." with
    | none => return target
    | some dot =>
      match ← keyword? "class" with
      | some lead =>
        postfixRest nested n
          (.access target.lead (target.withLead "") ⟨dot, ⟨lead, "class"⟩⟩ none)
      | none =>
        let last ← ident
        if ← isNext (.symbol "(") then
          let args ← argumentsWith nested
          postfixRest nested n
            (.call target.lead (some ⟨target.withLead "", dot⟩) last args none)
        else
          postfixRest nested n (.access target.lead (target.withLead "")
            ⟨dot, last⟩ none)

/-- An expression without operators around it. -/
def postfixWith (nested : Parser Expr) : Parser Expr := do
  let start ← primaryWith nested
  bounded fun n => postfixRest nested n start

-- ============================================================= operators

/-- The prefix operator of a token. -/
def asUnaryOp (t : Token) : Option (LeftPadded UnaryOp) :=
  match t.word with
  | .symbol s => (UnaryOp.ofText? s).map fun op => ⟨t.lead, op⟩
  | _ => none

/-- The infix operator of a token. -/
def asBinaryOp (t : Token) : Option (LeftPadded BinaryOp) :=
  match t.word with
  | .symbol s => (BinaryOp.ofText? s).map fun op => ⟨t.lead, op⟩
  | _ => none

/-- An operand with the operators in front of it. -/
def operandWith (nested : Parser Expr) : Nat → Parser Expr
  | 0 => stuck
  | n + 1 => do
    match ← take? asUnaryOp with
    | some op =>
        return .unary op.before op.element (← operandWith nested n) none
    | none => postfixWith nested

/-- The operators and operands after the first operand. -/
def operandsWith (nested : Parser Expr) : Nat → Parser (List Operand)
  | 0 => stuck
  | n + 1 => do
    match ← take? asBinaryOp with
    | none => return []
    | some op =>
      let e ← bounded (operandWith nested)
      return (op, e) :: (← operandsWith nested n)

/-- The next token is an operator in front of an operand. -/
def startsUnary : List Token → Bool
  | [] => false
  | t :: _ => (asUnaryOp t).isSome

/-- An expression, over a reader of the expressions nested in it. What is
assigned to has no operators around it. -/
def expressionWith (nested : Parser Expr) : Parser Expr := do
  if ← ahead startsUnary then
    let first ← bounded (operandWith nested)
    return group first (← bounded (operandsWith nested))
  else
    let first ← postfixWith nested
    match ← symbol? "=" with
    | some before =>
      let value ← nested
      return .assign first.lead (first.withLead "") ⟨before, value⟩ none
    | none => return group first (← bounded (operandsWith nested))

/-- An expression that nests at most so deep. -/
def expressionOfDepth : Nat → Parser Expr
  | 0 => stuck
  | n + 1 => expressionWith (expressionOfDepth n)

/-- An expression. -/
def expression : Parser Expr := bounded expressionOfDepth

end JavaRefit.Parser
