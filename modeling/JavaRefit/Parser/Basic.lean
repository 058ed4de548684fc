/-
Reading trees from tokens: the steps every reader is made of.

A reader takes what it needs from the front of the tokens, or stops and
says how many tokens were left where no reading goes on. One token ahead
always decides which way to go, but in one place, where two readers are
tried and the one that got further speaks for both.

Repetition is bounded by a count. Every turn takes a token, so the number
of tokens left, plus one, is bound enough; `bounded` supplies it.

Chain: first of the parser layer, after `Token`; `Type`, `Expr`, `Stmt`
and `Unit` follow the language upwards.
-/
import JavaRefit.Token
import JavaRefit.Tree.Unit

namespace JavaRefit

/-- A reader of trees. Its failure is the number of tokens left at the one that
fits nowhere. -/
abbrev Parser (α : Type) := StateT (List Token) (Except Nat) α

namespace Parser

/-- No reading goes on from here. -/
def stuck {α : Type} : Parser α := fun ts => .error ts.length

/-- Gives a reader that counts its turns the number of tokens left, plus one. -/
def bounded {α : Type} (p : Nat → Parser α) : Parser α :=
  fun ts => p (ts.length + 1) ts

/-- The first reading that succeeds; when none does, the failure of the one
that got further. -/
def orElse {α : Type} (p q : Parser α) : Parser α := fun ts =>
  match p ts with
  | .ok r => .ok r
  | .error left =>
    match q ts with
    | .ok r => .ok r
    | .error left' => .error (min left left')

-- ========================================================= single tokens

/-- Takes a token that passes the test, and what the test makes of it. -/
def take {α : Type} (f : Token → Option α) : Parser α := fun ts =>
  match ts with
  | [] => .error 0
  | t :: rest =>
    match f t with
    | some a => .ok (a, rest)
    | none => .error ts.length

/-- Takes a token that passes the test, if one is next. -/
def take? {α : Type} (f : Token → Option α) : Parser (Option α) := fun ts =>
  match ts with
  | [] => .ok (none, [])
  | t :: rest =>
    match f t with
    | some a => .ok (some a, rest)
    | none => .ok (none, ts)

/-- Whether the tokens left pass a test; takes none. -/
def ahead (f : List Token → Bool) : Parser Bool := fun ts => .ok (f ts, ts)

/-- Whether the next word is the given one; takes none. -/
def isNext (w : Word) : Parser Bool :=
  ahead fun ts => match ts with
    | [] => false
    | t :: _ => decide (t.word = w)

/-- The trivia in front of a token that has the given word. -/
def leadOf (w : Word) (t : Token) : Option Trivia :=
  if t.word = w then some t.lead else none

/-- Takes the given word and gives the trivia in front of it. -/
def word (w : Word) : Parser Trivia := take (leadOf w)

/-- Takes the given word, if it is next. -/
def word? (w : Word) : Parser (Option Trivia) := take? (leadOf w)

/-- Takes the given symbol and gives the trivia in front of it. -/
def symbol (s : String) : Parser Trivia := word (.symbol s)

/-- Takes the given symbol, if it is next. -/
def symbol? (s : String) : Parser (Option Trivia) := word? (.symbol s)

/-- Takes the given keyword and gives the trivia in front of it. -/
def keyword (s : String) : Parser Trivia := word (.keyword s)

/-- Takes the given keyword, if it is next. -/
def keyword? (s : String) : Parser (Option Trivia) := word? (.keyword s)

/-- The identifier of a name token. -/
def asIdent (t : Token) : Option Ident :=
  match t.word with
  | .name s => some ⟨t.lead, s⟩
  | _ => none

/-- Takes a name. -/
def ident : Parser Ident := take asIdent

/-- Detaches the trivia in front of the next token, for a node that starts
there and keeps it itself. -/
def takeLead : Parser Trivia := fun ts =>
  match ts with
  | [] => .ok ("", [])
  | t :: rest => .ok (t.lead, { t with lead := "" } :: rest)

-- ================================================================= lists

/-- One element or more with a separator between them; the trivia in front of a
separator stays with the element before it. -/
def padded {α : Type} (element : Parser α) (separator : String) :
    Nat → Parser (List (RightPadded α))
  | 0 => stuck
  | n + 1 => do
    let e ← element
    match ← symbol? separator with
    | none => return [⟨e, ""⟩]
    | some after => return ⟨e, after⟩ :: (← padded element separator n)

/-- Elements with commas between them, between two delimiters; there may be
none. -/
def delimited {α : Type} (element : Parser α) (opening closing : String) :
    Parser (Container α) := do
  let before ← symbol opening
  match ← symbol? closing with
  | some close => return ⟨before, [], close⟩
  | none =>
    let elements ← bounded (padded element ",")
    let close ← symbol closing
    return ⟨before, RightPadded.closeLast close elements, ""⟩

/-- A keyword and elements with commas between them, if the keyword is next. -/
def afterKeyword? {α : Type} (element : Parser α) (word : String) :
    Parser (Option (Container α)) := do
  match ← keyword? word with
  | none => return none
  | some before => return some ⟨before, ← bounded (padded element ","), ""⟩

/-- Elements up to a closing symbol, and the trivia in front of that. -/
def untilSymbol {α : Type} (element : Parser α) (closing : String) :
    Nat → Parser (List α × Trivia)
  | 0 => stuck
  | n + 1 => do
    match ← symbol? closing with
    | some close => return ([], close)
    | none =>
      let e ← element
      let (es, close) ← untilSymbol element closing n
      return (e :: es, close)

/-- Statements or members between braces. -/
def braced {α : Type} (element : Parser (RightPadded α)) :
    Parser (Block α) := do
  let lead ← symbol "\x7b"
  let (statements, close) ← bounded (untilSymbol element "\x7d")
  return ⟨lead, statements, close⟩

/-- Elements as long as the test says that one more starts. -/
def manyWhile {α : Type} (starts : List Token → Bool) (element : Parser α) :
    Nat → Parser (List α)
  | 0 => stuck
  | n + 1 => do
    if ← ahead starts then
      let e ← element
      return e :: (← manyWhile starts element n)
    else return []

end Parser

end JavaRefit
