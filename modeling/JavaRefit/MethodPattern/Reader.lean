/-
Reading method patterns: `<class> <name>(<parameter>, <parameter>)`.

Blanks may stand around every part, and between class and name there are
some. Neither class nor name has a parenthesis or a blank in it, and no
parameter has a parenthesis in it. A parameter may not be empty, but
there may be none.

Chain: after `Basic`; read by the rule options.
-/
import JavaRefit.MethodPattern.Basic
import JavaRefit.Text.Quoted

namespace JavaRefit

/-- Why a text is no pattern. -/
inductive PatternError where
  | malformed (text : String)
  | emptyArgument (text : String)
deriving DecidableEq, Repr

/-- The wording. -/
def PatternError.message : PatternError → String
  | malformed text => "invalid method pattern: " ++ Text.quotedEscaped text
  | emptyArgument text =>
    "invalid method pattern (empty argument): " ++ Text.quotedEscaped text

namespace MethodPattern

/-- A character that a class or name may have in it. -/
def isPart (c : Char) : Bool :=
  !Text.isBlank c && c != '('

/-- A character that parameters may have in them. -/
def isInside (c : Char) : Bool :=
  c != '(' && c != ')'

/-- A run of characters that may not be empty, and the rest. -/
def spanSome (p : Char → Bool) (cs : List Char) :
    Option (List Char × List Char) :=
  if (cs.takeWhile p).isEmpty then none else some
    (cs.takeWhile p, cs.dropWhile p)

/-- The texts of class, name and parameters. -/
def parts? (text : String) : Option (List Char × List Char × List Char) := do
  let (owner, afterOwner) ← spanSome isPart (Text.dropBlanks text.toList)
  let (_, afterBlanks) ← spanSome Text.isBlank afterOwner
  let (name, afterName) ← spanSome isPart afterBlanks
  match Text.dropBlanks afterName with
  | '(' :: inside =>
    match inside.dropWhile isInside with
    | ')' :: rest =>
      if (Text.dropBlanks rest).isEmpty
        then some (owner, name, inside.takeWhile isInside) else none
    | _ => none
  | _ => none

/-- The parts for the parameters; none when one of them is empty. -/
def paramGlobs? (text : List Char) : Option (List ParamGlob) :=
  if (Text.trimBlanks text).isEmpty then some []
  else (Text.splitAtEach ',' (Text.trimBlanks text)).mapM fun raw =>
    let arg := Text.trimBlanks raw
    if arg.isEmpty then none
    else if arg = ['.', '.'] then some .anyRun
    else some (.one (TypeGlob.ofChars arg))

/-- The pattern a text spells. -/
def parse (text : String) (overrides : Bool) :
    Except PatternError MethodPattern :=
  match parts? text with
  | none => .error (.malformed text)
  | some (owner, name, params) =>
    match paramGlobs? params with
    | none => .error (.emptyArgument text)
    | some params =>
        .ok ⟨text, TypeGlob.ofChars owner, NameGlob.ofChars name,
          params, overrides⟩

end MethodPattern

end JavaRefit
