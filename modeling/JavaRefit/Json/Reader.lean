/-
Reading a JSON document.

The whole text is one value between blanks (space, tab, line feed,
carriage return). Beyond the standard `NaN`, `Infinity` and `-Infinity`
are numbers; a control character inside a string, a byte order mark in
front and anything after the value are refused. So is a whole number of
more than 4300 digits, for a reason of its own. Of two faults the first in
the text is the reason.

The readers of values, items and fields call each other on what is left,
which each time is shorter; so the length of the text, plus one, bounds
the depth of the calls.

Chain: JSON layer, after `Basic`; read by the command line for rule
options and class stubs.
-/
import JavaRefit.Json.Basic
import JavaRefit.Text.Surrogate

namespace JavaRefit.Json

-- ============================================================ refusals

/-- Why a text is refused. -/
inductive Refusal where
  | malformed
  /-- A whole number has so many digits, more than there may be. -/
  | tooLong (digits : Nat)
deriving DecidableEq, Repr

/-- How many digits a whole number may have. -/
def digitLimit : Nat := 4300

/-- The wording. -/
def Refusal.message : Refusal → String
  | malformed => "invalid JSON"
  | tooLong digits =>
    "Exceeds the limit (" ++ toString digitLimit ++
      " digits) for integer string conversion: " ++
      "value has " ++ toString digits ++
        " digits; use sys.set_int_max_str_digits() to " ++
      "increase the limit"

/-- The text is no document. -/
private def refuse {α : Type} : Except Refusal α := .error .malformed

-- ===================================================== blanks and words

/-- A blank between two parts of a document. -/
private def isGap (c : Char) : Bool :=
  c == ' ' || c == '\t' || c == '\n' || c == '\r'

/-- What follows the blanks. -/
private def skipGap (cs : List Char) : List Char :=
  cs.dropWhile isGap

/-- A value that a word stands for, if the text starts with the word. -/
private def readWord (v : Json) : List Char → List Char →
    Except Refusal (Json × List Char)
  | [], cs => .ok (v, cs)
  | w :: ws, c :: cs => if w = c then readWord v ws cs else refuse
  | _ :: _, [] => refuse

-- ============================================================== strings

/-- The value of a hexadecimal digit. -/
private def hexValue (c : Char) : Option Nat :=
  if '0' ≤ c ∧ c ≤ '9' then some (c.toNat - 48)
  else if 'a' ≤ c ∧ c ≤ 'f' then some (c.toNat - 87)
  else if 'A' ≤ c ∧ c ≤ 'F' then some (c.toNat - 55)
  else none

/-- Four hexadecimal digits in front of a text. -/
private def hexUnit : List Char → Option (Nat × List Char)
  | a :: b :: c :: d :: cs => do
    let n := (← hexValue a) * 4096 + (← hexValue b) * 256 + (← hexValue c) *
      16 + (← hexValue d)
    return (n, cs)
  | _ => none

/-- The character a two-character escape stands for. -/
private def shortEscape (c : Char) : Option Char :=
  if c = '"' ∨ c = '\\' ∨ c = '/' then some c
  else if c = 'b' then some '\x08'
  else if c = 'f' then some '\x0c'
  else if c = 'n' then some '\n'
  else if c = 'r' then some '\r'
  else if c = 't' then some '\t'
  else none

/-- The characters of a UTF-16 unit, together with the unit after it when the
two are a pair. -/
private def unitChars (unit : Nat) (cs : List Char) : List Char × List Char :=
  match cs with
  | '\\' :: 'u' :: rest =>
    match hexUnit rest with
    | some (next, after) =>
      if Text.isHighSurrogate unit && Text.isLowSurrogate
        next then ([Text.ofPair unit next], after)
      else (Text.ofUnit unit, cs)
    | none => (Text.ofUnit unit, cs)
  | _ => (Text.ofUnit unit, cs)

/-- The rest of a string after its opening quote, with what was read so far in
reverse. -/
private def stringRest : Nat → List Char → List Char →
    Except Refusal (String × List Char)
  | 0, _, _ => refuse
  | _ + 1, _, [] => refuse
  | n + 1, done, c :: cs =>
    if c = '"' then .ok (String.ofList done.reverse, cs)
    else if c = '\\' then
      match cs with
      | 'u' :: rest =>
        match hexUnit rest with
        | some (unit, after) =>
          let (chars, left) := unitChars unit after
          stringRest n (chars.reverse ++ done) left
        | none => refuse
      | e :: rest =>
        match shortEscape e with
        | some ch => stringRest n (ch :: done) rest
        | none => refuse
      | [] => refuse
    else if c.toNat < 0x20 then refuse
    else stringRest n (c :: done) cs

-- ============================================================== numbers

/-- The digits in front of a text, and what follows them. -/
private def spanDigits (cs : List Char) : List Char × List Char :=
  (cs.takeWhile Char.isDigit, cs.dropWhile Char.isDigit)

/-- The number that digits spell. -/
private def digitsValue (ds : List Char) : Nat :=
  ds.foldl (fun n c => n * 10 + (c.toNat - 48)) 0

/-- The double nearest to `mantissa · 10^exponent`. -/
private def nearestDouble (negative : Bool) (mantissa : Nat)
    (exponent : Int) : Float :=
  let size := ((Nat.toDigits 10 mantissa).length : Int) + exponent
  let x :=
    if mantissa = 0 ∨ size < -400 then 0.0
    else if 400 < size then 1.0 / 0.0
    else Float.ofScientific mantissa (exponent < 0) exponent.natAbs
  if negative then -x else x

/-- The part after the point, if there is one with a digit in it. -/
private def fractionPart (cs : List Char) : List Char × List Char :=
  match cs with
  | '.' :: rest =>
      let (ds, after) := spanDigits rest; if ds.isEmpty then ([], cs)
        else (ds, after)
  | _ => ([], cs)

/-- The exponent, if there is one with a digit in it. -/
private def exponentPart (cs : List Char) : Option Int × List Char :=
  match cs with
  | e :: rest =>
    if e = 'e' ∨ e = 'E' then
      let (negative, body) := match rest with
        | '-' :: r => (true, r)
        | '+' :: r => (false, r)
        | r => (false, r)
      let (ds, after) := spanDigits body
      if ds.isEmpty then (none, cs)
      else
        let n : Int := digitsValue ds
        (some (if negative then -n else n), after)
    else (none, cs)
  | [] => (none, cs)

/-- A number in front of a text: a zero or digits that start with none, then
perhaps a fraction and an exponent. -/
private def number (negative : Bool) (cs : List Char) :
    Except Refusal (Json × List Char) :=
  let (whole, afterWhole) := match cs with
    | '0' :: rest => (['0'], rest)
    | _ => spanDigits cs
  if whole.isEmpty then refuse
  else
    let (fraction, afterFraction) := fractionPart afterWhole
    let (exponent, rest) := exponentPart afterFraction
    if fraction.isEmpty && exponent.isNone then
      if digitLimit < whole.length then .error (.tooLong whole.length)
      else
        let n : Int := digitsValue whole
        .ok (.int (if negative then -n else n), rest)
    else
      let shift : Int := exponent.getD 0 - (fraction.length : Int)
      .ok (.real (nearestDouble negative (digitsValue (whole ++ fraction))
        shift), rest)

-- =============================================================== values

mutual
/-- A value in front of a text. -/
private def value : Nat → List Char → Except Refusal (Json × List Char)
  | 0, _ => refuse
  | n + 1, cs =>
    match cs with
    | '"' :: rest => do
      let (s, after) ← stringRest n [] rest
      return (.str s, after)
    | '\x7b' :: rest =>
      match skipGap rest with
      | '\x7d' :: after => .ok (.obj [], after)
      | inner => fields n [] inner
    | '[' :: rest =>
      match skipGap rest with
      | ']' :: after => .ok (.arr [], after)
      | inner => items n [] inner
    | 'n' :: _ => readWord .null "null".toList cs
    | 't' :: _ => readWord (.bool true) "true".toList cs
    | 'f' :: _ => readWord (.bool false) "false".toList cs
    | 'N' :: _ => readWord (.real (0.0 / 0.0)) "NaN".toList cs
    | 'I' :: _ => readWord (.real (1.0 / 0.0)) "Infinity".toList cs
    | '-' :: 'I' :: _ => readWord (.real (-1.0 / 0.0)) "-Infinity".toList cs
    | '-' :: rest => number true rest
    | _ => number false cs

/-- The items of an array from one of them on, after those already read, the
last of them first. -/
private def items : Nat → List Json → List Char →
    Except Refusal (Json × List Char)
  | 0, _, _ => refuse
  | n + 1, done, cs => do
    let (v, after) ← value n cs
    match skipGap after with
    | ',' :: rest => items n (v :: done) (skipGap rest)
    | ']' :: rest => return (.arr (v :: done).reverse, rest)
    | _ => refuse

/-- The fields of an object from one of them on, after those already read. -/
private def fields : Nat → List (String × Json) → List Char →
    Except Refusal (Json × List Char)
  | 0, _, _ => refuse
  | n + 1, done, cs => do
    match cs with
    | '"' :: rest =>
      let (key, afterKey) ← stringRest n [] rest
      match skipGap afterKey with
      | ':' :: afterColon =>
        let (v, after) ← value n (skipGap afterColon)
        match skipGap after with
        | ',' :: more => fields n (insert key v done) (skipGap more)
        | '\x7d' :: more => return (.obj (insert key v done), more)
        | _ => refuse
      | _ => refuse
    | _ => refuse
end

/-- The value a document holds, or why the text is no document. -/
def parse (text : String) : Except Refusal Json := do
  let cs := text.toList
  let (v, rest) ← value (cs.length + 1) (skipGap cs)
  if (skipGap rest).isEmpty then return v else refuse

end JavaRefit.Json
