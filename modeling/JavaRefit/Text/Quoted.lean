/-
Texts quoted for a message.

A quoted text stands between single quotes, or between double quotes
when it holds a single quote and no double one. Inside, the quote in use
and the backslash are escaped by a backslash, line feed, carriage return
and tab have their letters, and every other unprintable character is
written by its code point in two, four or eight hexadecimal digits.

A text that came with escapes may have halves of characters in it. They
count as unprintable and are written by their units.

Chain: text layer, after `Printable` and `Surrogate`; read by every
message that shows a piece of the input.
-/
import JavaRefit.Text.Printable
import JavaRefit.Text.Surrogate

namespace JavaRefit.Text

/-- The last `width` hexadecimal digits of a number, in lower case. -/
def hexDigits : Nat → Nat → List Char
  | 0, _ => []
  | width + 1, n => hexDigits width (n / 16) ++ [Nat.digitChar (n % 16)]

/-- The quote a text is put between. -/
def quoteFor (cs : List Char) : Char :=
  if cs.contains '\'' && !cs.contains '"' then '"' else '\''

/-- An unprintable character by its code point, in the narrowest of the
three forms. -/
def escapeCode (n : Nat) : List Char :=
  if n < 0x100 then '\\' :: 'x' :: hexDigits 2 n
  else if n < 0x10000 then '\\' :: 'u' :: hexDigits 4 n
  else '\\' :: 'U' :: hexDigits 8 n

/-- One character inside the quote `q`. -/
def quotedChar (q c : Char) : List Char :=
  if c = q ∨ c = '\\' then ['\\', c]
  else if c = '\n' then ['\\', 'n']
  else if c = '\r' then ['\\', 'r']
  else if c = '\t' then ['\\', 't']
  else if isPrintable c then [c]
  else escapeCode c.toNat

/-- A text as a message quotes it. -/
def quoted (s : String) : String :=
  let q := quoteFor s.toList
  String.ofList (q :: s.toList.flatMap (quotedChar q) ++ [q])

/-- One code point inside the quote `q`. -/
def quotedCode (q : Char) (n : Nat) : List Char :=
  if isSurrogate n then escapeCode n else quotedChar q (Char.ofNat n)

/-- A text that came with escapes, as a message quotes it. -/
def quotedEscaped (s : String) : String :=
  let q := quoteFor s.toList
  String.ofList (q :: (codePoints s.toList).flatMap (quotedCode q) ++ [q])

/-- A text with each half of a character in it written by its unit, as it
is printed where nothing may fail. -/
def withoutHalves (s : String) : String :=
  String.ofList ((codePoints s.toList).flatMap fun n =>
    if isSurrogate n then escapeCode n else [Char.ofNat n])

end JavaRefit.Text
