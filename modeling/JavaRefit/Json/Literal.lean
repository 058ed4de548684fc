/-
The text of a JSON value inside a message.

Null, true and false have the spellings `None`, `True` and `False`,
strings are quoted as in every message, arrays and objects have a blank
after each comma and colon. A number with a fraction or an exponent is
the shortest decimal that reads back, positional from `1e-4` up to below
`1e16` and always with a point there, else with an exponent of a sign
and at least two digits.

Chain: JSON layer, after `Basic`; read by the messages about class stubs.
-/
import JavaRefit.Decimal.Shortest
import JavaRefit.Json.Basic
import JavaRefit.Text.Quoted

namespace JavaRefit.Json

/-- Which exponents of the first digit are written positionally: from this
one. -/
def positionalFrom : Int := -4

/-- Which exponents of the first digit are written positionally: below this
one. -/
def positionalBelow : Int := 16

/-- The digits of a decimal without the zeros at its end, but at least one. -/
private def significant (n : Nat) : List Char :=
  let ds := ((Nat.toDigits 10 n).reverse.dropWhile (· == '0')).reverse
  if ds.isEmpty then ['0'] else ds

/-- A positive decimal as text. -/
def decimalText (d : Decimal.Scientific) : List Char :=
  let ds := significant d.digits
  if positionalFrom ≤ d.exponent ∧ d.exponent < positionalBelow then
    if d.exponent < 0 then
      '0' :: '.' :: List.replicate ((-d.exponent).toNat - 1) '0' ++ ds
    else
      let whole := d.exponent.toNat + 1
      let padded := ds ++ List.replicate (whole - ds.length) '0'
      let fraction := padded.drop whole
      padded.take whole ++ '.' :: (if fraction.isEmpty then ['0'] else fraction)
  else
    let mantissa :=
      ds.take 1 ++ (if ds.length > 1 then '.' :: ds.drop 1 else [])
    let e := Nat.toDigits 10 d.exponent.natAbs
    mantissa ++ 'e' :: (if d.exponent < 0 then '-' else '+') ::
      (if e.length < 2 then '0' :: e else e)

/-- A number with a fraction or an exponent as text. -/
def realText (x : Float) : List Char :=
  match Decimal.shape x with
  | .nan => "nan".toList
  | .infinite negative => (if negative then "-inf" else "inf").toList
  | .finite negative m q narrow =>
    let body := if m = 0 then "0.0".toList
      else decimalText (Decimal.shortest m q narrow)
    if negative then '-' :: body else body

mutual
/-- The text of a value in a message. -/
def literal : Json → String
  | .null => "None"
  | .bool b => if b then "True" else "False"
  | .int n => toString n
  | .real x => String.ofList (realText x)
  | .str s => Text.quotedEscaped s
  | .arr items => "[" ++ String.intercalate ", " (literalItems items) ++ "]"
  | .obj fields =>
      "\x7b" ++ String.intercalate ", " (literalFields fields) ++ "\x7d"

/-- The texts of the items of an array. -/
def literalItems : List Json → List String
  | [] => []
  | v :: vs => literal v :: literalItems vs

/-- The texts of the fields of an object. -/
def literalFields : List (String × Json) → List String
  | [] => []
  | f :: fs =>
      (Text.quotedEscaped f.1 ++ ": " ++ literal f.2) :: literalFields fs
end

end JavaRefit.Json
