/-
The shortest decimal that reads back as a given double.

A finite double is `m · 2^q`; the reals that round to it form an
interval around it, ends included iff `m` is even. Among the decimals of
one digit, then two, and so on up to seventeen, the first grid with a
point in that interval wins; of two such points the nearer one, and of
two equally near ones the even one. All arithmetic is on naturals.

Chain: number layer; read by the text of a JSON value (`Json.Literal`).
-/
namespace JavaRefit.Decimal

/-- A power of two. -/
def twoTo (n : Nat) : Nat := Nat.pow 2 n

/-- A power of ten. -/
def tenTo (n : Nat) : Nat := Nat.pow 10 n

/-- A positive real as a quotient. -/
structure Ratio where
  num : Nat
  den : Nat

/-- A decimal `digits · 10^exponent`, where `exponent` is that of the first
digit. -/
structure Scientific where
  digits : Nat
  exponent : Int

/-- What a double is. -/
inductive Shape where
  | nan
  | infinite (negative : Bool)
  | finite (negative : Bool) (mantissa : Nat) (exponent : Int) (narrow : Bool)

/-- Reads the sign, exponent and fraction fields of a double. A power of two
above the smallest has a narrower gap below it than above. -/
def shape (x : Float) : Shape :=
  let bits := x.toBits.toNat
  let negative := decide (bits / twoTo 63 = 1)
  let e : Nat := bits / twoTo 52 % twoTo 11
  let f : Nat := bits % twoTo 52
  if e = 2047 then (if f = 0 then .infinite negative else .nan)
  else if e = 0 then .finite negative f (-1074) false
  else .finite negative (twoTo 52 + f) ((e : Int) - 1075)
    (decide (f = 0) && decide (1 < e))

/-- `n · 2^q` as a quotient. -/
private def scale (n : Nat) (q : Int) : Ratio :=
  if 0 ≤ q then ⟨n * twoTo q.toNat, 1⟩ else ⟨n, twoTo (-q).toNat⟩

/-- The exponent of the first digit of a positive quotient. -/
private def firstExponent (v : Ratio) : Int :=
  if v.den ≤ v.num then ((Nat.toDigits 10 (v.num / v.den)).length : Int) - 1
  else
    let shift : Nat :=
      ((List.range 400).find? fun j => v.den ≤ v.num * tenTo j).getD 400
    Int.negOfNat shift

/-- `n / d` to the two sides: the quotient, and whether there is a rest. -/
private def gridBelow (v : Ratio) (step : Int) : Nat × Ratio :=
  let n := if step < 0 then v.num * tenTo (-step).toNat else v.num
  let d := if step < 0 then v.den else v.den * tenTo step.toNat
  (n / d, ⟨n % d, d⟩)

/-- The point `p` of the grid `10^step` lies in the interval. -/
private def within (lo hi : Ratio) (closed : Bool) (step : Int)
    (p : Nat) : Bool :=
  let n := if 0 ≤ step then p * tenTo step.toNat else p
  let d := if 0 ≤ step then 1 else tenTo (-step).toNat
  if closed then lo.num * d ≤ n * lo.den && n * hi.den ≤ hi.num * d
  else lo.num * d < n * lo.den && n * hi.den < hi.num * d

/-- The winner among the two neighbours of the value on the grid of `count`
digits. -/
private def pick (v lo hi : Ratio) (closed : Bool) (first : Int) (count : Nat) :
    Option Scientific :=
  let step := first - (count : Int) + 1
  let (below, rest) := gridBelow v step
  let above := below + 1
  let inBelow := within lo hi closed step below && 0 < below
  let inAbove := within lo hi closed step above
  let nearBelow := decide (2 * rest.num < rest.den) ||
    (decide (2 * rest.num = rest.den) && below % 2 = 0)
  let chosen :=
    if inBelow && (rest.num = 0 || nearBelow || !inAbove) then some below
    else if inAbove then some above
    else none
  chosen.map fun p =>
    if tenTo count ≤ p then ⟨p / 10, first + 1⟩ else ⟨p, first⟩

/-- The shortest decimal that reads back as the positive double `mantissa ·
2^exponent`. -/
def shortest (mantissa : Nat) (exponent : Int) (narrow : Bool) : Scientific :=
  let v := scale (4 * mantissa) (exponent - 2)
  let lo := scale (4 * mantissa - if narrow then 1 else 2) (exponent - 2)
  let hi := scale (4 * mantissa + 2) (exponent - 2)
  let first := firstExponent v
  (((List.range 17).map (· + 1)).findSome?
    (pick v lo hi (mantissa % 2 = 0) first)).getD ⟨0, 0⟩

end JavaRefit.Decimal
