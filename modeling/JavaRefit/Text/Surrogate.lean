/-
Halves of UTF-16 pairs that stand alone.

A text with escapes can name a unit that is only half of a character. No
character is that half. So two stand in for it: U+10FFFF, which is no
character of any text by its definition, and behind it the character for
private use 0xF0000 above the unit. Wherever such a text is compared,
quoted or written, what counts are its code points: of a stand-in the
unit, of every other character its own. No encoding has a code for a half,
so a text with one can be neither printed nor written to a file.

Chain: first of the text layer; read by quoting, by the JSON layer and by
the command line.
-/
namespace JavaRefit.Text

/-- The unit is the first half of a pair. -/
def isHighSurrogate (unit : Nat) : Bool :=
  0xD800 ≤ unit && unit < 0xDC00

/-- The unit is the second half of a pair. -/
def isLowSurrogate (unit : Nat) : Bool :=
  0xDC00 ≤ unit && unit < 0xE000

/-- The unit is a half of either sort. -/
def isSurrogate (unit : Nat) : Bool :=
  0xD800 ≤ unit && unit < 0xE000

/-- The first of the two characters that stand in for a half. -/
def standInMark : Char := Char.ofNat 0x10FFFF

/-- How far above a half the second of them lies. -/
def surrogateShift : Nat := 0xF0000

/-- The characters of a unit; a half has two that stand in for it. -/
def ofUnit (unit : Nat) : List Char :=
  if isSurrogate unit then [standInMark, Char.ofNat (surrogateShift + unit)]
  else [Char.ofNat unit]

/-- The character of a pair. -/
def ofPair (high low : Nat) : Char :=
  Char.ofNat (0x10000 + (high - 0xD800) * 0x400 + (low - 0xDC00))

/-- The half that two characters stand in for. -/
def half? (c d : Char) : Option Nat :=
  let unit := d.toNat - surrogateShift
  if c = standInMark ∧ isSurrogate unit then some unit else none

/-- The code points of a text. -/
def codePoints : List Char → List Nat
  | [] => []
  | [c] => [c.toNat]
  | c :: d :: cs =>
    match half? c d with
    | some unit => unit :: codePoints cs
    | none => c.toNat :: codePoints (d :: cs)

/-- The text has no half in it. -/
def isEncodable (s : String) : Bool :=
  (codePoints s.toList).all fun n => !isSurrogate n

/-- One list of code points comes before another or is the same. -/
def listedBefore : List Nat → List Nat → Bool
  | [], _ => true
  | _ :: _, [] => false
  | a :: as, b :: bs =>
    if a = b then listedBefore as bs else decide (a < b)

/-- The order of texts by their code points. -/
def comesBefore (as bs : List Char) : Bool :=
  listedBefore (codePoints as) (codePoints bs)

/-- The code point of a character made from a valid one. -/
theorem toNat_ofNat_of_valid {n : Nat} (h : n.isValidChar) :
    (Char.ofNat n).toNat = n := by
  rw [Char.ofNat, dif_pos h]
  rfl

/-- Every unit is the one code point of what it becomes. -/
theorem codePoints_ofUnit {unit : Nat} (h : unit < 0x10000) :
    codePoints (ofUnit unit) = [unit] := by
  unfold ofUnit
  by_cases half : isSurrogate unit
  · have range : 0xD800 ≤ unit ∧ unit < 0xE000 := by
      simpa [isSurrogate] using half
    have value : (Char.ofNat (surrogateShift + unit)).toNat
        = surrogateShift + unit := by
      apply toNat_ofNat_of_valid
      exact Or.inr ⟨by simp only [surrogateShift]; omega,
        by simp only [surrogateShift]; omega⟩
    have stands : half? standInMark (Char.ofNat (surrogateShift + unit))
        = some unit := by
      dsimp only [half?]
      rw [value, Nat.add_sub_cancel_left]
      exact if_pos ⟨rfl, half⟩
    rw [if_pos half, codePoints, stands]
    rfl
  · have range : ¬(0xD800 ≤ unit ∧ unit < 0xE000) := by
      simpa [isSurrogate] using half
    have value : (Char.ofNat unit).toNat = unit := by
      apply toNat_ofNat_of_valid
      by_cases low : unit < 0xD800
      · exact Or.inl low
      · exact Or.inr ⟨by omega, by omega⟩
    rw [if_neg half, codePoints, value]

/-- A text without the mark has the code points of its characters. -/
theorem codePoints_of_not_mem {cs : List Char} (h : standInMark ∉ cs) :
    codePoints cs = cs.map Char.toNat := by
  fun_induction codePoints cs with
  | case1 => rfl
  | case2 => rfl
  | case3 c d cs unit hhalf ih =>
      dsimp only [half?] at hhalf
      split at hhalf
      next hmark => exact absurd (hmark.1 ▸ List.mem_cons_self) h
      next => cases hhalf
  | case4 c d cs hhalf ih =>
      rw [ih fun hd => h (List.mem_cons_of_mem c hd)]
      rfl

end JavaRefit.Text
