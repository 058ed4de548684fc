/-
JSON values written compactly: no blanks, keys in the order of their code
points, and every character outside printable ASCII by its UTF-16 units.

Chain: JSON layer, after `Basic`; read by the reports of the command
line.
-/
import JavaRefit.Json.Basic
import JavaRefit.Text.Quoted

namespace JavaRefit.Json

/-- One UTF-16 unit as an escape. -/
private def unitEscape (n : Nat) : List Char :=
  '\\' :: 'u' :: Text.hexDigits 4 n

/-- One code point inside a written string. -/
def writtenCode (n : Nat) : List Char :=
  if n = '"'.toNat ∨ n = '\\'.toNat then ['\\', Char.ofNat n]
  else if n = '\n'.toNat then ['\\', 'n']
  else if n = '\r'.toNat then ['\\', 'r']
  else if n = '\t'.toNat then ['\\', 't']
  else if n = 0x08 then ['\\', 'b']
  else if n = 0x0C then ['\\', 'f']
  else if 0x20 ≤ n ∧ n ≤ 0x7E then [Char.ofNat n]
  else if n < 0x10000 then unitEscape n
  else unitEscape (0xD800 + (n - 0x10000) / 0x400) ++
    unitEscape (0xDC00 + (n - 0x10000) % 0x400)

/-- A text in front of what follows it; so no part of a long text is copied
once more for each value around it. -/
abbrev Written := List Char → List Char

/-- A written string. -/
def writtenString (s : String) : Written :=
  fun rest =>
    '"' :: (Text.codePoints s.toList).foldr (fun n cs => writtenCode n ++ cs)
      ('"' :: rest)

/-- Texts with commas between them. -/
def commaJoin : List Written → Written
  | [] => id
  | [w] => w
  | w :: ws => fun rest => w (',' :: commaJoin ws rest)

/-- A key with its written value. -/
private def writtenField (f : String × Written) : Written :=
  fun rest => writtenString f.1 (':' :: f.2 rest)

mutual
/-- The written form of a value. Numbers that are not whole have no place in a
report and are written as null. -/
def written : Json → Written
  | .null => ("null".toList ++ ·)
  | .bool b => ((if b then "true" else "false").toList ++ ·)
  | .int n => ((toString n).toList ++ ·)
  | .real _ => ("null".toList ++ ·)
  | .str s => writtenString s
  | .arr items =>
    let pieces := writtenItems items
    fun rest => '[' :: commaJoin pieces (']' :: rest)
  | .obj fields =>
    let pieces := (writtenFields fields).mergeSort fun a b => decide (a.1 ≤ b.1)
    fun rest => '\x7b' :: commaJoin (pieces.map writtenField) ('\x7d' :: rest)

/-- The written items of an array. -/
def writtenItems : List Json → List Written
  | [] => []
  | v :: vs => written v :: writtenItems vs

/-- The keys of an object with their written values. -/
def writtenFields : List (String × Json) → List (String × Written)
  | [] => []
  | f :: fs => (f.1, written f.2) :: writtenFields fs
end

/-- The text of a value. -/
def render (v : Json) : String :=
  String.ofList (written v [])

end JavaRefit.Json
