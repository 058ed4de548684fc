/-
Dotted names, lines and other texts cut at a separator.

The simple name of `a.b.C` is `C`, its package `a.b`; a name without a
dot is its own simple name and has the empty package.

Lines end as files spell it: with a line feed, a carriage return or both.

Chain: text layer; read by types, by tokens, whose failures are told by
lines and columns, and by the command line, which reads files with any
line end.
-/
namespace JavaRefit.Text

-- ============================================================ dotted names

/-- The pieces between the occurrences of a separator; always at least one
piece. -/
def splitAtEach (sep : Char) : List Char → List (List Char)
  | [] => [[]]
  | c :: cs =>
    if c = sep then [] :: splitAtEach sep cs
    else match splitAtEach sep cs with
      | [] => [[c]]
      | p :: ps => (c :: p) :: ps

/-- The segments of a dotted name. -/
def segments (name : String) : List String :=
  (splitAtEach '.' name.toList).map String.ofList

/-- What follows the last dot. -/
def simpleName (name : String) : String :=
  String.ofList (name.toList.reverse.takeWhile (· != '.')).reverse

/-- What precedes the last dot; empty without one. -/
def packageName (name : String) : String :=
  String.ofList ((name.toList.reverse.dropWhile (· != '.')).drop 1).reverse

/-- What precedes the first dot. -/
def headSegment (name : String) : String :=
  String.ofList (name.toList.takeWhile (· != '.'))

/-- What follows the first dot; empty without one. -/
def tailSegments (name : String) : String :=
  String.ofList ((name.toList.dropWhile (· != '.')).drop 1)

/-- A simple name inside a package or class; alone when that is the empty
one. -/
def qualify (outer simple : String) : String :=
  if outer = "" then simple else outer ++ "." ++ simple

-- =================================================================== lines

/-- The text with each carriage return, and the line feed that may follow it,
made one line feed. -/
def unifyLineEnds : List Char → List Char
  | [] => []
  | '\r' :: '\n' :: cs => '\n' :: unifyLineEnds cs
  | c :: cs => (if c = '\r' then '\n' else c) :: unifyLineEnds cs

/-- A place in a text; lines and columns count from one. -/
structure Location where
  line : Int
  column : Int
deriving DecidableEq, Repr

/-- The place right after a text: one more than its line feeds, and one more
than the characters since the last of them. -/
def Location.after (cs : List Char) : Location :=
  ⟨1 + cs.count '\n', 1 + (cs.reverse.takeWhile (· != '\n')).length⟩

end JavaRefit.Text
