/-
Words of the language and the trivia in front of them.

A text is a run of tokens, some trivia after the last of them, and
nothing else unless a character comes that starts no word.

Chain: between the tree and the parser; `Token.Scan` makes tokens from
characters, the parser makes trees from tokens.
-/
import JavaRefit.Tree.Padding
import JavaRefit.Text.Dotted

namespace JavaRefit

/-- A word: a name, a reserved name, a string, character or number, or a
symbol. -/
inductive Word where
  | name (text : String)
  | keyword (text : String)
  | literal (text : String)
  | symbol (text : String)
deriving DecidableEq, Repr

/-- The characters of a word. -/
def Word.text : Word → String
  | name text => text
  | keyword text => text
  | literal text => text
  | symbol text => text

/-- A word with the trivia in front of it. -/
structure Token where
  lead : Trivia
  word : Word
deriving DecidableEq, Repr

namespace Token

/-- The characters of a token, trivia included. -/
def text (t : Token) : String :=
  t.lead ++ t.word.text

/-- The modifier keywords. -/
def modifierWords : List String :=
  ["public", "protected", "private", "static", "final", "abstract",
    "synchronized", "native",
   "transient", "volatile", "default"]

/-- The names of the literals. -/
def literalWords : List String :=
  ["true", "false", "null"]

/-- The keywords of primitive types; `void` is not among them, since
no variable has it. -/
def primitiveWords : List String :=
  ["boolean", "byte", "char", "short", "int", "long", "float", "double"]

/-- The names that are reserved. Every other name is free, whatever the full
language says. -/
def reserved : List String :=
  modifierWords ++ literalWords ++ primitiveWords ++
  ["void", "this", "package", "import", "class", "interface", "extends",
    "implements", "throws",
   "try", "catch", "finally", "throw", "return", "if", "else", "while", "new"]

end Token

/-- A text cut into tokens. `stop` is the first character that starts no word,
if there is one; `tail` is the trivia in front of it, or at the end of the
text. -/
structure TokenRun where
  tokens : List Token
  tail : Trivia
  stop : Option Char
deriving DecidableEq, Repr

namespace TokenRun

/-- The characters of some tokens. -/
def textOf (ts : List Token) : String :=
  String.join (ts.map Token.text)

/-- The place after some of the tokens and the trivia that follows them. -/
def locationAfter (read : List Token) (lead : Trivia) : Text.Location :=
  Text.Location.after (textOf read ++ lead).toList

end TokenRun

end JavaRefit
