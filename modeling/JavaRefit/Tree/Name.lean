/-
Names as they are written: single identifiers and dotted chains.

A chain `a.b.C` keeps the trivia around its dots, and the trivia in front
of the whole chain belongs to its outermost step. A name may have the
type that was found for it; the single words in it have none.

Chain: tree layer, after `Padding`; read by type trees, expressions and
declarations.
-/
import JavaRefit.JavaType
import JavaRefit.Tree.Padding

namespace JavaRefit

/-- A single word that names something. -/
structure Ident where
  lead : Trivia
  name : String
deriving DecidableEq, Repr

/-- A dotted name. -/
inductive Name where
  | simple (ident : Ident) (type : Option JavaType)
  | qualified (lead : Trivia) (outer : Name) (last : LeftPadded Ident)
      (type : Option JavaType)

namespace Name

/-- The trivia in front. -/
def lead : Name → Trivia
  | simple i _ => i.lead
  | qualified lead _ _ _ => lead

/-- The name with other trivia in front. -/
def withLead (lead : Trivia) : Name → Name
  | simple i type => simple ⟨lead, i.name⟩ type
  | qualified _ outer last type => qualified lead outer last type

/-- The type found for the whole name. -/
def type : Name → Option JavaType
  | simple _ type => type
  | qualified _ _ _ type => type

/-- The name with another type. -/
def withType (type : Option JavaType) : Name → Name
  | simple i _ => simple i type
  | qualified lead outer last _ => qualified lead outer last type

/-- The last word. -/
def last : Name → String
  | simple i _ => i.name
  | qualified _ _ last _ => last.element.name

/-- The words with dots between them and nothing else. -/
def dotted : Name → String
  | simple i _ => i.name
  | qualified _ outer last _ => outer.dotted ++ "." ++ last.element.name

/-- What the last word of a chain stands after; a single word stands after
nothing. -/
def outer? : Name → Option Name
  | simple _ _ => none
  | qualified _ outer _ _ => some outer

/-- A chain of words with no trivia between them. -/
def ofSegments (first : String) (rest : List String) : Name :=
  rest.foldl (fun outer word => qualified "" outer ⟨"", ⟨"", word⟩⟩ none)
    (simple ⟨"", first⟩ none)

/-- The chain that spells a dotted name. -/
def ofDotted (fqn : String) : Name :=
  match Text.segments fqn with
  | [] => simple ⟨"", ""⟩ none
  | first :: rest => ofSegments first rest

end Name

end JavaRefit
