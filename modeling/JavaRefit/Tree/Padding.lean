/-
Where the trivia between the words of a text is kept.

Trivia is the text of blanks and comments. The node that starts with a
word keeps the trivia in front of it; the trivia in front of a separator
is kept by one of the wrappers here, beside the element that the
separator follows or precedes. No delimiter is kept: the printer knows
them.

Chain: first of the tree layer.
-/
namespace JavaRefit

/-- The text of the blanks and comments in front of a word. -/
abbrev Trivia := String

/-- An element with the trivia in front of the separator that follows it. -/
structure RightPadded (α : Type) where
  element : α
  after : Trivia

/-- An element with the trivia in front of the separator that precedes it. -/
structure LeftPadded (α : Type) where
  before : Trivia
  element : α

/-- A list of elements after a delimiter or keyword. The trivia in front of the
closing delimiter belongs to the last element, and is `close` when there is
none. -/
structure Container (α : Type) where
  before : Trivia
  elements : List (RightPadded α)
  close : Trivia

/-- Something between parentheses. -/
structure Parens (α : Type) where
  lead : Trivia
  inner : RightPadded α

/-- Statements or members between braces. -/
structure Block (α : Type) where
  lead : Trivia
  statements : List (RightPadded α)
  close : Trivia

namespace Container

/-- The elements without their padding. -/
def items {α : Type} (c : Container α) : List α :=
  c.elements.map RightPadded.element

end Container

/-- The last of some padded elements with other trivia after it. -/
def RightPadded.closeLast {α : Type} (after : Trivia) : List (RightPadded α) →
    List (RightPadded α)
  | [] => []
  | [p] => [⟨p.element, after⟩]
  | p :: ps => p :: closeLast after ps

end JavaRefit
