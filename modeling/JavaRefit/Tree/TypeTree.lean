/-
Types as they are written.

Chain: tree layer, after `Name`; read by expressions (`new`) and
declarations.
-/
import JavaRefit.Tree.Name

namespace JavaRefit

/-- A written type: a name, a name with type arguments, a primitive, an array,
or the alternatives of a catch parameter. The trivia of `dimension` stands
before `[` and before `]`. -/
inductive TypeTree where
  | named (name : Name)
  | generic (lead : Trivia) (base : Name) (args : Container TypeTree)
      (type : Option JavaType)
  | primitive (lead : Trivia) (keyword : Primitive) (type : Option JavaType)
  | array (lead : Trivia) (element : TypeTree) (dimension : LeftPadded Trivia)
    (type : Option JavaType)
  | union (lead : Trivia) (alternatives : List (RightPadded TypeTree))

namespace TypeTree

/-- The trivia in front. -/
def lead : TypeTree → Trivia
  | named name => name.lead
  | generic lead _ _ _ => lead
  | primitive lead _ _ => lead
  | array lead _ _ _ => lead
  | union lead _ => lead

/-- The type tree with other trivia in front. -/
def withLead (lead : Trivia) : TypeTree → TypeTree
  | named name => named (name.withLead lead)
  | generic _ base args type => generic lead base args type
  | primitive _ keyword type => primitive lead keyword type
  | array _ element dimension type => array lead element dimension type
  | union _ alternatives => union lead alternatives

/-- The type it was found to mean; alternatives together mean none. -/
def type : TypeTree → Option JavaType
  | named name => name.type
  | generic _ _ _ type => type
  | primitive _ _ type => type
  | array _ _ _ type => type
  | union _ _ => none

end TypeTree

end JavaRefit
