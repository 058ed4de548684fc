/-
Patterns for the signatures of methods and constructors.

A pattern has one part for the declaring class, one for the name and one
for each parameter. In a class or parameter `*` stands for any run of
characters without a dot, and `..` for a dot and then any number of
segments, each with a dot after it. In a name `*` stands for any run of
characters in one line. The parameter `..` stands for any run of
parameters.

Chain: after the walk of a tree; `Reader` makes patterns of text, and the
catch rule looks for calls and constructions with them.
-/
import JavaRefit.Tree.Walk

namespace JavaRefit

-- ================================================================= types

/-- An item of a pattern for class names. -/
inductive TypeGlob where
  | literal (c : Char)
  | inSegment
  | segments
deriving DecidableEq, Repr

namespace TypeGlob

/-- What can be left of a text after a run of characters without a dot. -/
def afterRun : List Char → List (List Char)
  | [] => [[]]
  | c :: cs => (c :: cs) :: if c = '.' then [] else afterRun cs

/-- What can be left of a text after segments that end in a dot. `inside` tells
whether a segment has begun. -/
def afterSegments : Bool → List Char → List (List Char)
  | inside, [] => if inside then [] else [[]]
  | inside, c :: cs =>
    (if inside then [] else [c :: cs]) ++
      (if c = '.' then (if inside then afterSegments false cs else [])
        else afterSegments true cs)

/-- The pattern stands for the whole text. -/
def matches? : List TypeGlob → List Char → Bool
  | [], cs => cs.isEmpty
  | literal c :: gs, x :: xs => c == x && matches? gs xs
  | literal _ :: _, [] => false
  | inSegment :: gs, cs => (afterRun cs).any fun rest => matches? gs rest
  | segments :: gs, '.' :: cs =>
      (afterSegments false cs).any fun rest => matches? gs rest
  | segments :: _, _ => false

/-- The items of a pattern text, read from the left. -/
def ofChars : List Char → List TypeGlob
  | '.' :: '.' :: cs => segments :: ofChars cs
  | '*' :: cs => inSegment :: ofChars cs
  | c :: cs => literal c :: ofChars cs
  | [] => []

end TypeGlob

-- ================================================================= names

/-- An item of a pattern for method names. -/
inductive NameGlob where
  | literal (c : Char)
  | inLine
deriving DecidableEq, Repr

namespace NameGlob

/-- What can be left of a text after a run of characters in one line. -/
def afterRun : List Char → List (List Char)
  | [] => [[]]
  | c :: cs => (c :: cs) :: if c = '\n' then [] else afterRun cs

/-- The pattern stands for the whole text. -/
def matches? : List NameGlob → List Char → Bool
  | [], cs => cs.isEmpty
  | literal c :: gs, x :: xs => c == x && matches? gs xs
  | literal _ :: _, [] => false
  | inLine :: gs, cs => (afterRun cs).any fun rest => matches? gs rest

/-- The items of a pattern text. -/
def ofChars (cs : List Char) : List NameGlob :=
  cs.map fun c => if c = '*' then inLine else literal c

end NameGlob

-- ============================================================ parameters

/-- A part of a pattern for parameters. -/
inductive ParamGlob where
  | one (glob : List TypeGlob)
  | anyRun
deriving DecidableEq, Repr

namespace ParamGlob

/-- What can be left of some parameters after a run of them. -/
def afterRun : List String → List (List String)
  | [] => [[]]
  | p :: ps => (p :: ps) :: afterRun ps

/-- The parts stand for all of the parameters. -/
def matches? : List ParamGlob → List String → Bool
  | [], params => params.isEmpty
  | anyRun :: gs, params => (afterRun params).any fun rest => matches? gs rest
  | one g :: gs, p :: ps => TypeGlob.matches? g p.toList && matches? gs ps
  | one _ :: _, [] => false

end ParamGlob

-- ============================================================== patterns

/-- A pattern and the text it was read from. With `overrides`, a class also
counts when one above it does. -/
structure MethodPattern where
  text : String
  owner : List TypeGlob
  name : List NameGlob
  params : List ParamGlob
  overrides : Bool
deriving DecidableEq, Repr

namespace MethodPattern

/-- The pattern takes methods of the class. -/
def matchesClass (p : MethodPattern) (c : ClassType) : Bool :=
  if p.overrides then c.ancestors.any fun a =>
    TypeGlob.matches? p.owner a.fqn.toList
  else TypeGlob.matches? p.owner c.fqn.toList

/-- The pattern takes methods of the type; only classes have any. -/
def matchesType (p : MethodPattern) : Option JavaType → Bool
  | some (.reference c) => p.matchesClass c
  | _ => false

/-- The pattern takes the method or constructor. -/
def matchesMethod (p : MethodPattern) (m : MethodType) : Bool :=
  NameGlob.matches? p.name m.name.toList && p.matchesClass m.owner &&
    ParamGlob.matches? p.params (m.params.map typeSignature)

end MethodPattern

-- ================================================================ searches

/-- The signature of a call or construction, where one was found. -/
def Node.method? : Node → Option MethodType
  | .expr e => e.method?
  | .stmt (.expr e) => e.method?
  | _ => none

namespace MethodPattern

/-- The pattern takes the call or construction. -/
def matchesNode (p : MethodPattern) (n : Node) : Bool :=
  match n.method? with
  | some m => p.matchesMethod m
  | none => false

/-- The nodes a pattern takes. -/
def find (p : MethodPattern) (nodes : List Node) : List Node :=
  nodes.filter p.matchesNode

/-- The pattern takes some node. -/
def isUsedIn (p : MethodPattern) (nodes : List Node) : Bool :=
  nodes.any p.matchesNode

end MethodPattern

end JavaRefit
