/-
The types that names, expressions and calls may have.

A class type is known by its fully qualified name; the links to its
superclass and interfaces come along for questions of assignability and
take no part in telling types apart.

Chain: after the text layer; read by the tree, the class path and every
pass over typed trees.
-/
import JavaRefit.Text.Dotted

namespace JavaRefit

-- ============================================================ primitives

/-- The primitive types, and `void`. -/
inductive Primitive where
  | boolean | byte | char | short | int | long | float | double | void
deriving DecidableEq, Repr

namespace Primitive

/-- The keyword. -/
def text : Primitive → String
  | boolean => "boolean"
  | byte => "byte"
  | char => "char"
  | short => "short"
  | int => "int"
  | long => "long"
  | float => "float"
  | double => "double"
  | void => "void"

/-- All of them. -/
def all : List Primitive :=
  [boolean, byte, char, short, int, long, float, double, void]

/-- The primitive type a keyword names. -/
def ofText? (s : String) : Option Primitive :=
  all.find? fun p => p.text == s

theorem ofText?_text (p : Primitive) : ofText? p.text = some p := by
  cases p <;> decide

end Primitive

-- =============================================================== classes

/-- Whether a declaration says `class` or `interface`. -/
inductive ClassKind where
  | ordinary | interface
deriving DecidableEq, Repr

namespace ClassKind

/-- The keyword. -/
def text : ClassKind → String
  | ordinary => "class"
  | interface => "interface"

/-- The kind a keyword names. -/
def ofText? (s : String) : Option ClassKind :=
  if s = "class" then some ordinary else if s = "interface"
    then some interface else none

end ClassKind

/-- A class or interface with what is known of its supertypes. -/
inductive ClassType where
  | mk (fqn : String) (supertype : Option ClassType)
      (interfaces : List ClassType)
    (kind : ClassKind)

namespace ClassType

/-- The fully qualified name. -/
def fqn : ClassType → String
  | mk fqn _ _ _ => fqn

/-- The superclass, where it is known. -/
def supertype : ClassType → Option ClassType
  | mk _ supertype _ _ => supertype

/-- The interfaces named directly. -/
def interfaces : ClassType → List ClassType
  | mk _ _ interfaces _ => interfaces

def kind : ClassType → ClassKind
  | mk _ _ _ kind => kind

/-- A class of which only the name is known. -/
def bare (fqn : String) : ClassType :=
  mk fqn none [] .ordinary

/-- The last segment of the name. -/
def simpleName (c : ClassType) : String :=
  Text.simpleName c.fqn

/-- The name without its last segment. -/
def packageName (c : ClassType) : String :=
  Text.packageName c.fqn

mutual
/-- Adds a class and what lies above it to the classes already met: itself,
then the superclass and what lies above it, then the interfaces in order. A
name met before is passed over. -/
def collect : ClassType → List ClassType → List ClassType
  | mk fqn supertype interfaces kind, met =>
    if met.any fun c => c.fqn == fqn then met
    else collectAll interfaces
      (collectSuper supertype (met ++ [mk fqn supertype interfaces kind]))

/-- Adds the superclass, where there is one. -/
def collectSuper : Option ClassType → List ClassType → List ClassType
  | none, met => met
  | some c, met => collect c met

/-- Adds the interfaces, in order. -/
def collectAll : List ClassType → List ClassType → List ClassType
  | [], met => met
  | c :: cs, met => collectAll cs (collect c met)
end

/-- The class and every class above it, each name once, nearest superclasses
first. -/
def ancestors (c : ClassType) : List ClassType :=
  collect c []

/-- The class named `fqn` is this one or above it. -/
def isSubtypeOf (c : ClassType) (fqn : String) : Bool :=
  c.ancestors.any fun a => a.fqn == fqn

end ClassType

-- ================================================================= types

/-- A type; the elements of an array may be unresolved. -/
inductive JavaType where
  | reference (c : ClassType)
  | primitive (p : Primitive)
  | array (element : Option JavaType)

namespace JavaType

/-- The class of a class type. -/
def class? : JavaType → Option ClassType
  | reference c => some c
  | _ => none

/-- The name of a class type. -/
def fqn? (t : JavaType) : Option String :=
  t.class?.map ClassType.fqn

end JavaType

/-- The type is exactly the class named `fqn`. -/
def isClassNamed (fqn : String) : Option JavaType → Bool
  | some (.reference c) => c.fqn == fqn
  | _ => false

/-- A value of the type can be assigned to the class named `fqn`. An unresolved
type never can. -/
def isAssignableTo (fqn : String) : Option JavaType → Bool
  | some (.reference c) => c.isSubtypeOf fqn
  | _ => false

/-- A value of the first type can be assigned to the second. -/
def isAssignable (sub sup : Option JavaType) : Bool :=
  match sup with
  | some (.reference c) => isAssignableTo c.fqn sub
  | _ => false

/-- The type as method patterns spell it: class names in full, `[]` after the
elements of an array, nothing for what is unresolved. -/
def typeSignature : Option JavaType → String
  | some (.reference c) => c.fqn
  | some (.primitive p) => p.text
  | some (.array element) => typeSignature element ++ "[]"
  | none => ""

-- =============================================================== methods

/-- The name that constructors go by. -/
def constructorName : String := "<constructor>"

/-- The signature of a method or constructor as its declaring class states it.
A constructor returns its class. -/
structure MethodType where
  owner : ClassType
  name : String
  returns : Option JavaType
  params : List (Option JavaType)
  throws : List ClassType

/-- The signature is that of a constructor. -/
def MethodType.isConstructor (m : MethodType) : Bool :=
  m.name == constructorName

end JavaRefit
