/-
Class types and signatures from the declarations of a class path.

The type of a class has the types of its supertypes in it. A hierarchy
may run in circles: a name met again while it is being expanded stays
bare there. What was expanded in full is remembered, so on a circle it
shows which class was asked for first; the memory is therefore part of
every answer.

Chain: class path layer, after `Basic`; read by attribution and by the
rule.
-/
import JavaRefit.ClassPath.Basic

namespace JavaRefit

namespace ClassPath

/-- The class types made so far. -/
abbrev Memo := List (String × ClassType)

/-- A question to a class path that remembers the types it has made. -/
abbrev Query (α : Type) := StateM Memo α

/-- The type remembered for a name. -/
def recalled? (fqn : String) : Query (Option ClassType) :=
  fun memo => (memo.lookup fqn, memo)

/-- Remembers the type of a name. -/
def remember (c : ClassType) : Query Unit :=
  fun memo => ((), (c.fqn, c) :: memo)

/-- Some names without one of them. -/
def without (fqn : String) (names : List String) : List String :=
  names.filter (· != fqn)

theorem length_without_lt {fqn : String} {names : List String}
    (h : fqn ∈ names) : (without fqn names).length < names.length :=
  List.length_filter_lt_length_iff_exists.2 ⟨fqn, h, by simp⟩

/-- The type of a class, where only the names in `pending` may still be
expanded. An empty superclass name, and the class itself as its superclass,
count as none. -/
def build (cp : ClassPath) (pending : List String) (fqn : String) :
    Query ClassType := do
  if let some c ← recalled? fqn then return c
  match cp.info? fqn with
  | none => return .bare fqn
  | some info =>
    if _h : fqn ∈ pending then
      let rest := without fqn pending
      let supertype ← match info.supertype with
        | none => pure none
        | some s =>
            if s = "" ∨ s = fqn then pure none else some <$> build cp rest s
      let interfaces ← info.interfaces.mapM fun i => build cp rest i
      let c := ClassType.mk fqn supertype interfaces info.kind
      remember c
      return c
    else return .bare fqn
termination_by pending.length
decreasing_by
  all_goals exact length_without_lt _h

/-- The type of a class with its supertypes; a name that is not declared has
none. -/
def typeOf (cp : ClassPath) (fqn : String) : Query ClassType :=
  cp.build cp.names fqn

/-- The type a declaration spells, given its characters in reverse. -/
def resolveReversed (cp : ClassPath) : List Char → Query (Option JavaType)
  | ']' :: '[' :: element =>
      do return some (.array (← resolveReversed cp element))
  | cs => do
    let s := String.ofList cs.reverse
    if s = "" then return none
    else match Primitive.ofText? s with
      | some p => return some (.primitive p)
      | none => return some (.reference (← cp.typeOf s))

/-- The type a declaration spells; nothing for the empty name. -/
def resolveType (cp : ClassPath) (name : String) : Query (Option JavaType) :=
  resolveReversed cp name.toList.reverse

/-- The type a declaration spells, if it spells one. -/
def resolveType? (cp : ClassPath) : Option String → Query (Option JavaType)
  | none => pure none
  | some name => cp.resolveType name

/-- The signature of a declared method or constructor; the latter returns its
class. -/
def methodType (cp : ClassPath) (owner : ClassType) (m : MethodInfo) :
    Query MethodType := do
  let returns ← if m.name = constructorName then pure (some (.reference owner))
    else cp.resolveType? m.returns
  let params ← m.params.mapM cp.resolveType
  let throws ← m.throws.mapM cp.typeOf
  return ⟨owner, m.name, returns, params, throws⟩

/-- The first method of that name and number of parameters in the declarations
of some classes, with the class that declares it. -/
def declaredMethod? (cp : ClassPath) (name : String) (arity : Nat)
    (classes : List ClassType) : Option (ClassType × MethodInfo) :=
  classes.findSome? fun c =>
    (cp.info? c.fqn).bind fun info =>
      (info.methods.find? fun m => m.name == name && m.params.length ==
        arity).map fun m => (c, m)

/-- The method of that name and number of parameters that the owner has or
inherits. -/
def findMethod (cp : ClassPath) (owner : Option JavaType) (name : String)
    (arity : Nat) : Query (Option MethodType) := do
  match owner with
  | some (.reference c) =>
    let full ← cp.typeOf c.fqn
    match cp.declaredMethod? name arity full.ancestors with
    | none => return none
    | some (declaring, m) => return some (← cp.methodType declaring m)
  | _ => return none

/-- The constructor of that number of parameters. A declared class that
declares no constructor has one without parameters. -/
def findConstructor (cp : ClassPath) (owner : Option JavaType) (arity : Nat) :
    Query (Option MethodType) := do
  match owner with
  | some (.reference c) =>
    let full ← cp.typeOf c.fqn
    match cp.info? full.fqn with
    | none => return none
    | some info =>
      match info.constructors.find? fun m => m.params.length == arity with
      | some m => return some (← cp.methodType full m)
      | none =>
        if info.constructors.isEmpty && arity == 0 then
          return some ⟨full, constructorName, some (.reference full), [], []⟩
        else return none
  | _ => return none

end ClassPath

end JavaRefit
