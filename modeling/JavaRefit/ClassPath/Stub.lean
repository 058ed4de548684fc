/-
Class declarations from stub documents.

A document is an object with a list of `classes`. A class has a name and
may have a kind, a superclass, interfaces, methods and constructors; what
is left out has its default, which for the superclass is
`java.lang.Object`, but none for an interface and for that class itself.

The members of a class are a list. A text stands for the list of its
characters and an object for that of its keys, none of which is the
entry of a member; of anything else there is no list at all.

Chain: class path layer, after `Basic`; read by the command line.
-/
import JavaRefit.ClassPath.Basic
import JavaRefit.Json.Literal
import JavaRefit.Report

namespace JavaRefit

/-- Why a document declares no classes. -/
inductive StubError where
  | notDocument
  | classWithoutName
  | unknownKind (fqn : String) (kind : Json)
  | superNotText (fqn : String)
  | notTexts (what : String)
  | memberNotObject
  | memberWithoutName
  | returnsNotText (name : String)
  /-- The members are not given by a list; the document is not even reported
  on. -/
  | membersNotListed

namespace StubError

/-- The wording. -/
def message : StubError → String
  | notDocument => "expected an object with a \"classes\" list"
  | classWithoutName => "class entries need a string name"
  | unknownKind fqn kind => fqn ++ ": unknown kind " ++ kind.literal
  | superNotText fqn => fqn ++ ": super must be a string"
  | notTexts what => what ++ " must be a list of strings"
  | memberNotObject => "method entries must be objects"
  | memberWithoutName => "method entry without a name"
  | returnsNotText name => "method " ++ name ++ ": returns must be a string"
  | membersNotListed => "members must be a list"

/-- The failure to report for a document; there is none for members that are no
list. -/
def failure? (path : Option String) (e : StubError) : Option Failure :=
  match e with
  | membersNotListed => none
  | _ => some ⟨"bad-classpath", e.message, path, none⟩

end StubError

namespace Stub

/-- A list of texts, or nothing for the empty one. -/
def texts (what : String) : Option Json → Except StubError (List String)
  | none => .ok []
  | some .null => .ok []
  | some (.arr items) =>
    match items.mapM Json.str? with
    | some ss => .ok ss
    | none => .error (.notTexts what)
  | some _ => .error (.notTexts what)

/-- A method or constructor; the latter's entry needs no name. -/
def methodInfo (isConstructor : Bool) (entry : Json) :
    Except StubError MethodInfo := do
  match entry with
  | .obj fields =>
    let name ← if isConstructor then pure constructorName else
      match Json.lookup "name" fields with
      | some (.str s) => if s = "" then throw .memberWithoutName else pure s
      | _ => throw .memberWithoutName
    let returns ← match Json.lookup "returns" fields with
      | none => pure none
      | some .null => pure none
      | some (.str s) => pure (some s)
      | some _ => throw (.returnsNotText name)
    let params ← texts ("method " ++ name ++ ": params")
        (Json.lookup "params" fields)
    let throws ← texts ("method " ++ name ++ ": throws")
        (Json.lookup "throws" fields)
    return ⟨name, params, returns, throws⟩
  | _ => throw .memberNotObject

/-- The entries of the members of a class. -/
def memberEntries : Option Json → Except StubError (List Json)
  | none => .ok []
  | some (.arr items) => .ok items
  | some (.str s) => .ok (s.toList.map fun c => .str (String.singleton c))
  | some (.obj fields) => .ok (fields.map fun f => .str f.1)
  | some _ => .error .membersNotListed

/-- The members of a class. -/
def memberInfos (isConstructor : Bool) (v : Option Json) :
    Except StubError (List MethodInfo) := do
  (← memberEntries v).mapM (methodInfo isConstructor)

/-- The kind of a class; one that is left out is a class. -/
def classKind (fqn : String) : Option Json → Except StubError ClassKind
  | none => .ok .ordinary
  | some (.str s) =>
    match ClassKind.ofText? s with
    | some k => .ok k
    | none => .error (.unknownKind fqn (.str s))
  | some v => .error (.unknownKind fqn v)

/-- The superclass of a class. -/
def superclass (fqn : String) (kind : ClassKind) :
    Option Json → Except StubError (Option String)
  | none =>
      .ok (if kind = .interface ∨ fqn = objectName then none
        else some objectName)
  | some .null => .ok none
  | some (.str s) => .ok (some s)
  | some _ => .error (.superNotText fqn)

/-- A class. -/
def classInfo (entry : Json) : Except StubError ClassInfo := do
  match entry with
  | .obj fields =>
    match Json.lookup "name" fields with
    | some (.str fqn) =>
      let kind ← classKind fqn (Json.lookup "kind" fields)
      let supertype ← superclass fqn kind (Json.lookup "super" fields)
      let interfaces ← texts (fqn ++ ": interfaces")
          (Json.lookup "interfaces" fields)
      let methods ← memberInfos false (Json.lookup "methods" fields)
      let constructors ← memberInfos true (Json.lookup "constructors" fields)
      return ⟨fqn, kind, supertype, interfaces, methods, constructors⟩
    | _ => throw .classWithoutName
  | _ => throw .classWithoutName

/-- The classes of a document. -/
def classInfos (document : Json) : Except StubError (List ClassInfo) :=
  match document.get? "classes" with
  | some (.arr entries) => entries.mapM classInfo
  | _ => .error .notDocument

end Stub

end JavaRefit
