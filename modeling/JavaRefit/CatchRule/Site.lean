/-
Where in a piece of code an exception of the legacy type can come from.

Calls, constructions and throws are sites. A call that one of the
patterns takes is of the API that changed, whatever its declaration says;
of the others, those count that raise the legacy type or a subclass.

Chain: catch rule, after `Options` and the search; read by `Retarget`.
-/
import JavaRefit.CatchRule.Options
import JavaRefit.MethodPattern.Basic

namespace JavaRefit

/-- The catch rule at work: the type that was raised, the one that is raised
now, the calls that changed, and the name under which it makes its remarks. -/
structure CatchRule where
  legacy : String
  replacement : ClassType
  patterns : List MethodPattern
  phase : Option String

/-- What a site can raise. -/
inductive SiteKind where
  | designatedApi | throwsLegacy | neither
deriving DecidableEq, Repr

namespace SiteKind

/-- The word for it in reports. -/
def text : SiteKind → String
  | designatedApi => "designated-api"
  | throwsLegacy => "throws-legacy"
  | neither => "neither"

end SiteKind

/-- The node is a call, a construction or a throw. -/
def Node.isSite (n : Node) : Bool :=
  match n.kind with
  | .methodInvocation | .newClass | .throwStatement => true
  | _ => false

namespace CatchRule

/-- The node is a call of the API that changed. -/
def isDesignated (r : CatchRule) (n : Node) : Bool :=
  r.patterns.any fun p => p.matchesNode n

/-- What a site can raise. -/
def classify (r : CatchRule) (n : Node) : SiteKind :=
  match n with
  | .stmt (.throwing _ exception) =>
    if isAssignableTo r.legacy exception.type then .throwsLegacy else .neither
  | _ =>
    match n.method? with
    | none => .neither
    | some m =>
      if r.isDesignated n then .designatedApi
      else if m.throws.any fun c => c.isSubtypeOf r.legacy then .throwsLegacy
      else .neither

/-- Some of the nodes is a call of the API that changed. -/
def usesApi (r : CatchRule) (nodes : List Node) : Bool :=
  r.patterns.any fun p => p.isUsedIn nodes

/-- Some site among the nodes can raise the legacy type by itself. -/
def hasOtherSource (r : CatchRule) (nodes : List Node) : Bool :=
  (nodes.filter Node.isSite).any fun n => r.classify n == .throwsLegacy

end CatchRule

end JavaRefit
