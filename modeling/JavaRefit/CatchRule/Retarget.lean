/-
Retargeting the catch clauses of one `try`.

Nothing happens unless the body calls the API that changed. When nothing
else in the body can raise the legacy type, each clause that catches it
catches the replacement instead; in a list of alternatives that has the
replacement already, the legacy type is dropped. When something else can,
the legacy type stays caught and the replacement comes in front of it,
unless some clause catches a type above or below the replacement already,
which is remarked on.

Chain: catch rule, after `Site` and renaming; read by `Recipe`.
-/
import JavaRefit.CatchRule.Site
import JavaRefit.Import.Delta
import JavaRefit.Rename

namespace JavaRefit

/-- What the rule has to say about a `try`: the imports it needs, or a
remark. -/
inductive RuleNote where
  | imports (delta : ImportDelta)
  | remark (diagnostic : Diagnostic)
deriving DecidableEq, Repr

namespace RuleNote

/-- The imports that all notes together need. -/
def delta (notes : List RuleNote) : ImportDelta :=
  notes.foldl (fun d n =>
    match n with | imports d' => d.merge d' | remark _ => d) .empty

/-- The remarks, in order. -/
def remarks (notes : List RuleNote) : List Diagnostic :=
  notes.filterMap fun n => match n with | imports _ => none | remark d => some d

end RuleNote

namespace Catch

/-- The clause catches exactly the class named `fqn`. -/
def catches {σ : Type} (c : Catch σ) (fqn : String) : Bool :=
  c.caughtTypes.any (isClassNamed fqn)

/-- The clause catches the class, or one above or below it. -/
def catchesRelated {σ : Type} (c : Catch σ) (target : ClassType) : Bool :=
  c.caughtTypes.any fun t => match t with
    | some (.reference caught) =>
        target.isSubtypeOf caught.fqn || caught.isSubtypeOf target.fqn
    | _ => false

end Catch

namespace CatchRule

variable {ω : Type}

/-- The renaming of the legacy type to the replacement. -/
def rename (r : CatchRule) (qualified : Bool) : Renaming :=
  ⟨r.legacy, r.replacement, qualified⟩

/-- The alternative is the legacy type. -/
def isLegacy (r : CatchRule) (p : RightPadded TypeTree) : Bool :=
  isClassNamed r.legacy p.element.type

-- ========================================================== substitution

/-- Alternatives with other trivia in front of the first. -/
def withFirstLead (lead : Trivia) : List (RightPadded TypeTree) →
    List (RightPadded TypeTree)
  | [] => []
  | p :: ps => ⟨p.element.withLead lead, p.after⟩ :: ps

/-- Alternatives without the legacy type. The trivia in front of the first one
stays in front, and the trivia behind the last one stays behind. -/
def dropLegacy (r : CatchRule) (alternatives : List (RightPadded TypeTree)) :
    List (RightPadded TypeTree) :=
  let lead := (alternatives.head?.map fun p => p.element.lead).getD ""
  let after := (alternatives.getLast?.map RightPadded.after).getD ""
  RightPadded.closeLast after
    (withFirstLead lead (alternatives.filter fun p => !r.isLegacy p))

/-- The declaration without the legacy type among its alternatives. A single
one that is left stands for itself, and is the type of the variable. -/
def dropFrom (r : CatchRule) (d : Variables) (lead : Trivia)
    (alternatives : List (RightPadded TypeTree)) : Variables :=
  match r.dropLegacy alternatives with
  | [only] =>
    let t := only.element.withLead lead
    { d with
      typeTree := t
      declarators := d.declarators.map fun p =>
        { p with element := { p.element with type := t.type } } }
  | rest => { d with typeTree := .union lead rest }

/-- The declaration of a clause with the replacement in the place of the legacy
type. -/
def substituteIn (r : CatchRule) (qualified : Bool) (d : Variables) :
    Edited ω Variables :=
  match d.typeTree with
  | .union lead alternatives =>
    if alternatives.any fun p =>
      isClassNamed r.replacement.fqn p.element.type then
      .replace (r.dropFrom d lead alternatives)
    else d.edit (r.rename qualified).editor
  | _ => d.edit (r.rename qualified).editor

-- ========================================================== augmentation

/-- The type tree that stands for the replacement where one stands for the
legacy type. -/
def replacementFor (r : CatchRule) (qualified : Bool)
    (t : TypeTree) : TypeTree :=
  (t.edit ((r.rename qualified).editor : Editor Empty)).value

/-- Alternatives with the replacement in front of the first legacy one. -/
def insertBeforeLegacy (r : CatchRule) (qualified : Bool) (isFirst : Bool) :
    List (RightPadded TypeTree) → List (RightPadded TypeTree)
  | [] => []
  | p :: ps =>
    if !r.isLegacy p then p :: insertBeforeLegacy r qualified false ps
    else
      let new := r.replacementFor qualified p.element
      if isFirst then
        ⟨new.withLead p.element.lead, " "⟩ ::
          { p with element := p.element.withLead " " } :: ps
      else ⟨new.withLead " ", " "⟩ :: p :: ps

/-- The declaration of a clause with the replacement in front of the legacy
type. -/
def augmentIn (r : CatchRule) (qualified : Bool) (d : Variables) : Variables :=
  match d.typeTree with
  | .union lead alternatives =>
    { d with typeTree := .union lead (r.insertBeforeLegacy qualified true
      alternatives) }
  | t =>
    let new := r.replacementFor qualified t
    { d with typeTree := .union t.lead [⟨new.withLead "", " "⟩,
      ⟨t.withLead " ", ""⟩] }

-- ================================================================ clauses

/-- The clauses, those that catch the legacy type with another declaration. -/
def editClauses (r : CatchRule) (f : Variables → Edited ω Variables) :
    List (Catch Stmt) → Edited ω (List (Catch Stmt))
  | [] => pure []
  | c :: cs =>
    (· :: ·) <$> (if c.catches r.legacy then c.withDeclaration <$>
      f c.declaration else pure c) <*>
      editClauses r f cs

/-- The remark on a `try` that catches a type related to the replacement. -/
def alreadyCaught (r : CatchRule) : Diagnostic :=
  { message := "try already catches a type related to " ++
    r.replacement.fqn ++ "; left unchanged"
    code := some "already-catches-replacement"
    phase := r.phase
    severity := "note"
    span := .unknown
    notes := [] }

/-- A `try` with new clauses, if they are new, and the imports it then needs. -/
def withClauses (t : Try Stmt) (clauses : Edited RuleNote (List (Catch Stmt)))
    (delta : ImportDelta) : Edited RuleNote (Try Stmt) :=
  if clauses.isNew then ⟨{ t with catches := clauses.value }, true,
    [.imports delta]⟩ else .keep t

/-- A `try` with its clauses retargeted. With `qualified`, the replacement is
written in full. -/
def retarget (r : CatchRule) (qualified : Bool) (t : Try Stmt) :
    Edited RuleNote (Try Stmt) :=
  let body := Stmt.walkBlock t.body
  if t.catches.isEmpty || !r.usesApi body then .keep t
  else if !r.hasOtherSource body then
    withClauses t (r.editClauses (r.substituteIn qualified) t.catches)
      (.of [r.replacement.fqn] [r.legacy])
  else if !t.catches.any fun c => c.catches r.legacy then .keep t
  else if t.catches.any fun c => c.catchesRelated r.replacement then
    ⟨t, false, [.remark r.alreadyCaught]⟩
  else
    withClauses t (r.editClauses (fun d =>
      .replace (r.augmentIn qualified d)) t.catches)
      (.of [r.replacement.fqn] [])

end CatchRule

end JavaRefit
