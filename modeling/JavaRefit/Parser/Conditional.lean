/-
Which `if` an `else` belongs to.

Statements that start with `if` or `while` are read flat: the conditions
up to the first plain statement, and then, for each `else`, the
conditions and the plain statement after it. An `else` can come wherever
some `if` is still without one when every `else` takes the nearest.

The flat form is then given its shape from the outside in. Each `if`
takes an `else` when that leaves both sides a shape, and among those it
could take, the last.

Chain: parser layer, before `Stmt`; knows nothing of reading.
-/
import JavaRefit.Tree.Stmt

namespace JavaRefit

/-- The head of an `if` or, when it loops, of a `while`. -/
structure Head where
  lead : Trivia
  loops : Bool
  condition : Parens Expr

/-- What follows an `else`: heads and then a plain statement. -/
structure Branch where
  elseLead : Trivia
  heads : List Head
  body : RightPadded Stmt

namespace Branch

/-- How many of some heads are of an `if`. -/
def openings (heads : List Head) : Nat :=
  heads.countP fun h => !h.loops

/-- The branches have a shape when so many `if` before them are without an
`else`: at each `else` one is left to take it. -/
def fits : Nat → List Branch → Bool
  | _, [] => true
  | 0, _ :: _ => false
  | opened + 1, b :: bs => fits (opened + openings b.heads) bs

/-- Heads and branches, counted. -/
def weight : List Branch → Nat
  | [] => 0
  | b :: bs => b.heads.length + 1 + weight bs

/-- The last branch at which a run of branches can be cut in two: those before
it have a shape under `opened`, and those after it under its own heads. -/
def lastCut (opened : Nat) : List Branch → List Branch →
    Option (List Branch × Branch × List Branch)
  | _, [] => none
  | before, b :: after =>
    match lastCut opened (before ++ [b]) after with
    | some cut => some cut
    | none =>
      if fits opened before && fits (openings b.heads) after
        then some (before, b, after) else none

theorem weight_append (as bs : List Branch) :
    weight (as ++ bs) = weight as + weight bs := by
  induction as with
  | nil => simp [weight]
  | cons a as ih => simp [weight, ih, Nat.add_assoc]

theorem weight_of_lastCut {opened : Nat} {before bs : List Branch}
    {cut : List Branch × Branch × List Branch}
    (h : lastCut opened before bs = some cut) :
    weight cut.1 + weight [cut.2.1] + weight cut.2.2 =
      weight before + weight bs := by
  induction bs generalizing before with
  | nil => simp [lastCut] at h
  | cons b after ih =>
    simp only [lastCut] at h
    split at h
    · rename_i c hc
      obtain rfl := Option.some.inj h
      rw [ih hc, weight_append, show b :: after = [b] ++ after from rfl,
        weight_append]
      omega
    · split at h
      · obtain rfl := Option.some.inj h
        dsimp only
        rw [show b :: after = [b] ++ after from rfl, weight_append]
        omega
      · simp at h

/-- The statement that heads, a plain statement and branches spell. -/
def shape (heads : List Head) (body : RightPadded Stmt)
    (branches : List Branch) : RightPadded Stmt :=
  match heads with
  | [] => body
  | head :: rest =>
    if head.loops then ⟨.whileLoop head.lead head.condition
      (shape rest body branches), ""⟩
    else
      match _h : lastCut (openings rest) [] branches with
      | none =>
          ⟨.ifElse head.lead head.condition (shape rest body branches) none, ""⟩
      | some (before, b, after) =>
        ⟨.ifElse head.lead head.condition (shape rest body before)
          (some ⟨b.elseLead, shape b.heads b.body after⟩), ""⟩
termination_by heads.length + weight branches
decreasing_by
  · simp only [List.length_cons]; omega
  · simp only [List.length_cons]; omega
  · have := weight_of_lastCut _h
    simp only [weight, List.length_cons] at this ⊢
    omega
  · have := weight_of_lastCut _h
    simp only [weight, List.length_cons] at this ⊢
    omega

end Branch

end JavaRefit
